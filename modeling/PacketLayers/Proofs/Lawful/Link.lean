/-
  PacketLayers.Proofs.Lawful.Link
  ────────────────────────────────
  **THE LINK LAYERS ARE LAWFUL.**

  All of them announce their payload in one field, and only Ethernet derives
  anything: a type that is a length.  An Ethernet header that names its payload
  states no length, which is why bringing it up to date keeps the name.
-/
import PacketLayers.Link.Ethernet
import PacketLayers.Link.Llc
import PacketLayers.Link.Loopback
import PacketLayers.Link.RawIp
import PacketLayers.Link.Vlan
import PacketLayers.Link.Wireless
import PacketLayers.Proofs.Dissector

namespace PacketLayers

/-! ## §1. Ethernet. -/

namespace Ethernet

theorem accepts_iff {h : Bytes} : format.accepts h = true ↔ 14 ≤ h.length :=
  HeaderFormat.accepts_fixed

theorem lawful_etherType : Layout.etherType.Lawful := Field.lawful_word EtherType 12 2

theorem covers_etherType {h : Bytes} (accepted : format.accepts h = true) :
    Layout.etherType.stop ≤ h.length := accepts_iff.1 accepted

theorem accepts_put {h : Bytes} (accepted : format.accepts h = true) (t : EtherType) :
    format.accepts (Layout.etherType.put t h) = true := by
  rw [accepts_iff, Field.length_put lawful_etherType (covers_etherType accepted)]
  exact accepts_iff.1 accepted

/-- A type of two bytes is written as the number that was read. -/
theorem toNat_etherType (n : Nat) (small : n < 256 ^ 2) :
    Coded.toNat (Coded.ofNat n : EtherType) = n :=
  (Field.toNat_assigned n).trans
    ((UInt16.toNat_ofNat' (n := n)).trans (Nat.mod_eq_of_lt small))

theorem value_put_etherType {h : Bytes} (accepted : format.accepts h = true) (t : EtherType) :
    Layout.etherType.value (Layout.etherType.put t h) = Assigned.canonical t :=
  Field.value_put_assigned Field.fits_word (covers_etherType accepted) t

/-- What the dissector makes of a header when it brings it up to date. -/
def refreshed (h : Bytes) (cx : Context) : Bytes :=
  if (Layout.etherType.value h).isLength = true ∧ cx.payload.length ≤ 1500 then
    Layout.etherType.put (Assigned.ofCode (UInt16.ofNat cx.payload.length)) h
  else h

theorem recompute_eq (h : Bytes) (cx : Context) :
    recompute h cx = .ok (if format.accepts h = true then refreshed h cx else h) := by
  unfold recompute
  by_cases accepted : format.accepts h = true
  · have hcovers := covers_etherType accepted
    rw [HeaderFormat.guarded_of_accepts accepted, if_pos accepted, Field.get_eq_value hcovers,
      ok_bind, Field.set_eq_put lawful_etherType hcovers, refreshed]
    have hmax : EtherType.maxLength.toNat = 1500 := rfl
    rw [hmax]
    by_cases hlength : (Layout.etherType.value h).isLength = true ∧ cx.payload.length ≤ 1500
    · simp [hlength]
    · rw [if_neg hlength, if_neg (by simpa using hlength)]
      rfl
  · rw [HeaderFormat.guarded_of_refused accepted, if_neg accepted]

/-- A length in place of a type is read as it was written. -/
theorem value_put_length {h : Bytes} (accepted : format.accepts h = true) (n : UInt16) :
    Layout.etherType.value (Layout.etherType.put (Assigned.ofCode n) h) = Assigned.ofCode n :=
  (value_put_etherType accepted _).trans (Assigned.canonical_ofCode n)

theorem toNat_length {n : Nat} (short : n ≤ 1500) :
    (Assigned.ofCode (UInt16.ofNat n) : EtherType).code.toNat = n :=
  (congrArg UInt16.toNat (Assigned.code_ofCode (α := EtherType) _)).trans
    (UInt16.toNat_ofNat_of_lt' (Nat.lt_of_le_of_lt short (by decide)))

theorem isLength_ofNat {n : Nat} (short : n ≤ 1500) :
    (Assigned.ofCode (UInt16.ofNat n) : EtherType).isLength = true := by
  rw [EtherType.isLength, decide_eq_true_eq, UInt16.le_iff_toNat_le, toNat_length short]
  exact short

theorem accepts_refreshed {h : Bytes} (accepted : format.accepts h = true) (cx : Context) :
    format.accepts (refreshed h cx) = true := by
  unfold refreshed
  split
  · exact accepts_put accepted _
  · exact accepted

theorem refreshed_again {h : Bytes} (accepted : format.accepts h = true) (cx : Context) :
    refreshed (refreshed h cx) cx = refreshed h cx := by
  -- a length that was written is a length again, and the same one
  by_cases hlength : (Layout.etherType.value h).isLength = true ∧ cx.payload.length ≤ 1500
  · have hagain : (Assigned.ofCode (UInt16.ofNat cx.payload.length) : EtherType).isLength = true
        ∧ cx.payload.length ≤ 1500 := ⟨isLength_ofNat hlength.2, hlength.2⟩
    rw [refreshed, refreshed, if_pos hlength, value_put_length accepted, if_pos hagain,
      Field.put_put lawful_etherType (covers_etherType accepted)]
  · rw [refreshed, refreshed, if_neg hlength, if_neg hlength]

/-- What Ethernet announces is never a length. -/
theorem announces {o : Discriminant} (h : dissector.Announces o) :
    ∃ t : EtherType, o = .etherType t ∧ t.isLength = false := by
  -- what is read is checked not to be a length, what is announced comes from a table
  rcases h with ⟨header, payload, hnext⟩ | ⟨kind, hkind⟩
  · obtain ⟨accepted, hnext⟩ := HeaderFormat.accepts_of_guarded hnext
    rw [Field.get_eq_value (covers_etherType accepted), ok_bind] at hnext
    injection hnext with hnext
    by_cases hlength : (Layout.etherType.value header).isLength = true
    · rw [if_pos hlength] at hnext
      cases hnext
    · rw [if_neg hlength] at hnext
      injection hnext with hnext
      exact ⟨_, hnext.symm, by simpa using hlength⟩
  · have hkind : (EtherType.ofKind kind).map Discriminant.etherType = some o := hkind
    obtain ⟨t, ht, rfl⟩ := Option.map_eq_some_iff.1 hkind
    refine ⟨t, rfl, ?_⟩
    unfold EtherType.ofKind at ht
    split at ht <;> first | (injection ht with ht; subst ht; rfl) | cases ht

/-- A header that leads to a payload with a name states no length. -/
theorem isLength_of_leads {h payload : Bytes} (accepted : format.accepts h = true)
    {o : Discriminant} (announced : dissector.Announces o) (leads : dissector.Leads h payload o) :
    (Layout.etherType.value h).isLength = false := by
  obtain ⟨t, rfl, ht⟩ := announces announced
  -- the name is read from the header, or was there before it was written
  rcases leads with hnext | hset
  · have hnext : next h = .ok (some (.etherType t)) := hnext
    rw [next, HeaderFormat.guarded_of_accepts accepted,
      Field.get_eq_value (covers_etherType accepted), ok_bind] at hnext
    injection hnext with hnext
    by_cases hlength : (Layout.etherType.value h).isLength = true
    · rw [if_pos hlength] at hnext
      cases hnext
    · simpa using hlength
  · have hset : format.guarded h h (Layout.etherType.set t h) = .ok h := hset
    rw [HeaderFormat.guarded_set_eq lawful_etherType covers_etherType, if_pos accepted] at hset
    injection hset with hset
    rw [← hset, value_put_etherType accepted, EtherType.isLength_canonical]
    exact ht

theorem names : dissector.Names (format.accepts · = true) Layout.etherType .etherType :=
  .of_guarded lawful_etherType covers_etherType (fun t accepted => accepts_put accepted t)
    (fun _ _ => rfl) fun h {o} other => by
      cases o with
      | etherType t => exact absurd rfl (other t)
      | _ => rfl

theorem length_refreshed {h : Bytes} (accepted : format.accepts h = true) (cx : Context) :
    (refreshed h cx).length = h.length := by
  unfold refreshed
  split
  · exact Field.length_put lawful_etherType (covers_etherType accepted) _
  · rfl

theorem total : dissector.Total where
  payloadLength h available := HeaderFormat.guarded_succeeds fun accepted =>
    ⟨_, by rw [Field.get_eq_value (covers_etherType accepted), ok_bind]; rfl⟩
  next h _ := HeaderFormat.guarded_succeeds fun accepted =>
    ⟨_, by rw [Field.get_eq_value (covers_etherType accepted), ok_bind]; rfl⟩
  isSealed _ := ⟨_, rfl⟩
  setNext := names.succeeds
  pseudoHeader _ := ⟨_, rfl⟩
  requiredLength _ := ⟨_, rfl⟩
  recompute h cx := by
    refine ⟨_, recompute_eq h cx, ?_⟩
    split
    · next accepted => exact length_refreshed accepted cx
    · rfl
  checksumValid _ _ := ⟨_, rfl⟩

theorem sized : dissector.Sized format (fun _ => 14) 14 := Dissector.sized_fixed rfl

theorem whole_iff {h : Bytes} : dissector.Whole h ↔ h.length = 14 :=
  Dissector.whole_fixed rfl

theorem whole_fits {h : Bytes} (whole : dissector.Whole h) : dissector.fit h = .ok h :=
  Dissector.fit_of_required (by rw [whole_iff.1 whole]; rfl)

theorem whole_put_etherType {h : Bytes} (t : EtherType) (accepted : format.accepts h = true)
    (whole : dissector.Whole h) : dissector.Whole (Layout.etherType.put t h) :=
  names.whole_put whole_iff t accepted whole

theorem lawful : dissector.Lawful where
  total := total
  setNext_again := names.again
  recompute_again := by
    intro h h' cx ok
    have ok : recompute h cx = .ok h' := ok
    show recompute h' cx = _
    rw [recompute_eq] at ok ⊢
    injection ok with ok
    subst ok
    by_cases accepted : format.accepts h = true
    · rw [if_pos accepted, if_pos (accepts_refreshed accepted cx), refreshed_again accepted]
    · rw [if_neg accepted, if_neg accepted]
  recompute_leads := by
    intro h h' payload cx o announced ok leads
    have ok : recompute h cx = .ok h' := ok
    rw [recompute_eq] at ok
    injection ok with ok
    subst ok
    by_cases accepted : format.accepts h = true
    · -- a header that leads somewhere holds a type, and that is not written over
      have hname := isLength_of_leads accepted announced leads
      rw [if_pos accepted, refreshed, hname, if_neg (by simp)]
      exact leads
    · rw [if_neg accepted]
      exact leads
  leads_payload := fun leads => leads
  whole_fits := whole_fits
  whole_setNext := names.whole_setNext whole_fits whole_put_etherType
  whole_recompute := by
    intro h h' cx whole ok
    obtain ⟨h'', hok, hlength⟩ := total.recompute h cx
    rw [hok] at ok
    injection ok with ok
    subst ok
    exact ⟨whole_iff.2 (hlength.trans (whole_iff.1 whole)), rfl⟩

end Ethernet

/-! ## §2. Tags. -/

namespace Vlan

theorem accepts_iff {h : Bytes} : format.accepts h = true ↔ 4 ≤ h.length :=
  HeaderFormat.accepts_fixed

theorem lawful_etherType : Layout.etherType.Lawful := Field.lawful_word EtherType 2 2

theorem covers_etherType {h : Bytes} (accepted : format.accepts h = true) :
    Layout.etherType.stop ≤ h.length := accepts_iff.1 accepted

theorem accepts_put {h : Bytes} (accepted : format.accepts h = true) (t : EtherType) :
    format.accepts (Layout.etherType.put t h) = true := by
  rw [accepts_iff, Field.length_put lawful_etherType (covers_etherType accepted)]
  exact accepts_iff.1 accepted

theorem names : dissector.Names (format.accepts · = true) Layout.etherType .etherType :=
  .of_guarded lawful_etherType covers_etherType (fun t accepted => accepts_put accepted t)
    (fun _ _ => rfl) fun h {o} other => by
      cases o with
      | etherType t => exact absurd rfl (other t)
      | _ => rfl

theorem total : dissector.Total where
  payloadLength _ _ := ⟨_, rfl⟩
  next h _ := HeaderFormat.guarded_succeeds fun accepted =>
    ⟨_, by rw [Field.get_eq_value (covers_etherType accepted), ok_bind]; rfl⟩
  isSealed _ := ⟨_, rfl⟩
  setNext := names.succeeds
  pseudoHeader _ := ⟨_, rfl⟩
  requiredLength _ := ⟨_, rfl⟩
  recompute h _ := ⟨h, rfl, rfl⟩
  checksumValid _ _ := ⟨_, rfl⟩

theorem sized : dissector.Sized format (fun _ => 4) 4 := Dissector.sized_fixed rfl

theorem whole_iff {h : Bytes} : dissector.Whole h ↔ h.length = 4 := Dissector.whole_fixed rfl

theorem whole_fits {h : Bytes} (whole : dissector.Whole h) : dissector.fit h = .ok h :=
  Dissector.fit_of_required (by rw [whole_iff.1 whole]; rfl)

theorem whole_put_etherType {h : Bytes} (t : EtherType) (accepted : format.accepts h = true)
    (whole : dissector.Whole h) : dissector.Whole (Layout.etherType.put t h) :=
  names.whole_put whole_iff t accepted whole

theorem lawful : dissector.Lawful :=
  .of_nothing_derived total (fun _ _ => rfl) names.again (fun leads => leads) whole_fits
    (names.whole_setNext whole_fits whole_put_etherType)

end Vlan

/-! ## §3. Loopback. -/

namespace Loopback

/-- The address family in a header. -/
def family : Field UInt32 := .wordLittle UInt32 0 4

theorem lawful_family : family.Lawful := Field.lawful_wordLittle UInt32 0 4

theorem parse_eq (h : Bytes) :
    Header.parse h = if 4 ≤ h.length then .ok ⟨family.value h⟩ else .error .truncated := by
  unfold Header.parse View.readLittle View.slice View.whole
  by_cases long : 4 ≤ h.length
  · have hslice : Span.slice ⟨0, h.length⟩ 0 headerLength = .ok ⟨0, 4⟩ := if_pos long
    have hview : View.ofSpan h ⟨0, 4⟩ = .ok ⟨h, ⟨0, 4⟩, long⟩ := dif_pos long
    simp only [hslice, ok_bind, hview, if_pos long]
    rfl
  · have hslice : Span.slice ⟨0, h.length⟩ 0 headerLength = .error .outOfBounds := if_neg long
    simp only [hslice, error_bind, if_neg long]

/-- The family is written where there is room for it. -/
theorem setNext_family (h : Bytes) (v : UInt32) :
    setNext h (.loopbackFamily v) = .ok (if 4 ≤ h.length then family.put v h else h) := by
  -- two spellings of one write: bytes in reverse, and a little-endian word
  by_cases long : 4 ≤ h.length
  · have hset := Field.set_eq_put lawful_family (h := h) long v
    have hslice : h.slice 0 4 = .ok ((h.drop 0).take 4) := if_pos long
    rw [if_pos long, ← hset]
    unfold setNext Field.set
    show (if headerLength ≤ h.length then _ else _) = h.slice 0 4 >>= _
    rw [if_pos (show headerLength ≤ h.length from long), hslice]
    rfl
  · rw [if_neg long]
    exact if_neg long

theorem names : dissector.Names (4 ≤ ·.length) family .loopbackFamily where
  law := lawful_family
  covers long := long
  stable v long := by rwa [Field.length_put lawful_family long]
  writes v long := (setNext_family _ v).trans (by rw [if_pos long])
  refuses v short := (setNext_family _ v).trans (by rw [if_neg short])
  ignores h o other := by
    cases o with
    | loopbackFamily v => exact absurd rfl (other v)
    | _ => rfl

theorem total : dissector.Total where
  payloadLength _ _ := ⟨_, rfl⟩
  next _ _ := ⟨_, rfl⟩
  isSealed _ := ⟨_, rfl⟩
  setNext := names.succeeds
  pseudoHeader _ := ⟨_, rfl⟩
  requiredLength _ := ⟨_, rfl⟩
  recompute h _ := ⟨h, rfl, rfl⟩
  checksumValid _ _ := ⟨_, rfl⟩

theorem whole_iff {h : Bytes} : dissector.Whole h ↔ h.length = 4 := by
  have hlength : ∀ b : Bytes,
      dissector.headerLength b = if 4 ≤ b.length then .ok 4 else .error .truncated := by
    intro b
    show (Header.parse b).map _ = _
    rw [parse_eq]
    split <;> rfl
  constructor
  · rintro ⟨rest, hrest⟩
    rw [hlength] at hrest
    split at hrest
    · injection hrest with hrest
      exact hrest.symm
    · cases hrest
  · intro h4
    exact ⟨[], by rw [hlength, List.append_nil, if_pos (by omega), h4]⟩

theorem whole_fits {h : Bytes} (whole : dissector.Whole h) : dissector.fit h = .ok h :=
  Dissector.fit_of_required (by rw [whole_iff.1 whole]; rfl)

theorem whole_put_family {h : Bytes} (v : UInt32) (long : 4 ≤ h.length)
    (whole : dissector.Whole h) : dissector.Whole (family.put v h) :=
  names.whole_put whole_iff v long whole

theorem lawful : dissector.Lawful :=
  .of_nothing_derived total (fun _ _ => rfl) names.again (fun leads => leads) whole_fits
    (names.whole_setNext whole_fits whole_put_family)

end Loopback

/-! ## §4. Raw IP. -/

namespace RawIp

theorem total : dissector.Total where
  payloadLength _ _ := ⟨_, rfl⟩
  next _ _ := ⟨_, rfl⟩
  isSealed _ := ⟨_, rfl⟩
  setNext h _ := ⟨h, rfl, rfl⟩
  pseudoHeader _ := ⟨_, rfl⟩
  requiredLength _ := ⟨_, rfl⟩
  recompute h _ := ⟨h, rfl, rfl⟩
  checksumValid _ _ := ⟨_, rfl⟩

/-- The only header is the empty one. -/
theorem whole_iff {h : Bytes} : dissector.Whole h ↔ h = [] := by
  constructor
  · rintro ⟨rest, hrest⟩
    have hrest : (if (h ++ rest).isEmpty then .error .truncated else .ok 0 : Except Error Nat)
        = .ok h.length := hrest
    split at hrest
    · cases hrest
    · injection hrest with hrest
      exact List.length_eq_zero_iff.1 hrest.symm
  · rintro rfl
    exact ⟨[0], rfl⟩

theorem whole_fits {h : Bytes} (whole : dissector.Whole h) : dissector.fit h = .ok h := by
  rw [whole_iff.1 whole]
  rfl

theorem lawful : dissector.Lawful :=
  .of_nothing_derived total (fun _ _ => rfl) (fun _ => rfl) (fun _ => .inr rfl) whole_fits (by
    intro h h' o whole ok
    injection ok with ok
    subst ok
    exact ⟨h, whole_fits whole, whole, rfl⟩)

end RawIp

/-! ## §5. Logical link control. -/

namespace Llc

theorem value_bytes (a b c : UInt8) (rest : Bytes) :
    Layout.dsap.value (a :: b :: c :: rest) = a ∧ Layout.ssap.value (a :: b :: c :: rest) = b
      ∧ Layout.control.value (a :: b :: c :: rest) = c := by
  have hbyte : ∀ x : UInt8, UInt8.ofNat (Bytes.toNat [x]) = x := by
    intro x
    simp [Bytes.toNat]
  exact ⟨hbyte a, hbyte b, hbyte c⟩

/-- Whether three bytes of a header start a SNAP header. -/
def snap (h : Bytes) : Bool :=
  startsSnap (Layout.dsap.value h) (Layout.ssap.value h) (Layout.control.value h)

/-- The bytes that every header has. -/
theorem get_first {h : Bytes} (long : 3 ≤ h.length) :
    Layout.dsap.get h = .ok (Layout.dsap.value h) ∧ Layout.ssap.get h = .ok (Layout.ssap.value h)
      ∧ Layout.control.get h = .ok (Layout.control.value h) :=
  ⟨Field.get_eq_value (Nat.le_trans (by decide) long),
    Field.get_eq_value (Nat.le_trans (by decide) long), Field.get_eq_value long⟩

theorem isSnap_eq {h : Bytes} (long : 3 ≤ h.length) : isSnap h = .ok (snap h) := by
  obtain ⟨hdsap, hssap, hcontrol⟩ := get_first long
  unfold isSnap
  rw [hdsap, hssap, hcontrol]
  rfl

/-- The length that a header asks for. -/
theorem headerLength_eq {h : Bytes} (long : 3 ≤ h.length) :
    headerLength h = .ok (lengthOf (Layout.dsap.value h) (Layout.ssap.value h)
      (Layout.control.value h)) := by
  obtain ⟨hdsap, hssap, hcontrol⟩ := get_first long
  unfold headerLength
  rw [hdsap, hssap, hcontrol]
  rfl

/-- The length is decided by the first three bytes. -/
theorem headerLength?_take (h : Bytes) : headerLength? (h.take 3) = headerLength? h := by
  match h with
  | [] => rfl
  | [_] => rfl
  | [_, _] => rfl
  | _ :: _ :: _ :: _ => rfl

theorem headerLength?_append {h : Bytes} (long : 3 ≤ h.length) (rest : Bytes) :
    headerLength? (h ++ rest) = headerLength? h := by
  rw [← headerLength?_take (h ++ rest), List.take_append_of_le_length long, headerLength?_take]

theorem lengthOf_ge (dsap ssap control : UInt8) : 3 ≤ lengthOf dsap ssap control := by
  unfold lengthOf
  split
  · decide
  · split <;> decide

theorem headerLength?_ge {h : Bytes} {n : Nat} (asks : headerLength? h = some n) : 3 ≤ n := by
  unfold headerLength? at asks
  split at asks
  · injection asks with asks
    rw [← asks]
    exact lengthOf_ge _ _ _
  · cases asks

theorem accepts_iff {h : Bytes} :
    format.accepts h = true ↔ ∃ n, headerLength? h = some n ∧ n ≤ h.length :=
  HeaderFormat.accepts_stated rfl

theorem sized : dissector.Sized format (fun h => (headerLength? h).getD 0) 3 :=
  .of_stated (by decide) accepts_iff (fun _ => rfl) headerLength?_ge headerLength?_append

theorem whole_iff {h : Bytes} : dissector.Whole h ↔ headerLength? h = some h.length :=
  sized.whole_iff_stated (by decide) headerLength?_ge

theorem three_le_of_accepts {h : Bytes} (accepted : format.accepts h = true) : 3 ≤ h.length := by
  obtain ⟨n, hasks, hn⟩ := accepts_iff.1 accepted
  exact Nat.le_trans (headerLength?_ge hasks) hn

theorem lawful_etherType : Layout.etherType.Lawful := Field.lawful_word EtherType 6 2

theorem snap_put {h : Bytes} (long : 8 ≤ h.length) (t : EtherType) :
    snap (Layout.etherType.put t h) = snap h := by
  have hcovers : Layout.etherType.stop ≤ h.length := long
  rw [snap, snap, Field.value_put_of_apart lawful_etherType hcovers (by decide),
    Field.value_put_of_apart lawful_etherType hcovers (by decide),
    Field.value_put_of_apart lawful_etherType hcovers (by decide)]

theorem setNext_etherType (h : Bytes) (t : EtherType) :
    setNext h (.etherType t)
      = .ok (if 8 ≤ h.length ∧ snap h = true then Layout.etherType.put t h else h) := by
  show (if h.length < snapLength then pure h else _) = _
  by_cases long : 8 ≤ h.length
  · have hlong : ¬ h.length < snapLength := Nat.not_lt.2 long
    rw [if_neg hlong, isSnap_eq (by omega), ok_bind]
    by_cases hsnap : snap h = true
    · rw [if_pos hsnap, if_pos ⟨long, hsnap⟩, Field.set_eq_put lawful_etherType long]
    · rw [if_neg hsnap, if_neg fun both => hsnap both.2]
      rfl
  · have hshort : h.length < snapLength := Nat.lt_of_not_le long
    rw [if_pos hshort, if_neg fun both => long both.1]
    rfl

theorem names : dissector.Names (fun h => 8 ≤ h.length ∧ snap h = true) Layout.etherType
    .etherType where
  law := lawful_etherType
  covers holds := holds.1
  stable t holds := by
    rw [Field.length_put lawful_etherType holds.1, snap_put holds.1]
    exact holds
  writes t holds := (setNext_etherType _ t).trans (by rw [if_pos holds])
  refuses t fails := (setNext_etherType _ t).trans (by rw [if_neg fails])
  ignores h o other := by
    cases o with
    | etherType t => exact absurd rfl (other t)
    | _ => rfl

theorem total : dissector.Total where
  payloadLength _ _ := ⟨_, rfl⟩
  next h _ := HeaderFormat.guarded_succeeds fun accepted => by
    unfold etherType? snapField?
    rw [isSnap_eq (three_le_of_accepts accepted), ok_bind]
    exact ⟨_, rfl⟩
  isSealed _ := ⟨_, rfl⟩
  setNext := names.succeeds
  pseudoHeader _ := ⟨_, rfl⟩
  requiredLength _ := ⟨_, rfl⟩
  recompute h _ := ⟨h, rfl, rfl⟩
  checksumValid _ _ := ⟨_, rfl⟩

theorem whole_fits {h : Bytes} (whole : dissector.Whole h) : dissector.fit h = .ok h := by
  apply Dissector.fit_of_required
  show Except.ok (some ((headerLength? h).getD snapLength)) = _
  rw [whole_iff.1 whole]
  rfl

/-- The type is behind what decides the length. -/
theorem whole_put_etherType {h : Bytes} (t : EtherType) (holds : 8 ≤ h.length ∧ snap h = true)
    (whole : dissector.Whole h) : dissector.Whole (Layout.etherType.put t h) := by
  have hcovers : Layout.etherType.stop ≤ h.length := holds.1
  rw [whole_iff] at whole ⊢
  rw [Field.length_put lawful_etherType hcovers, ← headerLength?_take,
    Field.take_put hcovers t (by decide), headerLength?_take]
  exact whole

theorem lawful : dissector.Lawful :=
  .of_nothing_derived total (fun _ _ => rfl) names.again (fun leads => leads) whole_fits
    (names.whole_setNext whole_fits whole_put_etherType)

end Llc

end PacketLayers
