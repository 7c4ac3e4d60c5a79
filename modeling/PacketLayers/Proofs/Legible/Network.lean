/-
  PacketLayers.Proofs.Legible.Network
  ────────────────────────────────
  **THE NETWORK LAYERS ARE LEGIBLE.**

  A length field that is up to date states the length of the payload, or it is
  zero, where the payload is too long to be stated, and then stands for all
  that is there.
-/
import PacketLayers.Proofs.Checksum
import PacketLayers.Proofs.Legible

namespace PacketLayers

/-! ## §1. Address resolution. -/

namespace Arp

theorem legible : dissector.Legible fun _ => True where
  lawful := lawful
  reads := sized.reads
  nonempty := sized.nonempty (by decide)
  fair_setNext _ _ _ _ := trivial
  fair_recompute _ _ _ := trivial
  unsealed _ _ := rfl
  states _ _ _ named _ := by cases named
  stays _ := rfl
  measures {h h' cx} _ _ _ carries := by
    rcases carries with hempty | ⟨o, hnext⟩ | takes
    · exact ⟨0, rfl, by rw [hempty]; exact Nat.le_refl _⟩
    · cases hnext
    · exact takes.elim
  checks _ _ _ _ := ⟨none, rfl, by simp⟩

end Arp

/-! ## §2. IPv6. -/

namespace Ipv6

theorem payloadLength_eq {h : Bytes} (long : 40 ≤ h.length) (available : Nat) :
    dissector.payloadLength h available
      = .ok (if (Layout.payloadLength.value h).toNat = 0 then available
        else (Layout.payloadLength.value h).toNat) := by
  show format.guarded _ _ _ = _
  rw [HeaderFormat.guarded_of_accepts (accepts_iff.2 long),
    Field.get_eq_value (covers_payloadLength long)]
  rfl

/-- The payload length that the work leaves is what it has written. -/
theorem payloadLength_work {h : Bytes} (long : 40 ≤ h.length) (cx : Context) (available : Nat) :
    dissector.payloadLength (work cx h) available
      = .ok (if (lengthOf cx.payload).toNat = 0 then available
        else (lengthOf cx.payload).toNat) := by
  have hlength := length_work long cx
  have hvalue : Layout.payloadLength.value (work cx h) = lengthOf cx.payload :=
    Field.value_put_word Field.fits_word (covers_payloadLength long) _
  rw [payloadLength_eq (by omega), hvalue]

theorem legible : dissector.Legible fun _ => True where
  lawful := lawful
  reads := sized.reads
  nonempty := sized.nonempty (by decide)
  fair_setNext _ _ _ _ := trivial
  fair_recompute _ _ _ := trivial
  unsealed _ _ := rfl
  states {h payload child o} whole _ known named leads := by
    have hlength := whole_iff.1 whole
    have hcovers : Layout.nextHeader.stop ≤ h.length := by rw [hlength]; decide
    refine Dissector.states_ip rfl known named leads fun p hp hset => ?_
    have hvalue : Layout.nextHeader.value h = p :=
      names.value_of_announced Field.fits_byte (IpProtocol.canonical_of_ofKind hp) hcovers hset
    show next h = _
    rw [next_eq (by omega), hvalue]
  stays takes := takes.elim
  measures {h h' cx} whole _ ok _ := by
    have long : 40 ≤ h.length := by rw [whole_iff.1 whole]
    rcases derives.cases ok with ⟨_, rfl⟩ | ⟨short, _⟩
    · have hwritten : lengthOf cx.payload = if 65535 < 0 + cx.payload.length then 0
          else UInt16.ofNat (0 + cx.payload.length) := by
        rw [Nat.zero_add]
        rfl
      exact ⟨_, payloadLength_work long cx _, Dissector.payload_le_stated 0 _ hwritten⟩
    · exact absurd long short
  checks _ _ _ _ := ⟨none, rfl, by simp⟩

end Ipv6

/-! ## §3. IPv4. -/

namespace Ipv4

/-- The header is not that of a later fragment. -/
def First (h : Bytes) : Prop := Layout.fragmentOffset.value h = 0

theorem first_of_window {h h' : Bytes}
    (same : Layout.fragmentOffset.window h' = Layout.fragmentOffset.window h) (first : First h) :
    First h' := by
  rw [First, Field.value_eq, same]
  exact first

theorem length_of_whole {h : Bytes} (whole : dissector.Whole h) : h.length ≤ 60 := by
  have hlength := (whole_iff.1 whole).2
  rw [headerLength_eq] at hlength
  exact hlength ▸ Field.toNat_value_words_le h 0 1 0

/-- What the work leaves in the length field. -/
theorem value_totalLength_work {h : Bytes} (long : 20 ≤ h.length) (cx : Context) :
    Layout.totalLength.value (work cx h) = totalOf h cx.payload := by
  rw [work, Field.value_refill lawful_checksum (covers_checksum long _) (by decide)]
  exact Field.value_put_word Field.fits_word (covers_totalLength long _) _

/-- The checksum of a whole header that was brought up to date. -/
theorem verify_work {h : Bytes} (whole : dissector.Whole h) {cx : Context} (fills : cx.mode = .fill) :
    verifyChecksum (work cx h) = .ok true := by
  have whole' := whole_work whole cx
  obtain ⟨long, _⟩ := whole_iff.1 whole
  obtain ⟨long', hlength'⟩ := whole_iff.1 whole'
  have hcovers := covers_checksum long cx.payload
  -- what the checksum was computed from is as long as the whole header
  have hblank : (Layout.headerLength.value (Layout.checksum.put 0 (measured cx.payload h))).toNat
      = (Layout.checksum.put 0 (measured cx.payload h)).length := by
    rw [Field.value_put_of_apart lawful_checksum hcovers (by decide),
      toNat_headerLength_measured long, Field.length_put lawful_checksum hcovers,
      length_measured long, ← toNat_headerLength_work long cx, hlength', length_work long]
  have hwork : work cx h = Layout.checksum.put
      (Checksum.compute (Layout.checksum.put 0 (measured cx.payload h))) (measured cx.payload h) := by
    have htake : (Layout.checksum.put 0 (measured cx.payload h)).take
        (Layout.headerLength.value (Layout.checksum.put 0 (measured cx.payload h))).toNat
        = Layout.checksum.put 0 (measured cx.payload h) := by
      rw [hblank, List.take_length]
    rw [work, checksum?, fills]
    show Layout.checksum.put (Checksum.compute _) _ = _
    rw [htake]
  have hsum : Checksum.data (work cx h) = 0xffff := by
    have hshort : (measured cx.payload h).length ≤ 2 ^ 49 := by
      have hmax := length_of_whole whole
      rw [length_measured long]
      omega
    rw [hwork]
    exact Checksum.data_filled (by decide) hcovers hshort
  have hroom : 0 + (Layout.headerLength.value (work cx h)).toNat ≤ (work cx h).length := by omega
  unfold verifyChecksum checksummed
  rw [Field.get_eq_value (covers_headerLength long'), ok_bind, Bytes.slice, if_pos hroom, ok_bind,
    List.drop_zero, hlength', List.take_length, Checksum.verify, hsum]
  rfl

theorem checksumValid_work {h : Bytes} (whole : dissector.Whole h) {cx : Context}
    (fills : cx.mode = .fill) : dissector.checksumValid (work cx h) cx = .ok (some true) := by
  show format.guarded _ _ _ = _
  rw [HeaderFormat.guarded_of_accepts (sized.accepts_of_whole (whole_work whole cx)),
    verify_work whole fills]
  rfl

theorem payloadLength_eq {h : Bytes} (accepted : format.accepts h = true) (available : Nat) :
    dissector.payloadLength h available
      = .ok (if (Layout.totalLength.value h).toNat = 0 then available
        else (Layout.totalLength.value h).toNat - h.length) := by
  have hcovers : Layout.totalLength.stop ≤ h.length :=
    Nat.le_trans (by decide) (accepts_iff.1 accepted).1
  show format.guarded _ _ _ = _
  rw [HeaderFormat.guarded_of_accepts accepted, Field.get_eq_value hcovers]
  rfl

/-- The payload length that the work leaves is what the total leaves. -/
theorem payloadLength_work {h : Bytes} (whole : dissector.Whole h) (cx : Context)
    (available : Nat) : dissector.payloadLength (work cx h) available
      = .ok (if (totalOf h cx.payload).toNat = 0 then available
        else (totalOf h cx.payload).toNat - h.length) := by
  have long := (whole_iff.1 whole).1
  rw [payloadLength_eq (sized.accepts_of_whole (whole_work whole cx)),
    value_totalLength_work long, length_work long]

/-- A header that leads to a payload states its protocol, also in a later
fragment. -/
theorem states {h payload : Bytes} {child : Dissector} {o : Discriminant}
    (whole : dissector.Whole h) (known : child ∈ Dissector.all)
    (named : dissector.discriminantOf child.kind = some o) (leads : dissector.Leads h payload o) :
    ∃ o', dissector.next h payload = .ok (some o')
      ∧ Registry.standard.resolve o' = .dissect child := by
  have hcovers : Layout.protocol.stop ≤ h.length :=
    Nat.le_trans (by decide) (whole_iff.1 whole).1
  refine Dissector.states_ip rfl known named leads fun p hp hset => ?_
  have hvalue : Layout.protocol.value h = p :=
    names.value_of_announced Field.fits_byte (IpProtocol.canonical_of_ofKind hp) hcovers hset
  show next h = _
  rw [next_eq (sized.accepts_of_whole whole), hvalue]

theorem legible : dissector.Legible First where
  lawful := lawful
  reads := sized.reads
  nonempty := sized.nonempty (by decide)
  fair_setNext {h h' h'' o} whole first ok fitted := by
    -- the name and the fragment offset are fields apart
    obtain ⟨whole', first'⟩ := names.preserves (P := fun h => dissector.Whole h ∧ First h)
      (fun p covers both => ⟨whole_put_protocol p covers both.1, first_of_window
        (Field.window_put_of_apart lawful_protocol covers (by decide) p) both.2⟩)
      ⟨whole, first⟩ ok
    rw [whole_fits whole'] at fitted
    injection fitted with fitted
    rw [← fitted]
    exact first'
  fair_recompute {h h' cx} _ first ok := by
    rcases derives.cases ok with ⟨long, rfl⟩ | ⟨_, rfl⟩
    · exact first_of_window (window_work long cx (by decide)) first
    · exact first
  unsealed {h} whole first := by
    have hcovers : Layout.fragmentOffset.stop ≤ h.length :=
      Nat.le_trans (by decide) (whole_iff.1 whole).1
    have hvalue : Layout.fragmentOffset.value h = 0 := first
    show format.guarded _ _ _ = _
    rw [HeaderFormat.guarded_of_accepts (sized.accepts_of_whole whole), Field.get_eq_value hcovers,
      ok_bind, hvalue]
    rfl
  states whole _ known named leads := states whole known named leads
  stays takes := takes.elim
  measures {h h' cx} whole _ ok _ := by
    rcases derives.cases ok with ⟨_, rfl⟩ | ⟨short, _⟩
    · exact ⟨_, payloadLength_work whole cx _, Dissector.payload_le_stated h.length _ rfl⟩
    · exact absurd (whole_iff.1 whole).1 short
  checks {h h' cx} whole _ fills ok := by
    rcases derives.cases ok with ⟨_, rfl⟩ | ⟨short, _⟩
    · exact ⟨_, checksumValid_work whole fills, by simp⟩
    · exact absurd (whole_iff.1 whole).1 short

end Ipv4

/-! ## §4. Generic routing encapsulation. -/

namespace Gre

/-- The checksum that was filled, in headers that have one. -/
theorem sum_work {h : Bytes} (whole : dissector.Whole h) {cx : Context} (fills : cx.mode = .fill)
    (present : hasChecksum h = true) : sum (work cx h) cx.payload = 0xffff := by
  have accepted := sized.accepts_of_whole whole
  have hcovers := covers_checksum accepted present
  have hshort : h.length ≤ 2 ^ 49 := by
    have hlength := (whole_iff.1 whole).2
    have hwords : lengthOf (Layout.flags.value h) ≤ 16 := by
      unfold lengthOf roomFor minHeaderLength
      split <;> split <;> split <;> omega
    omega
  have hwork : work cx h = checksum.put (~~~ sum (checksum.put 0 h) cx.payload) h := by
    rw [work, fill?, fills, present]
    rfl
  rw [hwork]
  exact Checksum.upperLayer_filled (by decide) hcovers hshort (Checksum.completes_complement _)

/-- The checksum holds in headers that have one. -/
theorem checksumValid_work {h : Bytes} (whole : dissector.Whole h) {cx : Context}
    (fills : cx.mode = .fill) :
    dissector.checksumValid (work cx h) cx
      = .ok (if hasChecksum h = true then some true else none) := by
  have accepted := sized.accepts_of_whole whole
  have accepted' := accepts_work accepted cx
  have hcovers : Layout.hasChecksum.stop ≤ (work cx h).length := covers_flags accepted'
  have hflag : Layout.hasChecksum.value (work cx h) = hasChecksum h := by
    rw [hasChecksum_eq (Nat.le_trans (by decide) (accepts_iff.1 accepted').1),
      value_flags_work accepted, hasChecksum]
  show format.guarded _ _ _ = _
  rw [HeaderFormat.guarded_of_accepts accepted', Field.get_eq_value hcovers, hflag, ok_bind]
  by_cases hpresent : hasChecksum h = true
  · rw [if_pos hpresent, if_pos hpresent, sum_work whole fills hpresent]
    rfl
  · rw [if_neg hpresent, if_neg hpresent]
    rfl

theorem legible : dissector.Legible fun _ => True where
  lawful := lawful
  reads := sized.reads
  nonempty := sized.nonempty (by decide)
  fair_setNext _ _ _ _ := trivial
  fair_recompute _ _ _ := trivial
  unsealed _ _ := rfl
  states {h payload child o} whole _ known named leads := by
    have accepted := sized.accepts_of_whole whole
    refine Dissector.states_etherType rfl known named leads fun t ht hset => ?_
    have hvalue : Layout.protocol.value h = t :=
      names.value_of_announced Field.fits_word (EtherType.canonical_of_ofKind ht) accepted hset
    show next h = _
    rw [next_eq accepted, hvalue]
  stays takes := takes.elim
  measures _ _ _ _ := ⟨_, rfl, Nat.le_refl _⟩
  checks {h h' cx} whole _ fills ok := by
    rcases derives.cases ok with ⟨_, rfl⟩ | ⟨refused, _⟩
    · refine ⟨_, checksumValid_work whole fills, ?_⟩
      split <;> simp
    · exact absurd (sized.accepts_of_whole whole) refused

end Gre

end PacketLayers
