/-
  PacketLayers.Proofs.Legible.Link
  ────────────────────────────────
  **THE LINK LAYERS ARE LEGIBLE.**

  An Ethernet header that names its payload states no length, and so claims
  all that is behind it.  LLC headers name payloads only as SNAP headers.
  Wireless frames announce LLC by one of two subtypes, with and without a QoS
  control field, and either is decoded as LLC.
-/
import PacketLayers.Proofs.Legible

namespace PacketLayers

/-! ## §1. Ethernet. -/

namespace Ethernet

theorem isLength_ofKind {kind : LayerKind} {t : EtherType}
    (named : EtherType.ofKind kind = some t) : t.isLength = false := by
  cases kind <;> cases named <;> rfl

theorem next_eq {h : Bytes} (accepted : format.accepts h = true) :
    next h = .ok (if (Layout.etherType.value h).isLength = true then none
      else some (.etherType (Layout.etherType.value h))) := by
  unfold next
  rw [HeaderFormat.guarded_of_accepts accepted, Field.get_eq_value (covers_etherType accepted)]
  rfl

theorem payloadLength_eq {h : Bytes} (accepted : format.accepts h = true) (available : Nat) :
    dissector.payloadLength h available
      = .ok (if (Layout.etherType.value h).isLength = true
        then (Layout.etherType.value h).code.toNat else available) := by
  show format.guarded _ _ _ = _
  rw [HeaderFormat.guarded_of_accepts accepted, Field.get_eq_value (covers_etherType accepted)]
  rfl

theorem legible : dissector.Legible fun _ => True where
  lawful := lawful
  reads := sized.reads
  nonempty := sized.nonempty (by decide)
  fair_setNext _ _ _ _ := trivial
  fair_recompute _ _ _ := trivial
  unsealed _ _ := rfl
  states {h payload child o} whole _ known named leads := by
    have accepted := sized.accepts_of_whole whole
    refine Dissector.states_etherType rfl known named leads fun t ht hset => ?_
    have hvalue : Layout.etherType.value h = t :=
      names.value_of_announced Field.fits_word (EtherType.canonical_of_ofKind ht) accepted hset
    show next h = _
    rw [next_eq accepted, hvalue, isLength_ofKind ht]
    rfl
  stays takes := takes.elim
  measures {h h' cx} whole _ ok carries := by
    have hwhole' := (lawful.whole_recompute whole ok).1
    have accepted := sized.accepts_of_whole hwhole'
    refine ⟨_, payloadLength_eq accepted _, ?_⟩
    rcases carries with hempty | ⟨o, hnext⟩ | takes
    · rw [hempty]
      exact Nat.zero_le _
    · -- a header that names its payload states no length
      have hnext : next h' = .ok (some o) := hnext
      rw [next_eq accepted] at hnext
      by_cases hname : (Layout.etherType.value h').isLength = true
      · rw [if_pos hname] at hnext
        cases hnext
      · rw [if_neg hname]
    · exact takes.elim
  checks _ _ _ _ := ⟨none, rfl, by simp⟩

end Ethernet

/-! ## §2. Tags. -/

namespace Vlan

theorem next_eq {h : Bytes} (accepted : format.accepts h = true) :
    next h = .ok (some (.etherType (Layout.etherType.value h))) := by
  unfold next
  rw [HeaderFormat.guarded_of_accepts accepted, Field.get_eq_value (covers_etherType accepted)]
  rfl

theorem legible : dissector.Legible fun _ => True where
  lawful := lawful
  reads := sized.reads
  nonempty := sized.nonempty (by decide)
  fair_setNext _ _ _ _ := trivial
  fair_recompute _ _ _ := trivial
  unsealed _ _ := rfl
  states {h payload child o} whole _ known named leads := by
    have accepted : format.accepts h = true := by rw [accepts_iff, whole_iff.1 whole]
    refine Dissector.states_etherType rfl known named leads fun t ht hset => ?_
    have hvalue : Layout.etherType.value h = t :=
      names.value_of_announced Field.fits_word (EtherType.canonical_of_ofKind ht) accepted hset
    show next h = _
    rw [next_eq accepted, hvalue]
  stays takes := takes.elim
  measures _ _ _ _ := ⟨_, rfl, Nat.le_refl _⟩
  checks _ _ _ _ := ⟨none, rfl, by simp⟩

end Vlan

/-! ## §3. Loopback. -/

namespace Loopback

theorem value_put_family {h : Bytes} (long : 4 ≤ h.length) (v : UInt32) :
    family.value (family.put v h) = v := by
  have hv := v.toNat_lt
  rw [Field.value_put lawful_family long]
  show UInt32.ofNat (Bytes.toNat (Bytes.ofNat 4 v.toNat).reverse.reverse) = v
  have hfits : v.toNat % 256 ^ 4 = v.toNat := Nat.mod_eq_of_lt hv
  rw [List.reverse_reverse, Bytes.toNat_ofNat, hfits]
  exact UInt32.ofNat_toNat

theorem legible : dissector.Legible fun _ => True where
  lawful := lawful
  reads {h} whole rest := by
    have hlength := whole_iff.1 whole
    show (Header.parse (h ++ rest)).map _ = _
    rw [parse_eq, if_pos (by rw [List.length_append]; omega), hlength]
    rfl
  nonempty whole := List.ne_nil_of_length_pos (by rw [whole_iff.1 whole]; decide)
  fair_setNext _ _ _ _ := trivial
  fair_recompute _ _ _ := trivial
  unsealed _ _ := rfl
  states {h payload child o} whole _ known named leads := by
    have long : 4 ≤ h.length := by rw [whole_iff.1 whole]
    have hresolve := Registry.resolve_loopback known named
    -- the name is read from the header, or was there before it was written
    rcases leads with hnext | hset
    · exact ⟨o, hnext, hresolve⟩
    · refine ⟨o, ?_, hresolve⟩
      obtain ⟨v, rfl⟩ : ∃ v, o = .loopbackFamily v := by
        have hnamed : dissector.discriminantOf child.kind = some o := named
        cases hkind : child.kind <;> rw [hkind] at hnamed <;> cases hnamed <;> exact ⟨_, rfl⟩
      have hvalue := names.value_of_setNext long (value_put_family long v) hset
      show Except.ok (next h) = _
      unfold next
      rw [parse_eq, if_pos long, hvalue]
  stays takes := takes.elim
  measures _ _ _ _ := ⟨_, rfl, Nat.le_refl _⟩
  checks _ _ _ _ := ⟨none, rfl, by simp⟩

end Loopback

/-! ## §4. Logical link control. -/

namespace Llc

theorem headerLength?_of_snap {h : Bytes} (long : 3 ≤ h.length) (isSnap : snap h = true) :
    headerLength? h = some 8 := by
  match h with
  | a :: b :: c :: rest =>
    obtain ⟨ha, hb, hc⟩ := value_bytes a b c rest
    rw [snap, ha, hb, hc] at isSnap
    show some (lengthOf a b c) = _
    unfold lengthOf
    rw [if_pos isSnap]
    rfl
  | [] => simp at long
  | [_] => simp at long
  | [_, _] => simp at long

/-- A whole SNAP header has eight bytes. -/
theorem length_of_snap {h : Bytes} (whole : dissector.Whole h) (isSnap : snap h = true) :
    h.length = 8 := by
  have hasks := whole_iff.1 whole
  have hthree := headerLength?_ge hasks
  rw [headerLength?_of_snap hthree isSnap] at hasks
  injection hasks with hasks
  exact hasks.symm

theorem whole_of_snap {h : Bytes} (length : h.length = 8) (isSnap : snap h = true) :
    dissector.Whole h := by
  rw [whole_iff, headerLength?_of_snap (by omega) isSnap, length]

theorem next_eq {h : Bytes} (whole : dissector.Whole h) (isSnap : snap h = true) :
    next h = .ok (some (.etherType (Layout.etherType.value h))) := by
  have hlength := length_of_snap whole isSnap
  have hcovers : Layout.etherType.stop ≤ h.length := by rw [hlength]; decide
  unfold next etherType? snapField?
  rw [HeaderFormat.guarded_of_accepts (sized.accepts_of_whole whole), isSnap_eq (by omega), ok_bind,
    isSnap, decide_eq_true hcovers]
  rfl

theorem legible : dissector.Legible (snap · = true) where
  lawful := lawful
  reads := sized.reads
  nonempty := sized.nonempty (by decide)
  fair_setNext {h h' h'' o} whole isSnap ok fitted := by
    have hlength := length_of_snap whole isSnap
    -- a type is written behind what makes it a SNAP header
    obtain ⟨hlength', isSnap'⟩ := names.preserves (P := fun h => h.length = 8 ∧ snap h = true)
      (fun t guard both => ⟨(Field.length_put lawful_etherType guard.1 t).trans both.1,
        (snap_put guard.1 t).trans both.2⟩) ⟨hlength, isSnap⟩ ok
    rw [whole_fits (whole_of_snap hlength' isSnap')] at fitted
    injection fitted with fitted
    rw [← fitted]
    exact isSnap'
  fair_recompute _ isSnap ok := by
    injection ok with ok
    rw [← ok]
    exact isSnap
  unsealed _ _ := rfl
  states {h payload child o} whole isSnap known named leads := by
    have hlength := length_of_snap whole isSnap
    have hguard : 8 ≤ h.length ∧ snap h = true := ⟨by omega, isSnap⟩
    refine Dissector.states_etherType rfl known named leads fun t ht hset => ?_
    have hvalue : Layout.etherType.value h = t :=
      names.value_of_announced Field.fits_word (EtherType.canonical_of_ofKind ht) hguard hset
    show next h = _
    rw [next_eq whole isSnap, hvalue]
  stays takes := takes.elim
  measures _ _ _ _ := ⟨_, rfl, Nat.le_refl _⟩
  checks _ _ _ _ := ⟨none, rfl, by simp⟩

end Llc

/-! ## §5. Wireless frames. -/

namespace Wireless

/-- The body of the frame can be read. -/
def Clear (h : Bytes) : Prop := (Layout.flags.value h).isProtected = false

theorem ten_le_of_whole {h : Bytes} (whole : dissector.Whole h) : 10 ≤ h.length :=
  (sized.whole_iff.1 whole).1

theorem flags_relabel {h : Bytes} (long : 1 ≤ h.length) (value : UInt8) :
    Layout.flags.value (relabel value h) = Layout.flags.value h := by
  have htype : Layout.frameType.stop ≤ h.length := long
  rw [relabel, Field.value_put_of_apart lawful_subtype (covers_relabel_subtype long value)
      (by decide), Field.value_put_of_apart lawful_frameType htype (by decide)]

/-- The bit that is kept of a subtype, if it is. -/
theorem keptQos_cases (h : Bytes) (type : FrameType) : keptQos h type = 0 ∨ keptQos h type = 8 := by
  have hmask := keptQos_mask h type
  have hbit : (keptQos h type).toNat &&& (8 : UInt8).toNat
      = ((keptQos h type).toNat.testBit 3).toNat * 2 ^ 3 := Nat.and_two_pow _ 3
  rw [← UInt8.toNat_and, hmask] at hbit
  cases hset : (keptQos h type).toNat.testBit 3 with
  | false =>
    rw [hset] at hbit
    exact .inl (UInt8.toNat_inj.1 hbit)
  | true =>
    rw [hset] at hbit
    exact .inr (UInt8.toNat_inj.1 hbit)

/-- A frame that announces LLC says so by the subtype of a data frame, with or
without a QoS control field. -/
theorem next_of_llc {h : Bytes} (whole : dissector.Whole h)
    (ok : setNext h (.wireless 0x20) = .ok h) :
    next h = .ok (some (.wireless 0x20)) ∨ next h = .ok (some (.wireless 0x28)) := by
  have hten := ten_le_of_whole whole
  have hone : 1 ≤ h.length := by omega
  have htype : Layout.frameType.stop ≤ h.length := hone
  have hsubtype : Layout.subtype.stop ≤ h.length := hone
  have hsame : relabel 0x20 h = h := by
    rw [setNext_wireless, if_pos (by omega)] at ok
    injection ok
  have hdata : Layout.frameType.value h = .data := by
    have hread := frameType_relabel hone 0x20 rfl
    rw [hsame] at hread
    exact hread
  -- of the subtype that was written only the QoS bit is left open
  have hkept := subtype_relabel hone 0x20
  rw [hsame] at hkept
  have hnext : ∀ s : UInt8, hasBody s = true → Layout.subtype.value h = s →
      next h = .ok (some (.wireless ((FrameType.data.code <<< 4) ||| s))) := by
    intro s hbody hs
    unfold next typeAndSubtype
    rw [HeaderFormat.guarded_of_accepts (sized.accepts_of_whole whole), Field.get_eq_value htype,
      Field.get_eq_value hsubtype, hdata, hs]
    simp only [ok_bind, pure_eq_ok, hbody, decide_true, Bool.and_self, if_true]
  rcases keptQos_cases h (typeOf 0x20) with hqos | hqos
  · rw [hqos] at hkept
    exact .inl (hnext 0 rfl hkept)
  · rw [hqos] at hkept
    exact .inr (hnext 8 rfl hkept)

/-- A frame that leads to LLC states a subtype that is decoded as LLC. -/
theorem states {h payload : Bytes} {child : Dissector} {o : Discriminant}
    (whole : dissector.Whole h) (known : child ∈ Dissector.all)
    (named : dissector.discriminantOf child.kind = some o) (leads : dissector.Leads h payload o) :
    ∃ o', dissector.next h payload = .ok (some o')
      ∧ Registry.standard.resolve o' = .dissect child := by
  obtain ⟨rfl, rfl⟩ := Registry.llc_of_wireless known named
  rcases leads with hnext | hset
  · exact ⟨_, hnext, rfl⟩
  · rcases next_of_llc whole hset with hnext | hnext
    · exact ⟨_, hnext, rfl⟩
    · exact ⟨_, hnext, rfl⟩

theorem legible : dissector.Legible Clear where
  lawful := lawful
  reads := sized.reads
  nonempty := sized.nonempty (by decide)
  fair_setNext {h h' h'' o} whole clear ok fitted := by
    have hten := ten_le_of_whole whole
    -- a name changes neither the length nor the flags
    have hkept : h'.length = h.length ∧ Layout.flags.value h' = Layout.flags.value h := by
      rcases setNext_cases h o with ⟨value, _, _, hset⟩ | hset
      · rw [show dissector.setNext h o = _ from hset] at ok
        injection ok with ok
        rw [← ok]
        exact ⟨length_relabel (by omega) value, flags_relabel (by omega) value⟩
      · rw [show dissector.setNext h o = _ from hset] at ok
        injection ok with ok
        rw [← ok]
        exact ⟨rfl, rfl⟩
    obtain ⟨n, hasks⟩ := headerLength?_isSome (h := h') (by omega)
    have hn := headerLength?_ge hasks
    rw [fit_eq hasks] at fitted
    injection fitted with fitted
    have hflags : Layout.flags.stop ≤ h'.length := by
      rw [hkept.1]
      exact Nat.le_trans (by decide) hten
    rw [← fitted, Clear, Field.value_resize hflags (Nat.le_trans (by decide) hn), hkept.2]
    exact clear
  fair_recompute _ clear ok := by
    injection ok with ok
    rw [← ok]
    exact clear
  unsealed {h} whole clear := by
    have hten := ten_le_of_whole whole
    have hflags : Layout.flags.stop ≤ h.length := Nat.le_trans (by decide) hten
    show format.guarded _ _ _ = _
    rw [HeaderFormat.guarded_of_accepts (sized.accepts_of_whole whole), Field.get_eq_value hflags,
      ok_bind, clear]
    rfl
  states whole _ known named leads := states whole known named leads
  stays takes := takes.elim
  measures _ _ _ _ := ⟨_, rfl, Nat.le_refl _⟩
  checks _ _ _ _ := ⟨none, rfl, by simp⟩

end Wireless

end PacketLayers
