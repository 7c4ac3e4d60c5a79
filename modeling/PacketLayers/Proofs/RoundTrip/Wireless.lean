/-
  PacketLayers.Proofs.RoundTrip.Wireless
  ────────────────────────────────
  **802.11 HEADERS ARE READ BACK, APART FROM WHAT LIES BEHIND THEM.**

  Type, subtype and flags decide how far a header reaches and which fields are
  in it.  Contents have all of them but the HT control field at the end, so a
  header is written as it was read up to that field.  The sequence control is
  looked for in all the bytes that are there, and an extension frame, whose
  header ends in front of it, gets one from the bytes behind:

    • `lengthOf_short`, `lengthOf_long` — how far the fields reach;
    • `parse_eq_ok` — which headers are read, and what as;
    • `ofBytes_agree` — contents come from the header up to HT control;
    • `fills_emit` — and are written there;
    • `frame_roundTrip` — both together.
-/
import PacketLayers.Proofs.Emission.Link
import PacketLayers.Proofs.RoundTrip

namespace PacketLayers.Wireless

/-! ## §1. How far the fields reach. -/

/-- The bytes of the HT control field, which ends the header of ordered
management and QoS data frames. -/
def trailerLength (type : FrameType) (subtype : UInt8) (flags : FrameFlags) : Nat :=
  if flags.order = true ∧ (type = .management ∨ type = .data ∧ hasQos subtype = true) then 4 else 0

/-- The bytes of the QoS control field. -/
def qosLength (type : FrameType) (subtype : UInt8) : Nat :=
  if type = .data ∧ hasQos subtype = true then 2 else 0

/-- Where the addresses end, the fourth included. -/
def addressesEnd (type : FrameType) (flags : FrameFlags) : Nat :=
  if type = .data ∧ flags.betweenDistributions = true then 30 else 24

theorem frameType_cases (h : Bytes) :
    Layout.frameType.value h = .management ∨ Layout.frameType.value h = .control
      ∨ Layout.frameType.value h = .data ∨ Layout.frameType.value h = .extension := by
  have hlt : Field.bitsOf (Bytes.toNat (Layout.frameType.window h)) 2 2 < 4 := by
    rw [Field.bitsOf_eq]
    exact Nat.mod_lt _ (by decide)
  have hvalue : Layout.frameType.value h
      = Assigned.ofCode
          (UInt8.ofNat (Field.bitsOf (Bytes.toNat (Layout.frameType.window h)) 2 2)) := rfl
  rw [hvalue]
  generalize Field.bitsOf (Bytes.toNat (Layout.frameType.window h)) 2 2 = n at hlt
  have hfour : n = 0 ∨ n = 1 ∨ n = 2 ∨ n = 3 := by omega
  rcases hfour with rfl | rfl | rfl | rfl <;> decide

section Lengths

variable {type : FrameType} (subtype : UInt8) (flags : FrameFlags)

/-- Frames other than management and data have at most two addresses. -/
theorem lengthOf_short (short : ¬ (type = .management ∨ type = .data)) :
    lengthOf type subtype flags = 10 ∨ lengthOf type subtype flags = 16 := by
  obtain ⟨hmanagement, hdata⟩ := not_or.1 short
  unfold lengthOf
  rw [if_neg hmanagement, if_neg hdata]
  split
  · split
    · exact .inl rfl
    · exact .inr rfl
  · exact .inl rfl

theorem trailerLength_short (short : ¬ (type = .management ∨ type = .data)) :
    trailerLength type subtype flags = 0 :=
  if_neg fun both => short (both.2.imp_right And.left)

/-- Those have three addresses, and what comes behind. -/
theorem lengthOf_long (long : type = .management ∨ type = .data) :
    lengthOf type subtype flags
      = addressesEnd type flags + qosLength type subtype + trailerLength type subtype flags := by
  rcases long with rfl | rfl
  · have hnot : FrameType.management ≠ .data := by decide
    have hcontrol : FrameType.management ≠ .control := by decide
    simp only [lengthOf, addressesEnd, qosLength, trailerLength, hnot, hcontrol, false_and,
      or_false, and_true, if_false, if_true]
    split <;> rfl
  · have hnot : FrameType.data ≠ .management := by decide
    rw [lengthOf_data]
    simp only [addressesEnd, qosLength, trailerLength, hnot, true_and, false_or]
    cases hqos : hasQos subtype <;> cases horder : flags.order <;> simp

end Lengths

theorem addressesEnd_data (flags : FrameFlags) :
    addressesEnd .data flags = if flags.betweenDistributions then 30 else 24 := by
  simp [addressesEnd]

/-! ## §2. What is read from a header. -/

/-- The length that type, subtype and flags of a header ask for. -/
def asked (h : Bytes) : Nat :=
  lengthOf (Layout.frameType.value h) (Layout.subtype.value h) (Layout.flags.value h)

/-- How far the contents of a header reach. -/
def reach (h : Bytes) : Nat :=
  asked h - trailerLength (Layout.frameType.value h) (Layout.subtype.value h) (Layout.flags.value h)

/-- The contents of a header that is there. -/
def Header.ofBytes (h : Bytes) : Header where
  frameType := Layout.frameType.value h
  subtype := Layout.subtype.value h
  flags := Layout.flags.value h
  duration := Layout.duration.value h
  addr1 := Layout.addr1.value h
  addr2 := if asked h < 16 then none else some (Layout.addr2.value h)
  addr3 :=
    if Layout.frameType.value h = .control then none
    else if asked h < 22 then none
    else some (Layout.addr3.value h)
  sequenceControl :=
    if Layout.frameType.value h = .control then none else held? Layout.sequenceControl h
  addr4 :=
    if Layout.frameType.value h = .data ∧ (Layout.flags.value h).betweenDistributions = true then
      some (Layout.addr4.value h)
    else none
  qosControl :=
    if Layout.frameType.value h = .data ∧ hasQos (Layout.subtype.value h) = true then
      some ((Layout.qosControlAt (addressesEnd (Layout.frameType.value h)
        (Layout.flags.value h))).value h)
    else none

section Accepted

variable {h : Bytes} (accepted : format.accepts h = true)

include accepted

theorem asked_le : asked h ≤ h.length := lengthOf_le accepted

/-- A QoS control field is inside the header. -/
theorem qosControl_inside
    (qos : Layout.frameType.value h = .data ∧ hasQos (Layout.subtype.value h) = true) :
    (Layout.qosControlAt (addressesEnd (Layout.frameType.value h)
      (Layout.flags.value h))).stop ≤ h.length := by
  refine Nat.le_trans ?_ (asked_le accepted)
  rw [asked, lengthOf_long _ _ (.inr qos.1), qosLength, if_pos qos]
  exact Nat.le_add_right _ _

theorem read_eq : Header.read h = .ok (.ofBytes h) := by
  have htype := get_front accepted (f := Layout.frameType) (by decide)
  -- the questions that hang on the type of the frame, one by one
  have haddr3 : addr3? h = .ok (Header.ofBytes h).addr3 := by
    unfold addr3?
    rw [htype, ok_bind, address?_eq accepted]
    dsimp only [Header.ofBytes]
    split <;> rfl
  have hsequence : sequenceControl? h = .ok (Header.ofBytes h).sequenceControl := by
    unfold sequenceControl?
    rw [htype]
    rfl
  have hqos : qosControl? h = .ok (Header.ofBytes h).qosControl := by
    unfold qosControl?
    rw [qosField?_eq accepted]
    dsimp only [Header.ofBytes]
    by_cases hboth : Layout.frameType.value h = .data ∧ hasQos (Layout.subtype.value h) = true
    · have hroom := qosControl_inside accepted hboth
      rw [hboth.1] at hroom
      rw [if_pos hboth, if_pos hboth, hboth.1]
      rw [addressesEnd_data] at hroom ⊢
      show Except.ok (held? _ h) = _
      rw [held?, if_pos hroom]
    · rw [if_neg hboth, if_neg hboth]
      rfl
  unfold Header.read
  rw [htype, get_front accepted (f := Layout.subtype) (by decide),
    get_front accepted (f := Layout.flags) (by decide),
    get_front accepted (f := Layout.duration) (by decide),
    get_front accepted (f := Layout.addr1) (by decide), addr2?, address?_eq accepted, haddr3,
    hsequence, addr4?_eq accepted, hqos]
  rfl

/-- What was accepted is read if it has version zero. -/
theorem parse_of_accepts (version : Layout.version.value h = 0) :
    Header.parse h = .ok (.ofBytes h) := by
  have hcheck := HeaderFormat.accepts_iff.1 accepted
  unfold Header.parse HeaderFormat.reading
  rw [hcheck, ok_bind, if_neg (not_not.2 version), read_eq accepted]
  rfl

end Accepted

/-- A header is read if it is accepted and has version zero. -/
theorem parse_eq_ok {h : Bytes} {r : Header} :
    Header.parse h = .ok r
      ↔ format.accepts h = true ∧ Layout.version.value h = 0 ∧ r = .ofBytes h := by
  constructor
  · intro parsed
    obtain ⟨_, hcheck, hrest⟩ := bind_eq_ok.1 parsed
    have accepted := HeaderFormat.accepts_iff.2 hcheck
    by_cases version : Layout.version.value h = 0
    · rw [parse_of_accepts accepted version] at parsed
      exact ⟨accepted, version, (Except.ok.inj parsed).symm⟩
    · rw [if_pos version] at hrest
      cases hrest
  · rintro ⟨accepted, version, rfl⟩
    exact parse_of_accepts accepted version

/-! ## §3. What of it lies in the header. -/

/-- Management and data frames have a third address. -/
def HasThird (h : Bytes) : Prop :=
  Layout.frameType.value h = .management ∨ Layout.frameType.value h = .data

instance (h : Bytes) : Decidable (HasThird h) := inferInstanceAs (Decidable (_ ∨ _))

section Reach

variable {h : Bytes}

/-- The others have nothing but one or two addresses. -/
theorem reach_short (short : ¬ HasThird h) : reach h = asked h := by
  rw [reach, trailerLength_short _ _ short, Nat.sub_zero]

theorem asked_le_of_short (short : ¬ HasThird h) : asked h ≤ 16 := by
  have hcases : asked h = 10 ∨ asked h = 16 := lengthOf_short _ _ short
  omega

theorem reach_third (third : HasThird h) :
    reach h = addressesEnd (Layout.frameType.value h) (Layout.flags.value h)
      + qosLength (Layout.frameType.value h) (Layout.subtype.value h) := by
  rw [reach, asked, lengthOf_long _ _ third]
  exact Nat.add_sub_cancel _ _

theorem addressesEnd_ge (type : FrameType) (flags : FrameFlags) : 24 ≤ addressesEnd type flags := by
  unfold addressesEnd
  split <;> omega

theorem reach_ge_of_third (third : HasThird h) : 24 ≤ reach h := by
  rw [reach_third third]
  exact Nat.le_trans (addressesEnd_ge _ _) (Nat.le_add_right _ _)

theorem ten_le_reach (h : Bytes) : 10 ≤ reach h := by
  by_cases third : HasThird h
  · exact Nat.le_trans (by decide) (reach_ge_of_third third)
  · rw [reach_short third]
    exact minHeaderLength_le_lengthOf _ _ _

theorem reach_le (h : Bytes) : reach h ≤ asked h := Nat.sub_le _ _

/-- Where the addresses and the sequence control end. -/
def addressed (h : Bytes) : Nat :=
  min (asked h) (addressesEnd (Layout.frameType.value h) (Layout.flags.value h))

theorem addressed_le (h : Bytes) : addressed h ≤ asked h := Nat.min_le_left _ _

theorem addressed_third (third : HasThird h) :
    addressed h = addressesEnd (Layout.frameType.value h) (Layout.flags.value h) := by
  refine Nat.min_eq_right (Nat.le_trans ?_ (reach_le h))
  rw [reach_third third]
  exact Nat.le_add_right _ _

theorem addressed_short (short : ¬ HasThird h) : addressed h = asked h :=
  Nat.min_eq_left (Nat.le_trans (asked_le_of_short short)
    (Nat.le_trans (by decide) (addressesEnd_ge _ _)))

theorem ten_le_addressed (h : Bytes) : 10 ≤ addressed h :=
  Nat.le_min.2 ⟨Nat.le_trans (ten_le_reach h) (reach_le h),
    Nat.le_trans (by decide) (addressesEnd_ge _ _)⟩

end Reach

/-- The contents that the header itself has: the sequence control of an
extension frame lies behind it. -/
def Header.carried (r : Header) : Header :=
  { r with sequenceControl := if r.frameType = .extension then none else r.sequenceControl }

section Agree

variable {h k : Bytes} (same : k.take (reach h) = h.take (reach h))

include same

theorem value_agree {α : Type} {f : Field α} (inside : f.stop ≤ reach h) :
    f.value k = f.value h := by
  rw [← Field.value_take inside, same, Field.value_take inside]

theorem value_front_agree {α : Type} {f : Field α} (inside : f.stop ≤ 10) :
    f.value k = f.value h := value_agree same (Nat.le_trans inside (ten_le_reach h))

theorem asked_agree : asked k = asked h := by
  rw [asked, asked, value_front_agree same (f := Layout.frameType) (by decide),
    value_front_agree same (f := Layout.subtype) (by decide),
    value_front_agree same (f := Layout.flags) (by decide)]

/-- The header of an extension frame ends in front of the sequence control, all
others but control frames reach behind it. -/
theorem sequenceControl_agree (accepted : format.accepts h = true) (length : k.length = asked h) :
    (Header.ofBytes k).sequenceControl = (Header.ofBytes h).carried.sequenceControl := by
  have htype : Layout.frameType.value k = Layout.frameType.value h :=
    value_front_agree same (by decide)
  have hheld : HasThird h →
      held? Layout.sequenceControl k = held? Layout.sequenceControl h := by
    intro third
    have hk : Layout.sequenceControl.stop ≤ k.length := by
      rw [length]
      exact Nat.le_trans (reach_ge_of_third third) (reach_le h)
    have hh : Layout.sequenceControl.stop ≤ h.length :=
      Nat.le_trans (Nat.le_trans (reach_ge_of_third third) (reach_le h)) (asked_le accepted)
    have hreach : Layout.sequenceControl.stop ≤ reach h := reach_ge_of_third third
    rw [held?, held?, if_pos hk, if_pos hh, value_agree same hreach]
  show (if Layout.frameType.value k = .control then none else held? Layout.sequenceControl k)
    = if Layout.frameType.value h = .extension then none
      else if Layout.frameType.value h = .control then none else held? Layout.sequenceControl h
  rw [htype]
  -- frame by frame: the two kinds that have the field, and the two that do not
  rcases frameType_cases h with hmanagement | hcontrol | hdata | hextension
  · rw [hmanagement]
    exact hheld (.inl hmanagement)
  · rw [hcontrol]
    rfl
  · rw [hdata]
    exact hheld (.inr hdata)
  · have hthird : ¬ HasThird h := by
      rw [HasThird, hextension]
      decide
    have hshort : ¬ Layout.sequenceControl.stop ≤ k.length := by
      rw [length]
      exact Nat.not_le.2 (Nat.lt_of_le_of_lt (asked_le_of_short hthird) (by decide))
    rw [hextension, held?, if_neg hshort]
    rfl

/-- **What is read depends on the header up to HT control**, apart from the
sequence control of extension frames. -/
theorem ofBytes_agree (accepted : format.accepts h = true) (length : k.length = asked h) :
    Header.ofBytes k = (Header.ofBytes h).carried := by
  have htype : Layout.frameType.value k = Layout.frameType.value h :=
    value_front_agree same (by decide)
  have hsubtype : Layout.subtype.value k = Layout.subtype.value h :=
    value_front_agree same (by decide)
  have hflags : Layout.flags.value k = Layout.flags.value h :=
    value_front_agree same (by decide)
  have hsequence := sequenceControl_agree same accepted length
  unfold Header.carried Header.ofBytes at hsequence ⊢
  rw [Header.mk.injEq, htype, hsubtype, hflags, asked_agree same]
  rw [htype] at hsequence
  -- what is left are the parts that only some frames have
  refine ⟨rfl, rfl, rfl, value_front_agree same (by decide), value_front_agree same (by decide),
    ?second, ?third, hsequence, ?fourth, ?qos⟩
  case second =>
    split
    · rfl
    · next hroom =>
      refine congrArg some (value_agree same ?_)
      by_cases third : HasThird h
      · exact Nat.le_trans (by decide) (reach_ge_of_third third)
      · rw [reach_short third]
        exact Nat.not_lt.1 hroom
  case third =>
    split
    · rfl
    · split
      · rfl
      · next hroom =>
        have third : HasThird h := Decidable.of_not_not fun short => hroom
          (Nat.lt_of_le_of_lt (asked_le_of_short short) (by decide))
        exact congrArg some (value_agree same (Nat.le_trans (by decide) (reach_ge_of_third third)))
  case fourth =>
    split
    · next hboth =>
      have hreach := reach_third (.inr hboth.1)
      rw [addressesEnd, if_pos hboth] at hreach
      refine congrArg some (value_agree same ?_)
      rw [hreach]
      exact Nat.le_add_right _ _
    · rfl
  case qos =>
    split
    · next hboth =>
      have hreach := reach_third (.inr hboth.1)
      rw [qosLength, if_pos hboth] at hreach
      exact congrArg some (value_agree same (Nat.le_of_eq hreach.symm))
    · rfl

end Agree

/-! ## §4. Writing a header over anything. -/

/-- Write the fourth address and QoS control, if the frame has them. -/
def Header.emitLast (r : Header) (h : Bytes) : Access Bytes := do
  let h ← if (← addr4? h).isSome then
      Layout.addr4.set (r.addr4.getD EthernetAddress.unspecified) h
    else pure h
  setQosControl (r.qosControl.getD 0) h

section Emit

variable {h buffer : Bytes} (accepted : format.accepts h = true) (exact : buffer.length = asked h)

/-- In a header of version zero the first byte is type and subtype. -/
theorem control_eq {x : UInt8} {rest : Bytes} (version : Layout.version.value (x :: rest) = 0) :
    (Layout.subtype.value (x :: rest) <<< 4)
      ||| (((Layout.frameType.value (x :: rest)).code &&& 0x3) <<< 2) = x := by
  have hversion : x.toNat / 2 ^ 0 % 2 ^ 2 = 0 := by
    rw [← toNat_first x rest 0 (by decide)]
    exact congrArg UInt8.toNat version
  have hsubtype : (Layout.subtype.value (x :: rest)).toNat = x.toNat / 2 ^ 4 % 2 ^ 4 :=
    toNat_first x rest 4 (by decide)
  have htype : (Layout.frameType.value (x :: rest)).code.toNat = x.toNat / 2 ^ 2 % 2 ^ 2 :=
    (congrArg UInt8.toNat (Assigned.code_ofCode (α := FrameType) _)).trans
      (toNat_first x rest 2 (show 2 ≤ 8 by decide))
  have hx := x.toNat_lt
  refine UInt8.toNat_inj.1 ?_
  rw [toNat_control, hsubtype, htype]
  omega

include accepted exact

/-- One more field of the header, and of the buffer. -/
theorem fills_set {n : Nat} {x : Access Bytes} (fills : Fills h n buffer x) {α : Type}
    {f : Field α} (law : f.Lawful) (next : f.first = n) (inside : f.stop ≤ asked h) {v : α}
    (spells : f.Spells v h) : Fills h f.stop buffer (x >>= f.set v) :=
  fills.set law next (Nat.le_trans inside (asked_le accepted)) (Nat.le_trans inside exact.ge) spells

/-- What all frames have. -/
theorem fills_front (version : Layout.version.value h = 0) :
    Fills h 10 buffer (Layout.frameControl.set 0 buffer
      >>= setTypeAndSubtype (Layout.frameType.value h) (Layout.subtype.value h)
      >>= Layout.flags.set (Layout.flags.value h)
      >>= Layout.duration.set (Layout.duration.value h)
      >>= Layout.addr1.set (Layout.addr1.value h)) := by
  have hinside : 10 ≤ h.length := ten_le_of_accepts accepted
  have hroom : 10 ≤ buffer.length :=
    Nat.le_trans (ten_le_reach h) (Nat.le_trans (reach_le h) exact.ge)
  -- version, type and subtype share the first byte
  have hcontrol : Fills h 1 buffer (Layout.frameControl.set 0 buffer
      >>= setTypeAndSubtype (Layout.frameType.value h) (Layout.subtype.value h)) := by
    obtain ⟨x, rest, rfl⟩ := List.exists_cons_of_length_pos (Nat.lt_of_lt_of_le (by decide) hinside)
    obtain ⟨b, back, rfl⟩ := List.exists_cons_of_length_pos (Nat.lt_of_lt_of_le (by decide) hroom)
    rw [Fills, set_control, control_eq version]
    rfl
  have hflags : Layout.flags.Spells (Layout.flags.value h) h :=
    Field.spells_value_word toNat_coded_byte (Nat.le_trans (by decide) hinside)
  have hduration : Layout.duration.Spells (Layout.duration.value h) h :=
    Field.spells_value_wordLittle toNat_coded_word (Nat.le_trans (by decide) hinside)
  have haddr1 : Layout.addr1.Spells (Layout.addr1.value h) h :=
    Field.spells_value_octets hinside
  have hten : 10 ≤ asked h := Nat.le_trans (ten_le_reach h) (reach_le h)
  exact fills_set accepted exact (fills_set accepted exact (fills_set accepted exact hcontrol
    (Field.lawful_word FrameFlags 1 1) rfl (Nat.le_trans (by decide) hten) hflags)
    (Field.lawful_wordLittle UInt16 2 2) rfl (Nat.le_trans (by decide) hten) hduration)
    (Field.lawful_octets 4 6) rfl hten haddr1

/-- Once type, subtype and flags are written, the header is accepted. -/
theorem accepts_filled {p : Nat} (two : 2 ≤ p) (inside : p ≤ asked h) :
    format.accepts (h.take p ++ buffer.drop p) = true := by
  have hlong := asked_le accepted
  have hfront : (h.take p ++ buffer.drop p).take 2 = h.take 2 := by
    rw [List.take_append_of_le_length (by rw [List.length_take]; omega), List.take_take,
      Nat.min_eq_left two]
  refine accepts_iff.2 ⟨asked h, ?_, ?_⟩
  · rw [← headerLength?_take, hfront, headerLength?_take]
    exact headerLength?_eq accepted
  · rw [Fills.length_filled (by omega) (by omega), exact]

/-- A QoS control field ends what is written, behind the addresses. -/
theorem fills_qosControl :
    Fills h (reach h) buffer (setQosControl ((Header.ofBytes h).qosControl.getD 0)
      (h.take (addressed h) ++ buffer.drop (addressed h))) := by
  have hten := ten_le_addressed h
  have hlong := asked_le accepted
  have hinside : addressed h ≤ h.length := Nat.le_trans (addressed_le h) hlong
  have hvalue : ∀ {α : Type} {f : Field α}, f.stop ≤ 10 →
      f.value (h.take (addressed h) ++ buffer.drop (addressed h)) = f.value h :=
    fun front => Fills.value_filled (Nat.le_trans front hten) hinside
  unfold setQosControl
  rw [qosField?_eq (accepts_filled accepted exact (Nat.le_trans (by decide) hten) (addressed_le h)),
    hvalue (f := Layout.frameType) (by decide), hvalue (f := Layout.subtype) (by decide),
    hvalue (f := Layout.flags) (by decide), ok_bind]
  -- only data frames with QoS have the field, behind the last address
  by_cases hqos : Layout.frameType.value h = .data ∧ hasQos (Layout.subtype.value h) = true
  · have third : HasThird h := .inr hqos.1
    have hreach : reach h = addressed h + 2 := by
      rw [reach_third third, addressed_third third, qosLength, if_pos hqos]
    have hfirst : (if (Layout.flags.value h).betweenDistributions = true then 30 else 24)
        = addressed h := by
      rw [addressed_third third, hqos.1, addressesEnd_data]
    have hread : (Header.ofBytes h).qosControl
        = some ((Layout.qosControlAt (addressed h)).value h) := by
      rw [addressed_third third]
      exact if_pos hqos
    have hstop : addressed h + 2 ≤ asked h := hreach ▸ reach_le h
    have hspells : (Layout.qosControlAt (addressed h)).Spells
        ((Layout.qosControlAt (addressed h)).value h) h :=
      Field.spells_value_wordLittle toNat_coded_word (Nat.le_trans hstop hlong)
    rw [if_pos hqos, hfirst, hread, hreach]
    exact fills_set accepted exact (Fills.here h (addressed h) buffer)
      (Field.lawful_wordLittle UInt16 _ 2) rfl hstop hspells
  · have hreach : reach h = addressed h := by
      by_cases third : HasThird h
      · rw [reach_third third, addressed_third third, qosLength, if_neg hqos, Nat.add_zero]
      · rw [reach_short third, addressed_short third]
    rw [if_neg hqos, hreach]
    exact Fills.here h (addressed h) buffer

/-- The fourth address is written in front of it. -/
theorem fills_last :
    Fills h (reach h) buffer ((Header.ofBytes h).emitLast
      (h.take (min (asked h) 24) ++ buffer.drop (min (asked h) 24))) := by
  have hlong := asked_le accepted
  have hten : 10 ≤ min (asked h) 24 :=
    Nat.le_min.2 ⟨Nat.le_trans (ten_le_reach h) (reach_le h), by decide⟩
  have hinside : min (asked h) 24 ≤ h.length := Nat.le_trans (Nat.min_le_left _ _) hlong
  have hvalue : ∀ {α : Type} {f : Field α}, f.stop ≤ 10 →
      f.value (h.take (min (asked h) 24) ++ buffer.drop (min (asked h) 24)) = f.value h :=
    fun front => Fills.value_filled (Nat.le_trans front hten) hinside
  have hlast := fills_qosControl accepted exact
  unfold Header.emitLast
  rw [addr4?_eq (accepts_filled accepted exact (Nat.le_trans (by decide) hten)
      (Nat.min_le_left _ _)),
    hvalue (f := Layout.frameType) (by decide), hvalue (f := Layout.flags) (by decide), ok_bind]
  -- only frames between two distribution systems have a fourth address
  by_cases hboth : Layout.frameType.value h = .data
      ∧ (Layout.flags.value h).betweenDistributions = true
  · have third : HasThird h := .inr hboth.1
    have haddressed : addressed h = 30 := by
      rw [addressed_third third, addressesEnd, if_pos hboth]
    have hthirty : 30 ≤ asked h := haddressed ▸ addressed_le h
    have hread : (Header.ofBytes h).addr4 = some (Layout.addr4.value h) := if_pos hboth
    have hspells : Layout.addr4.Spells (Layout.addr4.value h) h :=
      Field.spells_value_octets (Nat.le_trans hthirty hlong)
    rw [haddressed] at hlast
    rw [if_pos hboth, hread, Nat.min_eq_right (by omega)]
    exact (fills_set accepted exact (Fills.here h 24 buffer) (Field.lawful_octets 24 6) rfl
      hthirty hspells).bind hlast
  · have haddressed : addressed h = min (asked h) 24 := by
      rw [addressed, addressesEnd, if_neg hboth]
    rw [haddressed] at hlast
    rw [if_neg hboth]
    exact hlast

/-- The third address and the sequence control, if there is room. -/
theorem fills_third :
    Fills h (min (asked h) 24) buffer ((Header.ofBytes h).emitThird
      (h.take (min (asked h) 16) ++ buffer.drop (min (asked h) 16))) := by
  have hlong := asked_le accepted
  unfold Header.emitThird
  rw [Fills.length_filled (Nat.le_trans (Nat.min_le_left _ _) hlong)
    (Nat.le_trans (Nat.min_le_left _ _) exact.ge), exact]
  -- the third address and the sequence control come together or not at all
  by_cases third : HasThird h
  · have hroom : 24 ≤ asked h := Nat.le_trans (reach_ge_of_third third) (reach_le h)
    have hcontrol : Layout.frameType.value h ≠ .control := by
      rcases third with htype | htype <;> rw [htype] <;> decide
    have hread : (Header.ofBytes h).addr3 = some (Layout.addr3.value h) :=
      (if_neg hcontrol).trans (if_neg (by omega))
    have hsequence : (Header.ofBytes h).sequenceControl = some (Layout.sequenceControl.value h) := by
      have hheld : Layout.sequenceControl.stop ≤ h.length := Nat.le_trans hroom hlong
      exact (if_neg hcontrol).trans (if_pos hheld)
    have haddr3 : Layout.addr3.Spells (Layout.addr3.value h) h :=
      Field.spells_value_octets (Nat.le_trans (by decide) (Nat.le_trans hroom hlong))
    have hspells : Layout.sequenceControl.Spells (Layout.sequenceControl.value h) h :=
      Field.spells_value_wordLittle toNat_coded_word (Nat.le_trans hroom hlong)
    rw [if_pos ⟨hroom, hcontrol⟩, hread, hsequence, Nat.min_eq_right hroom,
      Nat.min_eq_right (show 16 ≤ asked h by omega)]
    exact fills_set accepted exact (fills_set accepted exact (Fills.here h 16 buffer)
      (Field.lawful_octets 16 6) rfl (Nat.le_trans (by decide) hroom) haddr3)
      (Field.lawful_wordLittle UInt16 22 2) rfl hroom hspells
  · have hshort := asked_le_of_short third
    rw [if_neg (fun both => by omega), Nat.min_eq_left hshort, Nat.min_eq_left (by omega)]
    exact Fills.here h (asked h) buffer

/-- **What was read is written up to HT control.** -/
theorem fills_emit (version : Layout.version.value h = 0) :
    Fills h (reach h) buffer ((Header.ofBytes h).emit buffer) := by
  have hlong := asked_le accepted
  have hten : 10 ≤ asked h := Nat.le_trans (ten_le_reach h) (reach_le h)
  refine (fills_front accepted exact version).bind ?_
  have hlast := (fills_third accepted exact).bind (fills_last accepted exact)
  -- with the second address at least, or nothing behind the first
  by_cases hroom : 16 ≤ asked h
  · have hread : (Header.ofBytes h).addr2 = some (Layout.addr2.value h) := if_neg (by omega)
    have hspells : Layout.addr2.Spells (Layout.addr2.value h) h :=
      Field.spells_value_octets (Nat.le_trans hroom hlong)
    rw [Nat.min_eq_right hroom] at hlast
    rw [hread, Fills.length_filled (by omega) (by omega), exact]
    simp only [if_pos hroom]
    exact (fills_set accepted exact (Fills.here h 10 buffer) (Field.lawful_octets 10 6) rfl
      hroom hspells).bind hlast
  · have hshort : asked h = 10 := by
      have third : ¬ HasThird h := fun third => hroom
        (Nat.le_trans (by decide) (Nat.le_trans (reach_ge_of_third third) (reach_le h)))
      have hcases : asked h = 10 ∨ asked h = 16 := lengthOf_short _ _ third
      omega
    have hread : (Header.ofBytes h).addr2 = none := if_pos (by omega)
    rw [hshort] at hlast
    rw [hread]
    exact hlast

end Emit

/-! ## §5. The round trip. -/

section RoundTrip

variable {h : Bytes} (accepted : format.accepts h = true)
  (version : Layout.version.value h = 0)

include accepted version

/-- Contents have the length of the header that they are from. -/
theorem size_ofBytes : (Header.ofBytes h).size = asked h := by
  match h, accepted, ten_le_of_accepts accepted with
  | x :: y :: rest, _, _ =>
    have hflags := (value_front x y rest).2.2
    show headerLengthOf ((Layout.subtype.value (x :: y :: rest) <<< 4)
      ||| (((Layout.frameType.value (x :: y :: rest)).code &&& 0x3) <<< 2))
      (Layout.flags.value (x :: y :: rest)).bits = _
    rw [control_eq version, hflags, headerLengthOf_eq x y rest]
    rfl

/-- Headers that agree up to HT control are read alike. -/
theorem parse_agree {k : Bytes} (same : k.take (reach h) = h.take (reach h))
    (length : k.length = asked h) : Header.parse k = .ok (Header.ofBytes h).carried := by
  have hfilled := accepts_filled accepted length (Nat.le_trans (by decide) (ten_le_reach h))
    (reach_le h)
  rw [← same, List.take_append_drop] at hfilled
  have hversion : Layout.version.value k = Layout.version.value h :=
    value_front_agree same (by decide)
  rw [parse_of_accepts hfilled (hversion.trans version), ofBytes_agree same accepted length]

end RoundTrip

/-- Only extension frames find a sequence control behind their header. -/
theorem carried_eq_iff (h : Bytes) :
    (Header.ofBytes h).carried = Header.ofBytes h
      ↔ ¬ (Layout.frameType.value h = .extension ∧ 24 ≤ h.length) := by
  -- only the sequence control of extensions is not carried over
  have hfield : (Header.ofBytes h).carried = Header.ofBytes h
      ↔ (if Layout.frameType.value h = .extension then none
          else (Header.ofBytes h).sequenceControl) = (Header.ofBytes h).sequenceControl := by
    constructor
    · exact congrArg Header.sequenceControl
    · intro heq
      exact congrArg (fun s => { Header.ofBytes h with sequenceControl := s }) heq
  rw [hfield]
  by_cases hextension : Layout.frameType.value h = .extension
  · have hread : (Header.ofBytes h).sequenceControl
        = if 24 ≤ h.length then some (Layout.sequenceControl.value h) else none := by
      show (if Layout.frameType.value h = .control then none else _) = _
      rw [hextension]
      rfl
    rw [if_pos hextension, hread]
    by_cases hlong : 24 ≤ h.length
    · have hnot : ¬ none = some (Layout.sequenceControl.value h) := fun same => by cases same
      rw [if_pos hlong]
      exact ⟨fun heq => absurd heq hnot, fun hneither => absurd ⟨hextension, hlong⟩ hneither⟩
    · rw [if_neg hlong]
      exact ⟨fun _ both => hlong both.2, fun _ => rfl⟩
  · rw [if_neg hextension]
    exact ⟨fun _ both => hextension both.1, fun _ => rfl⟩

/-- **Contents that were read come back, apart from HT control and from what
lies behind the header.**  The contents have the length that the header asks
for, and writing them over anything of that length gives the bytes of the
header up to HT control.  The header alone, and what is written, are both read
as these contents, without a sequence control if the frame is an extension
frame: that was read from behind the header. -/
theorem frame_roundTrip {data : Bytes} {r : Header} (parsed : Header.parse data = .ok r) :
    ∃ n, headerLength data = .ok n ∧ n ≤ data.length ∧ r.size = n
      ∧ Header.parse (data.take n) = .ok r.carried
      ∧ (∀ buffer : Bytes, buffer.length = n →
          ∃ out, r.emit buffer = .ok out
            ∧ out = data.take (n - trailerLength r.frameType r.subtype r.flags)
              ++ buffer.drop (n - trailerLength r.frameType r.subtype r.flags)
            ∧ Header.parse out = .ok r.carried)
      ∧ (r.carried = r ↔ ¬ (r.frameType = .extension ∧ 24 ≤ data.length)) := by
  obtain ⟨accepted, version, rfl⟩ := parse_eq_ok.1 parsed
  have hlong := asked_le accepted
  have hreach := reach_le data
  refine ⟨asked data, headerLength_eq accepted, hlong, size_ofBytes accepted version, ?alone,
    fun buffer exact => ⟨_, fills_emit accepted exact version, rfl, ?written⟩,
    carried_eq_iff data⟩
  case alone =>
    refine parse_agree accepted version ?_ ?_
    · rw [List.take_take, Nat.min_eq_left hreach]
    · rw [List.length_take, Nat.min_eq_left hlong]
  case written =>
    refine parse_agree accepted version ?_ ?_
    · refine List.take_left' ?_
      rw [List.length_take, Nat.min_eq_left (Nat.le_trans hreach hlong)]
    · rw [Fills.length_filled (Nat.le_trans hreach hlong) (Nat.le_trans hreach exact.ge), exact]

/-- An ordered QoS data frame keeps its HT control field only if it is there. -/
theorem frame_roundTrip_ordered :
    let data : Bytes := 0x88 :: 0x80 :: List.replicate 28 0 ++ [0x45]
    ∃ r, Header.parse data = .ok r ∧ r.size = 30 ∧ r.carried = r
      ∧ Header.parse (data.take 30) = .ok r
      ∧ r.emit (List.replicate 30 0xff)
        = .ok (0x88 :: 0x80 :: List.replicate 24 0 ++ List.replicate 4 0xff) := by
  intro data
  have parsed : Header.parse data = .ok (.ofBytes data) := by decide
  obtain ⟨n, hn, _, hsize, halone, hemit, hcarried⟩ := frame_roundTrip parsed
  obtain rfl : 30 = n := Except.ok.inj ((show headerLength data = .ok 30 by decide).symm.trans hn)
  obtain ⟨out, hout, hbytes, _⟩ := hemit (List.replicate 30 0xff) List.length_replicate
  have hwhole : (Header.ofBytes data).carried = Header.ofBytes data := hcarried.2 (by decide)
  rw [hwhole] at halone
  refine ⟨_, parsed, hsize, hwhole, halone, ?_⟩
  rw [hout, hbytes]
  decide

/-- An extension frame of ten bytes gets its sequence control from the payload
behind it. -/
theorem frame_roundTrip_extension :
    let data : Bytes := [0x0c, 0, 0, 0, 2, 0, 0, 0, 0, 1] ++ List.replicate 12 0 ++ [0x12, 0x34]
    headerLength data = .ok 10
      ∧ (Header.parse data).map Header.sequenceControl = .ok (some 0x3412)
      ∧ (Header.parse (data.take 10)).map Header.sequenceControl = .ok none := by
  decide

end PacketLayers.Wireless
