/-
  PacketLayers.Proofs.Emission.Link
  ────────────────────────────────
  **LINK LAYERS ARE WRITTEN WHOLE.**

  A SNAP header says in its first three bytes that it is one.  A frame of
  802.11 is as long as its first two bytes ask for; fields that only some
  frames have are written where the frame has room for them, behind those
  bytes.
-/
import PacketLayers.Proofs.Emission
import PacketLayers.Proofs.Legible.Link

namespace PacketLayers

/-! ## §1. Layers with an Ethernet type or a family. -/

theorem Ethernet.emits (r : Ethernet.Header) :
    Ethernet.dissector.Emits (fun _ => True) (WireHeader.toBytes r) := by
  have hwrites : Writes 14 [] (WireHeader.toBytes r) :=
    (((Writes.zeros 14).set (Field.lawful_octets 6 6) (by decide) (Nat.zero_le _) r.source).set
      (Field.lawful_octets 0 6) (by decide) (Nat.zero_le _) r.destination).set
      Ethernet.lawful_etherType (by decide) (Nat.zero_le _) r.etherType
  exact Dissector.emits_of_writes hwrites fun h hlength _ =>
    ⟨Ethernet.whole_iff.2 hlength, trivial⟩

theorem Vlan.emits (r : Vlan.Header) :
    Vlan.dissector.Emits (fun _ => True) (WireHeader.toBytes r) :=
  ⟨_, rfl, Vlan.whole_iff.2 rfl, trivial⟩

theorem Loopback.whole_toBytes (r : Loopback.Header) : Loopback.dissector.Whole r.toBytes := by
  rw [Loopback.whole_iff, Loopback.Header.toBytes, List.length_reverse, Bytes.length_ofNat]
  rfl

theorem Llc.emits (organization : Octets 3) (etherType : EtherType) :
    Llc.dissector.Emits (Llc.snap · = true)
      (WireHeader.toBytes (Llc.Header.snap organization etherType)) := by
  have hstart : Writes 8 [0xaa, 0xaa, 3]
      (Llc.Layout.dsap.set Llc.snapAccessPoint (List.replicate 8 0)
        >>= Llc.Layout.ssap.set Llc.snapAccessPoint
        >>= Llc.Layout.control.set Llc.unnumbered) := ⟨_, rfl, rfl, ⟨_, rfl⟩⟩
  have hwrites : Writes 8 [0xaa, 0xaa, 3]
      (WireHeader.toBytes (Llc.Header.snap organization etherType)) :=
    (hstart.set (Field.lawful_octets 3 3) (by decide) (by decide) organization).set
      Llc.lawful_etherType (by decide) (by decide) etherType
  refine Dissector.emits_of_writes hwrites fun h hlength hfront => ?_
  obtain ⟨rest, rfl⟩ := hfront
  exact ⟨Llc.whole_of_snap hlength rfl, rfl⟩

/-! ## §2. Wireless frames. -/

namespace Wireless

/-- The first byte as it is written, from its numbers. -/
theorem toNat_control (type subtype : UInt8) :
    ((subtype <<< 4) ||| ((type &&& 0x3) <<< 2)).toNat
      = subtype.toNat % 16 * 16 + type.toNat % 4 * 4 := by
  have hlow : ((type &&& 0x3) <<< 2).toNat = type.toNat % 4 * 4 := by
    have hand : type.toNat &&& (0x3 : UInt8).toNat = type.toNat % 4 :=
      Nat.and_two_pow_sub_one_eq_mod _ 2
    rw [UInt8.toNat_shiftLeft, UInt8.toNat_and, hand, Nat.shiftLeft_eq]
    show type.toNat % 4 * 4 % 256 = _
    omega
  have hhigh : (subtype <<< 4).toNat = (subtype.toNat % 16) <<< 4 := by
    rw [UInt8.toNat_shiftLeft, Nat.shiftLeft_eq, Nat.shiftLeft_eq]
    show subtype.toNat * 16 % 256 = subtype.toNat % 16 * 16
    omega
  have hlt : type.toNat % 4 * 4 < 2 ^ 4 := by omega
  rw [UInt8.toNat_or, hlow, hhigh, ← Nat.shiftLeft_add_eq_or_of_lt hlt, Nat.shiftLeft_eq]

/-- Type and subtype, written one after the other over a zero. -/
theorem encode_control (type : FrameType) (subtype : UInt8) :
    Layout.subtype.encode subtype (Layout.frameType.encode type [0])
      = [(subtype <<< 4) ||| ((type.code &&& 0x3) <<< 2)] := by
  have hsubtype := subtype.toNat_lt
  show [UInt8.ofNat (Field.putBits (UInt8.ofNat (Field.putBits 0 2 2 type.code.toNat >>> 0)).toNat
    4 4 subtype.toNat >>> 0)] = _
  congr 1
  apply UInt8.toNat_inj.1
  rw [toNat_control, Bytes.toNat_ofNat_byte, Bytes.toNat_ofNat_byte, Nat.shiftRight_zero,
    Nat.shiftRight_zero, Field.putBits_eq, Field.putBits_eq]
  omega

/-- A run of bits in the first byte. -/
theorem toNat_first (x : UInt8) (rest : Bytes) (low : Nat) {width : Nat} (narrow : width ≤ 8) :
    ((Field.bits UInt8 0 1 low width).value (x :: rest)).toNat = x.toNat / 2 ^ low % 2 ^ width := by
  have hlt : x.toNat / 2 ^ low % 2 ^ width < 256 :=
    Nat.lt_of_lt_of_le (Nat.mod_lt _ (Nat.two_pow_pos _))
      (Nat.pow_le_pow_right (n := 2) (by decide) narrow)
  show (UInt8.ofNat (Field.bitsOf (x.toNat <<< 0 + 0) low width)).toNat = _
  rw [Bytes.toNat_ofNat_byte, Field.bitsOf_eq, Nat.shiftLeft_zero, Nat.add_zero,
    Nat.mod_eq_of_lt hlt]

/-- What is in the first two bytes, as fields. -/
theorem value_front (x y : UInt8) (rest : Bytes) :
    Layout.frameType.value (x :: y :: rest) = Assigned.ofCode ((x >>> 2) &&& 0x3)
      ∧ Layout.subtype.value (x :: y :: rest) = x >>> 4
      ∧ Layout.flags.value (x :: y :: rest) = ⟨y⟩ := by
  have htwo : (x >>> 2).toNat = x.toNat / 4 := by
    rw [UInt8.toNat_shiftRight]
    exact Nat.shiftRight_eq_div_pow x.toNat 2
  have hfour : (x >>> 4).toNat = x.toNat / 16 := by
    rw [UInt8.toNat_shiftRight]
    exact Nat.shiftRight_eq_div_pow x.toNat 4
  refine ⟨congrArg Assigned.ofCode (UInt8.toNat_inj.1 ?_), UInt8.toNat_inj.1 ?_,
    congrArg FrameFlags.mk UInt8.ofNat_toNat⟩
  · have hand : (x >>> 2).toNat &&& (0x3 : UInt8).toNat = (x >>> 2).toNat % 4 :=
      Nat.and_two_pow_sub_one_eq_mod _ 2
    rw [UInt8.toNat_and, hand, htwo]
    exact toNat_first x (y :: rest) 2 (by decide)
  · have hx := x.toNat_lt
    rw [hfour]
    refine (toNat_first x (y :: rest) 4 (by decide)).trans ?_
    omega

/-- What the first two bytes say about the length, as fields. -/
theorem headerLengthOf_eq (x y : UInt8) (rest : Bytes) :
    headerLengthOf x y = lengthOf (Layout.frameType.value (x :: y :: rest))
      (Layout.subtype.value (x :: y :: rest)) (Layout.flags.value (x :: y :: rest)) := by
  obtain ⟨htype, hsubtype, hflags⟩ := value_front x y rest
  rw [htype, hsubtype, hflags, headerLengthOf]

/-- A whole header is as long as its type, subtype and flags say. -/
theorem lengthOf_whole {h : Bytes} (whole : dissector.Whole h) :
    lengthOf (Layout.frameType.value h) (Layout.subtype.value h) (Layout.flags.value h)
      = h.length := by
  have hasks := whole_iff.1 whole
  match h with
  | [] => cases hasks
  | [_] => cases hasks
  | x :: y :: rest =>
    rw [← headerLengthOf_eq]
    exact Option.some.inj hasks

theorem lengthOf_data (subtype : UInt8) (flags : FrameFlags) :
    lengthOf .data subtype flags = (if flags.betweenDistributions then 30 else 24)
      + (if hasQos subtype then if flags.order then 6 else 2 else 0) := by
  rw [lengthOf, if_neg (by decide), if_neg (by decide), if_pos rfl]

section Accepted

variable {h : Bytes} (accepted : format.accepts h = true)

include accepted

theorem covers_front {α : Type} {f : Field α} (front : f.stop ≤ 10) : f.stop ≤ h.length :=
  Nat.le_trans front (ten_le_of_accepts accepted)

theorem get_front {α : Type} {f : Field α} (front : f.stop ≤ 10) : f.get h = .ok (f.value h) :=
  Field.get_eq_value (covers_front accepted front)

theorem headerLength?_eq :
    headerLength? h = some (lengthOf (Layout.frameType.value h) (Layout.subtype.value h)
      (Layout.flags.value h)) := by
  obtain ⟨n, hasks, -⟩ := accepts_iff.1 accepted
  match h with
  | [] => cases hasks
  | [_] => cases hasks
  | x :: y :: rest => exact congrArg some (headerLengthOf_eq x y rest)

/-- An accepted header is there as far as its type, subtype and flags say. -/
theorem lengthOf_le :
    lengthOf (Layout.frameType.value h) (Layout.subtype.value h) (Layout.flags.value h)
      ≤ h.length := by
  obtain ⟨n, hasks, hn⟩ := accepts_iff.1 accepted
  rw [headerLength?_eq accepted] at hasks
  exact Nat.le_trans (Nat.le_of_eq (Option.some.inj hasks)) hn

/-- The length that an accepted header asks for. -/
theorem headerLength_eq :
    headerLength h = .ok (lengthOf (Layout.frameType.value h) (Layout.subtype.value h)
      (Layout.flags.value h)) := by
  unfold headerLength
  rw [get_front accepted (f := Layout.frameType) (by decide),
    get_front accepted (f := Layout.subtype) (by decide),
    get_front accepted (f := Layout.flags) (by decide)]
  rfl

/-- An address that the header has room for is read. -/
theorem address?_eq (f : Field EthernetAddress) :
    address? f h = .ok (if lengthOf (Layout.frameType.value h) (Layout.subtype.value h)
      (Layout.flags.value h) < f.stop then none else some (f.value h)) := by
  have hlength := lengthOf_le accepted
  unfold address?
  rw [headerLength_eq accepted]
  simp only [ok_bind, pure_eq_ok]
  split
  · rfl
  · rw [held?, if_pos (by omega)]

/-- A frame between distribution systems has a fourth address. -/
theorem addr4?_eq :
    addr4? h = .ok (if Layout.frameType.value h = .data
        ∧ (Layout.flags.value h).betweenDistributions = true
      then some (Layout.addr4.value h) else none) := by
  unfold addr4?
  rw [get_front accepted (f := Layout.frameType) (by decide),
    get_front accepted (f := Layout.flags) (by decide)]
  simp only [ok_bind, pure_eq_ok]
  by_cases hbetween : Layout.frameType.value h = .data
      ∧ (Layout.flags.value h).betweenDistributions = true
  · have hroom : Layout.addr4.stop ≤ lengthOf .data (Layout.subtype.value h)
        (Layout.flags.value h) := by
      show 30 ≤ _
      rw [lengthOf_data, hbetween.2, if_pos rfl]
      omega
    rw [if_pos hbetween, if_pos (by simpa using hbetween), address?_eq accepted, hbetween.1,
      if_neg (Nat.not_lt.2 hroom)]
  · rw [if_neg hbetween, if_neg (by simpa using hbetween)]

/-- A QoS data frame has a QoS control field, behind its addresses. -/
theorem qosField?_eq :
    qosField? h = .ok (if Layout.frameType.value h = .data
        ∧ hasQos (Layout.subtype.value h) = true
      then some (Layout.qosControlAt
        (if (Layout.flags.value h).betweenDistributions then 30 else 24)) else none) := by
  unfold qosField?
  rw [get_front accepted (f := Layout.frameType) (by decide),
    get_front accepted (f := Layout.subtype) (by decide), addr4?_eq accepted]
  simp only [ok_bind, pure_eq_ok]
  by_cases hqos : Layout.frameType.value h = .data ∧ hasQos (Layout.subtype.value h) = true
  · rw [if_pos (by simpa using hqos), if_pos hqos]
    by_cases hbetween : (Layout.flags.value h).betweenDistributions = true
    · have hboth := And.intro hqos.1 hbetween
      rw [if_pos hboth, if_pos hbetween]
      rfl
    · have hnot := fun both : Layout.frameType.value h = .data ∧ _ => hbetween both.2
      rw [if_neg hnot, if_neg hbetween]
      rfl
  · rw [if_neg (by simpa using hqos), if_neg hqos]

/-- It lies inside the header, behind the first three addresses. -/
theorem qosField?_inside :
    ∃ found, qosField? h = .ok found ∧ ∀ f, found = some f →
      ∃ first, f = Layout.qosControlAt first ∧ 24 ≤ first ∧ first + 2 ≤ h.length := by
  have hlength := lengthOf_le accepted
  refine ⟨_, qosField?_eq accepted, fun f hf => ?_⟩
  split at hf
  · next hqos =>
    rw [hqos.1, lengthOf_data, hqos.2, if_pos rfl] at hlength
    refine ⟨_, (Option.some.inj hf).symm, ?_⟩
    by_cases hbetween : (Layout.flags.value h).betweenDistributions = true
    · rw [if_pos hbetween] at hlength ⊢
      split at hlength <;> omega
    · rw [if_neg hbetween] at hlength ⊢
      split at hlength <;> omega
  · cases hf

end Accepted

section Emit

variable (r : Header)

/-- The first byte of the header: version, type and subtype. -/
def Header.control : UInt8 := (r.subtype <<< 4) ||| ((r.frameType.code &&& 0x3) <<< 2)

/-- What decides how long the header is. -/
def Header.front : Bytes := [r.control, r.flags.bits]

variable {r} {h : Bytes}

theorem ten_le_size (r : Header) : 10 ≤ r.size := minHeaderLength_le_lengthOf _ _ _

/-- Once type and flags are written, the header is whole. -/
theorem whole_of_front (hlength : h.length = r.size) (front : r.front <+: h) :
    dissector.Whole h := by
  obtain ⟨rest, rfl⟩ := front
  refine whole_iff.2 ?_
  rw [hlength]
  rfl

theorem clear_of_front (clear : r.flags.isProtected = false) (front : r.front <+: h) :
    Clear h := by
  obtain ⟨rest, rfl⟩ := front
  have hflags : Layout.flags.value (r.front ++ rest) = r.flags :=
    congrArg FrameFlags.mk UInt8.ofNat_toNat
  rw [Clear, hflags]
  exact clear

/-- Type and subtype go into the first byte, whatever was in it. -/
theorem set_control (type : FrameType) (subtype b : UInt8) (rest : Bytes) :
    (Layout.frameControl.set 0 (b :: rest) >>= setTypeAndSubtype type subtype)
      = .ok (((subtype <<< 4) ||| ((type.code &&& 0x3) <<< 2)) :: rest) := by
  have hframe : Layout.frameControl.Lawful := Field.lawful_word UInt8 0 1
  have hzero : Layout.frameControl.set 0 ([] ++ [b] ++ rest) = .ok ([] ++ [0] ++ rest) :=
    Field.set_between hframe rfl rfl 0
  show (Layout.frameControl.set 0 ([] ++ [b] ++ rest) >>= _) = _
  rw [hzero, ok_bind, setTypeAndSubtype, Field.set_between lawful_frameType rfl rfl, ok_bind,
    Field.set_between lawful_subtype rfl rfl, encode_control]
  rfl

/-- Type, subtype and flags go into the first two bytes. -/
theorem writes_control (r : Header) :
    Writes r.size r.front (Layout.frameControl.set 0 (List.replicate r.size 0)
      >>= setTypeAndSubtype r.frameType r.subtype
      >>= Layout.flags.set r.flags) := by
  obtain ⟨n, hn⟩ : ∃ n, r.size = n + 2 := ⟨r.size - 2, by have hten := ten_le_size r; omega⟩
  have hflags : Layout.flags.Lawful := Field.lawful_word FrameFlags 1 1
  refine ⟨[r.control] ++ [r.flags.bits] ++ List.replicate n 0, ?_, ?_, ⟨_, rfl⟩⟩
  · rw [hn, List.replicate_succ, set_control, ok_bind, List.replicate_succ]
    have hset : Layout.flags.set r.flags ([r.control] ++ [0] ++ List.replicate n 0) = _ :=
      Field.set_between hflags rfl rfl r.flags
    refine hset.trans ?_
    rw [show Layout.flags.encode r.flags [0] = [r.flags.bits] from
      congrArg (· :: []) UInt8.ofNat_toNat]
  · rw [hn]
    simp only [List.length_append, List.length_cons, List.length_nil, List.length_replicate]
    omega

/-! The fields that a frame may lack, from the last to the first. -/

theorem writes_qosControl (hlength : h.length = r.size) (front : r.front <+: h) :
    Writes r.size r.front (setQosControl (r.qosControl.getD 0) h) := by
  obtain ⟨found, hfound, hinside⟩ := qosField?_inside
    (sized.accepts_of_whole (whole_of_front hlength front))
  unfold setQosControl
  rw [hfound, ok_bind]
  cases found with
  | none => exact ⟨h, rfl, hlength, front⟩
  | some f =>
    obtain ⟨first, rfl, hfirst, hroom⟩ := hinside f rfl
    exact Writes.set ⟨h, rfl, hlength, front⟩ (Field.lawful_wordLittle UInt16 first 2)
      (by show first + 2 ≤ _; omega) (by show 2 ≤ first; omega) _

theorem writes_addr4 (hlength : h.length = r.size) (front : r.front <+: h) :
    Writes r.size r.front (addr4? h >>= fun found =>
      if found.isSome = true then
        Layout.addr4.set (r.addr4.getD EthernetAddress.unspecified) h
          >>= setQosControl (r.qosControl.getD 0)
      else pure h >>= setQosControl (r.qosControl.getD 0)) := by
  have whole := whole_of_front hlength front
  rw [addr4?_eq (sized.accepts_of_whole whole), ok_bind]
  split
  · next hboth =>
    have hlengthOf := lengthOf_whole whole
    rw [hboth.1, lengthOf_data, hboth.2, if_pos rfl] at hlengthOf
    have hset : Writes r.size r.front
        (.ok h >>= Layout.addr4.set (r.addr4.getD EthernetAddress.unspecified)) :=
      Writes.set ⟨h, rfl, hlength, front⟩ (Field.lawful_octets 24 6)
        (by show 30 ≤ _; omega) (by show 2 ≤ 24; omega) _
    exact hset.bind fun _ => writes_qosControl
  · exact writes_qosControl hlength front

theorem writes_third (hlength : h.length = r.size) (front : r.front <+: h) :
    Writes r.size r.front (r.emitThird h) := by
  unfold Header.emitThird
  split
  · next hroom =>
    have haddr3 : Writes r.size r.front
        (.ok h >>= Layout.addr3.set (r.addr3.getD EthernetAddress.unspecified)) :=
      Writes.set ⟨h, rfl, hlength, front⟩ (Field.lawful_octets 16 6)
        (by show 22 ≤ _; omega) (by show 2 ≤ 16; omega) _
    exact haddr3.set (Field.lawful_wordLittle UInt16 22 2) (by show 24 ≤ _; omega)
      (by show 2 ≤ 22; omega) _
  · exact ⟨h, rfl, hlength, front⟩

theorem emits (r : Header) (clear : r.flags.isProtected = false) :
    dissector.Emits Clear (WireHeader.toBytes r) := by
  have hten := ten_le_size r
  -- what all frames have
  have hbasic := ((writes_control r).set (Field.lawful_wordLittle UInt16 2 2)
    (by show 4 ≤ _; omega) (Nat.le_refl 2) r.duration).set (Field.lawful_octets 4 6)
    (by show 10 ≤ _; omega) (Nat.le_of_ble_eq_true rfl) r.addr1
  have hlast := fun h hlength front =>
    (writes_third (r := r) (h := h) hlength front).bind fun _ => writes_addr4
  have hwrites : Writes r.size r.front (WireHeader.toBytes r) := by
    refine hbasic.bind fun h hlength front => ?_
    cases r.addr2 with
    | none => exact hlast h hlength front
    | some a =>
      by_cases hroom : 16 ≤ h.length
      · have haddr2 : Writes r.size r.front (.ok h >>= Layout.addr2.set a) :=
          Writes.set ⟨h, rfl, hlength, front⟩ (Field.lawful_octets 10 6)
            (by show 16 ≤ _; omega) (by show 2 ≤ 10; omega) a
        simp only [if_pos hroom]
        exact haddr2.bind hlast
      · simp only [if_neg hroom]
        exact hlast h hlength front
  exact Dissector.emits_of_writes hwrites fun h hlength front =>
    ⟨whole_of_front hlength front, clear_of_front clear front⟩

end Emit

end Wireless

end PacketLayers
