/-
  PacketLayers.Proofs.FrameCheck
  ────────────────────────────────
  **A FRAME CHECK SEQUENCE FINDS A CHANGED BYTE.**

  The register of the CRC loses nothing: the bit that is shifted out decides
  whether the polynomial goes in, and the polynomial has its top bit set.  So
  two different registers stay different under the same bytes, and two
  different bytes lead one register to two:

    • `bitStep_injective`, `register_injective` — the register loses nothing;
    • `eq_of_crc32_set` — frames that differ in one byte have two CRCs;
    • `fcsValid_iff` — the bytes that a decoded packet is checked over are the
      frame, all of it, however deep decoding went;
    • `frameCheck_detects` — the two together.
-/
import PacketLayers.Proofs.Parse
import PacketLayers.Proofs.Verdict

namespace PacketLayers

/-! ## §1. The register loses nothing. -/

namespace Crc32

/-- The polynomial of the register, reflected. -/
def polynomial : UInt32 := 0xEDB88320

/-- **One bit of a step.**  It is the next bit of the register, and that of the
polynomial if a set bit was shifted out. -/
theorem getLsbD_bitStep (crc : UInt32) (i : Nat) :
    (bitStep crc).toBitVec.getLsbD i
      = (crc.toBitVec.getLsbD (i + 1)
          ^^ (crc.toBitVec.getLsbD 0 && polynomial.toBitVec.getLsbD i)) := by
  have hlow : crc &&& 1 = 0 ↔ crc.toBitVec.getLsbD 0 = false := by
    have hbit : (crc &&& 1).toBitVec
        = BitVec.setWidth 32 (BitVec.ofBool (crc.toBitVec.getLsbD 0)) := by
      rw [UInt32.toBitVec_and]
      exact BitVec.and_one_eq_setWidth_ofBool_getLsbD
    rw [← UInt32.toBitVec_inj, hbit]
    cases crc.toBitVec.getLsbD 0 <;> decide
  unfold bitStep
  by_cases h : crc &&& 1 = 0
  · rw [if_pos h, hlow.1 h]
    simp [Nat.add_comm]
  · rw [if_neg h, Bool.eq_true_of_not_eq_false (mt hlow.2 h)]
    simp [polynomial, Nat.add_comm]

/-- **The register before a step** is known from the one after it: the top bit
tells which bit was shifted out, and with it the others. -/
theorem bitStep_injective {a b : UInt32} (same : bitStep a = bitStep b) : a = b := by
  have hbit : ∀ i, (a.toBitVec.getLsbD (i + 1)
      ^^ (a.toBitVec.getLsbD 0 && polynomial.toBitVec.getLsbD i))
        = (b.toBitVec.getLsbD (i + 1)
          ^^ (b.toBitVec.getLsbD 0 && polynomial.toBitVec.getLsbD i)) := fun i => by
    rw [← getLsbD_bitStep, ← getLsbD_bitStep, same]
  have hout : a.toBitVec.getLsbD 0 = b.toBitVec.getLsbD 0 := by
    have htop := hbit 31
    rw [BitVec.getLsbD_of_ge a.toBitVec 32 (Nat.le_refl _),
      BitVec.getLsbD_of_ge b.toBitVec 32 (Nat.le_refl _)] at htop
    simpa [polynomial] using htop
  refine UInt32.toBitVec_inj.1 (BitVec.eq_of_getLsbD_eq fun i _ => ?_)
  cases i with
  | zero => exact hout
  | succ i =>
    have hnext := hbit i
    rw [hout] at hnext
    exact Bool.xor_left_inj.1 hnext

theorem repeat_bitStep_injective (n : Nat) {a b : UInt32}
    (same : Nat.repeat bitStep n a = Nat.repeat bitStep n b) : a = b := by
  induction n with
  | zero => exact same
  | succ n ih => exact ih (bitStep_injective same)

/-- Different registers stay different when they are fed the same byte. -/
theorem byteStep_injective {a b : UInt32} {x : UInt8} (same : byteStep a x = byteStep b x) :
    a = b :=
  (UInt32.xor_left_inj _).1 (repeat_bitStep_injective 8 same)

/-- Different bytes lead a register to different ones. -/
theorem byteStep_injective_byte {crc : UInt32} {x y : UInt8}
    (same : byteStep crc x = byteStep crc y) : x = y := by
  have hwide : x.toUInt32 = y.toUInt32 :=
    (UInt32.xor_right_inj _).1 (repeat_bitStep_injective 8 same)
  have hnumber := congrArg UInt32.toNat hwide
  rw [UInt8.toNat_toUInt32, UInt8.toNat_toUInt32] at hnumber
  exact UInt8.toNat_inj.1 hnumber

/-- **Different registers stay different** under any run of bytes. -/
theorem register_injective (run : Bytes) {a b : UInt32}
    (same : register a run = register b run) : a = b := by
  induction run generalizing a b with
  | nil => exact same
  | cons x rest ih => exact byteStep_injective (ih same)

/-- **A byte is known from the CRC** and the other bytes. -/
theorem eq_of_crc32_set {b : Bytes} {i : Nat} (inside : i < b.length) {x : UInt8}
    (same : crc32 (b.set i x) = crc32 b) : b[i] = x := by
  -- the registers behind the byte are the same, and then those in front of it
  have hnew : b.set i x = b.take i ++ x :: b.drop (i + 1) :=
    List.set_eq_take_append_cons_drop.trans (if_pos inside)
  have hold : b = b.take i ++ b[i] :: b.drop (i + 1) := by simp
  have hregister : ∀ start, register start (b.set i x) = register start b →
      byteStep (register start (b.take i)) x = byteStep (register start (b.take i)) b[i] := by
    intro start hsame
    rw [hnew, register_append] at hsame
    have hregister := hsame.trans ((congrArg (register start) hold).trans (register_append ..))
    exact register_injective (b.drop (i + 1)) hregister
  exact (byteStep_injective_byte (hregister _ ((UInt32.xor_left_inj _).1 same))).symm

end Crc32

/-! ## §2. What a decoded packet is checked over. -/

/-- The frame check sequence of a frame, as it is sent behind the frame. -/
def checkSequence (frame : Bytes) : Bytes :=
  (Bytes.ofNat fcsLength (Crc32.crc32 frame).toNat).reverse

/-- A buffer ends in the check sequence of the frame that its first bytes are. -/
def FrameHolds (size : Nat) (data : Bytes) : Prop := data.drop size = checkSequence (data.take size)

/-- Four bytes are the check sequence of a frame exactly if they spell its
CRC. -/
theorem eq_checkSequence_iff {frame tail : Bytes} (size : tail.length = fcsLength) :
    tail = checkSequence frame
      ↔ UInt32.ofNat (Bytes.toNat tail.reverse) = Crc32.crc32 frame := by
  have hsize : tail.reverse.length = fcsLength := by rw [List.length_reverse, size]
  have hroom : Bytes.toNat tail.reverse < 2 ^ 32 := by
    have hlt := Bytes.toNat_lt tail.reverse
    rwa [hsize] at hlt
  unfold checkSequence
  constructor
  · intro htail
    have hcrc : (Crc32.crc32 frame).toNat < 256 ^ fcsLength := (Crc32.crc32 frame).toNat_lt
    rw [htail, List.reverse_reverse, Bytes.toNat_ofNat, Nat.mod_eq_of_lt hcrc, UInt32.ofNat_toNat]
  · intro hnumber
    have hspelled := Bytes.ofNat_toNat tail.reverse
    rw [hsize] at hspelled
    rw [← hnumber, UInt32.toNat_ofNat_of_lt' hroom, hspelled, List.reverse_reverse]

namespace Packet

variable {p : Packet} {tail : Bytes}

/-- A stored check sequence is read as the number that its bytes spell, least
significant first. -/
theorem fcs?_of_stored (stored : p.plain.fcs = some tail) (size : tail.length = fcsLength) :
    p.fcs? = some (UInt32.ofNat (Bytes.toNat tail.reverse)) := by
  simp only [plain] at stored
  obtain ⟨region, hregion, hbytes⟩ := Option.map_eq_some_iff.1 stored
  unfold fcs?
  rw [hregion]
  simp only [hbytes]
  rw [if_neg (by omega), ← size, List.take_length]

/-- A packet with a stored check sequence is valid exactly if these four bytes
are those of its frame. -/
theorem fcsValid_iff (laid : p.LaidOut) (stored : p.plain.fcs = some tail)
    (size : tail.length = fcsLength) :
    p.fcsValid = true ↔ tail = checkSequence (PlainLayer.wire p.plain.layers p.plain.body) := by
  unfold fcsValid
  rw [eq_checkSequence_iff size, ← laid.frameBytes, fcs?_of_stored stored size]
  exact beq_iff_eq

/-- **A stored check sequence that was updated** is that of the frame. -/
theorem updateFcs_holds (laid : p.LaidOut) (present : p.fcs.isSome) :
    ∃ q, p.updateFcs = .ok q ∧ q.fcs? = some q.computedFcs ∧ q.fcsValid = true := by
  obtain ⟨region, hregion⟩ := Option.isSome_iff_exists.1 present
  obtain ⟨q, hq, hlaid, hplain, _⟩ := updateFcs_spec laid
  have hstored :
      q.plain.fcs = some (checkSequence (PlainLayer.wire q.plain.layers q.plain.body)) := by
    rw [hplain]
    simp only [PlainPacket.updateFcs, plain, hregion, Option.map_some]
    rfl
  have hsize : (checkSequence (PlainLayer.wire q.plain.layers q.plain.body)).length
      = fcsLength := by
    rw [checkSequence, List.length_reverse, Bytes.length_ofNat]
  refine ⟨q, hq, ?_, (fcsValid_iff hlaid hstored hsize).2 rfl⟩
  rw [fcs?_of_stored hstored hsize, (eq_checkSequence_iff hsize).1 rfl, ← hlaid.frameBytes,
    computedFcs]

end Packet

namespace Registry

/-- The packet, complete or not, is what some link type or some protocol makes
of a buffer. -/
def Yields (r : Registry) (data : Bytes) (hasFcs : Bool) (p : Packet) : Prop :=
  (∃ link out, r.decode link data hasFcs = .ok out ∧ out.packet? = some p)
    ∨ ∃ d out, r.decodeLayer d data hasFcs = .ok out ∧ out.packet? = some p

theorem Yields.decodeFrom {r : Registry} {data : Bytes} {hasFcs : Bool} {p : Packet}
    (h : r.Yields data hasFcs p) :
    ∃ d origin out, r.decodeFrom d origin data hasFcs = .ok out ∧ out.packet? = some p := by
  rcases h with ⟨link, out, hdecode, hp⟩ | ⟨d, out, hdecode, hp⟩
  · obtain ⟨d, _, hfrom⟩ := decode_eq_decodeFrom hdecode hp
    exact ⟨d, _, out, hfrom, hp⟩
  · exact ⟨d, none, out, hdecode, hp⟩

/-- **A packet that was decoded with a check sequence** is checked over the
whole frame, wherever decoding stopped. -/
theorem Yields.fcsValid_iff {r : Registry} {data : Bytes} {p : Packet}
    (h : r.Yields data true p) :
    fcsLength ≤ data.length
      ∧ (p.fcsValid = true ↔ FrameHolds (data.length - fcsLength) data) := by
  obtain ⟨d, origin, out, hdecode, hp⟩ := h.decodeFrom
  obtain ⟨frame, tail, rfl, trails⟩ := frame_of_decodeFrom hdecode hp
  obtain ⟨found, hfound, _, hplain, laid⟩ := decodeFrom_parses trails hdecode hp
  have hsize : tail.length = fcsLength := trails
  have hstored : p.plain.fcs = some tail := by rw [hplain]; rfl
  have hframe : (frame ++ tail).length - fcsLength = frame.length := by
    rw [List.length_append]
    omega
  refine ⟨by rw [List.length_append]; omega, ?_⟩
  rw [Packet.fcsValid_iff laid hstored hsize, FrameHolds, hframe, List.drop_left, List.take_left,
    hplain]
  -- the layers that were found are the frame
  show _ = checkSequence (PlainLayer.wire found.layers found.body) ↔ _
  rw [hfound.wire_eq]

end Registry

/-! ## §3. Changed bytes. -/

/-- **A changed byte breaks the check**, in front of the sequence or in it. -/
theorem not_checked_set {data : Bytes} {size i : Nat} {x : UInt8}
    (room : data.length = size + fcsLength) (holds : FrameHolds size data)
    (inside : i < data.length) (differs : data[i] ≠ x) : ¬ FrameHolds size (data.set i x) := by
  intro again
  unfold FrameHolds at holds again
  by_cases hframe : i < size
  · -- two frames that differ in one byte, and one sequence for both
    have hinside : i < (data.take size).length := by
      rw [List.length_take]
      omega
    have htail : (data.drop size).length = fcsLength := by
      rw [List.length_drop]
      omega
    rw [List.drop_set_of_lt hframe, List.take_set] at again
    have hsame : Crc32.crc32 ((data.take size).set i x) = Crc32.crc32 (data.take size) :=
      ((eq_checkSequence_iff htail).1 again).symm.trans ((eq_checkSequence_iff htail).1 holds)
    have hbyte := Crc32.eq_of_crc32_set hinside hsame
    rw [List.getElem_take] at hbyte
    exact differs hbyte
  · -- one frame, which calls for one sequence, so that nothing was changed
    have hfront : (data.set i x).take size = data.take size := by
      rw [List.take_set, List.set_eq_of_length_le]
      rw [List.length_take]
      omega
    have hback : (data.set i x).drop size = data.drop size := by
      rw [again, holds, hfront]
    have hsame : data.set i x = data := by
      rw [← List.take_append_drop size (data.set i x), hfront, hback, List.take_append_drop]
    have hbyte : (data.set i x)[i]? = data[i]? := by rw [hsame]
    rw [List.getElem?_set_self inside, List.getElem?_eq_getElem inside] at hbyte
    exact differs (Option.some.inj hbyte).symm

/-- **A frame check sequence finds a changed byte.**  Of a buffer that was
decoded with its check sequence, in whole or up to an error, to a packet whose
check sequence holds, change one byte, of the frame or of the sequence: no
packet that is decoded from the changed buffer has a check sequence that holds.
And bringing the check sequence of a packet up to date always succeeds and
makes it hold, for every packet that has one. -/
theorem frameCheck_detects :
    (∀ (r : Registry) (data : Bytes) (p : Packet), r.Yields data true p → p.fcsValid = true →
      ∀ (i : Nat) (inside : i < data.length) (x : UInt8), data[i] ≠ x →
        ∀ q, r.Yields (data.set i x) true q → q.fcsValid = false)
    ∧ ∀ (known : Dissector → Prop) (p : Packet), Reachable known p → p.fcs.isSome →
        ∃ q, p.updateFcs = .ok q ∧ q.fcs? = some q.computedFcs ∧ q.fcsValid = true := by
  constructor
  · intro r data p yields valid i inside x differs q again
    obtain ⟨hsize, hvalid⟩ := yields.fcsValid_iff
    obtain ⟨_, hvalid'⟩ := again.fcsValid_iff
    rw [List.length_set] at hvalid'
    have hbroken := not_checked_set (by omega) (hvalid.1 valid) inside differs
    exact Bool.eq_false_iff.2 fun hq => hbroken (hvalid'.1 hq)
  · intro known p reachable present
    exact Packet.updateFcs_holds reachable.coherent.laidOut present

/-- A clear-to-send frame with its check sequence, and the same frame with the
bit of a retransmission set. -/
theorem frameCheck_detects_retry :
    ∃ p q, Registry.standard.Yields
          [0xc4, 0, 0x2c, 1, 0, 0x11, 0x22, 0x33, 0x44, 0x55, 0x34, 0x17, 0xf2, 0x64] true p
        ∧ p.fcsValid = true
        ∧ Registry.standard.Yields
          [0xc4, 8, 0x2c, 1, 0, 0x11, 0x22, 0x33, 0x44, 0x55, 0x34, 0x17, 0xf2, 0x64] true q
        ∧ q.fcsValid = false ∧ ∃ s, q.updateFcs = .ok s ∧ s.fcsValid = true := by
  obtain ⟨p, hp, hvalid⟩ : ∃ p, Registry.standard.decode .wireless
      [0xc4, 0, 0x2c, 1, 0, 0x11, 0x22, 0x33, 0x44, 0x55, 0x34, 0x17, 0xf2, 0x64] true
        = .ok (.complete p) ∧ p.fcsValid = true := ⟨_, rfl, by decide +kernel⟩
  obtain ⟨q, hq, hpresent⟩ : ∃ q, Registry.standard.decode .wireless
      [0xc4, 8, 0x2c, 1, 0, 0x11, 0x22, 0x33, 0x44, 0x55, 0x34, 0x17, 0xf2, 0x64] true
        = .ok (.complete q) ∧ q.fcs.isSome := ⟨_, rfl, rfl⟩
  obtain ⟨d, hroot, hfrom⟩ := Registry.decode_eq_decodeFrom hq rfl
  have hreach : Reachable (· ∈ Dissector.all) q :=
    .decoded Registry.standard_uses (Registry.standard_uses _ (Registry.dissect_mem hroot) _ rfl)
      hfrom rfl
  have hyields : Registry.standard.Yields _ true p := .inl ⟨.wireless, _, hp, rfl⟩
  have hagain : Registry.standard.Yields _ true q := .inl ⟨.wireless, _, hq, rfl⟩
  obtain ⟨s, hs, _, hholds⟩ := frameCheck_detects.2 _ q hreach hpresent
  exact ⟨p, q, hyields, hvalid, hagain,
    frameCheck_detects.1 _ _ p hyields hvalid 1 (by decide) 8 (by decide) q hagain, s, hs, hholds⟩

end PacketLayers
