/-
  PacketLayers.Proofs.RoundTrip.Tcp
  ────────────────────────────────
  **TCP HEADERS ARE READ BACK.**

  Reading a header takes over what its options say, whatever their order and
  however often they come; writing puts the options that are left in an order
  of its own and fills the last word.  What is read is `Canonical`, and of such
  contents nothing is lost:

    • `canonical_of_parse` — reading gives canonical contents, by one step for
      each option;
    • `emit_eq` — the bytes written for contents, over anything;
    • `parse_headerBytes` — canonical contents are read from these bytes;
    • `segment_roundTrip` — all of it together.
-/
import PacketLayers.Proofs.Lawful.Transport
import PacketLayers.Proofs.RoundTrip
import PacketLayers.Proofs.RoundTrip.TcpOption

namespace PacketLayers.Tcp

/-! ## §1. Flags. -/

/-- A flag is a single bit. -/
theorem Flag.mask_eq (flag : Flag) : ∃ i, i < 16 ∧ flag.mask.toBitVec = BitVec.twoPow 16 i := by
  cases flag with
  | fin => exact ⟨0, by decide, rfl⟩
  | syn => exact ⟨1, by decide, rfl⟩
  | rst => exact ⟨2, by decide, rfl⟩
  | psh => exact ⟨3, by decide, rfl⟩
  | ack => exact ⟨4, by decide, rfl⟩
  | urg => exact ⟨5, by decide, rfl⟩
  | ece => exact ⟨6, by decide, rfl⟩
  | cwr => exact ⟨7, by decide, rfl⟩
  | ns => exact ⟨8, by decide, rfl⟩

/-- Putting in a flag that is there, or taking out one that is not, changes
nothing. -/
theorem Flags.put_has (f : Flags) (flag : Flag) : f.put flag (f.has flag) = f := by
  obtain ⟨i, hi, hmask⟩ := flag.mask_eq
  have hand : (f.bits &&& flag.mask).toBitVec
      = if f.bits.toBitVec.getLsbD i = true then BitVec.twoPow 16 i else 0 := by
    rw [UInt16.toBitVec_and, hmask, BitVec.and_twoPow]
    rfl
  -- bit by bit: the mask has one, and the others stay
  cases hbit : f.bits.toBitVec.getLsbD i with
  | true =>
    have hhas : f.has flag = true := by
      refine bne_iff_ne.2 fun hzero => ?_
      rw [hzero, if_pos hbit] at hand
      have hself := congrArg (BitVec.getLsbD · i) hand
      simp [hi] at hself
    rw [hhas]
    refine congrArg Flags.mk (UInt16.toBitVec_inj.1 ?_)
    rw [if_pos rfl, UInt16.toBitVec_or, hmask]
    ext j hj
    by_cases same : j = i
    · subst same
      simpa [BitVec.getLsbD_eq_getElem hj] using hbit
    · simp [same]
  | false =>
    have hhas : f.has flag = false := by
      refine bne_eq_false_iff_eq.2 (UInt16.toBitVec_inj.1 ?_)
      rw [hand, hbit]
      rfl
    rw [hhas]
    refine congrArg Flags.mk (UInt16.toBitVec_inj.1 ?_)
    rw [if_neg (by decide), UInt16.toBitVec_and, UInt16.toBitVec_not, hmask]
    ext j hj
    by_cases same : j = i
    · subst same
      simpa [BitVec.getLsbD_eq_getElem hj] using hbit
    · simp [same]

/-- Nine bits are left of a number. -/
theorem toNat_and_nine (x : UInt16) : (x &&& 0x1ff).toNat = x.toNat % 512 :=
  (UInt16.toNat_and x 0x1ff).trans (Nat.and_two_pow_sub_one_eq_mod _ 9)

/-! ## §2. Contents that are read. -/

namespace Header

/-- **Contents of a header:** neither port is zero, the flags are nine bits and
say whether anything is acknowledged, and a window scale is at most 14. -/
structure Canonical (r : Header) : Prop where
  sourcePort : r.sourcePort ≠ 0
  destinationPort : r.destinationPort ≠ 0
  flags : r.flags.bits.toNat < 2 ^ 9
  acknowledgement : r.flags.has .ack = r.acknowledgement.isSome
  windowScale : ∀ shift, r.windowScale = some shift → shift ≤ 14

/-- One more option that is taken over. -/
theorem Canonical.withOption {r : Header} (canonical : r.Canonical) (o : Item) :
    (r.withOption o).Canonical := by
  cases o with
  | windowScale shift =>
    refine ⟨canonical.sourcePort, canonical.destinationPort, canonical.flags,
      canonical.acknowledgement, fun written hwritten => ?_⟩
    rw [← Option.some.inj hwritten]
    show (if shift ≤ 14 then shift else 14) ≤ 14
    split
    · assumption
    · exact UInt8.le_refl 14
  | maxSegmentSize size => exact ⟨canonical.1, canonical.2, canonical.3, canonical.4, canonical.5⟩
  | sackPermitted => exact ⟨canonical.1, canonical.2, canonical.3, canonical.4, canonical.5⟩
  | endOfList => exact canonical
  | noOperation => exact canonical
  | sackRange first second third => exact canonical
  | unknown kind data => exact canonical

/-- All options, up to one that cannot be read. -/
theorem Canonical.withOptions {items : List (Except Error Item)} :
    ∀ {r r' : Header}, r.Canonical → r.withOptions items = .ok r' → r'.Canonical := by
  induction items with
  | nil =>
    intro r r' canonical ok
    cases ok
    exact canonical
  | cons x rest ih =>
    intro r r' canonical ok
    cases x with
    | error e => cases ok
    | ok o => exact ih (canonical.withOption o) ok

/-- The fixed fields say so too, if neither port is zero. -/
theorem canonical_fixedPart {h : Bytes} (source : Layout.sourcePort.value h ≠ 0)
    (destination : Layout.destinationPort.value h ≠ 0) : (fixedPart h).Canonical where
  sourcePort := source
  destinationPort := destination
  flags := by
    show (UInt16.ofNat _ &&& 0x1ff).toNat < 2 ^ 9
    rw [toNat_and_nine]
    exact Nat.mod_lt _ (by decide)
  acknowledgement := by
    show (Layout.flags.value h).has .ack
      = (if (Layout.flags.value h).has .ack = true then some _ else none).isSome
    cases (Layout.flags.value h).has .ack <;> rfl
  windowScale _ none := by cases none

/-- **What is read is canonical.** -/
theorem canonical_of_parse {h : Bytes} {r : Header} (parsed : Header.parse h = .ok r) :
    r.Canonical := by
  obtain ⟨_, _, hports⟩ := bind_eq_ok.1 parsed
  by_cases source : Layout.sourcePort.value h = 0
  · rw [if_pos source] at hports
    cases hports
  · rw [if_neg source] at hports
    by_cases destination : Layout.destinationPort.value h = 0
    · rw [if_pos destination] at hports
      cases hports
    · rw [if_neg destination] at hports
      obtain ⟨items, _, hitems⟩ := bind_eq_ok.1 hports
      exact (canonical_fixedPart source destination).withOptions hitems

/-! ## §3. The bytes of a header. -/

/-- The flags that are written, as a number of nine bits. -/
def flagBits (r : Header) : Nat := (r.flags.put .ack r.acknowledgement.isSome).bits.toNat % 512

/-- The fixed part: length and flags share two bytes, checksum and urgent
pointer are zero. -/
def fixedBytes (r : Header) : Bytes :=
  Bytes.ofNat 2 r.sourcePort.toNat ++ Bytes.ofNat 2 r.destinationPort.toNat
    ++ Bytes.ofNat 4 r.sequence.value.toNat
    ++ Bytes.ofNat 4 (r.acknowledgement.getD ⟨0⟩).value.toNat
    ++ Bytes.ofNat 2 (r.size / 4 * 4096 + r.flagBits) ++ Bytes.ofNat 2 r.window.toNat
    ++ [0, 0, 0, 0]

/-- The options, and zeros up to the next word. -/
def optionBytes (r : Header) : Bytes :=
  r.items.flatMap Item.encode ++ List.replicate (r.size - 20 - Item.totalSize r.items) 0

/-- The header written for contents. -/
def headerBytes (r : Header) : Bytes := r.fixedBytes ++ r.optionBytes

/-- The header is written in whole words; there are at most three options, of
nine bytes. -/
theorem size_bounds (r : Header) :
    20 ≤ r.size ∧ r.size ≤ 32 ∧ r.size % 4 = 0 ∧ Item.totalSize r.items ≤ r.size - 20 := by
  have htotal : Item.totalSize r.items ≤ 9 := by
    unfold Header.items
    rcases r.windowScale with _ | _ <;> rcases r.maxSegmentSize with _ | _ <;>
      rcases r.sackPermitted with _ | _ <;> simp [Item.totalSize, Item.size]
  have hmin : minHeaderLength = 20 := rfl
  unfold Header.size
  rw [hmin]
  omega

theorem flagBits_lt (r : Header) : r.flagBits < 512 := Nat.mod_lt _ (by decide)

theorem length_fixedBytes (r : Header) : r.fixedBytes.length = 20 := rfl

theorem length_optionBytes (r : Header) : r.optionBytes.length = r.size - 20 := by
  have hroom := (size_bounds r).2.2.2
  rw [optionBytes, List.length_append, Item.length_flatMap_encode, List.length_replicate]
  omega

theorem length_headerBytes (r : Header) : r.headerBytes.length = r.size := by
  have hsize := (size_bounds r).1
  rw [headerBytes, List.length_append, length_fixedBytes, length_optionBytes]
  omega

end Header

/-! ## §4. Writing a header over anything. -/

theorem fits_sequence : Field.Fits SequenceNumber (256 ^ 4) := fun v =>
  ⟨v.value.toNat_lt, congrArg SequenceNumber.mk UInt32.ofNat_toNat⟩

/-- The options are what is behind the fixed part, up to the stated length. -/
theorem getOptions_eq {h : Bytes} (long : 20 ≤ h.length) :
    getOptions h = .ok ((h.take (Layout.headerLength.value h).toNat).drop 20) := by
  unfold getOptions
  rw [Field.get_eq_value (covers_headerLength long)]
  rfl

/-- Options of the right length are written behind the fixed part. -/
theorem setOptions_eq {h new : Bytes} (long : 20 ≤ h.length)
    (length : new.length = ((h.take (Layout.headerLength.value h).toNat).drop 20).length) :
    setOptions new h = .ok (h.take 20 ++ new ++ h.drop (20 + new.length)) := by
  unfold setOptions
  rw [getOptions_eq long, ok_bind, if_neg (not_not.2 length)]
  cases new with
  | nil =>
    have hsame : h.take 20 ++ [] ++ h.drop (20 + 0) = h := by
      rw [List.append_nil, List.take_append_drop]
    exact congrArg Except.ok hsame.symm
  | cons x rest => rfl

namespace Header

section Emit

variable (r : Header) {buffer : Bytes} (room : 20 ≤ buffer.length)

/-- The number in the two bytes that length and flags share. -/
theorem encode_lengthAndFlags (r : Header) {w : Bytes} (two : w.length = 2) :
    Layout.flags.encode (r.flags.put .ack r.acknowledgement.isSome)
        (Layout.headerLength.encode (UInt8.ofNat r.size) w)
      = Bytes.ofNat 2 (r.size / 4 * 4096 + r.flagBits) := by
  obtain ⟨_, hsize, _⟩ := r.size_bounds
  have hw := Bytes.toNat_lt w
  rw [two] at hw
  have hcount : (UInt8.ofNat r.size / 4).toNat = r.size / 4 := by
    rw [UInt8.toNat_div, Bytes.toNat_ofNat_byte, Nat.mod_eq_of_lt (by omega)]
    rfl
  have hflags : ((r.flags.put .ack r.acknowledgement.isSome).bits &&& 0x1ff).toNat = r.flagBits :=
    toNat_and_nine _
  have hlt := r.flagBits_lt
  show Bytes.ofNat 2 (Field.putBits (Bytes.toNat (Bytes.ofNat 2
    (Field.putBits (Bytes.toNat w) 12 4 (UInt8.ofNat r.size / 4).toNat))) 0 12
    ((r.flags.put .ack r.acknowledgement.isSome).bits &&& 0x1ff).toNat) = _
  rw [hcount, hflags, Bytes.toNat_ofNat, Field.putBits_eq, Field.putBits_eq]
  refine congrArg (Bytes.ofNat 2) ?_
  omega

/-- Length and flags replace the two bytes that they share. -/
theorem set_lengthAndFlags (r : Header) {front shared : Bytes} (first : front.length = 12)
    (two : shared.length = 2) (back : Bytes) :
    (Layout.headerLength.set (UInt8.ofNat r.size) (front ++ shared ++ back)
        >>= Layout.flags.set (r.flags.put .ack r.acknowledgement.isSome))
      = .ok (front ++ Bytes.ofNat 2 (r.size / 4 * 4096 + r.flagBits) ++ back) := by
  have hflags : Layout.flags.Lawful := (Field.lawful_bits UInt16 12 (by decide)).map _ _
  have hlength := lawful_headerLength.length_encode (UInt8.ofNat r.size) shared two
  rw [Field.set_between lawful_headerLength first two, ok_bind,
    Field.set_between hflags first hlength, encode_lengthAndFlags r two]

include room

/-- One more word of the fixed part. -/
theorem fills_word {n : Nat} {x : Access Bytes} (fills : Fills r.fixedBytes n buffer x)
    {α : Type} [Coded α] (size : Nat) (v : α) (inside : n + size ≤ 20)
    (spelled : (Field.word α n size).window r.fixedBytes = Bytes.ofNat size (Coded.toNat v)) :
    Fills r.fixedBytes (n + size) buffer (x >>= (Field.word α n size).set v) :=
  fills.set (Field.lawful_word α n size) rfl inside (Nat.le_trans inside room)
    (Field.spells_word spelled)

/-- Ports and numbers. -/
theorem fills_numbers :
    Fills r.fixedBytes 12 buffer (Layout.sourcePort.set r.sourcePort buffer
      >>= Layout.destinationPort.set r.destinationPort
      >>= Layout.sequence.set r.sequence
      >>= Layout.acknowledgement.set (r.acknowledgement.getD ⟨0⟩)) := by
  have hstart := Fills.start r.fixedBytes buffer
  have hsource := fills_word r room hstart 2 r.sourcePort (by decide) rfl
  have hdestination := fills_word r room hsource 2 r.destinationPort (by decide) rfl
  have hsequence := fills_word r room hdestination 4 r.sequence (by decide) rfl
  exact fills_word r room hsequence 4 (r.acknowledgement.getD ⟨0⟩) (by decide) rfl

/-- The window is written in front of length and flags, and lies behind
them. -/
theorem fills_window {x : Access Bytes} (fills : Fills r.fixedBytes 12 buffer x) :
    Fills r.fixedBytes 16 buffer (x >>= Layout.window.set r.window
      >>= Layout.headerLength.set (UInt8.ofNat r.size)
      >>= Layout.flags.set (r.flags.put .ack r.acknowledgement.isSome)) := by
  have hwindow : Layout.window.Lawful := Field.lawful_word UInt16 14 2
  have hfront : (r.fixedBytes.take 12).length = 12 := rfl
  -- the window is written before the two bytes in front of it
  obtain ⟨shared, window, back, hback, hshared, hwindowLength⟩ : ∃ shared window back : Bytes,
      buffer.drop 12 = shared ++ window ++ back ∧ shared.length = 2 ∧ window.length = 2 := by
    refine ⟨(buffer.drop 12).take 2, ((buffer.drop 12).drop 2).take 2,
      ((buffer.drop 12).drop 2).drop 2, ?_, ?_, ?_⟩
    · rw [List.append_assoc, List.take_append_drop, List.take_append_drop]
    · rw [List.length_take, List.length_drop]
      omega
    · rw [List.length_take, List.length_drop, List.length_drop]
      omega
  have hrest : buffer.drop 16 = back := by
    have hlength : (shared ++ window).length = 4 := by
      rw [List.length_append, hshared, hwindowLength]
    rw [show (16 : Nat) = 12 + 4 from rfl, ← List.drop_drop, hback, ← hlength, List.drop_left]
  have hwritten : Layout.window.set r.window
      (r.fixedBytes.take 12 ++ shared ++ window ++ back) = _ :=
    Field.set_between hwindow (by rw [List.length_append, hfront, hshared]; rfl) hwindowLength _
  have hboth := set_lengthAndFlags r hfront hshared
    (Layout.window.encode r.window window ++ back)
  unfold Fills at fills ⊢
  rw [fills, hrest, hback, ok_bind, ← List.append_assoc, ← List.append_assoc, hwritten, ok_bind,
    List.append_assoc (r.fixedBytes.take 12 ++ shared), hboth]
  rfl

/-- The fixed part, checksum and urgent pointer included. -/
theorem fills_fixed :
    Fills r.fixedBytes 20 buffer (Layout.sourcePort.set r.sourcePort buffer
      >>= Layout.destinationPort.set r.destinationPort
      >>= Layout.sequence.set r.sequence
      >>= Layout.acknowledgement.set (r.acknowledgement.getD ⟨0⟩)
      >>= Layout.window.set r.window
      >>= Layout.headerLength.set (UInt8.ofNat r.size)
      >>= Layout.flags.set (r.flags.put .ack r.acknowledgement.isSome)
      >>= Layout.checksum.set 0
      >>= Layout.urgent.set 0) := by
  have hwindow := fills_window r room (fills_numbers r room)
  have hchecksum := fills_word r room hwindow 2 (0 : UInt16) (by decide) rfl
  exact fills_word r room hchecksum 2 (0 : UInt16) (by decide) rfl

end Emit

/-- The length that is written. -/
theorem toNat_headerLength (r : Header) (rest : Bytes) :
    (Layout.headerLength.value (r.fixedBytes ++ rest)).toNat = r.size := by
  obtain ⟨_, hsize, hwords, _⟩ := r.size_bounds
  have hlt := r.flagBits_lt
  have hwindow : (Field.words 12 2 12).window (r.fixedBytes ++ rest)
      = Bytes.ofNat 2 (r.size / 4 * 4096 + r.flagBits) := rfl
  rw [headerLength_eq, Field.toNat_value_words, hwindow, Bytes.toNat_ofNat, Field.bitsOf_eq]
  omega

/-- None of the options ends the list. -/
theorem writable_items (r : Header) : ∀ o ∈ r.items, o.Writable := by
  unfold Header.items
  rcases r.windowScale with _ | _ <;> rcases r.maxSegmentSize with _ | _ <;>
    rcases r.sackPermitted with _ | _ <;> simp [Item.Writable]

/-- The options are written over as many bytes as there are for them. -/
theorem emitAll_items (r : Header) {old : Bytes} (length : old.length = r.size - 20) :
    Item.emitAll r.items old = .ok r.optionBytes := by
  have hroom : Item.totalSize r.items ≤ old.length := by
    rw [length]
    exact r.size_bounds.2.2.2
  rw [Item.emitAll_eq (fun o ho => (r.writable_items o ho).listed) hroom, length]
  rfl

/-- **The header written for contents,** whatever was there before. -/
theorem emit_eq (r : Header) {buffer : Bytes} (room : r.size ≤ buffer.length) :
    r.emit buffer = .ok (r.headerBytes ++ buffer.drop r.size) := by
  obtain ⟨least, _⟩ := size_bounds r
  have hfixed := (fills_fixed r (Nat.le_trans least room)).eq_ok
  have hall : r.fixedBytes.take 20 = r.fixedBytes := rfl
  rw [hall] at hfixed
  have hlong : 20 ≤ (r.fixedBytes ++ buffer.drop 20).length := by
    rw [List.length_append]
    exact Nat.le_add_right _ _
  -- what the option bytes were before does not matter
  have hold : ((r.fixedBytes ++ buffer.drop 20).take
      (Layout.headerLength.value (r.fixedBytes ++ buffer.drop 20)).toNat).drop 20
        = (buffer.drop 20).take (r.size - 20) := by
    rw [toNat_headerLength, List.drop_take]
    rfl
  have holdLength : ((buffer.drop 20).take (r.size - 20)).length = r.size - 20 := by
    rw [List.length_take, List.length_drop]
    omega
  have hnew := r.emitAll_items holdLength
  have hset : setOptions r.optionBytes (r.fixedBytes ++ buffer.drop 20) = _ :=
    setOptions_eq hlong (by rw [hold, holdLength, length_optionBytes])
  have htake : (r.fixedBytes ++ buffer.drop 20).take 20 = r.fixedBytes := rfl
  have hdrop : (r.fixedBytes ++ buffer.drop 20).drop (20 + r.optionBytes.length)
      = buffer.drop r.size := by
    rw [← List.drop_drop]
    show (buffer.drop 20).drop _ = _
    rw [List.drop_drop, length_optionBytes, Nat.add_sub_cancel' least]
  rw [htake, hdrop] at hset
  unfold Header.emit
  rw [hfixed, ok_bind, getOptions_eq hlong, hold, ok_bind, hnew, ok_bind, hset]
  rfl

/-! ## §5. Reading it again. -/

/-- The options that are written are those that are read. -/
theorem options_headerBytes (r : Header) (rest : Bytes) :
    options (r.headerBytes ++ rest) = .ok (r.items.map .ok) := by
  have hlong : 20 ≤ (r.headerBytes ++ rest).length := by
    rw [List.length_append, length_headerBytes]
    exact Nat.le_trans (size_bounds r).1 (Nat.le_add_right _ _)
  have hlength : (Layout.headerLength.value (r.headerBytes ++ rest)).toNat = r.size := by
    rw [headerBytes, List.append_assoc, toNat_headerLength]
  have hbytes : ((r.headerBytes ++ rest).take r.size).drop 20 = r.optionBytes := by
    rw [List.take_left' r.length_headerBytes]
    rfl
  have hyields : Item.Yields r.optionBytes (r.items.map .ok) :=
    Item.yields_encode (writable_items r) _
  unfold options
  rw [getOptions_eq hlong, hlength, hbytes, ok_bind, ← Item.yields_iff.1 hyields]
  rfl

/-- A small scale is taken over as it is. -/
theorem withOption_windowScale (r : Header) {shift : UInt8} (small : shift ≤ 14) :
    r.withOption (.windowScale shift) = { r with windowScale := some shift } :=
  congrArg (fun scale => { r with windowScale := some scale }) (if_pos small)

section Canonical

variable {r : Header} (canonical : r.Canonical)

include canonical

/-- The flags say already whether anything is acknowledged. -/
theorem flagBits_eq : r.flagBits = r.flags.bits.toNat := by
  rw [flagBits, ← canonical.acknowledgement, Flags.put_has]
  exact Nat.mod_eq_of_lt canonical.flags

theorem value_flags (rest : Bytes) : Layout.flags.value (r.fixedBytes ++ rest) = r.flags := by
  obtain ⟨_, hsize, _⟩ := r.size_bounds
  have hlt := r.flagBits_lt
  have hvalue : Layout.flags.value (r.fixedBytes ++ rest)
      = ⟨UInt16.ofNat (Field.bitsOf (Bytes.toNat
        (Bytes.ofNat 2 (r.size / 4 * 4096 + r.flagBits))) 0 12) &&& 0x1ff⟩ := rfl
  rw [hvalue]
  refine congrArg Flags.mk (UInt16.toNat_inj.1 ?_)
  rw [toNat_and_nine, UInt16.toNat_ofNat', Field.bitsOf_eq, Bytes.toNat_ofNat,
    ← flagBits_eq canonical]
  omega

/-- The fixed fields are those of the contents. -/
theorem fixedPart_fixedBytes (rest : Bytes) :
    fixedPart (r.fixedBytes ++ rest)
      = { r with windowScale := none, maxSegmentSize := none, sackPermitted := false } := by
  have hsource : Layout.sourcePort.value (r.fixedBytes ++ rest) = r.sourcePort :=
    Field.value_of_spells_word Field.fits_word (Field.spells_word rfl)
  have hdestination : Layout.destinationPort.value (r.fixedBytes ++ rest) = r.destinationPort :=
    Field.value_of_spells_word Field.fits_word (Field.spells_word rfl)
  have hsequence : Layout.sequence.value (r.fixedBytes ++ rest) = r.sequence :=
    Field.value_of_spells_word fits_sequence (Field.spells_word rfl)
  have hacknowledgement : Layout.acknowledgement.value (r.fixedBytes ++ rest)
      = r.acknowledgement.getD ⟨0⟩ :=
    Field.value_of_spells_word fits_sequence (Field.spells_word rfl)
  have hwindow : Layout.window.value (r.fixedBytes ++ rest) = r.window :=
    Field.value_of_spells_word Field.fits_word (Field.spells_word rfl)
  have hpresent : (if r.flags.has .ack = true then some (r.acknowledgement.getD ⟨0⟩) else none)
      = r.acknowledgement := by
    rw [canonical.acknowledgement]
    cases r.acknowledgement <;> rfl
  unfold fixedPart
  rw [hsource, hdestination, hsequence, hacknowledgement, hwindow, value_flags canonical, hpresent]

/-- The options fill in the rest. -/
theorem withOptions_items :
    withOptions { r with windowScale := none, maxSegmentSize := none, sackPermitted := false }
      (r.items.map .ok) = .ok r := by
  have hscale := canonical.windowScale
  obtain ⟨sourcePort, destinationPort, flags, sequence, acknowledgement, window, windowScale,
    maxSegmentSize, sackPermitted⟩ := r
  cases windowScale with
  | none => cases maxSegmentSize <;> cases sackPermitted <;> rfl
  | some shift =>
    -- the scale comes first, and is the only option that may be changed
    show withOptions (withOption _ (.windowScale shift)) _ = _
    rw [withOption_windowScale _ (hscale shift rfl)]
    cases maxSegmentSize <;> cases sackPermitted <;> rfl

/-- **Canonical contents are read from the header written for them.** -/
theorem parse_headerBytes (rest : Bytes) : Header.parse (r.headerBytes ++ rest) = .ok r := by
  obtain ⟨least, _⟩ := size_bounds r
  have hsplit : r.headerBytes ++ rest = r.fixedBytes ++ (r.optionBytes ++ rest) :=
    List.append_assoc _ _ _
  have hfixed := fixedPart_fixedBytes canonical (r.optionBytes ++ rest)
  have hroom : r.size ≤ (r.headerBytes ++ rest).length := by
    rw [List.length_append, length_headerBytes]
    exact Nat.le_add_right _ _
  have hcheck : format.check (r.headerBytes ++ rest) = .ok () := by
    refine HeaderFormat.accepts_iff.1 (accepts_iff.2 ⟨Nat.le_trans least hroom, ?_⟩)
    rw [hsplit, toNat_headerLength, ← hsplit]
    exact ⟨least, hroom⟩
  rw [← hsplit] at hfixed
  have hsource : Layout.sourcePort.value (r.headerBytes ++ rest) ≠ 0 := fun zero =>
    canonical.sourcePort ((congrArg Header.sourcePort hfixed).symm.trans zero)
  have hdestination : Layout.destinationPort.value (r.headerBytes ++ rest) ≠ 0 := fun zero =>
    canonical.destinationPort ((congrArg Header.destinationPort hfixed).symm.trans zero)
  unfold Header.parse HeaderFormat.reading
  rw [hcheck, ok_bind, options_headerBytes, hfixed]
  simp only [if_neg hsource, if_neg hdestination]
  exact withOptions_items canonical

end Canonical

/-- **TCP headers come back.**  Every contents have a header of five to eight
words of their own, which is what is written for them over anything, and
nothing behind it.  Contents are read from that header again, whatever follows
it, if they are canonical: such are all that were read from any bytes. -/
theorem segment_roundTrip (r : Header) :
    (20 ≤ r.size ∧ r.size ≤ 32 ∧ r.size % 4 = 0)
      ∧ ∃ header : Bytes, header.length = r.size
        ∧ (∀ buffer : Bytes, r.size ≤ buffer.length →
            r.emit buffer = .ok (header ++ buffer.drop r.size))
        ∧ ((r.Canonical ∨ ∃ data, Header.parse data = .ok r) →
            ∀ rest, Header.parse (header ++ rest) = .ok r) := by
  obtain ⟨least, most, words, _⟩ := size_bounds r
  refine ⟨⟨least, most, words⟩, r.headerBytes, r.length_headerBytes,
    fun buffer => r.emit_eq, fun known => parse_headerBytes ?_⟩
  rcases known with canonical | ⟨data, parsed⟩
  · exact canonical
  · exact canonical_of_parse parsed

/-- An answer to a request for a connection, with all three options, and
contents that were read from three words of options: the size stated last
counts, and a scale of twenty is taken for fourteen. -/
theorem segment_roundTrip_synAck :
    let answer : Header := ⟨443, 50000, ⟨0x012⟩, ⟨1⟩, some ⟨2⟩, 512, some 7, some 1460, true⟩
    let data : Bytes := [1, 187, 195, 80, 0, 0, 0, 1, 0, 0, 0, 0, 0x80, 2, 2, 0, 0, 0, 0, 0,
      2, 4, 5, 180, 3, 3, 20, 1, 2, 4, 1, 0]
    let read : Header := ⟨443, 50000, ⟨0x002⟩, ⟨1⟩, none, 512, some 14, some 256, false⟩
    answer.Canonical ∧ answer.size = 32 ∧ Header.parse data = .ok read ∧ read.size = 28
      ∧ (∃ header, answer.emit (List.replicate 33 0xff) = .ok (header ++ [0xff])
        ∧ Header.parse header = .ok answer)
      ∧ ∃ header, read.emit data = .ok (header ++ [2, 4, 1, 0])
        ∧ Header.parse header = .ok read := by
  intro answer data read
  have canonical : answer.Canonical :=
    ⟨by decide, by decide, by decide, by decide, fun shift hshift => by cases hshift; decide⟩
  have parsed : Header.parse data = .ok read := by decide
  have hanswer : answer.size = 32 := by decide
  have hread : read.size = 28 := by decide
  obtain ⟨_, header, _, hemit, hparse⟩ := segment_roundTrip answer
  obtain ⟨_, header', _, hemit', hparse'⟩ := segment_roundTrip read
  rw [hanswer] at hemit
  rw [hread] at hemit'
  refine ⟨canonical, hanswer, parsed, hread,
    ⟨header, hemit (List.replicate 33 0xff) (by decide), ?_⟩, header', hemit' data (by decide), ?_⟩
  · rw [← hparse (.inl canonical) [], List.append_nil]
  · rw [← hparse' (.inr ⟨data, parsed⟩) [], List.append_nil]

end Header

end PacketLayers.Tcp
