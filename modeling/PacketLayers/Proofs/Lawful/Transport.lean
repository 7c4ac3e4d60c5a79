/-
  PacketLayers.Proofs.Lawful.Transport
  ────────────────────────────────
  **UDP AND TCP ARE LAWFUL.**

  Both say nothing about their payload.  They derive a length and, behind it, a
  checksum over the pseudo header; the checksum is written last and lies apart
  from the length.
-/
import PacketLayers.Transport.Udp
import PacketLayers.Transport.Tcp.Header
import PacketLayers.Proofs.Dissector

namespace PacketLayers

/-! ## §1. UDP. -/

namespace Udp

theorem quiet : dissector.Quiet := ⟨fun _ _ => rfl, fun _ => rfl, fun _ _ => rfl, fun _ => rfl⟩

theorem lawful_length : Layout.length.Lawful := Field.lawful_word UInt16 4 2

theorem lawful_checksum : Layout.checksum.Lawful := Field.lawful_word UInt16 6 2

theorem accepts_iff {h : Bytes} :
    format.accepts h = true
      ↔ 8 ≤ h.length ∧ (Layout.length.value h = 0 ∨ 8 ≤ (Layout.length.value h).toNat) := by
  have hzero : Layout.length.value h = 0 ↔ (Layout.length.value h).toNat = 0 :=
    UInt16.toNat_inj.symm
  have hlength : headerLength = 8 := rfl
  rw [HeaderFormat.accepts_iff, format, hlength, hzero]
  simp only
  split
  · simp only [reduceCtorEq, false_iff]
    omega
  · split
    · simp only [reduceCtorEq, false_iff]
      omega
    · simp only [true_iff]
      omega

/-- The length that is written for a payload. -/
def lengthOf (payload : Bytes) : UInt16 :=
  if 65535 < 8 + payload.length then 0 else UInt16.ofNat (8 + payload.length)

/-- What the checksum is filled with. -/
def checksum? (cx : Context) : Option (Bytes → UInt16) :=
  match cx.mode, cx.pseudo with
  | .keep, _ => none
  | .fill, some pseudo => some fun h =>
    if ~~~ sum pseudo h cx.payload = 0 then 0xffff else ~~~ sum pseudo h cx.payload
  | .fill, none => some fun _ => 0

/-- The header with length and checksum up to date. -/
def work (cx : Context) (h : Bytes) : Bytes :=
  Layout.checksum.refill 0 (checksum? cx) (Layout.length.put (lengthOf cx.payload) h)

section Long

variable {h : Bytes} (long : 8 ≤ h.length)

include long

theorem covers_length : Layout.length.stop ≤ h.length := Nat.le_trans (by decide) long

theorem covers_checksum_put (cx : Context) :
    Layout.checksum.stop ≤ (Layout.length.put (lengthOf cx.payload) h).length := by
  rw [Field.length_put lawful_length (covers_length long)]
  exact long

theorem length_work (cx : Context) : (work cx h).length = h.length := by
  rw [work, Field.length_refill lawful_checksum (covers_checksum_put long cx),
    Field.length_put lawful_length (covers_length long)]

theorem value_length_work (cx : Context) :
    Layout.length.value (work cx h) = lengthOf cx.payload := by
  rw [work, Field.value_refill lawful_checksum (covers_checksum_put long cx) (by decide)]
  exact Field.value_put_word Field.fits_word (covers_length long) _

theorem work_again (cx : Context) : work cx (work cx h) = work cx h := by
  have hlength : Layout.length.Holds (lengthOf cx.payload) (work cx h) :=
    (Field.holds_put lawful_length (covers_length long) _).refill lawful_length lawful_checksum
      (by
        rw [Field.length_put lawful_length (covers_length long)]
        exact covers_length long)
      (covers_checksum_put long cx) (by decide)
  have hunfold : work cx (work cx h) = Layout.checksum.refill 0 (checksum? cx)
    (Layout.length.put (lengthOf cx.payload) (work cx h)) := rfl
  rw [hunfold, show Layout.length.put _ _ = _ from hlength, work]
  exact Field.refill_refill lawful_checksum (covers_checksum_put long cx)

/-- The length that is written is zero, or covers the header. -/
theorem accepts_work (cx : Context) : format.accepts (work cx h) = true := by
  rw [accepts_iff, length_work long, value_length_work long]
  refine ⟨long, ?_⟩
  unfold lengthOf
  split
  · exact .inl rfl
  · right
    rw [UInt16.toNat_ofNat']
    omega

end Long

theorem derives : dissector.Derives (format.accepts · = true) work where
  works {h} cx accepted := by
    have long := (accepts_iff.1 accepted).1
    show format.guarded _ _ _ = _
    rw [HeaderFormat.guarded_of_accepts accepted,
      Field.set_eq_put lawful_length (covers_length long), ok_bind, work]
    have hcovers := covers_checksum_put long cx
    rcases cx with ⟨payload, pseudo, _ | _⟩
    · cases pseudo with
      | none => exact Field.set_eq_put lawful_checksum hcovers 0
      | some pseudo => exact Field.set_fill lawful_checksum hcovers
    · rfl
  refuses cx refused := HeaderFormat.guarded_of_refused refused _ _
  length cx accepted := length_work (accepts_iff.1 accepted).1 cx
  stable cx accepted := accepts_work (accepts_iff.1 accepted).1 cx
  again cx accepted := work_again (accepts_iff.1 accepted).1 cx

theorem whole_length {h : Bytes} (whole : dissector.Whole h) : h.length = 8 := by
  obtain ⟨rest, hrest⟩ := whole
  exact (HeaderFormat.fixedLength_eq_ok.1 hrest).2

theorem lawful : dissector.Lawful :=
  .of_quiet quiet derives
    (fun _ _ => HeaderFormat.guarded_succeeds fun accepted => by
      rw [Field.get_eq_value (covers_length (accepts_iff.1 accepted).1)]
      exact ⟨_, rfl⟩)
    (fun _ => ⟨_, rfl⟩)
    (fun h cx => HeaderFormat.guarded_succeeds fun accepted => by
      have hchecksum : Layout.checksum.stop ≤ h.length := (accepts_iff.1 accepted).1
      rcases cx.pseudo with _ | pseudo
      · exact ⟨_, rfl⟩
      · simp only [verifyChecksum, Field.get_eq_value hchecksum, ok_bind]
        split <;> exact ⟨_, rfl⟩)
    (fun whole => Dissector.fit_of_required (by rw [whole_length whole]; rfl))
    (fun cx accepted whole => by
      have long := (accepts_iff.1 accepted).1
      refine ⟨[], HeaderFormat.fixedLength_eq_ok.2 ⟨?_, ?_⟩⟩
      · rw [List.append_nil]
        exact accepts_work long cx
      · rw [length_work long, whole_length whole]
        rfl)

end Udp

/-! ## §2. TCP. -/

namespace Tcp

theorem quiet : dissector.Quiet := ⟨fun _ _ => rfl, fun _ => rfl, fun _ _ => rfl, fun _ => rfl⟩

theorem headerLength_eq : Layout.headerLength = Field.words 12 2 12 := rfl

theorem lawful_headerLength : Layout.headerLength.Lawful := Field.lawful_words (by decide)

theorem lawful_checksum : Layout.checksum.Lawful := Field.lawful_word UInt16 16 2

theorem accepts_iff {h : Bytes} :
    format.accepts h = true ↔ 20 ≤ h.length ∧ 20 ≤ (Layout.headerLength.value h).toNat
      ∧ (Layout.headerLength.value h).toNat ≤ h.length :=
  HeaderFormat.accepts_checked rfl

/-- What the checksum is filled with. -/
def checksum? (cx : Context) : Option (Bytes → UInt16) :=
  match cx.mode, cx.pseudo with
  | .fill, some pseudo => some fun h => ~~~ sum pseudo h cx.payload
  | _, _ => none

/-- The header with length and checksum up to date. -/
def work (cx : Context) (h : Bytes) : Bytes :=
  Layout.checksum.refill 0 (checksum? cx) (Layout.headerLength.put (UInt8.ofNat h.length) h)

section Long

variable {h : Bytes} (long : 20 ≤ h.length)

include long

theorem covers_headerLength : Layout.headerLength.stop ≤ h.length := Nat.le_trans (by decide) long

theorem covers_checksum_put (n : UInt8) :
    Layout.checksum.stop ≤ (Layout.headerLength.put n h).length := by
  rw [Field.length_put lawful_headerLength (covers_headerLength long)]
  exact Nat.le_trans (by decide) long

theorem length_work (cx : Context) : (work cx h).length = h.length := by
  rw [work, Field.length_refill lawful_checksum (covers_checksum_put long _),
    Field.length_put lawful_headerLength (covers_headerLength long)]

theorem toNat_headerLength_work (cx : Context) :
    (Layout.headerLength.value (work cx h)).toNat = h.length % 256 / 4 % 16 * 4 := by
  rw [work, Field.value_refill lawful_checksum (covers_checksum_put long _) (by decide)]
  exact Field.toNat_value_put_words (by decide) (covers_headerLength long) h.length

theorem work_again (cx : Context) : work cx (work cx h) = work cx h := by
  -- the length that is written is there already, and the checksum does not touch it
  have hholds : Layout.headerLength.Holds (UInt8.ofNat h.length) (work cx h) :=
    (Field.holds_put lawful_headerLength (covers_headerLength long) _).refill lawful_headerLength
      lawful_checksum
      (by
        rw [Field.length_put lawful_headerLength (covers_headerLength long)]
        exact covers_headerLength long)
      (covers_checksum_put long _) (by decide)
  have hunfold : work cx (work cx h) = Layout.checksum.refill 0 (checksum? cx)
    (Layout.headerLength.put (UInt8.ofNat (work cx h).length) (work cx h)) := rfl
  rw [hunfold, length_work long, show Layout.headerLength.put _ _ = _ from hholds, work]
  exact Field.refill_refill lawful_checksum (covers_checksum_put long _)

end Long

theorem derives : dissector.Derives (20 ≤ ·.length) work where
  works {h} cx long := by
    have hlong : ¬ h.length < minHeaderLength := Nat.not_lt.2 long
    show (if h.length < minHeaderLength then pure h else _) = _
    rw [if_neg hlong, Field.set_eq_put lawful_headerLength (covers_headerLength long), ok_bind,
      work]
    have hcovers := covers_checksum_put long (UInt8.ofNat h.length)
    rcases cx with ⟨payload, _ | pseudo, _ | _⟩
    · rfl
    · rfl
    · exact Field.set_fill lawful_checksum hcovers
    · rfl
  refuses {h} cx short := if_pos (Nat.lt_of_not_le short)
  length cx long := length_work long cx
  stable cx long := (length_work long cx).symm ▸ long
  again cx long := work_again long cx

theorem sized : dissector.Sized format (fun h => (Layout.headerLength.value h).toNat) 20 where
  accepts := by
    intro h
    rw [accepts_iff]
    omega
  length _ := rfl
  append long rest := by rw [Field.value_append (covers_headerLength long)]

theorem whole_iff {h : Bytes} :
    dissector.Whole h ↔ 20 ≤ h.length ∧ (Layout.headerLength.value h).toNat = h.length :=
  sized.whole_iff

theorem requiredLength_eq {h : Bytes} (long : 20 ≤ h.length) :
    requiredLength h = .ok (some (max (Layout.headerLength.value h).toNat 20)) := by
  have hlong : ¬ h.length < minHeaderLength := Nat.not_lt.2 long
  unfold requiredLength
  rw [if_neg hlong, Field.get_eq_value (covers_headerLength long)]
  rfl

theorem lawful : dissector.Lawful :=
  .of_quiet quiet derives (fun _ n => ⟨n, rfl⟩)
    (fun h => by
      by_cases long : 20 ≤ h.length
      · exact ⟨_, requiredLength_eq long⟩
      · exact ⟨_, if_pos (Nat.lt_of_not_le long)⟩)
    (fun _ _ => HeaderFormat.guarded_succeeds fun _ => ⟨_, rfl⟩)
    (fun {h} whole => Dissector.fit_of_required (by
      obtain ⟨long, hlength⟩ := whole_iff.1 whole
      refine (requiredLength_eq long).trans ?_
      rw [hlength, Nat.max_eq_left long]))
    (fun cx long whole => by
      -- a length of whole words is written as it is
      obtain ⟨n, hn, hwords⟩ := Field.toNat_value_words_shape _ 12 2 12
      have hlength := (whole_iff.1 whole).2
      rw [headerLength_eq, hwords] at hlength
      rw [whole_iff, length_work long, toNat_headerLength_work long]
      omega)

end Tcp

end PacketLayers
