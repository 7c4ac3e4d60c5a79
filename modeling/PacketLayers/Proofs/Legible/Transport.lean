/-
  PacketLayers.Proofs.Legible.Transport
  ────────────────────────────────
  **WHAT STANDS ABOVE IP IS LEGIBLE.**

  Transport headers and control messages take plain bytes.  Their checksum is
  the last field written and completes the sum over everything else, with the
  pseudo header or without; UDP writes all ones in place of a zero, which
  completes the sum as well.
-/
import PacketLayers.Proofs.Checksum
import PacketLayers.Proofs.Legible

namespace PacketLayers

/-! ## §1. UDP. -/

namespace Udp

theorem accepts_of_whole {h : Bytes} (whole : dissector.Whole h) : format.accepts h = true := by
  have hlength := whole_length whole
  obtain ⟨rest, hrest⟩ := whole
  have hcheck := (HeaderFormat.fixedLength_eq_ok.1 hrest).1
  rw [accepts_iff, Field.value_append (covers_length (by omega))] at hcheck
  rw [accepts_iff]
  exact ⟨by omega, hcheck.2⟩

/-- The value written completes the sum that it is written for. -/
theorem completes_checksum (sum : UInt16) :
    Checksum.Completes sum (if ~~~ sum = 0 then 0xffff else ~~~ sum) := by
  by_cases hzero : ~~~ sum = 0
  · have hsum := congrArg UInt16.toNat hzero
    rw [Checksum.toNat_complement] at hsum
    have hones : sum.toNat = 65535 := by
      have hlt := sum.toNat_lt
      have hsum : 65535 - sum.toNat = 0 := hsum
      omega
    rw [if_pos hzero, Checksum.Completes, hones]
    decide
  · rw [if_neg hzero]
    exact Checksum.completes_complement sum

theorem sum_work {h : Bytes} (whole : dissector.Whole h) {cx : Context} {pseudo : PseudoHeader}
    (fills : cx.mode = .fill) (lent : cx.pseudo = some pseudo) :
    sum pseudo (work cx h) cx.payload = 0xffff := by
  have hlength := whole_length whole
  have long : 8 ≤ h.length := by omega
  have hcovers := covers_checksum_put long cx
  have hshort : (Layout.length.put (lengthOf cx.payload) h).length ≤ 2 ^ 49 := by
    rw [Field.length_put lawful_length (covers_length long)]
    omega
  rw [work, checksum?, fills, lent]
  exact Checksum.upperLayer_filled (by decide) hcovers hshort (completes_checksum _)

/-- The checksum holds where there is a pseudo header to check it with. -/
theorem checksumValid_work {h : Bytes} (whole : dissector.Whole h) {cx : Context}
    (fills : cx.mode = .fill) :
    dissector.checksumValid (work cx h) cx = .ok (cx.pseudo.map fun _ => true) := by
  have accepted' := accepts_work (accepts_iff.1 (accepts_of_whole whole)).1 cx
  have hcovers : Layout.checksum.stop ≤ (work cx h).length := (accepts_iff.1 accepted').1
  show format.guarded _ _ _ = _
  rw [HeaderFormat.guarded_of_accepts accepted']
  cases hlent : cx.pseudo with
  | none => rfl
  | some pseudo =>
    have hverify : verifyChecksum pseudo cx.payload (work cx h) = .ok true := by
      unfold verifyChecksum
      rw [Field.get_eq_value hcovers, ok_bind, sum_work whole fills hlent]
      split <;> rfl
    simp only [hverify, ok_bind]
    rfl

theorem payloadLength_eq {h : Bytes} (accepted : format.accepts h = true) (available : Nat) :
    dissector.payloadLength h available
      = .ok (if (Layout.length.value h).toNat = 0 then available
        else (Layout.length.value h).toNat - headerLength) := by
  show format.guarded _ _ _ = _
  rw [HeaderFormat.guarded_of_accepts accepted,
    Field.get_eq_value (covers_length (accepts_iff.1 accepted).1)]
  rfl

/-- The payload length that the work leaves is what it has written, less the
header. -/
theorem payloadLength_work {h : Bytes} (long : 8 ≤ h.length) (cx : Context) (available : Nat) :
    dissector.payloadLength (work cx h) available
      = .ok (if (lengthOf cx.payload).toNat = 0 then available
        else (lengthOf cx.payload).toNat - headerLength) := by
  rw [payloadLength_eq (accepts_work long cx), value_length_work long]

theorem legible : dissector.Legible fun _ => True where
  lawful := lawful
  reads {h} whole rest := by
    have hlength := whole_length whole
    have accepted := accepts_of_whole whole
    refine HeaderFormat.fixedLength_eq_ok.2 ⟨?_, hlength⟩
    rw [accepts_iff] at accepted ⊢
    rw [Field.value_append (covers_length (by omega)), List.length_append]
    exact ⟨by omega, accepted.2⟩
  nonempty whole := List.ne_nil_of_length_pos (by rw [whole_length whole]; decide)
  fair_setNext _ _ _ _ := trivial
  fair_recompute _ _ _ := trivial
  unsealed _ _ := rfl
  states _ _ _ named _ := by cases named
  stays _ := rfl
  measures {h h' cx} whole _ ok _ := by
    have accepted := accepts_of_whole whole
    have long := (accepts_iff.1 accepted).1
    rcases derives.cases ok with ⟨_, rfl⟩ | ⟨refused, _⟩
    · exact ⟨_, payloadLength_work long cx _, Dissector.payload_le_stated 8 _ rfl⟩
    · exact absurd accepted refused
  checks {h h' cx} whole _ fills ok := by
    rcases derives.cases ok with ⟨_, rfl⟩ | ⟨refused, _⟩
    · refine ⟨_, checksumValid_work whole fills, ?_⟩
      cases cx.pseudo <;> simp
    · exact absurd (accepts_of_whole whole) refused

end Udp

/-! ## §2. TCP. -/

namespace Tcp

theorem length_of_whole {h : Bytes} (whole : dissector.Whole h) : h.length ≤ 60 := by
  have hlength := (whole_iff.1 whole).2
  rw [headerLength_eq] at hlength
  exact hlength ▸ Field.toNat_value_words_le h 12 2 12

theorem sum_work {h : Bytes} (whole : dissector.Whole h) {cx : Context} {pseudo : PseudoHeader}
    (fills : cx.mode = .fill) (lent : cx.pseudo = some pseudo) :
    sum pseudo (work cx h) cx.payload = 0xffff := by
  have long := (whole_iff.1 whole).1
  have hmax := length_of_whole whole
  have hcovers := covers_checksum_put long (UInt8.ofNat h.length)
  have hshort : (Layout.headerLength.put (UInt8.ofNat h.length) h).length ≤ 2 ^ 49 := by
    rw [Field.length_put lawful_headerLength (covers_headerLength long)]
    omega
  rw [work, checksum?, fills, lent]
  exact Checksum.upperLayer_filled (by decide) hcovers hshort (Checksum.completes_complement _)

/-- The checksum holds where there is a pseudo header to check it with. -/
theorem checksumValid_work {h : Bytes} (whole : dissector.Whole h) {cx : Context}
    (fills : cx.mode = .fill) :
    dissector.checksumValid (work cx h) cx = .ok (cx.pseudo.map fun _ => true) := by
  have whole' := (lawful.whole_recompute whole (derives.works cx (whole_iff.1 whole).1)).1
  show format.guarded _ _ _ = _
  rw [HeaderFormat.guarded_of_accepts (sized.accepts_of_whole whole')]
  cases hlent : cx.pseudo with
  | none => rfl
  | some pseudo =>
    rw [Option.map_some, verifyChecksum, sum_work whole fills hlent]
    rfl

theorem legible : dissector.Legible fun _ => True where
  lawful := lawful
  reads := sized.reads
  nonempty := sized.nonempty (by decide)
  fair_setNext _ _ _ _ := trivial
  fair_recompute _ _ _ := trivial
  unsealed _ _ := rfl
  states _ _ _ named _ := by cases named
  stays _ := rfl
  measures _ _ _ _ := ⟨_, rfl, Nat.le_refl _⟩
  checks {h h' cx} whole _ fills ok := by
    rcases derives.cases ok with ⟨_, rfl⟩ | ⟨short, _⟩
    · refine ⟨_, checksumValid_work whole fills, ?_⟩
      cases cx.pseudo <;> simp
    · exact absurd (whole_iff.1 whole).1 short

end Tcp

/-! ## §3. Control messages. -/

namespace Control

variable {d : Dissector} {kind : LayerKind} {fill? : Context → Option (Bytes → UInt16)}

/-- A control protocol whose check is met by the checksum that it fills. -/
theorem legible_of (lawful : d.Lawful) (quiet : d.Quiet)
    (r : d.Derives (8 ≤ ·.length) (fun cx => checksum.refill 0 (fill? cx)))
    (length : d.headerLength = (HeaderFormat.fixed kind 8).fixedLength 8)
    (announces : ∀ kind, d.discriminantOf kind = none)
    (payloadLength : ∀ h available, d.payloadLength h available = .ok available)
    (checks : ∀ {h : Bytes} {cx : Context}, h.length = 8 → cx.mode = .fill →
      ∃ v, d.checksumValid (checksum.refill 0 (fill? cx) h) cx = .ok v ∧ v ≠ some false) :
    d.Legible fun _ => True where
  lawful := lawful
  reads := (Dissector.sized_fixed length).reads
  nonempty := (Dissector.sized_fixed length).nonempty (by decide)
  fair_setNext _ _ _ _ := trivial
  fair_recompute _ _ _ := trivial
  unsealed _ _ := quiet.isSealed _
  states _ _ _ named _ := by
    rw [announces] at named
    cases named
  stays _ := quiet.next _ _
  measures _ _ _ _ := ⟨_, payloadLength _ _, Nat.le_refl _⟩
  checks {h h' cx} whole _ filling ok := by
    have hlength := (Dissector.whole_fixed length).1 whole
    rcases r.cases ok with ⟨_, rfl⟩ | ⟨short, _⟩
    · exact checks hlength filling
    · exact absurd (by omega) short

/-- A message of eight bytes that was filled passes a check of the sum that the
checksum completes. -/
theorem checksumValid_refilled {h : Bytes} (length : h.length = 8) {cx : Context}
    {pseudo : Option PseudoHeader} {protocol : IpProtocol}
    (fills : fill? cx = some fun h => ~~~ Checksum.upperLayer pseudo protocol h cx.payload)
    (asks : ∀ h, d.checksumValid h cx = (HeaderFormat.fixed kind 8).guarded h none
      (.ok (some (Checksum.upperLayer pseudo protocol h cx.payload == 0xffff)))) :
    d.checksumValid (checksum.refill 0 (fill? cx) h) cx = .ok (some true) := by
  have hcovers : checksum.stop ≤ h.length := covers_checksum (by omega)
  have accepted : (HeaderFormat.fixed kind 8).accepts (checksum.refill 0 (fill? cx) h) = true := by
    rw [HeaderFormat.accepts_fixed, Field.length_refill lawful_checksum hcovers]
    omega
  have hsum : Checksum.upperLayer pseudo protocol (checksum.refill 0 (fill? cx) h) cx.payload
      = 0xffff := by
    rw [fills]
    exact Checksum.upperLayer_filled (by decide) hcovers (by omega)
      (Checksum.completes_complement _)
  rw [asks, HeaderFormat.guarded_of_accepts accepted, hsum]
  rfl

end Control

namespace Icmpv4

theorem checksumValid_work {h : Bytes} (length : h.length = 8) {cx : Context}
    (fills : cx.mode = .fill) :
    dissector.checksumValid (Control.checksum.refill 0 (checksum? cx) h) cx = .ok (some true) :=
  Control.checksumValid_refilled length (by rw [checksum?, fills]; rfl) fun _ => rfl

theorem legible : dissector.Legible fun _ => True :=
  Control.legible_of lawful quiet derives rfl (fun _ => rfl) (fun _ _ => rfl)
    fun length fills => ⟨_, checksumValid_work length fills, by simp⟩

end Icmpv4

namespace Icmpv6

/-- The checksum holds where there is a pseudo header to check it with. -/
theorem checksumValid_work {h : Bytes} (length : h.length = 8) {cx : Context}
    (fills : cx.mode = .fill) :
    dissector.checksumValid (Control.checksum.refill 0 (checksum? cx) h) cx
      = .ok (cx.pseudo.map fun _ => true) := by
  obtain ⟨payload, pseudo, mode⟩ := cx
  obtain rfl : mode = .fill := fills
  cases pseudo with
  | none => exact ite_self _
  | some pseudo => exact Control.checksumValid_refilled length rfl fun _ => rfl

theorem legible : dissector.Legible fun _ => True :=
  Control.legible_of lawful quiet derives rfl (fun _ => rfl) (fun _ _ => rfl)
    fun {_ cx} length fills => ⟨_, checksumValid_work length fills, by cases cx.pseudo <;> simp⟩

end Icmpv6

namespace Igmp

theorem checksumValid_work {h : Bytes} (length : h.length = 8) {cx : Context}
    (fills : cx.mode = .fill) :
    dissector.checksumValid (Control.checksum.refill 0 (checksum? cx) h) cx = .ok (some true) :=
  Control.checksumValid_refilled length (by rw [checksum?, fills]; rfl) fun _ => rfl

theorem legible : dissector.Legible fun _ => True :=
  Control.legible_of lawful quiet derives rfl (fun _ => rfl) (fun _ _ => rfl)
    fun length fills => ⟨_, checksumValid_work length fills, by simp⟩

end Igmp

end PacketLayers
