/-
  PacketLayers.Proofs.Lawful.Control
  ────────────────────────────────
  **CONTROL MESSAGES ARE LAWFUL.**

  The three control protocols have headers of eight bytes with a checksum in
  the same place.  They announce nothing and lend nothing; what they derive is
  the checksum, and they differ in what it covers and when it is filled.
-/
import PacketLayers.Control.Icmpv4
import PacketLayers.Control.Icmpv6
import PacketLayers.Control.Igmp
import PacketLayers.Proofs.Dissector

namespace PacketLayers

/-! ## §1. A checksum in the header. -/

namespace Control

/-- The checksum of a control message. -/
def checksum : Field UInt16 := .word UInt16 2 2

theorem lawful_checksum : checksum.Lawful := Field.lawful_word UInt16 2 2

theorem covers_checksum {h : Bytes} (long : 8 ≤ h.length) : checksum.stop ≤ h.length :=
  Nat.le_trans (by decide) long

variable {fill? : Context → Option (Bytes → UInt16)}

/-- A control protocol has headers of eight bytes, says nothing of its body,
and works on the checksum. -/
theorem derives {d : Dissector} {kind : LayerKind} {ask : Bytes → Context → Access Bytes}
    (recompute : ∀ h cx, d.recompute h cx = (HeaderFormat.fixed kind 8).guarded h h (ask h cx))
    (works : ∀ {h : Bytes} (cx : Context), checksum.stop ≤ h.length →
      ask h cx = .ok (checksum.refill 0 (fill? cx) h)) :
    d.Derives (8 ≤ ·.length) (fun cx => checksum.refill 0 (fill? cx)) where
  works cx long := by
    rw [recompute, HeaderFormat.guarded_of_accepts (HeaderFormat.accepts_fixed.2 long),
      works cx (covers_checksum long)]
  refuses cx short := by
    rw [recompute, HeaderFormat.guarded_of_refused fun h => short (HeaderFormat.accepts_fixed.1 h)]
  length cx long := Field.length_refill lawful_checksum (covers_checksum long)
  stable cx long := by
    rw [Field.length_refill lawful_checksum (covers_checksum long)]
    exact long
  again cx long := Field.refill_refill lawful_checksum (covers_checksum long)

theorem lawful_of {d : Dissector} {kind : LayerKind} (quiet : d.Quiet)
    (r : d.Derives (8 ≤ ·.length) (fun cx => checksum.refill 0 (fill? cx)))
    (length : d.headerLength = (HeaderFormat.fixed kind 8).fixedLength 8)
    (payloadLength : ∀ h available, d.payloadLength h available = .ok available)
    (required : ∀ h, d.requiredLength h = .ok (some 8))
    (checksumValid : ∀ h cx, ∃ v, d.checksumValid h cx = .ok v) : d.Lawful :=
  .of_quiet quiet r (fun h n => ⟨n, payloadLength h n⟩) (fun h => ⟨_, required h⟩) checksumValid
    (fun whole => Dissector.fit_of_required (by
      rw [required, (Dissector.whole_fixed length).1 whole]))
    (fun cx long whole => by
      rw [Dissector.whole_fixed length] at whole ⊢
      rw [Field.length_refill lawful_checksum (covers_checksum long), whole])

end Control

/-! ## §2. Messages of IPv4. -/

namespace Icmpv4

theorem quiet : dissector.Quiet := ⟨fun _ _ => rfl, fun _ => rfl, fun _ _ => rfl, fun _ => rfl⟩

/-- What the checksum is filled with. -/
def checksum? (cx : Context) : Option (Bytes → UInt16) :=
  match cx.mode with
  | .fill => some fun h => ~~~ sum h cx.payload
  | .keep => none

theorem derives : dissector.Derives (8 ≤ ·.length)
    (fun cx => Control.checksum.refill 0 (checksum? cx)) :=
  Control.derives (fun _ _ => rfl) fun cx covers => by
    rcases cx with ⟨payload, pseudo, _ | _⟩
    · exact Field.set_fill Control.lawful_checksum covers
    · rfl

theorem lawful : dissector.Lawful :=
  Control.lawful_of quiet derives rfl (fun _ _ => rfl) (fun _ => rfl)
    fun _ _ => HeaderFormat.guarded_succeeds fun _ => ⟨_, rfl⟩

end Icmpv4

/-! ## §3. Messages of IPv6. -/

namespace Icmpv6

theorem quiet : dissector.Quiet := ⟨fun _ _ => rfl, fun _ => rfl, fun _ _ => rfl, fun _ => rfl⟩

/-- What the checksum is filled with; there is none outside an IP
layer. -/
def checksum? (cx : Context) : Option (Bytes → UInt16) :=
  match cx.mode, cx.pseudo with
  | .fill, some pseudo => some fun h => ~~~ sum pseudo h cx.payload
  | _, _ => none

theorem derives : dissector.Derives (8 ≤ ·.length)
    (fun cx => Control.checksum.refill 0 (checksum? cx)) :=
  Control.derives (fun _ _ => rfl) fun cx covers => by
    rcases cx with ⟨payload, _ | pseudo, _ | _⟩
    · rfl
    · rfl
    · exact Field.set_fill Control.lawful_checksum covers
    · rfl

theorem lawful : dissector.Lawful :=
  Control.lawful_of quiet derives rfl (fun _ _ => rfl) (fun _ => rfl)
    fun _ _ => HeaderFormat.guarded_succeeds fun _ => ⟨_, rfl⟩

end Icmpv6

/-! ## §4. Group management. -/

namespace Igmp

theorem quiet : dissector.Quiet := ⟨fun _ _ => rfl, fun _ => rfl, fun _ _ => rfl, fun _ => rfl⟩

/-- What the checksum is filled with. -/
def checksum? (cx : Context) : Option (Bytes → UInt16) :=
  match cx.mode with
  | .fill => some fun h => ~~~ sum h cx.payload
  | .keep => none

theorem derives : dissector.Derives (8 ≤ ·.length)
    (fun cx => Control.checksum.refill 0 (checksum? cx)) :=
  Control.derives (fun _ _ => rfl) fun cx covers => by
    rcases cx with ⟨payload, pseudo, _ | _⟩
    · exact Field.set_fill Control.lawful_checksum covers
    · rfl

theorem lawful : dissector.Lawful :=
  Control.lawful_of quiet derives rfl (fun _ _ => rfl) (fun _ => rfl)
    fun _ _ => HeaderFormat.guarded_succeeds fun _ => ⟨_, rfl⟩

end Igmp

end PacketLayers
