/-
  PacketLayers.Error
  ────────────────────────────────
  **WHY AN OPERATION ON WIRE BYTES GIVES NO VALUE.**

  Two unrelated reasons are kept apart.  An `Error` is part of the domain: a
  capture is cut short, a header contradicts itself, a layer cannot name a
  payload.  A `Fault` is a broken promise of the caller: an accessor was used
  on bytes that its guard would have refused.  Operations that only a caller
  can get wrong answer in `Access`, so "never faults" is a statement about
  them and not an assumption.
-/

namespace PacketLayers

/-! ## §1. Errors of packets and requests. -/

/-- What can be wrong with a packet, or with a request about one. -/
inductive Error where
  /-- The bytes end before the header does. -/
  | truncated
  /-- A window or field position lies outside the bytes it was asked of. -/
  | outOfBounds
  /-- The payload protocol is required to be known and is not. -/
  | notImplemented
  /-- The packet states a version or type that nothing here describes. -/
  | unrecognized
  /-- The packet contradicts itself. -/
  | malformed
  /-- The layer has no way to do what was asked of it. -/
  | unsupported
  deriving DecidableEq, Repr

/-- The sentence shown for an error. -/
def Error.message : Error → String
  | .truncated => "truncated packet"
  | .outOfBounds => "access out of bounds"
  | .notImplemented => "protocol not implemented"
  | .unrecognized => "unrecognized packet"
  | .malformed => "malformed packet"
  | .unsupported => "unsupported operation"

/-! ## §2. Faults of callers. -/

/-- How an unguarded access can fail. -/
inductive Fault where
  /-- An index or range lies outside the bytes. -/
  | outOfRange
  /-- Bytes were copied onto a range of another length. -/
  | lengthMismatch
  deriving DecidableEq, Repr

/-- The result of an access that a caller may have failed to guard. -/
abbrev Access (α : Type) := Except Fault α

end PacketLayers
