/-
  PacketLayers.Layer.Dissector
  ────────────────────────────────
  **WHAT A PROTOCOL TELLS THE PACKET ENGINE.**

  A `Dissector` answers, for the header bytes of one layer: how long the
  header is, how much of what follows is payload, which protocol the payload
  has, how to announce another one, and how the derived fields are brought up
  to date.  The engine knows protocols only through these answers.

  Apart from `headerLength` the questions may be asked about header bytes that
  an edit has cut or overwritten; they answer in `Access`, and a dissector
  that guards its accesses never faults.
-/
import PacketLayers.Checksum.PseudoHeader
import PacketLayers.Layer.Discriminant

namespace PacketLayers

/-! ## §1. The surroundings of a layer. -/

/-- Whether checksum fields are brought up to date. -/
inductive ChecksumMode where
  /-- They are filled. -/
  | fill
  /-- They are left alone, for hardware to fill. -/
  | keep
  deriving DecidableEq, Repr

/-- What a layer knows of its surroundings when its derived fields are
computed or checked. -/
structure Context where
  /-- The bytes of the payload, without what follows it. -/
  payload : Bytes
  /-- The pseudo header lent by the enclosing layer. -/
  pseudo : Option PseudoHeader
  /-- Whether checksum fields are to be filled. -/
  mode : ChecksumMode

/-! ## §2. Dissectors. -/

/-- The behaviour of one protocol. -/
structure Dissector where
  /-- The protocol. -/
  kind : LayerKind
  /-- The length of the header at the start of the bytes. -/
  headerLength : Bytes → Except Error Nat
  /-- The number of payload bytes, given the header and the number of bytes
  after it; the engine takes no more than there are. -/
  payloadLength : Bytes → Nat → Access Nat := fun _ available => .ok available
  /-- What identifies the protocol of the payload, given the header and the
  first payload bytes. -/
  next : Bytes → Bytes → Access (Option Discriminant) := fun _ _ => .ok none
  /-- Whether the payload stays bytes whatever its protocol. -/
  sealed : Bytes → Access Bool := fun _ => .ok false
  /-- How a payload of some protocol is announced. -/
  discriminantOf : LayerKind → Option Discriminant := fun _ => none
  /-- The header with a discriminant written into it. -/
  setNext : Bytes → Discriminant → Access Bytes := fun h _ => .ok h
  /-- The header of a layer made from nothing. -/
  defaultHeader : Bytes
  /-- The pseudo header lent to the payload. -/
  pseudoHeader : Bytes → Access (Option PseudoHeader) := fun _ => .ok none
  /-- The length that the header's own fields ask for. -/
  requiredLength : Bytes → Access (Option Nat) := fun _ => .ok none
  /-- The header with lengths and checksums up to date. -/
  recompute : Bytes → Context → Access Bytes := fun h _ => .ok h
  /-- Whether the checksum of the layer holds, if it has one that can be
  checked. -/
  checksumValid : Bytes → Context → Access (Option Bool) := fun _ _ => .ok none

/-! ## §3. Header formats. -/

/-- The header format of a protocol: when its fields may be read from bytes. -/
structure HeaderFormat where
  /-- The protocol. -/
  kind : LayerKind
  /-- Accepts bytes that hold a whole header. -/
  check : Bytes → Except Error Unit

namespace HeaderFormat

/-- Whether the format accepts bytes. -/
def accepts (f : HeaderFormat) (h : Bytes) : Bool :=
  match f.check h with
  | .ok _ => true
  | .error _ => false

/-- Ask about a header only if the format accepts it. -/
def guarded {α : Type} (f : HeaderFormat) (h : Bytes) (otherwise : α) (ask : Access α) :
    Access α :=
  if f.accepts h then ask else .ok otherwise

/-- Read a header after its check; bytes that a check accepts do not fault, so
the last case is never the answer. -/
def reading {α : Type} (f : HeaderFormat) (h : Bytes) (ask : Access α) : Except Error α := do
  f.check h
  match ask with
  | .ok a => return a
  | .error _ => throw .truncated

/-- A format whose header has a fixed length. -/
def fixed (kind : LayerKind) (size : Nat) : HeaderFormat where
  kind := kind
  check h := if h.length < size then .error .truncated else .ok ()

/-- The length of a header that is accepted, for formats of a fixed length. -/
def fixedLength (f : HeaderFormat) (size : Nat) (h : Bytes) : Except Error Nat :=
  (f.check h).map fun _ => size

end HeaderFormat

/-! ## §4. Header contents as values. -/

/-- Types of values that stand for the contents of a header. -/
class WireHeader (α : Type) where
  /-- The protocol the header belongs to. -/
  dissector : Dissector
  /-- The contents of a header. -/
  parse : Bytes → Except Error α
  /-- The length of the header written for a value. -/
  size : α → Nat
  /-- Write a value over the header at the start of the bytes. -/
  emit : α → Bytes → Access Bytes
  /-- The value in text for readers. -/
  text : α → String

/-- The header written for a value. -/
def WireHeader.toBytes {α : Type} [WireHeader α] (r : α) : Access Bytes :=
  emit r (List.replicate (size r) 0)

end PacketLayers
