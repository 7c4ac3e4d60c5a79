/-
  PacketLayers.Link.Ethernet
  ────────────────────────────────
  **ETHERNET HEADERS.**

      0         6         12     14
      destination source    type   payload …

  A type of at most 1500 is the length of the payload instead: the payload
  then stays bytes, and what follows it is padding.
-/
import PacketLayers.Address.Ethernet
import PacketLayers.Layer.Dissector

namespace PacketLayers.Ethernet

/-! ## §1. Layout. -/

/-- The length of the header. -/
def headerLength : Nat := 14

/-- The header format. -/
def format : HeaderFormat := .fixed .ethernet headerLength

namespace Layout

def destination : Field EthernetAddress := .octets 0 6
def source : Field EthernetAddress := .octets 6 6
def etherType : Field EtherType := .word EtherType 12 2

end Layout

/-! ## §2. Contents. -/

/-- The contents of an Ethernet header. -/
structure Header where
  source : EthernetAddress
  destination : EthernetAddress
  etherType : EtherType
  deriving DecidableEq

namespace Header

/-- The contents of a header. -/
def parse (h : Bytes) : Except Error Header := do
  format.check h
  return ⟨Layout.source.value h, Layout.destination.value h, Layout.etherType.value h⟩

/-- Write the contents over a header. -/
def emit (r : Header) (h : Bytes) : Access Bytes :=
  Layout.source.set r.source h
    >>= Layout.destination.set r.destination
    >>= Layout.etherType.set r.etherType

/-- The contents in text for readers. -/
def text (r : Header) : String :=
  "EthernetII src=" ++ EthernetAddress.text r.source
    ++ " dst=" ++ EthernetAddress.text r.destination
    ++ " type=" ++ r.etherType.text

end Header

/-! ## §3. Behaviour as a layer. -/

/-- The payload length that a header states, or all that is available. -/
def payloadLength (h : Bytes) (available : Nat) : Access Nat :=
  format.guarded h available do
    let type ← Layout.etherType.get h
    return if type.isLength then type.code.toNat else available

/-- The type that a header states, unless it is a length. -/
def next (h : Bytes) : Access (Option Discriminant) :=
  format.guarded h none do
    let type ← Layout.etherType.get h
    return if type.isLength then none else some (.etherType type)

/-- Write the type of the payload. -/
def setNext (h : Bytes) : Discriminant → Access Bytes
  | .etherType type => format.guarded h h (Layout.etherType.set type h)
  | _ => .ok h

/-- A header that states a length is given the length of the payload, if that
can be stated. -/
def recompute (h : Bytes) (cx : Context) : Access Bytes :=
  format.guarded h h do
    let type ← Layout.etherType.get h
    if type.isLength && cx.payload.length ≤ EtherType.maxLength.toNat then
      Layout.etherType.set (Assigned.ofCode (UInt16.ofNat cx.payload.length)) h
    else return h

/-- Ethernet as a layer of a packet. -/
def dissector : Dissector where
  kind := .ethernet
  headerLength := format.fixedLength headerLength
  payloadLength := payloadLength
  next h _ := next h
  discriminantOf kind := (EtherType.ofKind kind).map .etherType
  setNext := setNext
  defaultHeader := List.replicate headerLength 0
  requiredLength _ := .ok (some headerLength)
  recompute := recompute

instance : WireHeader Header where
  dissector := dissector
  parse := Header.parse
  size _ := headerLength
  emit := Header.emit
  text := Header.text

end PacketLayers.Ethernet
