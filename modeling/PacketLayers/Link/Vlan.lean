/-
  PacketLayers.Link.Vlan
  ────────────────────────────────
  **802.1Q TAGS.**

      0                                      2      4
      priority:3 drop eligible:1 identifier:12  type   payload …

  The tag takes the place of the type in the header around it and carries the
  type of the payload itself.
-/
import PacketLayers.Layer.Dissector

namespace PacketLayers.Vlan

/-! ## §1. Layout. -/

/-- The length of the tag. -/
def headerLength : Nat := 4

/-- The tag format. -/
def format : HeaderFormat := .fixed .vlan headerLength

namespace Layout

def priority : Field UInt8 := .bits UInt8 0 1 5 3
def dropEligible : Field Bool := .bits Bool 0 1 4 1
def identifier : Field UInt16 := .bits UInt16 0 2 0 12
def etherType : Field EtherType := .word EtherType 2 2

end Layout

/-! ## §2. Contents. -/

/-- The contents of a tag. -/
structure Header where
  priority : UInt8
  dropEligible : Bool
  identifier : UInt16
  etherType : EtherType
  deriving DecidableEq

namespace Header

/-- The contents of a tag. -/
def parse (h : Bytes) : Except Error Header := do
  format.check h
  return ⟨Layout.priority.value h, Layout.dropEligible.value h, Layout.identifier.value h,
    Layout.etherType.value h⟩

/-- Write the contents over a tag. -/
def emit (r : Header) (h : Bytes) : Access Bytes :=
  Layout.priority.set r.priority h
    >>= Layout.dropEligible.set r.dropEligible
    >>= Layout.identifier.set r.identifier
    >>= Layout.etherType.set r.etherType

/-- The contents in text for readers. -/
def text (r : Header) : String :=
  "802.1Q vid=" ++ toString r.identifier ++ " pcp=" ++ toString r.priority
    ++ " type=" ++ r.etherType.text

end Header

/-! ## §3. Behaviour as a layer. -/

/-- The type that a tag states. -/
def next (h : Bytes) : Access (Option Discriminant) :=
  format.guarded h none do
    return some (.etherType (← Layout.etherType.get h))

/-- Write the type of the payload. -/
def setNext (h : Bytes) : Discriminant → Access Bytes
  | .etherType type => format.guarded h h (Layout.etherType.set type h)
  | _ => .ok h

/-- The tag as a layer of a packet. -/
def dissector : Dissector where
  kind := .vlan
  headerLength := format.fixedLength headerLength
  next h _ := next h
  discriminantOf kind := (EtherType.ofKind kind).map .etherType
  setNext := setNext
  defaultHeader := List.replicate headerLength 0
  requiredLength _ := .ok (some headerLength)

instance : WireHeader Header where
  dissector := dissector
  parse := Header.parse
  size _ := headerLength
  emit := Header.emit
  text := Header.text

end PacketLayers.Vlan
