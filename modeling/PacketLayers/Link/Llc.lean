/-
  PacketLayers.Link.Llc
  ────────────────────────────────
  **LOGICAL LINK CONTROL, WITH THE SNAP EXTENSION.**

      0     1     2        3                    6      8
      dsap  ssap  control  organization code    type   payload …

  Both access points `0xaa` and an unnumbered control byte make the header a
  SNAP header of eight bytes, which names its payload.  Otherwise the control
  field ends the header; it has two bytes unless its low two bits are set.
-/
import PacketLayers.Layer.Dissector

namespace PacketLayers.Llc

/-! ## §1. Layout. -/

/-- The access point of a SNAP header. -/
def snapAccessPoint : UInt8 := 0xaa

/-- The control byte of unnumbered information. -/
def unnumbered : UInt8 := 0x03

/-- The length of a SNAP header. -/
def snapLength : Nat := 8

namespace Layout

def dsap : Field UInt8 := .word UInt8 0 1
def ssap : Field UInt8 := .word UInt8 1 1
/-- The control field of one byte. -/
def control : Field UInt8 := .word UInt8 2 1
/-- The control field of two bytes. -/
def longControl : Field UInt16 := .word UInt16 2 2
def organization : Field (Octets 3) := .octets 3 3
def etherType : Field EtherType := .word EtherType 6 2

end Layout

/-- Whether the first three bytes are those of a SNAP header. -/
def startsSnap (dsap ssap control : UInt8) : Bool :=
  dsap == snapAccessPoint && ssap == snapAccessPoint && control == unnumbered

/-- The header length that the first three bytes ask for. -/
def lengthOf (dsap ssap control : UInt8) : Nat :=
  if startsSnap dsap ssap control then snapLength
  else if control &&& 0x3 != 0x3 then 4
  else 3

/-- Whether a header is a SNAP header. -/
def isSnap (h : Bytes) : Access Bool := do
  return startsSnap (← Layout.dsap.get h) (← Layout.ssap.get h) (← Layout.control.get h)

/-- The length that a header asks for. -/
def headerLength (h : Bytes) : Access Nat := do
  return lengthOf (← Layout.dsap.get h) (← Layout.ssap.get h) (← Layout.control.get h)

/-- The length that a header asks for, if it has the bytes to say so. -/
def headerLength? : Bytes → Option Nat
  | dsap :: ssap :: control :: _ => some (lengthOf dsap ssap control)
  | _ => none

/-- The header format. -/
def format : HeaderFormat where
  kind := .llc
  check h :=
    match headerLength? h with
    | none => .error .truncated
    | some n => if h.length < n then .error .truncated else .ok ()

/-- The control field, of one or two bytes. -/
def control (h : Bytes) : Access UInt16 := do
  if (← headerLength h) = 4 then Layout.longControl.get h
  else return (← Layout.control.get h).toUInt16

/-- A field that only SNAP headers have, if the bytes hold it. -/
def snapField? {α : Type} (f : Field α) (h : Bytes) : Access (Option α) := do
  return if (← isSnap h) && f.stop ≤ h.length then some (f.value h) else none

/-- The organization code of a SNAP header. -/
def organization? (h : Bytes) : Access (Option (Octets 3)) := snapField? Layout.organization h

/-- The payload type of a SNAP header. -/
def etherType? (h : Bytes) : Access (Option EtherType) := snapField? Layout.etherType h

/-! ## §2. Contents. -/

/-- The contents of a header. -/
inductive Header where
  /-- Access points and a control field. -/
  | plain (dsap ssap : UInt8) (control : UInt16)
  /-- An Ethernet type of some organization. -/
  | snap (organization : Octets 3) (etherType : EtherType)
  deriving DecidableEq

namespace Header

/-- The contents of a header. -/
def parse (h : Bytes) : Except Error Header := do
  format.check h
  let dsap := Layout.dsap.value h
  let ssap := Layout.ssap.value h
  let control := Layout.control.value h
  if startsSnap dsap ssap control then
    return .snap (Layout.organization.value h) (Layout.etherType.value h)
  else if lengthOf dsap ssap control = 4 then
    return .plain dsap ssap (Layout.longControl.value h)
  else return .plain dsap ssap control.toUInt16

/-- The length of the header written for the contents. -/
def size : Header → Nat
  | .snap _ _ => snapLength
  | .plain _ _ control => if control &&& 0x3 != 0x3 then 4 else 3

/-- Write the contents over a header. -/
def emit (r : Header) (h : Bytes) : Access Bytes :=
  match r with
  | .snap organization etherType =>
    Layout.dsap.set snapAccessPoint h
      >>= Layout.ssap.set snapAccessPoint
      >>= Layout.control.set unnumbered
      >>= Layout.organization.set organization
      >>= Layout.etherType.set etherType
  | .plain dsap ssap control =>
    Layout.dsap.set dsap h
      >>= Layout.ssap.set ssap
      >>= if r.size = 4 then Layout.longControl.set control
        else Layout.control.set control.toUInt8

/-- The contents in text for readers. -/
def text : Header → String
  | .snap organization etherType =>
    "SNAP oui=" ++ String.ofList (Text.hexBytes organization.bytes)
      ++ " type=" ++ etherType.text
  | .plain dsap ssap control =>
    "LLC dsap=" ++ String.ofList (Text.hexPadded 2 dsap.toNat)
      ++ " ssap=" ++ String.ofList (Text.hexPadded 2 ssap.toNat)
      ++ " ctrl=" ++ String.ofList (Text.hex control.toNat)

end Header

/-! ## §3. Behaviour as a layer. -/

/-- The length of an accepted header. -/
def dissectedLength (h : Bytes) : Except Error Nat := do
  format.check h
  return (headerLength? h).getD 0

/-- The type that a SNAP header states. -/
def next (h : Bytes) : Access (Option Discriminant) :=
  format.guarded h none do
    return (← etherType? h).map .etherType

/-- Write the type of the payload into a SNAP header. -/
def setNext (h : Bytes) : Discriminant → Access Bytes
  | .etherType type => do
    if h.length < snapLength then return h
    else if ← isSnap h then Layout.etherType.set type h
    else return h
  | _ => .ok h

/-- Logical link control as a layer of a packet. -/
def dissector : Dissector where
  kind := .llc
  headerLength := dissectedLength
  next h _ := next h
  discriminantOf kind := (EtherType.ofKind kind).map .etherType
  setNext := setNext
  defaultHeader := [0xaa, 0xaa, 0x03, 0, 0, 0, 0, 0]
  requiredLength h := .ok (some ((headerLength? h).getD snapLength))

instance : WireHeader Header where
  dissector := dissector
  parse := Header.parse
  size := Header.size
  emit := Header.emit
  text := Header.text

end PacketLayers.Llc
