/-
  PacketLayers.Transport.Udp
  ────────────────────────────────
  **UDP HEADERS.**

      0            2                 4       6         8
      source port  destination port  length  checksum  payload …

  The length covers header and payload; zero, as jumbograms have it, stands
  for "all that is there", any other value below eight is a contradiction.  A
  checksum of zero means that there is none, which IPv6 does not allow; a sum
  that comes out as zero is therefore written as all ones.
-/
import PacketLayers.Layer.Dissector

namespace PacketLayers.Udp

/-! ## §1. Layout. -/

/-- The length of the header. -/
def headerLength : Nat := 8

namespace Layout

def sourcePort : Field UInt16 := .word UInt16 0 2
def destinationPort : Field UInt16 := .word UInt16 2 2
def length : Field UInt16 := .word UInt16 4 2
def checksum : Field UInt16 := .word UInt16 6 2

end Layout

/-- The header format. -/
def format : HeaderFormat where
  kind := .udp
  check h :=
    let length := (Layout.length.value h).toNat
    if h.length < headerLength then .error .truncated
    else if length ≠ 0 ∧ length < headerLength then .error .malformed
    else .ok ()

/-! ## §2. The checksum. -/

/-- The sum over pseudo header, header and payload. -/
def sum (pseudo : PseudoHeader) (h payload : Bytes) : UInt16 :=
  Checksum.upperLayer (some pseudo) .udp h payload

/-- Whether the checksum holds; IPv4 allows it to be absent. -/
def verifyChecksum (pseudo : PseudoHeader) (payload h : Bytes) : Access Bool := do
  match pseudo, ← Layout.checksum.get h with
  | .v4 _ _, 0 => return true
  | _, _ => return sum pseudo h payload == 0xffff

/-- Fill the checksum. -/
def fillChecksum (pseudo : PseudoHeader) (payload h : Bytes) : Access Bytes := do
  let h ← Layout.checksum.set 0 h
  let checksum := ~~~ sum pseudo h payload
  Layout.checksum.set (if checksum = 0 then 0xffff else checksum) h

/-! ## §3. Contents. -/

/-- The contents of a header; length and checksum are derived. -/
structure Header where
  sourcePort : UInt16
  destinationPort : UInt16
  deriving DecidableEq

namespace Header

/-- The contents of a header; the destination port is never zero. -/
def parse (h : Bytes) : Except Error Header := do
  format.check h
  if Layout.destinationPort.value h = 0 then throw .malformed
  return ⟨Layout.sourcePort.value h, Layout.destinationPort.value h⟩

/-- Write the contents over a header, as one without payload and checksum. -/
def emit (r : Header) (h : Bytes) : Access Bytes :=
  Layout.sourcePort.set r.sourcePort h
    >>= Layout.destinationPort.set r.destinationPort
    >>= Layout.length.set 8
    >>= Layout.checksum.set 0

/-- The contents in text for readers. -/
def text (r : Header) : String :=
  "UDP src=" ++ toString r.sourcePort ++ " dst=" ++ toString r.destinationPort

end Header

/-! ## §4. Behaviour as a layer. -/

/-- The payload length that a header states; zero stands for all that is
available. -/
def payloadLength (h : Bytes) (available : Nat) : Access Nat :=
  format.guarded h available do
    let length := (← Layout.length.get h).toNat
    return if length = 0 then available else length - headerLength

/-- Bring length and checksum up to date.  A length that the field cannot
state is written as zero, and so is the checksum outside an IP layer. -/
def recompute (h : Bytes) (cx : Context) : Access Bytes :=
  format.guarded h h do
    let length := headerLength + cx.payload.length
    let h ← Layout.length.set (if 65535 < length then 0 else UInt16.ofNat length) h
    match cx.mode, cx.pseudo with
    | .keep, _ => return h
    | .fill, some pseudo => fillChecksum pseudo cx.payload h
    | .fill, none => Layout.checksum.set 0 h

/-- Whether the checksum holds, inside an IP layer. -/
def checksumValid (h : Bytes) (cx : Context) : Access (Option Bool) :=
  format.guarded h none do
    match cx.pseudo with
    | some pseudo => return some (← verifyChecksum pseudo cx.payload h)
    | none => return none

/-- UDP as a layer of a packet. -/
def dissector : Dissector where
  kind := .udp
  headerLength := format.fixedLength headerLength
  payloadLength := payloadLength
  defaultHeader := [0, 0, 0, 0, 0, 8, 0, 0]
  requiredLength _ := .ok (some headerLength)
  recompute := recompute
  checksumValid := checksumValid

instance : WireHeader Header where
  dissector := dissector
  parse := Header.parse
  size _ := headerLength
  emit := Header.emit
  text := Header.text

/-- The default header has no ports and no payload. -/
theorem defaultHeader_eq :
    WireHeader.toBytes (Header.mk 0 0) = .ok dissector.defaultHeader := by
  rfl

end PacketLayers.Udp
