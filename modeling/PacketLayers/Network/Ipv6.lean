/-
  PacketLayers.Network.Ipv6
  ────────────────────────────────
  **IPV6 HEADERS.**

      0                               4       6            7          8
      version:4 class:8 flow label:20  length  next header  hop limit  source
      24           40
      destination  payload …

  Only the fixed header is described; extension headers are payload.  A
  payload length of zero, as jumbograms have it, stands for "all that is
  there".
-/
import PacketLayers.Layer.Dissector

namespace PacketLayers.Ipv6

/-! ## §1. Layout. -/

/-- The length of the header. -/
def headerLength : Nat := 40

/-- The transmission unit that every link has to carry. -/
def minMtu : Nat := 1280

/-- The header format. -/
def format : HeaderFormat := .fixed .ipv6 headerLength

namespace Layout

def version : Field UInt8 := .bits UInt8 0 1 4 4
def trafficClass : Field UInt8 := .bits UInt8 0 2 4 8
def flowLabel : Field UInt32 := .bits UInt32 1 3 0 20
def payloadLength : Field UInt16 := .word UInt16 4 2
def nextHeader : Field IpProtocol := .word IpProtocol 6 1
def hopLimit : Field UInt8 := .word UInt8 7 1
def source : Field Ipv6Address := .octets 8 16
def destination : Field Ipv6Address := .octets 24 16

end Layout

/-! ## §2. Contents. -/

/-- The contents of a header. -/
structure Header where
  source : Ipv6Address
  destination : Ipv6Address
  nextHeader : IpProtocol
  /-- The number of bytes after the header, extension headers included. -/
  payloadLength : Nat
  hopLimit : UInt8
  deriving DecidableEq

namespace Header

/-- The contents of a header. -/
def parse (h : Bytes) : Except Error Header := do
  format.check h
  if Layout.version.value h ≠ 6 then throw .malformed
  return ⟨Layout.source.value h, Layout.destination.value h, Layout.nextHeader.value h,
    (Layout.payloadLength.value h).toNat, Layout.hopLimit.value h⟩

/-- Write the contents over a header. -/
def emit (r : Header) (h : Bytes) : Access Bytes :=
  Layout.version.set 6 h
    >>= Layout.trafficClass.set 0
    >>= Layout.flowLabel.set 0
    >>= Layout.payloadLength.set (UInt16.ofNat r.payloadLength)
    >>= Layout.hopLimit.set r.hopLimit
    >>= Layout.nextHeader.set r.nextHeader
    >>= Layout.source.set r.source
    >>= Layout.destination.set r.destination

/-- The contents in text for readers. -/
def text (r : Header) : String :=
  "IPv6 src=" ++ Ipv6Address.text r.source ++ " dst=" ++ Ipv6Address.text r.destination
    ++ " nxt_hdr=" ++ r.nextHeader.text ++ " hop_limit=" ++ toString r.hopLimit

end Header

/-! ## §3. Behaviour as a layer. -/

/-- The payload length that a header states; zero stands for all that is
available. -/
def payloadLength (h : Bytes) (available : Nat) : Access Nat :=
  format.guarded h available do
    let length := (← Layout.payloadLength.get h).toNat
    return if length = 0 then available else length

/-- The next header that a header states. -/
def next (h : Bytes) : Access (Option Discriminant) :=
  format.guarded h none do
    return some (.ip (← Layout.nextHeader.get h))

/-- Write the protocol of the payload. -/
def setNext (h : Bytes) : Discriminant → Access Bytes
  | .ip protocol =>
    if Layout.nextHeader.stop ≤ h.length then Layout.nextHeader.set protocol h else .ok h
  | _ => .ok h

/-- The addresses lent to the payload. -/
def pseudoHeader (h : Bytes) : Access (Option PseudoHeader) :=
  format.guarded h none do
    return some (.v6 (← Layout.source.get h) (← Layout.destination.get h))

/-- Bring the payload length up to date; one that the field cannot state is
written as zero. -/
def recompute (h : Bytes) (cx : Context) : Access Bytes :=
  format.guarded h h do
    let length := cx.payload.length
    Layout.payloadLength.set (if 65535 < length then 0 else UInt16.ofNat length) h

/-- IPv6 as a layer of a packet. -/
def dissector : Dissector where
  kind := .ipv6
  headerLength := format.fixedLength headerLength
  payloadLength := payloadLength
  next h _ := next h
  discriminantOf kind := (IpProtocol.ofKind kind).map .ip
  setNext := setNext
  defaultHeader := [0x60, 0, 0, 0, 0, 0, 59, 64] ++ List.replicate 32 0
  pseudoHeader := pseudoHeader
  requiredLength _ := .ok (some headerLength)
  recompute := recompute

instance : WireHeader Header where
  dissector := dissector
  parse := Header.parse
  size _ := headerLength
  emit := Header.emit
  text := Header.text

/-- The default header has no addresses and says that nothing follows. -/
theorem defaultHeader_eq :
    WireHeader.toBytes (Header.mk .unspecified .unspecified .ipv6NoNext 0 64)
      = .ok dissector.defaultHeader := by
  rfl

end PacketLayers.Ipv6
