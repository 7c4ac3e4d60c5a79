/-
  PacketLayers.Network.Ipv4
  ────────────────────────────────
  **IPV4 HEADERS.**

      0                 1           2       4      6               8
      version:4 len:4   dscp:6 ecn  total   ident  flags:3 off:13  ttl
      9         10        12      16           20
      protocol  checksum  source  destination  options …

  The header length counts words of four bytes and is at least five of them.
  A total length of zero stands for "all that is there", as captures of
  offloaded segments have it.  A fragment other than the first keeps its
  payload as bytes.
-/
import PacketLayers.Layer.Dissector

namespace PacketLayers.Ipv4

/-! ## §1. Layout. -/

/-- The length of a header without options. -/
def minHeaderLength : Nat := 20

/-- The longest header that the length field can state. -/
def maxHeaderLength : Nat := 60

/-- The transmission unit that every link has to carry. -/
def minMtu : Nat := 576

namespace Layout

def version : Field UInt8 := .bits UInt8 0 1 4 4
/-- In bytes; written rounded down to words. -/
def headerLength : Field UInt8 := (Field.bits UInt8 0 1 0 4).map (· * 4) (· / 4)
def dscp : Field UInt8 := .bits UInt8 1 1 2 6
def ecn : Field UInt8 := .bits UInt8 1 1 0 2
def totalLength : Field UInt16 := .word UInt16 2 2
def ident : Field UInt16 := .word UInt16 4 2
/-- All three flags at once. -/
def flags : Field UInt8 := .bits UInt8 6 2 13 3
def dontFragment : Field Bool := .bits Bool 6 2 14 1
def moreFragments : Field Bool := .bits Bool 6 2 13 1
/-- In bytes; written rounded down to units of eight. -/
def fragmentOffset : Field UInt16 := (Field.bits UInt16 6 2 0 13).map (· <<< 3) (· >>> 3)
def hopLimit : Field UInt8 := .word UInt8 8 1
def protocol : Field IpProtocol := .word IpProtocol 9 1
def checksum : Field UInt16 := .word UInt16 10 2
def source : Field Ipv4Address := .octets 12 4
def destination : Field Ipv4Address := .octets 16 4

end Layout

/-- The header format. -/
def format : HeaderFormat where
  kind := .ipv4
  check h :=
    if h.length < minHeaderLength then .error .truncated
    else if (Layout.headerLength.value h).toNat < minHeaderLength then .error .malformed
    else if h.length < (Layout.headerLength.value h).toNat then .error .truncated
    else .ok ()

/-! ## §2. Options and the header checksum. -/

/-- First byte and length of the options. -/
def optionsRange (h : Bytes) : Access (Nat × Nat) := do
  let stop := (← Layout.headerLength.get h).toNat
  if stop < minHeaderLength then throw .outOfRange
  return (minHeaderLength, stop - minHeaderLength)

/-- The option bytes, with their padding. -/
def getOptions (h : Bytes) : Access Bytes := do
  let (first, size) ← optionsRange h
  h.slice first size

/-- Write the option bytes, of the length that the header states. -/
def setOptions (new h : Bytes) : Access Bytes := do
  let (first, size) ← optionsRange h
  h.replace first size new

/-- The bytes that the header checksum covers. -/
def checksummed (h : Bytes) : Access Bytes := do
  h.slice 0 (← Layout.headerLength.get h).toNat

/-- Whether the header checksum holds. -/
def verifyChecksum (h : Bytes) : Access Bool := do
  return Checksum.verify (← checksummed h)

/-- Fill the header checksum. -/
def fillChecksum (h : Bytes) : Access Bytes := do
  let h ← Layout.checksum.set 0 h
  Layout.checksum.set (Checksum.compute (← checksummed h)) h

/-! ## §3. Contents. -/

/-- The contents of a header without options. -/
structure Header where
  source : Ipv4Address
  destination : Ipv4Address
  protocol : IpProtocol
  /-- The number of bytes after the header. -/
  payloadLength : Nat
  hopLimit : UInt8
  deriving DecidableEq

namespace Header

/-- The contents of a header; its checksum is not looked at. -/
def parse (h : Bytes) : Except Error Header := do
  format.check h
  let total := (Layout.totalLength.value h).toNat
  let length := (Layout.headerLength.value h).toNat
  if Layout.version.value h ≠ 4 then throw .malformed
  if total < length then throw .malformed
  return ⟨Layout.source.value h, Layout.destination.value h, Layout.protocol.value h,
    total - length, Layout.hopLimit.value h⟩

/-- Write the contents over a header. -/
def emit (r : Header) (mode : ChecksumMode) (h : Bytes) : Access Bytes :=
  Layout.version.set 4 h
    >>= Layout.headerLength.set 20
    >>= Layout.dscp.set 0
    >>= Layout.ecn.set 0
    >>= Layout.totalLength.set (20 + UInt16.ofNat r.payloadLength)
    >>= Layout.ident.set 0
    >>= Layout.flags.set 0
    >>= Layout.moreFragments.set false
    >>= Layout.dontFragment.set true
    >>= Layout.fragmentOffset.set 0
    >>= Layout.hopLimit.set r.hopLimit
    >>= Layout.protocol.set r.protocol
    >>= Layout.source.set r.source
    >>= Layout.destination.set r.destination
    >>= match mode with
      | .fill => fillChecksum
      | .keep => Layout.checksum.set 0

/-- The contents in text for readers. -/
def text (r : Header) : String :=
  "IPv4 src=" ++ Ipv4Address.text r.source ++ " dst=" ++ Ipv4Address.text r.destination
    ++ " proto=" ++ r.protocol.text

end Header

/-! ## §4. Behaviour as a layer. -/

/-- The length of an accepted header. -/
def dissectedLength (h : Bytes) : Except Error Nat :=
  (format.check h).map fun _ => (Layout.headerLength.value h).toNat

/-- The payload length that a header states; zero as total length stands for
all that is available. -/
def payloadLength (h : Bytes) (available : Nat) : Access Nat :=
  format.guarded h available do
    let total := (← Layout.totalLength.get h).toNat
    return if total = 0 then available else total - h.length

/-- The protocol that a header states. -/
def next (h : Bytes) : Access (Option Discriminant) :=
  format.guarded h none do
    return some (.ip (← Layout.protocol.get h))

/-- Fragments other than the first keep their payload as bytes. -/
def isSealed (h : Bytes) : Access Bool :=
  format.guarded h true do
    return (← Layout.fragmentOffset.get h) != 0

/-- Write the protocol of the payload. -/
def setNext (h : Bytes) : Discriminant → Access Bytes
  | .ip protocol =>
    if Layout.protocol.stop ≤ h.length then Layout.protocol.set protocol h else .ok h
  | _ => .ok h

/-- The addresses lent to the payload. -/
def pseudoHeader (h : Bytes) : Access (Option PseudoHeader) :=
  format.guarded h none do
    return some (.v4 (← Layout.source.get h) (← Layout.destination.get h))

/-- The header length that the first byte asks for, at least the minimum. -/
def requiredLength : Bytes → Nat
  | [] => minHeaderLength
  | x :: _ => max (x &&& 0x0f).toNat 5 * 4

/-- Bring header length, total length and checksum up to date.  A total that
the field cannot state is written as zero. -/
def recompute (h : Bytes) (cx : Context) : Access Bytes := do
  if h.length < minHeaderLength then return h
  let total := h.length + cx.payload.length
  let h ← Layout.headerLength.set (UInt8.ofNat h.length) h
    >>= Layout.totalLength.set (if 65535 < total then 0 else UInt16.ofNat total)
  match cx.mode with
  | .fill => fillChecksum h
  | .keep => return h

/-- Whether the header checksum holds. -/
def checksumValid (h : Bytes) : Access (Option Bool) :=
  format.guarded h none do
    return some (← verifyChecksum h)

/-- IPv4 as a layer of a packet. -/
def dissector : Dissector where
  kind := .ipv4
  headerLength := dissectedLength
  payloadLength := payloadLength
  next h _ := next h
  sealed := isSealed
  discriminantOf kind := (IpProtocol.ofKind kind).map .ip
  setNext := setNext
  defaultHeader :=
    [0x45, 0, 0, 20, 0, 0, 0x40, 0, 64, 0xff, 0x39, 0xec, 0, 0, 0, 0, 0, 0, 0, 0]
  pseudoHeader := pseudoHeader
  requiredLength h := .ok (some (requiredLength h))
  recompute := recompute
  checksumValid h _ := checksumValid h

instance : WireHeader Header where
  dissector := dissector
  parse := Header.parse
  size _ := minHeaderLength
  emit r := r.emit .fill
  text := Header.text

/-- The default header has no addresses, no payload and a protocol number that
nothing uses. -/
theorem defaultHeader_eq :
    WireHeader.toBytes (Header.mk .unspecified .unspecified (.unknown 0xff) 0 64)
      = .ok dissector.defaultHeader := by
  rfl

end PacketLayers.Ipv4
