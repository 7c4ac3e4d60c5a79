/-
  PacketLayers.Transport.Tcp.Header
  ────────────────────────────────
  **TCP HEADERS.**

      0            2                 4         8
      source port  destination port  sequence  acknowledgement
      12                         14      16        18      20
      len:4 reserved:3 flags:9   window  checksum  urgent  options …

  The header length counts words of four bytes and is at least five of them.
  The checksum covers the pseudo header, so it can be filled and checked only
  inside an IP layer.
-/
import PacketLayers.Layer.Dissector
import PacketLayers.Transport.Tcp.Flags
import PacketLayers.Transport.Tcp.Option

namespace PacketLayers.Tcp

/-! ## §1. Layout. -/

/-- The length of a header without options. -/
def minHeaderLength : Nat := 20

/-- The longest header that the length field can state. -/
def maxHeaderLength : Nat := 60

namespace Layout

def sourcePort : Field UInt16 := .word UInt16 0 2
def destinationPort : Field UInt16 := .word UInt16 2 2
def sequence : Field SequenceNumber := .word SequenceNumber 4 4
def acknowledgement : Field SequenceNumber := .word SequenceNumber 8 4
/-- In bytes; written rounded down to words. -/
def headerLength : Field UInt8 := (Field.bits UInt8 12 2 12 4).map (· * 4) (· / 4)
/-- The nine flags; writing them clears the reserved bits above. -/
def flags : Field Flags :=
  (Field.bits UInt16 12 2 0 12).map (fun n => ⟨n &&& 0x1ff⟩) (fun f => f.bits &&& 0x1ff)
def window : Field UInt16 := .word UInt16 14 2
def checksum : Field UInt16 := .word UInt16 16 2
def urgent : Field UInt16 := .word UInt16 18 2

end Layout

/-- The header format. -/
def format : HeaderFormat where
  kind := .tcp
  check h :=
    if h.length < minHeaderLength then .error .truncated
    else if (Layout.headerLength.value h).toNat < minHeaderLength then .error .malformed
    else if h.length < (Layout.headerLength.value h).toNat then .error .truncated
    else .ok ()

/-! ## §2. Options and checksum. -/

/-- The option bytes, up to the header length and no further than there are
bytes. -/
def getOptions (h : Bytes) : Access Bytes := do
  return (h.take (← Layout.headerLength.get h).toNat).drop minHeaderLength

/-- Write the option bytes, of the length that they have. -/
def setOptions (new h : Bytes) : Access Bytes := do
  let old ← getOptions h
  if new.length ≠ old.length then throw .lengthMismatch
  return if new.isEmpty then h
    else h.take minHeaderLength ++ new ++ h.drop (minHeaderLength + new.length)

/-- The options of a header, up to the end of list. -/
def options (h : Bytes) : Access (List (Except Error Item)) := do
  return Item.list (← getOptions h)

/-- The sum over pseudo header, header and payload. -/
def sum (pseudo : PseudoHeader) (h payload : Bytes) : UInt16 :=
  Checksum.upperLayer (some pseudo) .tcp h payload

/-- Whether the checksum holds. -/
def verifyChecksum (pseudo : PseudoHeader) (payload h : Bytes) : Bool :=
  sum pseudo h payload == 0xffff

/-- Fill the checksum. -/
def fillChecksum (pseudo : PseudoHeader) (payload h : Bytes) : Access Bytes := do
  let h ← Layout.checksum.set 0 h
  Layout.checksum.set (~~~ sum pseudo h payload) h

/-! ## §3. Contents. -/

/-- The contents of a header; header length and checksum are derived. -/
structure Header where
  sourcePort : UInt16
  destinationPort : UInt16
  flags : Flags
  sequence : SequenceNumber
  /-- The next byte expected, if the header acknowledges anything. -/
  acknowledgement : Option SequenceNumber
  window : UInt16
  windowScale : Option UInt8
  maxSegmentSize : Option UInt16
  sackPermitted : Bool
  deriving DecidableEq

namespace Header

/-- Take the contents of one option over; a window scale is at most 14. -/
def withOption (r : Header) : Item → Header
  | .maxSegmentSize size => { r with maxSegmentSize := some size }
  | .windowScale shift => { r with windowScale := some (min shift 14) }
  | .sackPermitted => { r with sackPermitted := true }
  | _ => r

/-- Take the contents of options over, until one cannot be read. -/
def withOptions (r : Header) : List (Except Error Item) → Except Error Header
  | [] => .ok r
  | .ok o :: rest => (r.withOption o).withOptions rest
  | .error e :: _ => .error e

/-- The contents of the fixed fields. -/
def fixedPart (h : Bytes) : Header where
  sourcePort := Layout.sourcePort.value h
  destinationPort := Layout.destinationPort.value h
  flags := Layout.flags.value h
  sequence := Layout.sequence.value h
  acknowledgement :=
    if (Layout.flags.value h).has .ack then some (Layout.acknowledgement.value h) else none
  window := Layout.window.value h
  windowScale := none
  maxSegmentSize := none
  sackPermitted := false

/-- The contents of a header; neither port is zero. -/
def parse (h : Bytes) : Except Error Header := do
  format.check h
  if Layout.sourcePort.value h = 0 then throw .malformed
  if Layout.destinationPort.value h = 0 then throw .malformed
  (fixedPart h).withOptions (← format.reading h (options h))

/-- The options written for the contents. -/
def items (r : Header) : List Item :=
  (r.windowScale.map Item.windowScale).toList
    ++ (r.maxSegmentSize.map Item.maxSegmentSize).toList
    ++ (if r.sackPermitted then [Item.sackPermitted] else [])

/-- The length of the header written for the contents, in whole words. -/
def size (r : Header) : Nat :=
  minHeaderLength + (Item.totalSize r.items + 3) / 4 * 4

/-- Write the contents over a header; the checksum becomes zero. -/
def emit (r : Header) (h : Bytes) : Access Bytes := do
  let h ← Layout.sourcePort.set r.sourcePort h
    >>= Layout.destinationPort.set r.destinationPort
    >>= Layout.sequence.set r.sequence
    >>= Layout.acknowledgement.set (r.acknowledgement.getD ⟨0⟩)
    >>= Layout.window.set r.window
    >>= Layout.headerLength.set (UInt8.ofNat r.size)
    >>= Layout.flags.set (r.flags.put .ack r.acknowledgement.isSome)
    >>= Layout.checksum.set 0
    >>= Layout.urgent.set 0
  setOptions (← Item.emitAll r.items (← getOptions h)) h

/-- The contents in text for readers. -/
def text (r : Header) : String :=
  let acknowledgement := match r.acknowledgement with
    | some n => " ack=" ++ n.text
    | none => ""
  let maxSegmentSize := match r.maxSegmentSize with
    | some size => " mss=" ++ toString size
    | none => ""
  "TCP src=" ++ toString r.sourcePort ++ " dst=" ++ toString r.destinationPort
    ++ r.flags.text ++ " seq=" ++ r.sequence.text ++ acknowledgement
    ++ " win=" ++ toString r.window ++ maxSegmentSize

end Header

/-! ## §4. Behaviour as a layer. -/

/-- The length of an accepted header. -/
def dissectedLength (h : Bytes) : Except Error Nat :=
  (format.check h).map fun _ => (Layout.headerLength.value h).toNat

/-- The header length that the length field asks for, at least the minimum. -/
def requiredLength (h : Bytes) : Access (Option Nat) := do
  if h.length < minHeaderLength then return some minHeaderLength
  else return some (max (← Layout.headerLength.get h).toNat minHeaderLength)

/-- Bring header length and checksum up to date. -/
def recompute (h : Bytes) (cx : Context) : Access Bytes := do
  if h.length < minHeaderLength then return h
  let h ← Layout.headerLength.set (UInt8.ofNat h.length) h
  match cx.mode, cx.pseudo with
  | .fill, some pseudo => fillChecksum pseudo cx.payload h
  | _, _ => return h

/-- Whether the checksum holds, inside an IP layer. -/
def checksumValid (h : Bytes) (cx : Context) : Access (Option Bool) :=
  format.guarded h none do
    return cx.pseudo.map fun pseudo => verifyChecksum pseudo cx.payload h

/-- TCP as a layer of a packet. -/
def dissector : Dissector where
  kind := .tcp
  headerLength := dissectedLength
  defaultHeader := List.replicate 12 0 ++ [0x50] ++ List.replicate 7 0
  requiredLength := requiredLength
  recompute := recompute
  checksumValid := checksumValid

instance : WireHeader Header where
  dissector := dissector
  parse := Header.parse
  size := Header.size
  emit := Header.emit
  text := Header.text

end PacketLayers.Tcp
