/-
  PacketLayers.Packet.Options
  ────────────────────────────────
  **REPLACING THE OPTIONS OF A LAYER.**

  New options are filled up with zeros to whole words of four bytes.  The
  header takes the new length at once; total length and checksum follow when
  the packet is next brought up to date.
-/
import PacketLayers.Network.Ipv4
import PacketLayers.Packet.Cursor
import PacketLayers.Transport.Tcp.Header

namespace PacketLayers.Cursor

/-- A number of bytes rounded up to whole words. -/
def wholeWords (size : Nat) : Nat := (size + 3) / 4 * 4

/-- Replace everything behind the first `fixed` bytes of the header by options,
and write the new header length. -/
def replaceOptions (c : Cursor) (kind : LayerKind) (fixed longest : Nat)
    (headerLength : Field UInt8) (options : Bytes) : Access (Except Error Cursor) := do
  let padded := wholeWords options.length
  if c.focus.kind ≠ kind then return .error .unsupported
  if longest < fixed + padded then return .error .malformed
  let c := c.resizeHeader (fixed + padded)
  let h ← headerLength.set (UInt8.ofNat (fixed + padded)) c.header
  return .ok (← c.storeHeader (← h.replace fixed padded (options.resize padded)))

/-- Replace the options of a TCP layer. -/
def setTcpOptions (c : Cursor) (options : Bytes) : Access (Except Error Cursor) :=
  c.replaceOptions .tcp Tcp.minHeaderLength Tcp.maxHeaderLength Tcp.Layout.headerLength options

/-- Replace the options of an IPv4 layer. -/
def setIpv4Options (c : Cursor) (options : Bytes) : Access (Except Error Cursor) :=
  c.replaceOptions .ipv4 Ipv4.minHeaderLength Ipv4.maxHeaderLength Ipv4.Layout.headerLength
    options

end PacketLayers.Cursor
