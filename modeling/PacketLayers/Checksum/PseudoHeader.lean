/-
  PacketLayers.Checksum.PseudoHeader
  ────────────────────────────────
  **CHECKSUMS OVER A TRANSPORT HEADER, ITS PAYLOAD AND THE ADDRESSES ABOVE.**

  A transport checksum also covers a pseudo header made of the addresses of
  the enclosing IP layer, the protocol and the transport length.  The pseudo
  header is never built as one string: its parts are summed and combined.
-/
import PacketLayers.Address.Ip
import PacketLayers.Assigned.IpProtocol
import PacketLayers.Checksum.Internet

namespace PacketLayers

/-- The addresses that an IP layer lends to the checksum of its payload. -/
inductive PseudoHeader where
  | v4 (source destination : Ipv4Address)
  | v6 (source destination : Ipv6Address)
  deriving DecidableEq

namespace PseudoHeader

/-- The part of the pseudo header after the addresses: sixteen bits of length
for IPv4, thirty-two for IPv6. -/
def protocolAndLength (pseudo : PseudoHeader) (protocol : IpProtocol) (length : UInt32) :
    Bytes :=
  match pseudo with
  | .v4 _ _ => [0, protocol.code] ++ Bytes.ofNat 2 length.toNat
  | .v6 _ _ => Bytes.ofNat 4 length.toNat ++ [0, 0, 0, protocol.code]

/-- The source address. -/
def source : PseudoHeader → Bytes
  | .v4 a _ => a.bytes
  | .v6 a _ => a.bytes

/-- The destination address. -/
def destination : PseudoHeader → Bytes
  | .v4 _ a => a.bytes
  | .v6 _ a => a.bytes

/-- The sum of the pseudo header for a transport header and payload of
`length` bytes together. -/
def sum (pseudo : PseudoHeader) (protocol : IpProtocol) (length : UInt32) : UInt16 :=
  Checksum.combine
    [Checksum.data pseudo.source, Checksum.data pseudo.destination,
      Checksum.data (pseudo.protocolAndLength protocol length)]

end PseudoHeader

/-- The sum of a transport header and its payload, with the pseudo header if
there is one.  Header and payload are summed apart, so the header is of even
length. -/
def Checksum.upperLayer (pseudo : Option PseudoHeader) (protocol : IpProtocol)
    (header payload : Bytes) : UInt16 :=
  let length := UInt32.ofNat (header.length + payload.length)
  let above := match pseudo with
    | some p => p.sum protocol length
    | none => 0
  Checksum.combine [above, Checksum.data header, Checksum.data payload]

end PacketLayers
