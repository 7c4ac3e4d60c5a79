/-
  PacketLayers.Address.Ip
  ────────────────────────────────
  **IP VERSIONS, AND ADDRESSES OF EITHER.**
-/
import PacketLayers.Address.Ipv6

namespace PacketLayers

/-! ## §1. Versions. -/

/-- A version of the Internet protocol. -/
inductive IpVersion where
  | v4
  | v6
  deriving DecidableEq, Repr

namespace IpVersion

/-- The version that the first nibble of a packet states. -/
def ofPacket : Bytes → Except Error IpVersion
  | [] => .error .truncated
  | x :: _ =>
    if x >>> 4 = 4 then .ok .v4
    else if x >>> 4 = 6 then .ok .v6
    else .error .unrecognized

/-- The value of the version nibble. -/
def number : IpVersion → Nat
  | .v4 => 4
  | .v6 => 6

/-- The identifier of a version. -/
def name : IpVersion → String
  | .v4 => "Ipv4"
  | .v6 => "Ipv6"

/-- The version in text for readers. -/
def text : IpVersion → String
  | .v4 => "IPv4"
  | .v6 => "IPv6"

end IpVersion

/-! ## §2. Addresses. -/

/-- An address of either version. -/
inductive IpAddress where
  | v4 (address : Ipv4Address)
  | v6 (address : Ipv6Address)
  deriving DecidableEq

namespace IpAddress

def version : IpAddress → IpVersion
  | .v4 _ => .v4
  | .v6 _ => .v6

/-- The octets of the address. -/
def bytes : IpAddress → Bytes
  | .v4 a => a.bytes
  | .v6 a => a.bytes

/-- An address in text. -/
def text : IpAddress → String
  | .v4 a => Ipv4Address.text a
  | .v6 a => Ipv6Address.text a

end IpAddress

end PacketLayers
