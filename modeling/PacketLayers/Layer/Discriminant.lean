/-
  PacketLayers.Layer.Discriminant
  ────────────────────────────────
  **HOW ONE LAYER NAMES THE PROTOCOL OF THE NEXT.**

  Each constructor is a number space of its own: the same number means
  unrelated things in two of them.
-/
import PacketLayers.Assigned.EtherType
import PacketLayers.Assigned.IpProtocol
import PacketLayers.Assigned.LinkType

namespace PacketLayers

/-- A number space of protocol identifiers. -/
inductive NumberSpace where
  | link
  | etherType
  | ip
  | loopbackFamily
  | ipVersion
  | wireless
  deriving DecidableEq, Hashable, Repr

/-- A value that identifies the protocol of a payload. -/
inductive Discriminant where
  /-- The link type of a whole captured buffer. -/
  | link (type : LinkType)
  /-- An Ethernet type, also used by VLAN tags, GRE and SNAP. -/
  | etherType (type : EtherType)
  /-- The protocol or next header of an IP packet. -/
  | ip (protocol : IpProtocol)
  /-- The address family of the loopback encapsulation. -/
  | loopbackFamily (family : UInt32)
  /-- The version nibble of an IP packet without link layer. -/
  | ipVersion (version : UInt8)
  /-- Frame type and subtype of a wireless frame, four bits each. -/
  | wireless (typeAndSubtype : UInt8)
  deriving DecidableEq, Hashable, Repr

/-- The number space of a discriminant. -/
def Discriminant.space : Discriminant → NumberSpace
  | link _ => .link
  | etherType _ => .etherType
  | ip _ => .ip
  | loopbackFamily _ => .loopbackFamily
  | ipVersion _ => .ipVersion
  | wireless _ => .wireless

end PacketLayers
