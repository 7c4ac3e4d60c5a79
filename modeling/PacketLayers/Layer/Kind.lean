/-
  PacketLayers.Layer.Kind
  ────────────────────────────────
  **THE PROTOCOLS A LAYER CAN HAVE.**

  Fifteen protocols are known here; a protocol defined elsewhere takes part
  under a name of its own.
-/

namespace PacketLayers

/-- The protocol of one layer of a packet. -/
inductive LayerKind where
  | ethernet
  | vlan
  | arp
  | ipv4
  | ipv6
  | tcp
  | udp
  | icmpv4
  | icmpv6
  | igmp
  | gre
  /-- The loopback encapsulation with a four byte address family. -/
  | loopback
  /-- The link layer without any header: an IP packet as it is. -/
  | rawIp
  | wireless
  | llc
  /-- A protocol supplied from outside, by name. -/
  | custom (name : String)
  deriving DecidableEq, Repr

namespace LayerKind

/-- The identifier of a kind, as listings of a packet show it. -/
def name : LayerKind → String
  | ethernet => "Ethernet"
  | vlan => "Vlan"
  | arp => "Arp"
  | ipv4 => "Ipv4"
  | ipv6 => "Ipv6"
  | tcp => "Tcp"
  | udp => "Udp"
  | icmpv4 => "Icmpv4"
  | icmpv6 => "Icmpv6"
  | igmp => "Igmp"
  | gre => "Gre"
  | loopback => "Null"
  | rawIp => "RawIp"
  | wireless => "Ieee80211"
  | llc => "Llc"
  | custom n => "Custom(\"" ++ n ++ "\")"

/-- The title of a kind in text for readers. -/
def title : LayerKind → String
  | ethernet => "Ethernet"
  | vlan => "802.1Q"
  | arp => "ARP"
  | ipv4 => "IPv4"
  | ipv6 => "IPv6"
  | tcp => "TCP"
  | udp => "UDP"
  | icmpv4 => "ICMPv4"
  | icmpv6 => "ICMPv6"
  | igmp => "IGMP"
  | gre => "GRE"
  | loopback => "Null"
  | rawIp => "Raw IP"
  | wireless => "802.11"
  | llc => "LLC"
  | custom n => n

end LayerKind

end PacketLayers
