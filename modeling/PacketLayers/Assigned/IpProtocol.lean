/-
  PacketLayers.Assigned.IpProtocol
  ────────────────────────────────
  **IP PROTOCOL NUMBERS.**

  The eight bit number by which IPv4 and IPv6 name what they carry.
-/
import PacketLayers.Assigned.Space
import PacketLayers.Layer.Kind
import PacketLayers.Text.Number

namespace PacketLayers

/-- The protocol of an IP payload. -/
inductive IpProtocol where
  | hopByHop
  | icmp
  | igmp
  /-- IPv4 inside IP. -/
  | ipIp
  | tcp
  | udp
  /-- IPv6 inside IP. -/
  | ipv6
  | ipv6Route
  | ipv6Frag
  | gre
  | icmpv6
  /-- Nothing follows. -/
  | ipv6NoNext
  | ipv6Opts
  | unknown (code : UInt8)
  deriving DecidableEq, Hashable, Repr

namespace IpProtocol

/-- The number on the wire. -/
def code : IpProtocol → UInt8
  | hopByHop => 0x00
  | icmp => 0x01
  | igmp => 0x02
  | ipIp => 0x04
  | tcp => 0x06
  | udp => 0x11
  | ipv6 => 0x29
  | ipv6Route => 0x2b
  | ipv6Frag => 0x2c
  | gre => 0x2f
  | icmpv6 => 0x3a
  | ipv6NoNext => 0x3b
  | ipv6Opts => 0x3c
  | unknown n => n

instance : Assigned IpProtocol UInt8 where
  named := [hopByHop, icmp, igmp, ipIp, tcp, udp, ipv6, ipv6Route, ipv6Frag, gre, icmpv6,
    ipv6NoNext, ipv6Opts]
  unknown := unknown
  code := code
  exhaustive p := by cases p <;> simp
  code_unknown _ := rfl
  code_injOn_named := by decide

/-- The number that announces a payload of some protocol. -/
def ofKind : LayerKind → Option IpProtocol
  | .tcp => some tcp
  | .udp => some udp
  | .icmpv4 => some icmp
  | .icmpv6 => some icmpv6
  | .igmp => some igmp
  | .ipv4 => some ipIp
  | .ipv6 => some ipv6
  | .gre => some gre
  | _ => none

/-- What announces a payload has a name, and so it is read as it was written. -/
theorem canonical_of_ofKind {kind : LayerKind} {p : IpProtocol} (named : ofKind kind = some p) :
    Assigned.canonical p = p := by
  unfold ofKind at named
  split at named <;> cases named <;> rfl

/-- The identifier of the protocol. -/
def name : IpProtocol → String
  | hopByHop => "HopByHop"
  | icmp => "Icmp"
  | igmp => "Igmp"
  | ipIp => "IpIp"
  | tcp => "Tcp"
  | udp => "Udp"
  | ipv6 => "Ipv6"
  | ipv6Route => "Ipv6Route"
  | ipv6Frag => "Ipv6Frag"
  | gre => "Gre"
  | icmpv6 => "Icmpv6"
  | ipv6NoNext => "Ipv6NoNxt"
  | ipv6Opts => "Ipv6Opts"
  | unknown n => Assigned.unknownName n.toNat

/-- The protocol in text for readers. -/
def text : IpProtocol → String
  | hopByHop => "Hop-by-Hop"
  | icmp => "ICMP"
  | igmp => "IGMP"
  | ipIp => "IP-in-IP"
  | tcp => "TCP"
  | udp => "UDP"
  | ipv6 => "IPv6"
  | ipv6Route => "IPv6-Route"
  | ipv6Frag => "IPv6-Frag"
  | gre => "GRE"
  | icmpv6 => "ICMPv6"
  | ipv6NoNext => "IPv6-NoNxt"
  | ipv6Opts => "IPv6-Opts"
  | unknown n => "0x" ++ String.ofList (Text.hexPadded 2 n.toNat)

end IpProtocol

end PacketLayers
