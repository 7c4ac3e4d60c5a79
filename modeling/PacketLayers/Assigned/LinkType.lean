/-
  PacketLayers.Assigned.LinkType
  ────────────────────────────────
  **LINK TYPES OF CAPTURES.**

  The number by which a capture file says what its buffers begin with.
-/
import PacketLayers.Assigned.Space

namespace PacketLayers

/-- The link layer of a captured buffer. -/
inductive LinkType where
  /-- Loopback: a four byte address family. -/
  | loopback
  | ethernet
  /-- An IP packet of either version, told apart by its first nibble. -/
  | rawIp
  /-- Wireless frames without radio information. -/
  | wireless
  | ipv4
  | ipv6
  | unknown (code : UInt32)
  deriving DecidableEq, Hashable, Repr

namespace LinkType

/-- The number in the capture file. -/
def code : LinkType → UInt32
  | loopback => 0
  | ethernet => 1
  | rawIp => 101
  | wireless => 105
  | ipv4 => 228
  | ipv6 => 229
  | unknown n => n

instance : Assigned LinkType UInt32 where
  named := [loopback, ethernet, rawIp, wireless, ipv4, ipv6]
  unknown := unknown
  code := code
  exhaustive t := by cases t <;> simp
  code_unknown _ := rfl
  code_injOn_named := by decide

/-- The identifier of the link type. -/
def name : LinkType → String
  | loopback => "Null"
  | ethernet => "Ethernet"
  | rawIp => "Raw"
  | wireless => "Ieee80211"
  | ipv4 => "Ipv4"
  | ipv6 => "Ipv6"
  | unknown n => Assigned.unknownName n.toNat

end LinkType

end PacketLayers
