/-
  PacketLayers.Assigned.EtherType
  ────────────────────────────────
  **ETHERNET TYPES.**

  The sixteen bit type that Ethernet, a VLAN tag, GRE and SNAP write in front
  of their payload.  In an Ethernet header a value of at most 1500 is a
  payload length instead.
-/
import PacketLayers.Assigned.Space
import PacketLayers.Layer.Kind
import PacketLayers.Text.Number

namespace PacketLayers

/-- An Ethernet type. -/
inductive EtherType where
  | ipv4
  | arp
  | vlan
  | ipv6
  /-- The outer tag of two nested ones. -/
  | serviceVlan
  | unknown (code : UInt16)
  deriving DecidableEq, Hashable, Repr

namespace EtherType

/-- The number on the wire. -/
def code : EtherType → UInt16
  | ipv4 => 0x0800
  | arp => 0x0806
  | vlan => 0x8100
  | ipv6 => 0x86dd
  | serviceVlan => 0x88a8
  | unknown n => n

instance : Assigned EtherType UInt16 where
  named := [ipv4, arp, vlan, ipv6, serviceVlan]
  unknown := unknown
  code := code
  exhaustive t := by cases t <;> simp
  code_unknown _ := rfl
  code_injOn_named := by decide

/-- The largest value that is a payload length. -/
def maxLength : UInt16 := 1500

/-- Whether the value is a payload length. -/
def isLength (t : EtherType) : Bool := t.code ≤ maxLength

theorem isLength_canonical (t : EtherType) : (Assigned.canonical t).isLength = t.isLength :=
  congrArg (fun n : UInt16 => decide (n ≤ maxLength)) (Assigned.code_canonical t)

/-- The type that announces a payload of some protocol. -/
def ofKind : LayerKind → Option EtherType
  | .ipv4 => some ipv4
  | .arp => some arp
  | .vlan => some vlan
  | .ipv6 => some ipv6
  | _ => none

/-- What announces a payload has a name, and so it is read as it was written. -/
theorem canonical_of_ofKind {kind : LayerKind} {t : EtherType} (named : ofKind kind = some t) :
    Assigned.canonical t = t := by
  unfold ofKind at named
  split at named <;> cases named <;> rfl

/-- The identifier of the type. -/
def name : EtherType → String
  | ipv4 => "Ipv4"
  | arp => "Arp"
  | vlan => "Vlan"
  | ipv6 => "Ipv6"
  | serviceVlan => "ServiceVlan"
  | unknown n => Assigned.unknownName n.toNat

/-- The type in text for readers. -/
def text : EtherType → String
  | ipv4 => "IPv4"
  | ipv6 => "IPv6"
  | arp => "ARP"
  | vlan => "802.1Q"
  | serviceVlan => "802.1ad"
  | unknown n => "0x" ++ String.ofList (Text.hexPadded 4 n.toNat)

end EtherType

end PacketLayers
