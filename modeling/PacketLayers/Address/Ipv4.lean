/-
  PacketLayers.Address.Ipv4
  ────────────────────────────────
  **IPV4 ADDRESSES.**
-/
import PacketLayers.Bytes.Octets
import PacketLayers.Text.Number

namespace PacketLayers

/-- A four octet IPv4 address. -/
abbrev Ipv4Address := Octets 4

namespace Ipv4Address

/-- The address of all zeros. -/
def unspecified : Ipv4Address := .all 4 0

/-- The address of every host on the link. -/
def broadcast : Ipv4Address := .all 4 0xff

def isBroadcast (a : Ipv4Address) : Bool := a == broadcast

/-- The first four bits are `1110`. -/
def isMulticast (a : Ipv4Address) : Bool := a.get 0 &&& 0xf0 == 224

/-- The first octet is zero. -/
def isUnspecified (a : Ipv4Address) : Bool := a.get 0 == 0

def isUnicast (a : Ipv4Address) : Bool :=
  !(isBroadcast a || isMulticast a || isUnspecified a)

/-- The address as a number in network byte order. -/
def toNetworkInteger (a : Ipv4Address) : UInt32 := UInt32.ofNat a.toNat

/-- The address that a number in network byte order stands for. -/
def ofNetworkInteger (n : UInt32) : Ipv4Address := .ofNat 4 n.toNat

/-- Four decimal numbers with a point between each two. -/
def chars (a : Ipv4Address) : List Char :=
  Text.joined ['.'] (a.bytes.map fun x => Text.decimal x.toNat)

/-- An address in text. -/
def text (a : Ipv4Address) : String := String.ofList (chars a)

end Ipv4Address

end PacketLayers
