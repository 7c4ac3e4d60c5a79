/-
  PacketLayers.Address.Ipv6
  ────────────────────────────────
  **IPV6 ADDRESSES AND THEIR TEXT.**

  An address is written as its eight words in hexadecimal with `:` between
  them; the first run of zero words, of whatever length, becomes `::`.  An
  address that stands for an IPv4 address ends in the dotted decimal form of
  that address instead.
-/
import PacketLayers.Address.Ipv4

namespace PacketLayers

/-- A sixteen octet IPv6 address. -/
abbrev Ipv6Address := Octets 16

namespace Ipv6Address

/-! ## §1. Classes of addresses. -/

/-- The address of all zeros. -/
def unspecified : Ipv6Address := .all 16 0

/-- The address of the host itself. -/
def loopback : Ipv6Address := .ofNat 16 1

/-- The group of all nodes on the link. -/
def linkLocalAllNodes : Ipv6Address :=
  ⟨[0xff, 0x02, 0, 0, 0, 0, 0, 0, 0, 0, 0, 0, 0, 0, 0, 1], rfl⟩

def isMulticast (a : Ipv6Address) : Bool := a.get 0 == 0xff

/-- The first twelve octets mark the last four as an IPv4 address. -/
def isIpv4Mapped (a : Ipv6Address) : Bool :=
  a.bytes.take 12 == [0, 0, 0, 0, 0, 0, 0, 0, 0, 0, 0xff, 0xff]

/-- The IPv4 address that the last four octets spell. -/
def lowIpv4 (a : Ipv6Address) : Ipv4Address := .fit 4 (a.bytes.drop 12)

/-- The IPv4 address that the address stands for. -/
def toIpv4? (a : Ipv6Address) : Option Ipv4Address :=
  if isIpv4Mapped a then some (lowIpv4 a) else none

/-! ## §2. Words. -/

/-- Consecutive pairs of bytes as numbers. -/
def wordsOf : Bytes → List Nat
  | hi :: lo :: rest => (hi.toNat * 256 + lo.toNat) :: wordsOf rest
  | _ => []

/-- The eight words of an address. -/
def words (a : Ipv6Address) : List Nat := wordsOf a.bytes

/-! ## §3. Text. -/

/-- Words in hexadecimal with `:` between them. -/
def colonWords (ws : List Nat) : List Char := Text.joined [':'] (ws.map Text.hex)

/-- Words with the first run of zeros written as `::`. -/
def compressed (ws : List Nat) : List Char :=
  let front := ws.takeWhile (· != 0)
  match ws.dropWhile (· != 0) with
  | [] => colonWords front
  | rest => colonWords front ++ [':', ':'] ++ colonWords (rest.dropWhile (· == 0))

/-- The characters of an address. -/
def chars (a : Ipv6Address) : List Char :=
  if isIpv4Mapped a then "::ffff:".toList ++ Ipv4Address.chars (lowIpv4 a)
  else compressed (words a)

/-- An address in text. -/
def text (a : Ipv6Address) : String := String.ofList (chars a)

end Ipv6Address

end PacketLayers
