/-
  PacketLayers.Link.Loopback
  ────────────────────────────────
  **LOOPBACK HEADERS.**

  Four bytes of address family in the byte order of the capturing host, which
  is little endian, and then an IP packet.
-/
import PacketLayers.Bytes.Span
import PacketLayers.Layer.Dissector

namespace PacketLayers.Loopback

/-! ## §1. Layout. -/

/-- The length of the header. -/
def headerLength : Nat := 4

namespace Family

def ipv4 : UInt32 := 2
/-- IPv6 as NetBSD and OpenBSD write it. -/
def ipv6 : UInt32 := 24
/-- IPv6 as FreeBSD writes it. -/
def ipv6FreeBsd : UInt32 := 28
/-- IPv6 as Darwin writes it. -/
def ipv6Darwin : UInt32 := 30

end Family

/-! ## §2. Contents. -/

/-- The contents of a loopback header. -/
structure Header where
  /-- The address family of the payload. -/
  family : UInt32
  deriving DecidableEq

namespace Header

/-- The contents of a header. -/
def parse (h : Bytes) : Except Error Header :=
  match (View.whole h).readLittle headerLength 0 with
  | .ok n => .ok ⟨UInt32.ofNat n⟩
  | .error _ => .error .truncated

/-- The header of some family. -/
def toBytes (r : Header) : Bytes := (Bytes.ofNat headerLength r.family.toNat).reverse

/-- Write the family over a header, if there are enough bytes. -/
def emit (r : Header) (h : Bytes) : Except Error Bytes :=
  match (View.whole h).writeLittle headerLength 0 r.family.toNat with
  | .ok v => .ok v.storage
  | .error _ => .error .truncated

end Header

/-! ## §3. Behaviour as a layer. -/

/-- The family that a header states. -/
def next (h : Bytes) : Option Discriminant :=
  match Header.parse h with
  | .ok r => some (.loopbackFamily r.family)
  | .error _ => none

/-- Write the family of the payload, if the header has room for it. -/
def setNext (h : Bytes) : Discriminant → Access Bytes
  | .loopbackFamily family =>
    if headerLength ≤ h.length then h.overwrite 0 (Header.toBytes ⟨family⟩) else .ok h
  | _ => .ok h

/-- Loopback as a layer of a packet. -/
def dissector : Dissector where
  kind := .loopback
  headerLength h := (Header.parse h).map fun _ => headerLength
  next h _ := .ok (next h)
  discriminantOf
    | .ipv4 => some (.loopbackFamily Family.ipv4)
    | .ipv6 => some (.loopbackFamily Family.ipv6)
    | _ => none
  setNext := setNext
  defaultHeader := [2, 0, 0, 0]
  requiredLength _ := .ok (some headerLength)

/-- The default header announces IPv4. -/
theorem defaultHeader_eq : dissector.defaultHeader = Header.toBytes ⟨Family.ipv4⟩ := by
  decide

end PacketLayers.Loopback
