/-
  PacketLayers.Transport.Tcp.Flags
  ────────────────────────────────
  **FLAGS AND SEQUENCE NUMBERS OF TCP.**
-/
import PacketLayers.Bytes.Field

namespace PacketLayers.Tcp

/-! ## §1. Flags. -/

/-- The flags of a header, lowest bit first. -/
inductive Flag where
  | fin
  | syn
  | rst
  | psh
  | ack
  | urg
  | ece
  | cwr
  | ns
  deriving DecidableEq, Repr

namespace Flag

/-- Every flag, lowest bit first. -/
def all : List Flag := [fin, syn, rst, psh, ack, urg, ece, cwr, ns]

/-- The bit of a flag. -/
def mask : Flag → UInt16
  | fin => 0x001
  | syn => 0x002
  | rst => 0x004
  | psh => 0x008
  | ack => 0x010
  | urg => 0x020
  | ece => 0x040
  | cwr => 0x080
  | ns => 0x100

/-- The name of a flag. -/
def name : Flag → String
  | fin => "fin"
  | syn => "syn"
  | rst => "rst"
  | psh => "psh"
  | ack => "ack"
  | urg => "urg"
  | ece => "ece"
  | cwr => "cwr"
  | ns => "ns"

/-- The order in which text for readers names the flags. -/
def inText : List Flag := [syn, fin, rst, psh, ack, urg, ece, cwr, ns]

end Flag

/-- A set of flags. -/
structure Flags where
  /-- One bit per flag. -/
  bits : UInt16
  deriving DecidableEq, Repr

instance : Coded Flags := ⟨fun n => ⟨UInt16.ofNat n⟩, fun f => f.bits.toNat⟩

namespace Flags

/-- Whether a flag is in the set. -/
def has (f : Flags) (flag : Flag) : Bool := f.bits &&& flag.mask != 0

/-- Put a flag into the set or take it out. -/
def put (f : Flags) (flag : Flag) (value : Bool) : Flags :=
  ⟨if value then f.bits ||| flag.mask else f.bits &&& ~~~ flag.mask⟩

/-- The flags in text for readers, each with a space before it. -/
def text (f : Flags) : String :=
  (Flag.inText.filter f.has).foldl (fun s flag => s ++ " " ++ flag.name) ""

end Flags

/-! ## §2. Sequence numbers. -/

/-- A position in a byte stream, modulo `2 ^ 32`. -/
structure SequenceNumber where
  /-- The number on the wire. -/
  value : UInt32
  deriving DecidableEq, Repr

instance : Coded SequenceNumber := ⟨fun n => ⟨UInt32.ofNat n⟩, fun s => s.value.toNat⟩

namespace SequenceNumber

/-- The position some bytes further on. -/
def advance (s : SequenceNumber) (count : UInt32) : SequenceNumber := ⟨s.value + count⟩

/-- The number read as a signed one. -/
def signed (s : SequenceNumber) : Int := s.value.toInt32.toInt

/-- The number in text for readers. -/
def text (s : SequenceNumber) : String := toString s.value

end SequenceNumber

end PacketLayers.Tcp
