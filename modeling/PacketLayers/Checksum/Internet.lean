/-
  PacketLayers.Checksum.Internet
  ────────────────────────────────
  **THE INTERNET CHECKSUM.**

  The ones'-complement sum of sixteen bit words.  Sums are kept
  uncomplemented, so that partial sums of a pseudo header, a header and its
  payload can be combined; the complement is taken when a field is filled.
  The words are added in 64 bits and the carries folded back twice, first to
  32 and then to 16 bits.
-/
import PacketLayers.Bytes.Basic

namespace PacketLayers.Checksum

/-! ## §1. Folding carries. -/

/-- Fold the carries of a 64 bit sum into 32 bits. -/
def fold64 (sum : UInt64) : UInt32 :=
  let once := (sum >>> 32) + (sum &&& 0xffffffff)
  ((once >>> 32) + (once &&& 0xffffffff)).toUInt32

/-- Fold the carries of a 32 bit sum into 16 bits. -/
def fold32 (sum : UInt32) : UInt16 :=
  let once := (sum >>> 16) + (sum &&& 0xffff)
  (once >>> 16).toUInt16 + once.toUInt16

/-! ## §2. Sums. -/

/-- Add the big-endian words of a byte string to a sum; an odd last byte is
the high half of a word. -/
def addWords (sum : UInt64) : Bytes → UInt64
  | hi :: lo :: rest => addWords (sum + ((hi.toUInt64 <<< 8) + lo.toUInt64)) rest
  | [hi] => sum + (hi.toUInt64 <<< 8)
  | [] => sum

/-- The uncomplemented sum of a byte string. -/
def data (b : Bytes) : UInt16 := fold32 (fold64 (addWords 0 b))

/-- The sum of several sums. -/
def combine (sums : List UInt16) : UInt16 :=
  fold32 (sums.foldl (fun acc s => acc + s.toUInt32) 0)

/-! ## §3. Filling and checking a field. -/

/-- What a checksum field covering the bytes has to hold; the field itself is
zero in them. -/
def compute (b : Bytes) : UInt16 := ~~~ data b

/-- Whether bytes that include their own checksum field are intact. -/
def verify (b : Bytes) : Bool := data b == 0xffff

end PacketLayers.Checksum
