/-
  PacketLayers.Checksum.Crc32
  ────────────────────────────────
  **THE CRC-32 OF A FRAME.**

  The reflected CRC with polynomial `0xEDB88320`, where register and result
  are complemented.  A frame check sequence stores it least significant byte
  first.
-/
import PacketLayers.Bytes.Basic

namespace PacketLayers.Crc32

/-- Shift one bit out of the register. -/
def bitStep (crc : UInt32) : UInt32 :=
  if crc &&& 1 = 0 then crc >>> 1 else (crc >>> 1) ^^^ 0xEDB88320

/-- Feed one byte into the register. -/
def byteStep (crc : UInt32) (x : UInt8) : UInt32 :=
  Nat.repeat bitStep 8 (crc ^^^ x.toUInt32)

/-- The register after a run of bytes. -/
def register (start : UInt32) (b : Bytes) : UInt32 := b.foldl byteStep start

/-- The CRC-32 of a byte string. -/
def crc32 (b : Bytes) : UInt32 := register 0xFFFFFFFF b ^^^ 0xFFFFFFFF

theorem register_append (start : UInt32) (a b : Bytes) :
    register start (a ++ b) = register (register start a) b := by
  simp [register]

end PacketLayers.Crc32
