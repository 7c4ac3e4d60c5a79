/-
  PacketLayers.Bytes.Octets
  ────────────────────────────────
  **BYTE STRINGS OF A FIXED LENGTH.**

  Addresses and organization codes are opaque runs of a known number of
  bytes; the length is part of the type, so no address of a wrong length
  exists.
-/
import PacketLayers.Bytes.Basic

namespace PacketLayers

/-- Exactly `n` bytes. -/
structure Octets (n : Nat) where
  /-- The bytes, in wire order. -/
  bytes : Bytes
  length_bytes : bytes.length = n
  deriving DecidableEq

namespace Octets

/-- The bytes as a run of length `n`; another length is the caller's fault. -/
def ofBytes (n : Nat) (b : Bytes) : Access (Octets n) :=
  if h : b.length = n then .ok ⟨b, h⟩ else .error .lengthMismatch

/-- The first `n` bytes, zero-filled when there are fewer. -/
def fit (n : Nat) (b : Bytes) : Octets n := ⟨b.resize n, Bytes.length_resize b n⟩

/-- Every byte the same. -/
def all (n : Nat) (x : UInt8) : Octets n := ⟨List.replicate n x, List.length_replicate⟩

/-- The byte at a position. -/
def get {n : Nat} (a : Octets n) (i : Fin n) : UInt8 :=
  a.bytes.get (i.cast a.length_bytes.symm)

/-- The bytes as one big-endian number. -/
def toNat {n : Nat} (a : Octets n) : Nat := Bytes.toNat a.bytes

/-- The low `n` bytes of a number. -/
def ofNat (n value : Nat) : Octets n := ⟨Bytes.ofNat n value, Bytes.length_ofNat n value⟩

theorem fit_bytes {n : Nat} (a : Octets n) : fit n a.bytes = a := by
  obtain ⟨b, rfl⟩ := a
  simp [fit, Bytes.resize]

end Octets

end PacketLayers
