/-
  PacketLayers.Bytes.Basic
  ────────────────────────────────
  **BYTE STRINGS, THEIR RANGES AND THE NUMBERS THEY SPELL.**

  Every access to a header goes through two functions: `slice` reads a range
  and `overwrite` replaces one.  Both answer `Fault.outOfRange` instead of
  reading past the end.  A number of `n` bytes is `Bytes.ofNat n`, most
  significant byte first, and `Bytes.toNat` reads it back modulo `256 ^ n`.
-/
import PacketLayers.Error

namespace PacketLayers

/-- The carrier of everything on the wire. -/
abbrev Bytes := List UInt8

namespace Bytes

/-! ## §1. Ranges. -/

/-- The `size` bytes from `first` on. -/
def slice (b : Bytes) (first size : Nat) : Access Bytes :=
  if first + size ≤ b.length then .ok ((b.drop first).take size)
  else .error .outOfRange

/-- Replace the bytes from `first` on by as many new ones. -/
def overwrite (b : Bytes) (first : Nat) (new : Bytes) : Access Bytes :=
  if first + new.length ≤ b.length then
    .ok (b.take first ++ new ++ b.drop (first + new.length))
  else .error .outOfRange

/-- Replace the range of `size` bytes from `first` on; the new content has to
fit it exactly. -/
def replace (b : Bytes) (first size : Nat) (new : Bytes) : Access Bytes :=
  if first + size ≤ b.length then
    if new.length = size then overwrite b first new else .error .lengthMismatch
  else .error .outOfRange

/-- The first `size` bytes, zero-filled when there are fewer. -/
def resize (b : Bytes) (size : Nat) : Bytes :=
  b.take size ++ List.replicate (size - b.length) 0

theorem length_slice {b s : Bytes} {first size : Nat}
    (h : slice b first size = .ok s) : s.length = size := by
  unfold slice at h
  split at h
  · cases h; simp only [List.length_take, List.length_drop]; omega
  · cases h

theorem replace_eq {b new : Bytes} {first size : Nat} (room : first + size ≤ b.length)
    (fits : new.length = size) :
    b.replace first size new = .ok (b.take first ++ new ++ b.drop (first + size)) := by
  subst fits
  rw [replace, if_pos room, if_pos rfl, overwrite, if_pos room]

theorem length_replaced {b new : Bytes} {first size : Nat} (room : first + size ≤ b.length)
    (fits : new.length = size) :
    (b.take first ++ new ++ b.drop (first + size)).length = b.length := by
  simp only [List.length_append, List.length_take, List.length_drop]
  omega

/-- Bytes around those that were replaced stay. -/
theorem getElem?_replaced {b new : Bytes} {first size i : Nat}
    (room : first + size ≤ b.length) (fits : new.length = size)
    (outside : i < first ∨ first + size ≤ i) :
    (b.take first ++ new ++ b.drop (first + size))[i]? = b[i]? := by
  have hfront : (b.take first).length = first := List.length_take_of_le (by omega)
  rcases outside with front | back
  · rw [List.append_assoc, List.getElem?_append_left (by omega), List.getElem?_take_of_lt front]
  · have hwidth : (b.take first ++ new).length = first + size := by
      rw [List.length_append, hfront, fits]
    rw [List.getElem?_append_right (hwidth ▸ back), hwidth, List.getElem?_drop,
      Nat.add_sub_cancel' back]

theorem length_resize (b : Bytes) (size : Nat) : (resize b size).length = size := by
  simp only [resize, List.length_append, List.length_take, List.length_replicate]
  omega

/-! ## §2. Numbers. -/

/-- The number the bytes spell, most significant byte first. -/
def toNat : Bytes → Nat
  | [] => 0
  | x :: xs => x.toNat <<< (8 * xs.length) + toNat xs

/-- The low `size` bytes of a number, most significant byte first. -/
def ofNat : (size value : Nat) → Bytes
  | 0, _ => []
  | size + 1, value => UInt8.ofNat (value >>> (8 * size)) :: ofNat size value

theorem length_ofNat (size value : Nat) : (ofNat size value).length = size := by
  induction size with
  | zero => rfl
  | succ size ih => simp [ofNat, ih]

end Bytes

end PacketLayers
