/-
  PacketLayers.Theory.Number
  ────────────────────────────────
  **NUMBERS IN BYTES AND IN BITS, AS POWERS.**

  The definitions shift; here they are restated with powers, for arithmetic.
  Bytes and the number that they spell determine each other:

      toNat (ofNat size value) = value % 256 ^ size
      ofNat b.length (toNat b) = b

  and a run of bits put into a number is what reading the run gives back.
-/
import Mathlib.Data.Nat.Bitwise
import Mathlib.Tactic.Ring
import PacketLayers.Bytes.Field

namespace PacketLayers

/-! ## §1. Shifts as powers. -/

namespace Bytes

theorem two_pow_eight_mul (k : Nat) : 2 ^ (8 * k) = 256 ^ k := by
  rw [Nat.pow_mul]

theorem toNat_cons (x : UInt8) (xs : Bytes) :
    toNat (x :: xs) = x.toNat * 256 ^ xs.length + toNat xs := by
  rw [toNat, Nat.shiftLeft_eq, two_pow_eight_mul]

theorem ofNat_succ (size value : Nat) :
    ofNat (size + 1) value = UInt8.ofNat (value / 256 ^ size) :: ofNat size value := by
  rw [ofNat, Nat.shiftRight_eq_div_pow, two_pow_eight_mul]

/-! ## §2. Bytes and the numbers they spell. -/

theorem toNat_ofNat_byte (n : Nat) : (UInt8.ofNat n).toNat = n % 256 := UInt8.toNat_ofNat'

/-- Writing a number keeps as much of it as there is room for. -/
theorem toNat_ofNat (size value : Nat) :
    toNat (ofNat size value) = value % 256 ^ size := by
  -- one more byte takes the next factor out of the modulus
  induction size with
  | zero => simp [ofNat, toNat, Nat.mod_one]
  | succ size ih =>
    have split := Nat.mod_mul (x := value) (a := 256 ^ size) (b := 256)
    rw [ofNat_succ, toNat_cons, length_ofNat, ih, toNat_ofNat_byte, Nat.pow_succ, split,
      Nat.mul_comm (256 ^ size), Nat.add_comm]

/-- Some bytes spell a number below the next power. -/
theorem toNat_lt (b : Bytes) : toNat b < 256 ^ b.length := by
  induction b with
  | nil => simp [toNat]
  | cons x xs ih =>
    have hx : x.toNat + 1 ≤ 256 := x.toNat_lt
    have h := Nat.mul_le_mul_right (256 ^ xs.length) hx
    rw [toNat_cons, List.length_cons, Nat.pow_succ, Nat.mul_comm (256 ^ xs.length) 256]
    rw [Nat.add_mul] at h
    omega

/-- Bytes are what writing their number gives. -/
theorem ofNat_toNat (b : Bytes) : ofNat b.length (toNat b) = b := by
  -- what does not fit is dropped, so the first byte does not disturb the others
  have low : ∀ size value extra,
      ofNat size (extra * 256 ^ size + value) = ofNat size value := by
    intro size
    induction size with
    | zero => intro value extra; rfl
    | succ size ih =>
      intro value extra
      have h : extra * 256 ^ (size + 1) + value = extra * 256 * 256 ^ size + value := by
        rw [Nat.pow_succ, Nat.mul_comm (256 ^ size) 256, Nat.mul_assoc]
      rw [ofNat_succ, ofNat_succ, h, ih]
      congr 1
      rw [Nat.add_comm, Nat.add_mul_div_right _ _ (Nat.pow_pos (by omega))]
      apply UInt8.toNat_inj.1
      rw [toNat_ofNat_byte, toNat_ofNat_byte, Nat.add_mul_mod_self_right]
  induction b with
  | nil => rfl
  | cons x xs ih =>
    rw [List.length_cons, ofNat_succ, toNat_cons, low, ih]
    congr 1
    rw [Nat.add_comm, Nat.add_mul_div_right _ _ (Nat.pow_pos (by omega)),
      Nat.div_eq_of_lt (toNat_lt xs), Nat.zero_add]
    exact UInt8.ofNat_toNat

end Bytes

/-! ## §3. Runs of bits. -/

namespace Field

theorem bitsOf_eq (n low width : Nat) : bitsOf n low width = n / 2 ^ low % 2 ^ width := by
  rw [bitsOf, Nat.shiftRight_eq_div_pow, Nat.one_shiftLeft]

theorem putBits_eq (n low width v : Nat) :
    putBits n low width v
      = n / 2 ^ (low + width) * 2 ^ (low + width) + v % 2 ^ width * 2 ^ low + n % 2 ^ low := by
  simp only [putBits, Nat.shiftRight_eq_div_pow, Nat.shiftLeft_eq, Nat.one_mul]

/-- A run of bits holds what was put there, as far as it has room. -/
theorem bitsOf_putBits (n low width v : Nat) :
    bitsOf (putBits n low width v) low width = v % 2 ^ width := by
  rw [bitsOf_eq, putBits_eq]
  -- what lies below is cut off by the division, what lies above by the modulus
  have h : n / 2 ^ (low + width) * 2 ^ (low + width) + v % 2 ^ width * 2 ^ low + n % 2 ^ low
      = n % 2 ^ low
        + (v % 2 ^ width + 2 ^ width * (n / 2 ^ (low + width))) * 2 ^ low := by
    rw [Nat.pow_add]
    ring
  rw [h, Nat.add_mul_div_right _ _ (Nat.two_pow_pos low),
    Nat.div_eq_of_lt (Nat.mod_lt _ (Nat.two_pow_pos low)), Nat.zero_add,
    Nat.add_mul_mod_self_left, Nat.mod_mod]

/-- The bits put, with those below them, do not reach the bits above. -/
theorem low_part_lt (n low width v : Nat) :
    2 ^ low * (v % 2 ^ width) + n % 2 ^ low < 2 ^ (low + width) := by
  have hv : v % 2 ^ width + 1 ≤ 2 ^ width := Nat.mod_lt _ (Nat.two_pow_pos width)
  have hn := Nat.mod_lt n (Nat.two_pow_pos low)
  have hroom := Nat.mul_le_mul_left (2 ^ low) hv
  rw [Nat.mul_add, Nat.mul_one, ← Nat.pow_add] at hroom
  omega

/-- Bit by bit: the new value in its place, the old number around it. -/
theorem testBit_putBits (n low width v i : Nat) :
    (putBits n low width v).testBit i
      = if low ≤ i ∧ i < low + width then v.testBit (i - low) else n.testBit i := by
  -- the bits above, those put and those below do not overlap
  have hregroup : putBits n low width v
      = 2 ^ (low + width) * (n / 2 ^ (low + width))
        + (2 ^ low * (v % 2 ^ width) + n % 2 ^ low) := by
    rw [putBits_eq]
    ring
  rw [hregroup, Nat.testBit_two_pow_mul_add _ (low_part_lt n low width v),
    Nat.testBit_two_pow_mul_add _ (Nat.mod_lt n (Nat.two_pow_pos low))]
  -- below the run, inside it or above it
  by_cases hbelow : i < low
  · have hroom : i < low + width := by omega
    rw [if_pos hroom, if_pos hbelow, if_neg (by omega), Nat.testBit_mod_two_pow]
    simp [hbelow]
  · by_cases hinside : i < low + width
    · rw [if_pos hinside, if_neg hbelow, if_pos (by omega), Nat.testBit_mod_two_pow]
      have hwidth : i - low < width := by omega
      simp [hwidth]
    · rw [if_neg hinside, if_neg (by omega), Nat.testBit_div_two_pow]
      congr 1
      omega

theorem testBit_bitsOf (n low width i : Nat) :
    (bitsOf n low width).testBit i = (decide (i < width) && n.testBit (low + i)) := by
  rw [bitsOf_eq, Nat.testBit_mod_two_pow, Nat.testBit_div_two_pow]
  congr 2
  omega

/-- Bits that are put back change nothing. -/
theorem putBits_bitsOf (n low width : Nat) : putBits n low width (bitsOf n low width) = n := by
  apply Nat.eq_of_testBit_eq
  intro i
  rw [testBit_putBits, testBit_bitsOf]
  split
  · next inside =>
    have hi : low + (i - low) = i := by omega
    have hwidth : i - low < width := by omega
    simp [hi, hwidth]
  · rfl

/-- Of two values put into the same bits the last one counts. -/
theorem putBits_putBits (n low width u v : Nat) :
    putBits (putBits n low width u) low width v = putBits n low width v := by
  apply Nat.eq_of_testBit_eq
  intro i
  simp only [testBit_putBits]
  split <;> rfl

/-- Bits that lie apart know nothing of each other. -/
theorem bitsOf_putBits_of_apart (n v : Nat) {low width low' width' : Nat}
    (apart : low + width ≤ low' ∨ low' + width' ≤ low) :
    bitsOf (putBits n low' width' v) low width = bitsOf n low width := by
  apply Nat.eq_of_testBit_eq
  intro i
  rw [testBit_bitsOf, testBit_bitsOf, testBit_putBits]
  -- only the bits inside the run that is read matter
  by_cases hi : i < width
  · rw [if_neg (by omega)]
  · simp [hi]

theorem putBits_comm (n u v : Nat) {low width low' width' : Nat}
    (apart : low + width ≤ low' ∨ low' + width' ≤ low) :
    putBits (putBits n low' width' v) low width u
      = putBits (putBits n low width u) low' width' v := by
  apply Nat.eq_of_testBit_eq
  intro i
  simp only [testBit_putBits]
  by_cases hi : low ≤ i ∧ i < low + width
  · rw [if_pos hi, if_neg (by omega), if_pos hi]
  · rw [if_neg hi, if_neg hi]

/-- Putting bits does not make a number longer than its bits need. -/
theorem putBits_lt {n low width total : Nat} (room : low + width ≤ total) (hn : n < 2 ^ total)
    (v : Nat) : putBits n low width v < 2 ^ total := by
  apply Nat.lt_pow_two_of_testBit
  intro i hi
  rw [testBit_putBits, if_neg (by omega)]
  exact Nat.testBit_lt_two_pow (Nat.lt_of_lt_of_le hn (Nat.pow_le_pow_right (by omega) hi))

end Field

end PacketLayers
