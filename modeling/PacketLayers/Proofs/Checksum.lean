/-
  PacketLayers.Proofs.Checksum
  ────────────────────────────────
  **A CHECKSUM THAT WAS FILLED HOLDS.**

  Folding carries keeps a sum modulo 65535, and keeps it from becoming zero;
  that determines the sixteen bits that are left.  The complement of the sum
  of everything else, written into a word of a header, therefore completes the
  sum to `0xffff`.
-/
import PacketLayers.Checksum.PseudoHeader
import PacketLayers.Proofs.Field

namespace PacketLayers.Checksum

/-! ## §1. Folding. -/

/-- Sixteen bits are a sum with its carries folded. -/
structure Folds (sum : Nat) (folded : UInt16) : Prop where
  congruent : folded.toNat % 65535 = sum % 65535
  zero : folded.toNat = 0 ↔ sum = 0

/-- A sum of whole multiples of 65535 folds to all ones, unless it is zero. -/
theorem Folds.eq_ones {sum : Nat} {folded : UInt16} (h : Folds sum folded)
    (multiple : sum % 65535 = 0) (positive : sum ≠ 0) : folded = 0xffff := by
  have hlt := folded.toNat_lt
  have hcongruent := h.congruent
  have hzero := h.zero
  -- of the numbers below 65536 only zero and 65535 are multiples, and zero is out
  apply UInt16.toNat_inj.1
  show folded.toNat = 65535
  omega

/-- Nothing else is a sum with its carries folded. -/
theorem Folds.toNat_eq {sum : Nat} {folded : UInt16} (h : Folds sum folded) :
    folded.toNat = if sum = 0 then 0 else (sum - 1) % 65535 + 1 := by
  have hlt := folded.toNat_lt
  have hcongruent := h.congruent
  have hzero := h.zero
  split <;> omega

theorem Folds.unique {sum : Nat} {one other : UInt16} (h : Folds sum one)
    (h' : Folds sum other) : one = other :=
  UInt16.toNat_inj.1 (h.toNat_eq.trans h'.toNat_eq.symm)

/-- The two halves of 64 bits, and the room that there is for their sum. -/
theorem toNat_halves64 (s : UInt64) :
    (s >>> 32).toNat = s.toNat / 2 ^ 32 ∧ (s &&& 0xffffffff).toNat = s.toNat % 2 ^ 32
      ∧ ((s >>> 32) + (s &&& 0xffffffff)).toNat = s.toNat / 2 ^ 32 + s.toNat % 2 ^ 32 := by
  have hhigh : (s >>> 32).toNat = s.toNat / 2 ^ 32 := Nat.shiftRight_eq_div_pow s.toNat 32
  have hlow : (s &&& 0xffffffff).toNat = s.toNat % 2 ^ 32 :=
    Nat.and_two_pow_sub_one_eq_mod s.toNat 32
  have hs := s.toNat_lt
  refine ⟨hhigh, hlow, ?_⟩
  rw [UInt64.toNat_add, hhigh, hlow]
  omega

/-- The same for 32 bits. -/
theorem toNat_halves32 (s : UInt32) :
    (s >>> 16).toNat = s.toNat / 2 ^ 16 ∧ (s &&& 0xffff).toNat = s.toNat % 2 ^ 16
      ∧ ((s >>> 16) + (s &&& 0xffff)).toNat = s.toNat / 2 ^ 16 + s.toNat % 2 ^ 16 := by
  have hhigh : (s >>> 16).toNat = s.toNat / 2 ^ 16 := Nat.shiftRight_eq_div_pow s.toNat 16
  have hlow : (s &&& 0xffff).toNat = s.toNat % 2 ^ 16 := Nat.and_two_pow_sub_one_eq_mod s.toNat 16
  have hs := s.toNat_lt
  refine ⟨hhigh, hlow, ?_⟩
  rw [UInt32.toNat_add, hhigh, hlow]
  omega

theorem toNat_fold64 (s : UInt64) :
    (fold64 s).toNat % 65535 = s.toNat % 65535 ∧ ((fold64 s).toNat = 0 ↔ s.toNat = 0) := by
  have hs := s.toNat_lt
  -- one carry is left after the first step, and none after the second
  obtain ⟨_, _, honce⟩ := toNat_halves64 s
  obtain ⟨_, _, htwice⟩ := toNat_halves64 ((s >>> 32) + (s &&& 0xffffffff))
  have hfold : (fold64 s).toNat = (s.toNat / 2 ^ 32 + s.toNat % 2 ^ 32) / 2 ^ 32
      + (s.toNat / 2 ^ 32 + s.toNat % 2 ^ 32) % 2 ^ 32 := by
    unfold fold64
    simp only
    rw [UInt64.toNat_toUInt32, htwice, honce]
    omega
  rw [hfold]
  omega

theorem folds_fold32 (s : UInt32) : Folds s.toNat (fold32 s) := by
  have hs := s.toNat_lt
  -- the same two steps with half as many bits
  obtain ⟨_, _, honce⟩ := toNat_halves32 s
  obtain ⟨hhigh, _, _⟩ := toNat_halves32 ((s >>> 16) + (s &&& 0xffff))
  have hfold : (fold32 s).toNat = (s.toNat / 2 ^ 16 + s.toNat % 2 ^ 16) / 2 ^ 16
      + (s.toNat / 2 ^ 16 + s.toNat % 2 ^ 16) % 2 ^ 16 := by
    unfold fold32
    simp only
    rw [UInt16.toNat_add, UInt32.toNat_toUInt16, UInt32.toNat_toUInt16, hhigh, honce]
    omega
  refine ⟨?_, ?_⟩ <;> rw [hfold] <;> omega

/-! ## §2. Sums of words. -/

/-- The sum of the words of a byte string, as a number. -/
def wordSum : Bytes → Nat
  | hi :: lo :: rest => hi.toNat * 256 + lo.toNat + wordSum rest
  | [hi] => hi.toNat * 256
  | [] => 0

theorem wordSum_le (b : Bytes) : 2 * wordSum b ≤ 65535 * (b.length + 1) := by
  -- two bytes at a time, as the sum takes them
  induction b using wordSum.induct with
  | case1 hi lo rest ih =>
    have hhi := hi.toNat_lt
    have hlo := lo.toNat_lt
    simp only [wordSum, List.length_cons]
    omega
  | case2 hi =>
    have hhi := hi.toNat_lt
    simp only [wordSum, List.length_singleton]
    omega
  | case3 => simp [wordSum]

/-- Words are those of the parts, if the first part is not cut in a word. -/
theorem wordSum_append {a b : Bytes} (even : a.length % 2 = 0) :
    wordSum (a ++ b) = wordSum a + wordSum b := by
  induction a using wordSum.induct with
  | case1 hi lo rest ih =>
    have hrest : rest.length % 2 = 0 := by
      simp only [List.length_cons] at even
      omega
    rw [List.cons_append, List.cons_append, wordSum, wordSum, ih hrest]
    omega
  | case2 hi => simp at even
  | case3 => simp [wordSum]

theorem toNat_highHalf (x : UInt8) : (x.toUInt64 <<< 8).toNat = x.toNat * 256 := by
  have hx := x.toNat_lt
  rw [UInt64.toNat_shiftLeft, UInt8.toNat_toUInt64, Nat.shiftLeft_eq]
  exact Nat.mod_eq_of_lt (by show x.toNat * 256 < 2 ^ 64; omega)

theorem toNat_addWords (b : Bytes) :
    ∀ s : UInt64, (addWords s b).toNat = (s.toNat + wordSum b) % 2 ^ 64 := by
  -- each word is added to the sum of the words in front of it
  induction b using wordSum.induct with
  | case1 hi lo rest ih =>
    intro s
    rw [addWords, ih, UInt64.toNat_add, UInt64.toNat_add, toNat_highHalf, UInt8.toNat_toUInt64, wordSum]
    omega
  | case2 hi =>
    intro s
    rw [addWords, UInt64.toNat_add, toNat_highHalf, wordSum]
  | case3 =>
    intro s
    rw [addWords, wordSum, Nat.add_zero, Nat.mod_eq_of_lt s.toNat_lt]

/-- The sum of a byte string that is not too long for 64 bits. -/
theorem folds_data {b : Bytes} (short : b.length ≤ 2 ^ 49) : Folds (wordSum b) (data b) := by
  have hle := wordSum_le b
  -- 2^49 bytes are 2^48 words, and their sum has room in 64 bits
  have hsum : (addWords 0 b).toNat = wordSum b := by
    rw [toNat_addWords, UInt64.toNat_zero, Nat.zero_add]
    exact Nat.mod_eq_of_lt (by omega)
  obtain ⟨hcongruent, hzero⟩ := toNat_fold64 (addWords 0 b)
  have hfolds := folds_fold32 (fold64 (addWords 0 b))
  rw [hsum] at hcongruent hzero
  exact ⟨hfolds.congruent.trans hcongruent, hfolds.zero.trans hzero⟩

/-- The sum of several sums, as a number. -/
def sumOf : List UInt16 → Nat
  | s :: rest => s.toNat + sumOf rest
  | [] => 0

theorem toNat_foldl_sums (sums : List UInt16) :
    ∀ acc : UInt32, acc.toNat + 65535 * sums.length < 2 ^ 32 →
      (sums.foldl (fun acc s => acc + s.toUInt32) acc).toNat = acc.toNat + sumOf sums := by
  -- what the sums that are left can add is kept free
  induction sums with
  | nil => exact fun acc _ => rfl
  | cons s rest ih =>
    intro acc room
    have hs := s.toNat_lt
    rw [List.length_cons] at room
    have hadd : (acc + s.toUInt32).toNat = acc.toNat + s.toNat := by
      rw [UInt32.toNat_add, UInt16.toNat_toUInt32]
      exact Nat.mod_eq_of_lt (by omega)
    rw [List.foldl_cons, ih _ (by omega), hadd, sumOf, Nat.add_assoc]

/-- The sum of several sums: 65536 of them have room in 32 bits. -/
theorem folds_sums (sums : List UInt16) (few : sums.length ≤ 65536) :
    Folds (sumOf sums) (combine sums) := by
  have hsum := toNat_foldl_sums sums 0 (by rw [UInt32.toNat_zero]; omega)
  rw [UInt32.toNat_zero, Nat.zero_add] at hsum
  rw [← hsum]
  exact folds_fold32 _

/-- The sum of three sums. -/
theorem folds_combine (a b c : UInt16) :
    Folds (a.toNat + b.toNat + c.toNat) (combine [a, b, c]) := by
  have hsum : sumOf [a, b, c] = a.toNat + b.toNat + c.toNat := by
    simp only [sumOf]
    omega
  rw [← hsum]
  exact folds_sums _ (by show 3 ≤ 65536; decide)

/-! ## §3. Filling a field. -/

theorem toNat_complement (x : UInt16) : (~~~ x).toNat = 65535 - x.toNat := by
  rw [UInt16.toNat_not]
  rfl

/-- What completes a sum to all ones. -/
def Completes (sum value : UInt16) : Prop :=
  (sum.toNat + value.toNat) % 65535 = 0 ∧ sum.toNat + value.toNat ≠ 0

theorem completes_complement (sum : UInt16) : Completes sum (~~~ sum) := by
  have hlt := sum.toNat_lt
  unfold Completes
  rw [toNat_complement]
  omega

variable {h : Bytes} {first : Nat}

/-- A word of a header adds to the sum what it holds. -/
theorem wordSum_put (even : first % 2 = 0) (covers : (Field.word UInt16 first 2).stop ≤ h.length)
    (v : UInt16) :
    wordSum ((Field.word UInt16 first 2).put v h)
      = wordSum ((Field.word UInt16 first 2).put 0 h) + v.toNat := by
  have hv := v.toNat_lt
  have hfront : (h.take first).length = first := Field.length_front covers
  have hword : ∀ u : UInt16, wordSum (Bytes.ofNat 2 u.toNat) = u.toNat := by
    intro u
    have hu := u.toNat_lt
    show (UInt8.ofNat (u.toNat >>> 8)).toNat * 256 + (UInt8.ofNat (u.toNat >>> 0)).toNat + 0 = _
    rw [Bytes.toNat_ofNat_byte, Bytes.toNat_ofNat_byte, Nat.shiftRight_eq_div_pow]
    show u.toNat / 256 % 256 * 256 + u.toNat % 256 + 0 = _
    omega
  -- an even number of bytes in front, so the field is a word of its own
  have hput : ∀ u : UInt16, wordSum ((Field.word UInt16 first 2).put u h)
      = wordSum (h.take first) + u.toNat + wordSum (h.drop (first + 2)) := by
    intro u
    show wordSum (h.take first ++ Bytes.ofNat 2 u.toNat ++ h.drop (first + 2)) = _
    have hcut : (h.take first ++ Bytes.ofNat 2 u.toNat).length % 2 = 0 := by
      rw [List.length_append, hfront, Bytes.length_ofNat]
      omega
    rw [wordSum_append hcut, wordSum_append (by rw [hfront]; exact even), hword]
  rw [hput, hput, UInt16.toNat_zero]
  omega

/-- The part of a sum that does not depend on the bytes of the header. -/
def above (pseudo : Option PseudoHeader) (protocol : IpProtocol) (length : Nat) : UInt16 :=
  match pseudo with
  | some p => p.sum protocol (UInt32.ofNat length)
  | none => 0

theorem upperLayer_eq (pseudo : Option PseudoHeader) (protocol : IpProtocol)
    (header payload : Bytes) :
    upperLayer pseudo protocol header payload
      = combine [above pseudo protocol (header.length + payload.length), data header,
        data payload] := by
  cases pseudo <;> rfl

/-- **A filled checksum holds**: the sum with the field is all ones if the
field completes the sum without it. -/
theorem upperLayer_filled {pseudo : Option PseudoHeader} {protocol : IpProtocol} {payload : Bytes}
    {value : UInt16} (even : first % 2 = 0)
    (covers : (Field.word UInt16 first 2).stop ≤ h.length) (short : h.length ≤ 2 ^ 49)
    (completes : Completes
      (upperLayer pseudo protocol ((Field.word UInt16 first 2).put 0 h) payload) value) :
    upperLayer pseudo protocol ((Field.word UInt16 first 2).put value h) payload = 0xffff := by
  have hlength : ∀ v : UInt16, ((Field.word UInt16 first 2).put v h).length = h.length :=
    Field.length_put (Field.lawful_word UInt16 first 2) covers
  have hsum := wordSum_put even covers value
  -- only the sum of the header depends on the value
  have hupper : ∀ v : UInt16,
      upperLayer pseudo protocol ((Field.word UInt16 first 2).put v h) payload
        = combine [above pseudo protocol (h.length + payload.length),
          data ((Field.word UInt16 first 2).put v h), data payload] := fun v => by
    rw [upperLayer_eq, hlength]
  have hblank := folds_data (b := (Field.word UInt16 first 2).put 0 h) (by rw [hlength]; omega)
  have hfilled := folds_data (b := (Field.word UInt16 first 2).put value h)
    (by rw [hlength]; omega)
  have hbefore := folds_combine (above pseudo protocol (h.length + payload.length))
    (data ((Field.word UInt16 first 2).put 0 h)) (data payload)
  have hafter := folds_combine (above pseudo protocol (h.length + payload.length))
    (data ((Field.word UInt16 first 2).put value h)) (data payload)
  obtain ⟨hmultiple, hpositive⟩ := completes
  rw [hupper] at hmultiple hpositive ⊢
  rw [hsum] at hfilled
  have hblank₁ := hblank.congruent
  have hblank₂ := hblank.zero
  have hfilled₁ := hfilled.congruent
  have hfilled₂ := hfilled.zero
  have hbefore₁ := hbefore.congruent
  have hbefore₂ := hbefore.zero
  -- all ones, since the sum with the value is a positive multiple of 65535
  exact hafter.eq_ones (by omega) (by omega)

/-- The same for a header that is summed alone. -/
theorem data_filled (even : first % 2 = 0)
    (covers : (Field.word UInt16 first 2).stop ≤ h.length) (short : h.length ≤ 2 ^ 49) :
    data ((Field.word UInt16 first 2).put (compute ((Field.word UInt16 first 2).put 0 h)) h)
      = 0xffff := by
  have hlength : ∀ v : UInt16, ((Field.word UInt16 first 2).put v h).length = h.length :=
    Field.length_put (Field.lawful_word UInt16 first 2) covers
  have hsum := wordSum_put even covers (compute ((Field.word UInt16 first 2).put 0 h))
  have hblank := folds_data (b := (Field.word UInt16 first 2).put 0 h) (by rw [hlength]; omega)
  have hfilled := folds_data
    (b := (Field.word UInt16 first 2).put (compute ((Field.word UInt16 first 2).put 0 h)) h)
    (by rw [hlength]; omega)
  obtain ⟨hmultiple, hpositive⟩ := completes_complement (data ((Field.word UInt16 first 2).put 0 h))
  rw [hsum] at hfilled
  have hblank₁ := hblank.congruent
  have hblank₂ := hblank.zero
  unfold compute at hfilled ⊢
  exact hfilled.eq_ones (by omega) (by omega)

end PacketLayers.Checksum
