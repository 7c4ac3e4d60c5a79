/-
  PacketLayers.Theory.Text
  ────────────────────────────────
  **NUMBERS IN TEXT CAN BE READ BACK.**

  A number in hexadecimal or in decimal is spelled by digits only, and by no
  digits but its own, so texts that are joined with another character between
  them can be told apart again.
-/
import PacketLayers.Text.Number

namespace PacketLayers.Text

theorem joined_eq_intercalate (separator : List Char) (ts : List (List Char)) :
    joined separator ts = separator.intercalate ts := by
  fun_induction joined separator ts with
  | case1 => rfl
  | case2 t => exact List.intercalate_singleton.symm
  | case3 t rest nonempty ih =>
    cases rest with
    | nil => exact absurd rfl nonempty
    | cons u rest => rw [ih, List.intercalate_cons_cons]

/-- Nothing is in joined texts but what is in one of them, and separators. -/
theorem mem_joined {separator : List Char} {ts : List (List Char)} {c : Char}
    (h : c ∈ joined separator ts) : c ∈ separator ∨ ∃ t ∈ ts, c ∈ t := by
  fun_induction joined separator ts with
  | case1 => exact absurd h List.not_mem_nil
  | case2 t => exact .inr ⟨t, List.mem_singleton_self t, h⟩
  | case3 t rest nonempty ih =>
    rcases List.mem_append.1 h with front | behind
    · rcases List.mem_append.1 front with first | between
      · exact .inr ⟨t, List.mem_cons_self, first⟩
      · exact .inl between
    · rcases ih behind with between | ⟨u, listed, inside⟩
      · exact .inl between
      · exact .inr ⟨u, List.mem_cons_of_mem t listed, inside⟩

/-! ## §1. Hexadecimal. -/

theorem hex_ne_nil (n : Nat) : hex n ≠ [] := Nat.toDigits_ne_nil

theorem hexValue?_digitChar {d : Nat} (small : d < 16) : hexValue? d.digitChar = some d := by
  have cases : ∀ d : Fin 16, hexValue? d.val.digitChar = some d.val := by decide
  exact cases ⟨d, small⟩

/-- The last digit of a number is its remainder. -/
theorem hex_eq (n : Nat) :
    hex n = (if n < 16 then [] else hex (n / 16)) ++ [(n % 16).digitChar] := by
  unfold hex
  split
  · next small => rw [Nat.toDigits_of_lt_base small, Nat.mod_eq_of_lt small, List.nil_append]
  · next large => exact Nat.toDigits_of_base_le (by decide) (Nat.le_of_not_lt large)

/-- **A number in hexadecimal is read back.** -/
theorem hexNumber?_hex (n : Nat) : hexNumber? (hex n) = some n := by
  have digits : ∀ n, (hex n).foldlM (fun n c => (hexValue? c).map (n * 16 + ·)) 0 = some n := by
    intro n
    -- on the number: all digits but the last spell a smaller one
    induction n using Nat.strongRecOn with
    | ind n ih =>
      have last := hexValue?_digitChar (Nat.mod_lt n (by decide : 0 < 16))
      rw [hex_eq, List.foldlM_append]
      split
      · next small =>
        rw [Nat.mod_eq_of_lt small] at last ⊢
        simp [last]
      · next large =>
        rw [ih (n / 16) (by omega)]
        simp only [Option.bind_eq_bind, Option.bind_some, List.foldlM_cons, last, Option.map_some,
          List.foldlM_nil, Option.pure_def, Option.some.injEq]
        omega
  have nonempty := hex_ne_nil n
  unfold hexNumber?
  split
  · next hnil => exact absurd hnil nonempty
  · exact digits n

theorem hex_injective : Function.Injective hex := by
  intro m n same
  have hread := hexNumber?_hex m
  rw [same, hexNumber?_hex] at hread
  exact (Option.some.inj hread).symm

/-- A number is spelled by hexadecimal digits. -/
theorem hexValue?_of_mem_hex {n : Nat} {c : Char} (h : c ∈ hex n) : ∃ d, hexValue? c = some d := by
  induction n using Nat.strongRecOn with
  | ind n ih =>
    rw [hex_eq, List.mem_append, List.mem_singleton] at h
    rcases h with front | rfl
    · split at front
      · exact absurd front List.not_mem_nil
      · exact ih (n / 16) (by omega) front
    · exact ⟨_, hexValue?_digitChar (Nat.mod_lt n (by decide))⟩

theorem not_mem_hex {c : Char} (other : hexValue? c = none) (n : Nat) : c ∉ hex n := by
  intro h
  obtain ⟨d, hd⟩ := hexValue?_of_mem_hex h
  cases other.symm.trans hd

/-- A text that is read as a number is made of digits, one at least. -/
theorem hexValue?_of_hexNumber? {cs : List Char} {n : Nat} (h : hexNumber? cs = some n) :
    cs ≠ [] ∧ ∀ c ∈ cs, ∃ d, hexValue? c = some d := by
  have digits : ∀ (cs : List Char) (start : Nat),
      cs.foldlM (fun n c => (hexValue? c).map (n * 16 + ·)) start = some n →
        ∀ c ∈ cs, ∃ d, hexValue? c = some d := by
    intro cs
    induction cs with
    | nil => intro start _ c hc; exact absurd hc List.not_mem_nil
    | cons first rest ih =>
      intro start hread c hc
      -- the first one is a digit, or nothing would have been read
      cases hfirst : hexValue? first with
      | none => simp [hfirst] at hread
      | some d =>
        simp only [List.foldlM_cons, hfirst, Option.map_some, Option.bind_eq_bind,
          Option.bind_some] at hread
        rcases List.mem_cons.1 hc with rfl | hc
        · exact ⟨d, hfirst⟩
        · exact ih _ hread c hc
  unfold hexNumber? at h
  split at h
  · cases h
  · next nonempty => exact ⟨nonempty, digits cs 0 h⟩

/-- Zeros in front do not count. -/
theorem hexNumber?_zeros (k : Nat) {cs : List Char} (nonempty : cs ≠ []) :
    hexNumber? (List.replicate k '0' ++ cs) = hexNumber? cs := by
  induction k with
  | zero => rfl
  | succ k ih =>
    rw [← ih, List.replicate_succ, List.cons_append]
    -- something follows the zero, and it is read from nothing, as before
    have hrest : List.replicate k '0' ++ cs ≠ [] := List.append_ne_nil_of_right_ne_nil _ nonempty
    generalize List.replicate k '0' ++ cs = rest at hrest
    cases rest with
    | nil => exact absurd rfl hrest
    | cons c rest => rfl

/-- A number is read back however many zeros it was filled up with. -/
theorem hexNumber?_hexPadded (width n : Nat) : hexNumber? (hexPadded width n) = some n := by
  show hexNumber? (List.replicate (width - (hex n).length) '0' ++ hex n) = some n
  rw [hexNumber?_zeros _ (hex_ne_nil n), hexNumber?_hex]

/-! ## §2. Decimal. -/

theorem decimal_injective : Function.Injective decimal := by
  intro m n same
  calc m = Nat.ofDigitChars 10 (decimal m) 0 := (Nat.ofDigitChars_toDigits (by decide) (by decide)).symm
    _ = Nat.ofDigitChars 10 (decimal n) 0 := by rw [same]
    _ = n := Nat.ofDigitChars_toDigits (by decide) (by decide)

theorem not_mem_decimal {c : Char} (other : c.isDigit = false) (n : Nat) : c ∉ decimal n := by
  intro h
  have digit := Nat.isDigit_of_mem_toDigits (by decide) (by decide) h
  cases other.symm.trans digit

end PacketLayers.Text
