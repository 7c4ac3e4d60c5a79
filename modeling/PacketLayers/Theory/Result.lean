/-
  PacketLayers.Theory.Result
  ────────────────────────────────
  **TAKING COMPUTATIONS APART THAT MAY FAIL.**

  A chain of steps gives a result exactly if each step does; `bind_eq_ok` names
  the results in between.  Two chains that go through related results step by
  step agree (`Agrees.bind`): both fail for the same reason, or both give
  results that are related.
-/

namespace PacketLayers

variable {ε α β γ δ : Type}

/-! ## §1. One computation. -/

@[simp] theorem ok_bind (a : α) (f : α → Except ε β) : (Except.ok a >>= f) = f a := rfl

@[simp] theorem error_bind (e : ε) (f : α → Except ε β) :
    (Except.error e >>= f) = Except.error e := rfl

@[simp] theorem pure_eq_ok (a : α) : (pure a : Except ε α) = .ok a := rfl

/-- A step and the rest give a result exactly if the step gives something that
the rest goes on from. -/
theorem bind_eq_ok {x : Except ε α} {f : α → Except ε β} {b : β} :
    (x >>= f) = .ok b ↔ ∃ a, x = .ok a ∧ f a = .ok b := by
  cases x with
  | error e =>
    constructor
    · intro h
      cases h
    · rintro ⟨a, ha, _⟩
      cases ha
  | ok a =>
    constructor
    · intro h
      exact ⟨a, rfl, h⟩
    · rintro ⟨a', ha, h⟩
      injection ha with ha
      subst ha
      exact h

theorem map_eq_ok {x : Except ε α} {f : α → β} {b : β} :
    x.map f = .ok b ↔ ∃ a, x = .ok a ∧ f a = b := by
  cases x with
  | error e => simp [Except.map]
  | ok a => simp [Except.map]

/-! ## §2. Two computations. -/

/-- Two computations fail alike or give related results. -/
inductive Agrees (R : α → β → Prop) : Except ε α → Except ε β → Prop where
  | ok {a : α} {b : β} (related : R a b) : Agrees R (.ok a) (.ok b)
  | error (e : ε) : Agrees R (.error e) (.error e)

namespace Agrees

variable {R : α → β → Prop} {S : γ → δ → Prop} {x : Except ε α} {y : Except ε β}

theorem refl (x : Except ε α) : Agrees (· = ·) x x := by
  cases x with
  | ok a => exact .ok rfl
  | error e => exact .error e

/-- Related results, and then steps that agree on them. -/
theorem bind (h : Agrees R x y) {f : α → Except ε γ} {g : β → Except ε δ}
    (next : ∀ a b, R a b → Agrees S (f a) (g b)) : Agrees S (x >>= f) (y >>= g) := by
  cases h with
  | ok related => exact next _ _ related
  | error e => exact .error e

theorem of_ok_left {a : α} (h : Agrees R (.ok a) y) : ∃ b, y = .ok b ∧ R a b := by
  cases h with
  | ok related => exact ⟨_, rfl, related⟩

theorem of_ok_right {b : β} (h : Agrees R x (.ok b)) : ∃ a, x = .ok a ∧ R a b := by
  cases h with
  | ok related => exact ⟨_, rfl, related⟩

theorem of_error_right {e : ε} (h : Agrees R x (.error e)) : x = .error e := by
  cases h with
  | error e => rfl

end Agrees

end PacketLayers
