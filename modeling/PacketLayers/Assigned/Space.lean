/-
  PacketLayers.Assigned.Space
  ────────────────────────────────
  **NUMBER SPACES.**

  A number space gives names to some of the numbers of a fixed width.  Its
  values are the names, and every number as one that nobody interprets:

      code   — what is written for a value
      ofCode — what is read: the name of the number, if it has one

  A number that has a name is a value of its own beside the name, so there are
  two values that are written alike.  Only the name is read.
-/
import PacketLayers.Bytes.Field

namespace PacketLayers

/-- A number space: values with a name, and numbers without interpretation. -/
class Assigned (α : Type) (κ : outParam Type) where
  /-- The values with a name. -/
  named : List α
  /-- A number without interpretation. -/
  unknown : κ → α
  /-- The number on the wire. -/
  code : α → κ
  /-- There are no other values. -/
  exhaustive : ∀ a, a ∈ named ∨ ∃ n, a = unknown n
  code_unknown : ∀ n, code (unknown n) = n
  /-- No two names share a number. -/
  code_injOn_named : ∀ a ∈ named, ∀ b ∈ named, code a = code b → a = b

namespace Assigned

variable {α κ : Type} [Assigned α κ] [DecidableEq κ]

/-- The value that a number on the wire stands for. -/
def ofCode (n : κ) : α := (named.find? fun a => decide (code a = n)).getD (unknown n)

/-- The value that is read where a value was written. -/
def canonical (a : α) : α := ofCode (code a)

/-- The identifier of a number without interpretation. -/
def unknownName (n : Nat) : String := s!"Unknown({n})"

instance [Coded κ] : Coded α where
  ofNat n := ofCode (Coded.ofNat n)
  toNat a := Coded.toNat (code a)

/-! What is read was written. -/

theorem ofCode_cases (n : κ) :
    (∃ a ∈ named (α := α), code a = n ∧ ofCode n = a)
      ∨ (∀ a ∈ named (α := α), code a ≠ n) ∧ ofCode n = (unknown n : α) := by
  unfold ofCode
  cases found : (named (α := α)).find? fun a => decide (code a = n) with
  | some a =>
    exact .inl ⟨a, List.mem_of_find?_eq_some found,
      of_decide_eq_true (List.find?_some (p := fun a => decide (code a = n)) found), rfl⟩
  | none =>
    exact .inr ⟨fun a listed same =>
      List.find?_eq_none.1 found a listed (decide_eq_true same), rfl⟩

@[simp]
theorem code_ofCode (n : κ) : code (ofCode n : α) = n := by
  rcases ofCode_cases (α := α) n with ⟨a, _, same, hn⟩ | ⟨_, hn⟩
  · rw [hn, same]
  · rw [hn, code_unknown]

theorem code_canonical (a : α) : code (canonical a) = code a := code_ofCode (code a)

theorem canonical_ofCode (n : κ) : canonical (ofCode n : α) = ofCode n :=
  congrArg ofCode (code_ofCode n)

/-- **What is read as it was written:** the values with a name, and the numbers
that no name has. -/
theorem canonical_eq_iff {a : α} :
    canonical a = a ↔ a ∈ named (α := α) ∨ ∀ b ∈ named (α := α), code b ≠ code a := by
  unfold canonical
  rcases ofCode_cases (α := α) (code a) with ⟨b, listed, same, hn⟩ | ⟨unnamed, hn⟩
  · rw [hn]
    constructor
    · rintro rfl
      exact .inl listed
    · rintro (listed' | unnamed)
      · exact code_injOn_named b listed a listed' same
      · exact absurd same (unnamed b listed)
  · rw [hn]
    refine iff_of_true ?_ (.inr unnamed)
    rcases exhaustive a with listed | ⟨n, rfl⟩
    · exact absurd rfl (unnamed a listed)
    · rw [code_unknown]

end Assigned

end PacketLayers
