/-
  PacketLayers.Listing.Value
  ────────────────────────────────
  **VALUES OF HEADERS WITHOUT THEIR TYPES.**

  A listing names the fields of a header and shows what is in them.  What is
  in a field has a type of its own everywhere else; here it is a `Value`, so
  that fields of every protocol can stand in one table.

  A number of an assigned number space is shown with its identifier and can be
  stated by the number alone.
-/
import PacketLayers.Assigned.Space

namespace PacketLayers.Listing

/-- What is in a field. -/
inductive Value where
  /-- The header has no such field. -/
  | absent
  | number (n : Nat)
  | flag (b : Bool)
  /-- A number of an assigned number space, and its identifier. -/
  | named (n : Nat) (name : String)
  /-- A word that is no number on the wire. -/
  | word (s : String)
  | octets (b : Bytes)
  | list (vs : List Value)

/-- Types of what can be in a field. -/
class Listable (α : Type) where
  /-- The value, as a listing shows it. -/
  toValue : α → Value
  /-- What a value stands for, if it is of the right sort. -/
  ofValue? : Value → Option α

export Listable (toValue ofValue?)

/-! ## §1. Numbers. -/

/-- The number of a value. -/
def Value.number? : Value → Option Nat
  | .number n => some n
  | .named n _ => some n
  | _ => none

/-- Values carried as a number, shown as that number. -/
@[reducible] def Listable.ofNumber (α : Type) [Coded α] : Listable α where
  toValue a := .number (Coded.toNat a)
  ofValue? v := v.number?.map Coded.ofNat

/-- Values of a number space, shown by their identifiers.  A number alone stands
for what is read where it is written; with the identifier of a number without
interpretation it stands for that. -/
@[reducible] def Listable.ofNamed {α κ : Type} [Assigned α κ] [DecidableEq κ] [Coded κ]
    (name : α → String) : Listable α where
  toValue a := .named (Coded.toNat a) (name a)
  ofValue?
    | .named n identifier =>
      if identifier = Assigned.unknownName n then some (Assigned.unknown (Coded.ofNat n))
      else some (Coded.ofNat n)
    | v => v.number?.map Coded.ofNat

instance : Listable Nat := ⟨.number, Value.number?⟩
instance : Listable UInt8 := .ofNumber UInt8
instance : Listable UInt16 := .ofNumber UInt16
instance : Listable UInt32 := .ofNumber UInt32

/-! ## §2. Other sorts. -/

instance : Listable Bool where
  toValue := .flag
  ofValue?
    | .flag b => some b
    | _ => none

instance : Listable Bytes where
  toValue := .octets
  ofValue?
    | .octets b => some b
    | .absent => some []
    | _ => none

instance {n : Nat} : Listable (Octets n) where
  toValue a := .octets a.bytes
  ofValue?
    | .octets b => (Octets.ofBytes n b).toOption
    | _ => none

instance {α : Type} [Listable α] : Listable (Option α) where
  toValue
    | some a => toValue a
    | none => .absent
  ofValue?
    | .absent => some none
    | v => (ofValue? v).map some

instance {α : Type} [Listable α] : Listable (List α) where
  toValue l := .list (l.map toValue)
  ofValue?
    | .list vs => vs.mapM ofValue?
    | _ => none

end PacketLayers.Listing
