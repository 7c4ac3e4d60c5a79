/-
  PacketLayers.Text.Number
  ────────────────────────────────
  **NUMBERS IN TEXT.**

  Hexadecimal digits are lower case when written and of either case when
  read.  Texts are built as lists of characters, so that splitting and joining
  can be reasoned about, and become a `String` at the end.
-/
import PacketLayers.Bytes.Basic

namespace PacketLayers.Text

/-! ## §1. Writing. -/

/-- A number in hexadecimal, without leading zeros. -/
def hex (n : Nat) : List Char := Nat.toDigits 16 n

/-- A number in hexadecimal with at least `width` digits. -/
def hexPadded (width n : Nat) : List Char := (hex n).leftpad width '0'

/-- Two hexadecimal digits per byte, with nothing between. -/
def hexBytes (b : Bytes) : List Char := b.flatMap fun x => hexPadded 2 x.toNat

/-- A number in decimal. -/
def decimal (n : Nat) : List Char := Nat.toDigits 10 n

/-- Texts with a separator between each two. -/
def joined (separator : List Char) : List (List Char) → List Char
  | [] => []
  | [t] => t
  | t :: rest => t ++ separator ++ joined separator rest

/-! ## §2. Reading. -/

/-- The value of a hexadecimal digit. -/
def hexValue? (c : Char) : Option Nat :=
  if '0' ≤ c ∧ c ≤ '9' then some (c.toNat - '0'.toNat)
  else if 'a' ≤ c ∧ c ≤ 'f' then some (c.toNat - 'a'.toNat + 10)
  else if 'A' ≤ c ∧ c ≤ 'F' then some (c.toNat - 'A'.toNat + 10)
  else none

/-- The number that one or more hexadecimal digits spell. -/
def hexNumber? (digits : List Char) : Option Nat :=
  match digits with
  | [] => none
  | _ => digits.foldlM (fun n c => (hexValue? c).map (n * 16 + ·)) 0

/-- The bytes that pairs of hexadecimal digits spell. -/
def hexBytes? : List Char → Option Bytes
  | [] => some []
  | [_] => none
  | hi :: lo :: rest => do
    return UInt8.ofNat ((← hexValue? hi) * 16 + (← hexValue? lo)) :: (← hexBytes? rest)

/-- The value of a decimal digit. -/
def decimalValue? (c : Char) : Option Nat :=
  if '0' ≤ c ∧ c ≤ '9' then some (c.toNat - '0'.toNat) else none

/-- The number that one or more decimal digits spell. -/
def decimalNumber? (digits : List Char) : Option Nat :=
  match digits with
  | [] => none
  | _ => digits.foldlM (fun n c => (decimalValue? c).map (n * 10 + ·)) 0

/-- The parts of a text between the occurrences of a separator; one part more
than there are separators. -/
def splitOn (separator : Char) : List Char → List (List Char)
  | [] => [[]]
  | c :: rest =>
    if c = separator then [] :: splitOn separator rest
    else
      match splitOn separator rest with
      | [] => [[c]]
      | part :: parts => (c :: part) :: parts

end PacketLayers.Text
