/-
  PacketLayers.Text.Blank
  ────────────────────────────────
  **CHARACTERS THAT SHOW NOTHING.**

  The characters with the Unicode property White_Space.  Digits that a person
  typed or pasted may have any of them in between.
-/

namespace PacketLayers.Text

/-- First and last character of each run of blanks. -/
def blankRanges : List (Nat × Nat) :=
  [(0x09, 0x0d), (0x20, 0x20), (0x85, 0x85), (0xa0, 0xa0), (0x1680, 0x1680),
    (0x2000, 0x200a), (0x2028, 0x2029), (0x202f, 0x202f), (0x205f, 0x205f),
    (0x3000, 0x3000)]

/-- Whether a character has the property White_Space. -/
def isBlank (c : Char) : Bool :=
  blankRanges.any fun (first, last) => first ≤ c.toNat && c.toNat ≤ last

/-- The text without its blanks. -/
def dropBlanks (cs : List Char) : List Char := cs.filter (!isBlank ·)

end PacketLayers.Text
