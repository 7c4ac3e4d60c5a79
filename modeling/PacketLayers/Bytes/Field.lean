/-
  PacketLayers.Bytes.Field
  ────────────────────────────────
  **HEADER FIELDS AS VALUES.**

  A header format is a table of fields.  A `Field` names the window of bytes
  it lives in and how a value is read from, and put into, that window:

      word   — the whole window is one number
      bits   — a run of bits inside the number the window spells
      octets — the window itself, as an address

  `get` and `set` then work for every field: both fail exactly if the window
  is not there, and `set` changes no byte outside the window.  `value` reads a
  window that is known to be there.
-/
import PacketLayers.Bytes.Octets

namespace PacketLayers

/-! ## §1. What a number on the wire stands for. -/

/-- Values carried in a header as a number. -/
class Coded (α : Type) where
  /-- The value a number stands for; bits that the value has no room for are
  dropped. -/
  ofNat : Nat → α
  /-- The number written for a value. -/
  toNat : α → Nat

instance : Coded UInt8 := ⟨UInt8.ofNat, UInt8.toNat⟩
instance : Coded UInt16 := ⟨UInt16.ofNat, UInt16.toNat⟩
instance : Coded UInt32 := ⟨UInt32.ofNat, UInt32.toNat⟩
instance : Coded Bool := ⟨fun n => n != 0, Bool.toNat⟩

/-! ## §2. Fields. -/

/-- A value of a header: where it lives, and how it is read and written
there. -/
structure Field (α : Type) where
  /-- The first byte of the window. -/
  first : Nat
  /-- The number of bytes of the window. -/
  size : Nat
  /-- The value in a window. -/
  decode : Bytes → α
  /-- The window after a value was put into it. -/
  encode : α → Bytes → Bytes

namespace Field

variable {α β : Type}

/-- The first byte after the window. -/
def stop (f : Field α) : Nat := f.first + f.size

/-- The value in a header whose length is known to cover the window. -/
def value (f : Field α) (h : Bytes) : α := f.decode ((h.drop f.first).take f.size)

/-- The value in a header. -/
def get (f : Field α) (h : Bytes) : Access α := do
  return f.decode (← h.slice f.first f.size)

/-- The header after the value was put into its window. -/
def set (f : Field α) (v : α) (h : Bytes) : Access Bytes := do
  let window ← h.slice f.first f.size
  h.overwrite f.first (f.encode v window)

/-- The same window, read and written through a change of unit or type. -/
def map (f : Field α) (read : α → β) (write : β → α) : Field β where
  first := f.first
  size := f.size
  decode := fun w => read (f.decode w)
  encode := fun v w => f.encode (write v) w

/-! ## §3. The kinds of fields. -/

/-- The whole window is one number, most significant byte first. -/
def word (α : Type) [Coded α] (first size : Nat) : Field α where
  first := first
  size := size
  decode := fun w => Coded.ofNat (Bytes.toNat w)
  encode := fun v _ => Bytes.ofNat size (Coded.toNat v)

/-- The whole window is one number, least significant byte first. -/
def wordLittle (α : Type) [Coded α] (first size : Nat) : Field α where
  first := first
  size := size
  decode := fun w => Coded.ofNat (Bytes.toNat w.reverse)
  encode := fun v _ => (Bytes.ofNat size (Coded.toNat v)).reverse

/-- The `width` bits of `n` from bit `low` up. -/
def bitsOf (n low width : Nat) : Nat := (n >>> low) % (1 <<< width)

/-- The number `n` with its `width` bits from bit `low` up replaced by the low
bits of `v`. -/
def putBits (n low width v : Nat) : Nat :=
  (n >>> (low + width)) <<< (low + width) + (v % (1 <<< width)) <<< low + n % (1 <<< low)

/-- A run of `width` bits, from bit `low` up, of the number in the window. -/
def bits (α : Type) [Coded α] (first size low width : Nat) : Field α where
  first := first
  size := size
  decode := fun w => Coded.ofNat (bitsOf (Bytes.toNat w) low width)
  encode := fun v w => Bytes.ofNat size (putBits (Bytes.toNat w) low width (Coded.toNat v))

/-- The window itself, as `n` bytes. -/
def octets (first n : Nat) : Field (Octets n) where
  first := first
  size := n
  decode := fun w => Octets.fit n w
  encode := fun v _ => v.bytes

/-! ## §4. When access succeeds. -/

theorem get_eq_value {f : Field α} {h : Bytes} (covers : f.stop ≤ h.length) :
    f.get h = .ok (f.value h) := by
  have c : f.first + f.size ≤ h.length := covers
  simp [get, value, Bytes.slice, c, bind, Except.bind, pure, Except.pure]

end Field

end PacketLayers
