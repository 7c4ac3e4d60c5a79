/-
  PacketLayers.Bytes.Span
  ────────────────────────────────
  **WINDOWS INTO SHARED STORAGE.**

  A `Span` is a position and a length; narrowing it never leaves it.  A `View`
  is a span that lies inside its storage, kept as a proof, so its bytes need
  no further check.  A write through a view replaces the addressed bytes of
  the storage and nothing else.
-/
import PacketLayers.Bytes.Field

namespace PacketLayers

/-! ## §1. Spans. -/

/-- A run of bytes of some storage, by position. -/
structure Span where
  /-- The first byte. -/
  offset : Nat
  /-- The number of bytes. -/
  length : Nat
  deriving DecidableEq, Repr

namespace Span

/-- The position after the last byte. -/
def stop (s : Span) : Nat := s.offset + s.length

/-- The `length` bytes from `offset` on, relative to the start of the span. -/
def slice (s : Span) (offset length : Nat) : Except Error Span :=
  if offset + length ≤ s.length then .ok ⟨s.offset + offset, length⟩
  else .error .outOfBounds

/-- What remains of the span after its first `offset` bytes. -/
def tail (s : Span) (offset : Nat) : Except Error Span :=
  if offset ≤ s.length then .ok ⟨s.offset + offset, s.length - offset⟩
  else .error .outOfBounds

/-- The bytes of a storage that the span covers. -/
def bytesOf (s : Span) (storage : Bytes) : Bytes := (storage.drop s.offset).take s.length

end Span

/-! ## §2. Views. -/

/-- A window that lies inside its storage. -/
structure View where
  /-- The bytes looked into. -/
  storage : Bytes
  /-- The part of them that is visible. -/
  span : Span
  inside : span.stop ≤ storage.length

namespace View

/-- The whole storage. -/
def whole (storage : Bytes) : View := ⟨storage, ⟨0, storage.length⟩, by simp [Span.stop]⟩

/-- The part of the storage that a span covers, if the storage holds it. -/
def ofSpan (storage : Bytes) (span : Span) : Except Error View :=
  if h : span.stop ≤ storage.length then .ok ⟨storage, span, h⟩ else .error .outOfBounds

/-- The `length` bytes from `offset` on. -/
def slice (v : View) (offset length : Nat) : Except Error View := do
  ofSpan v.storage (← v.span.slice offset length)

/-- What remains after the first `offset` bytes. -/
def tail (v : View) (offset : Nat) : Except Error View := do
  ofSpan v.storage (← v.span.tail offset)

/-- The visible bytes. -/
def bytes (v : View) : Bytes := v.span.bytesOf v.storage

/-- Whether nothing is visible. -/
def isEmpty (v : View) : Bool := v.span.length == 0

/-- Whether the window ends where its storage ends. -/
def isFlush (v : View) : Bool := v.span.stop == v.storage.length

/-- The number in the `size` bytes at a position, most significant byte first. -/
def readBig (v : View) (size position : Nat) : Except Error Nat := do
  return Bytes.toNat (← v.slice position size).bytes

/-- The number in the `size` bytes at a position, least significant byte first. -/
def readLittle (v : View) (size position : Nat) : Except Error Nat := do
  return Bytes.toNat (← v.slice position size).bytes.reverse

/-! ## §3. Writing through a view. -/

/-- Replace visible bytes from a position on; the rest of the storage stays. -/
def write (v : View) (position : Nat) (new : Bytes) : Except Error View :=
  if fits : position + new.length ≤ v.span.length then
    .ok
      { storage := v.storage.take (v.span.offset + position) ++ new
          ++ v.storage.drop (v.span.offset + position + new.length)
        span := v.span
        inside := by
          have := v.inside
          simp only [Span.stop, List.length_append, List.length_take,
            List.length_drop] at this ⊢
          omega }
  else .error .outOfBounds

/-- Write a number of `size` bytes, most significant byte first. -/
def writeBig (v : View) (size position value : Nat) : Except Error View :=
  v.write position (Bytes.ofNat size value)

/-- Write a number of `size` bytes, least significant byte first. -/
def writeLittle (v : View) (size position value : Nat) : Except Error View :=
  v.write position (Bytes.ofNat size value).reverse

end View

end PacketLayers
