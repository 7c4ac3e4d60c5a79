/-
  PacketLayers.Proofs.RoundTrip
  ────────────────────────────────
  **WRITING A HEADER OVER WHATEVER A BUFFER HOLDS.**

  A header is written field by field over the bytes that are there.  Fields
  that follow each other replace more and more of them: `Fills t n buffer`
  says that the first `n` bytes of the buffer are those of the header `t`, and
  the others as before.  A field goes on from its first byte to the one behind
  it if what it writes for its value is what `t` has there, whatever the
  window held before:

    • `Spells` — the value is spelled by the window of a header;
    • `Fills.set` — then writing it goes on with that header;
    • `spells_value_word` — what was read is spelled by what it was read from;
    • `value_of_spells_word` — and what is spelled is read.
-/
import PacketLayers.Proofs.Field

namespace PacketLayers

/-! ## §1. Values and the bytes that spell them. -/

namespace Field

variable {α : Type} {f : Field α} {t : Bytes} {v : α}

/-- What the field writes for the value is what the header has in its window,
whatever the window held before. -/
def Spells (f : Field α) (v : α) (t : Bytes) : Prop :=
  ∀ w : Bytes, w.length = f.size → f.encode v w = f.window t

/-- A word does not depend on what it is written over. -/
theorem spells_word [Coded α] {first size : Nat}
    (same : (word α first size).window t = Bytes.ofNat size (Coded.toNat v)) :
    (word α first size).Spells v t := fun _ _ => same.symm

theorem spells_value_word [Coded α] {first size : Nat}
    (whole : ∀ n, n < 256 ^ size → Coded.toNat (Coded.ofNat n : α) = n)
    (covers : (word α first size).stop ≤ t.length) :
    (word α first size).Spells ((word α first size).value t) t := fun _ _ =>
  (holds_iff (lawful_word α first size) covers).1 (holds_value_word whole covers)

theorem spells_value_wordLittle [Coded α] {first size : Nat}
    (whole : ∀ n, n < 256 ^ size → Coded.toNat (Coded.ofNat n : α) = n)
    (covers : (wordLittle α first size).stop ≤ t.length) :
    (wordLittle α first size).Spells ((wordLittle α first size).value t) t := fun _ _ =>
  (holds_iff (lawful_wordLittle α first size) covers).1 (holds_value_wordLittle whole covers)

theorem spells_value_octets {first n : Nat} (covers : (octets first n).stop ≤ t.length) :
    (octets first n).Spells ((octets first n).value t) t := by
  intro w _
  have hlength : ((octets first n).window t).length = n := length_window covers
  show Bytes.resize ((octets first n).window t) n = (octets first n).window t
  rw [Bytes.resize, hlength, Nat.sub_self, List.take_of_length_le (Nat.le_of_eq hlength)]
  exact List.append_nil _

/-- A value that is spelled is read, if it fits. -/
theorem value_of_spells_word [Coded α] {first size : Nat} (fits : Fits α (256 ^ size))
    (spells : (word α first size).Spells v t) : (word α first size).value t = v := by
  have hwindow := spells (List.replicate size 0) List.length_replicate
  rw [value_eq, ← hwindow]
  show Coded.ofNat (Bytes.toNat (Bytes.ofNat size (Coded.toNat v))) = v
  rw [Bytes.toNat_ofNat, Nat.mod_eq_of_lt (fits v).1]
  exact (fits v).2

end Field

/-! ## §2. Filling a buffer. -/

/-- The buffer with the first bytes of a header in place of its own. -/
def Fills (t : Bytes) (n : Nat) (buffer : Bytes) (x : Access Bytes) : Prop :=
  x = .ok (t.take n ++ buffer.drop n)

namespace Fills

variable {t buffer : Bytes} {n : Nat} {x : Access Bytes}

theorem start (t buffer : Bytes) : Fills t 0 buffer (.ok buffer) := rfl

theorem here (t : Bytes) (n : Nat) (buffer : Bytes) :
    Fills t n buffer (.ok (t.take n ++ buffer.drop n)) := rfl

/-- **One more field** of the header. -/
theorem set (fills : Fills t n buffer x) {α : Type} {f : Field α} (law : f.Lawful)
    (next : f.first = n) (inside : f.stop ≤ t.length) (room : f.stop ≤ buffer.length) {v : α}
    (spells : f.Spells v t) : Fills t f.stop buffer (x >>= f.set v) := by
  subst next
  have hfront : (t.take f.first).length = f.first := Field.length_front inside
  have hwindow : (f.window buffer).length = f.size := Field.length_window room
  -- what is still to be written: the window of the field, and what is behind it
  have hback : buffer.drop f.first = f.window buffer ++ buffer.drop f.stop := by
    rw [Field.window, Field.stop, ← List.drop_drop, List.take_append_drop]
  have hstop : t.take f.stop = t.take f.first ++ f.window t := List.take_add
  unfold Fills at fills ⊢
  rw [fills, ok_bind, hback, ← List.append_assoc, Field.set_between law hfront hwindow,
    spells _ hwindow, hstop]

/-- Any further step, on what was written so far. -/
theorem bind (fills : Fills t n buffer x) {m : Nat} {g : Bytes → Access Bytes}
    (next : Fills t m buffer (g (t.take n ++ buffer.drop n))) : Fills t m buffer (x >>= g) := by
  unfold Fills at fills
  rw [fills, ok_bind]
  exact next

/-- In the end the header stands in front of the rest of the buffer. -/
theorem eq_ok (fills : Fills t n buffer x) : x = .ok (t.take n ++ buffer.drop n) := fills

/-- A buffer of the length of the header holds nothing else. -/
theorem eq_ok_exact (fills : Fills t n buffer x) (exact : buffer.length = n) :
    x = .ok (t.take n) := by
  rw [fills.eq_ok, List.drop_of_length_le (Nat.le_of_eq exact), List.append_nil]

/-- What was written so far has the length of the buffer. -/
theorem length_filled (inside : n ≤ t.length) (room : n ≤ buffer.length) :
    (t.take n ++ buffer.drop n).length = buffer.length := by
  rw [List.length_append, List.length_take, List.length_drop]
  omega

/-- It has the fields that were written. -/
theorem value_filled {α : Type} {f : Field α} (written : f.stop ≤ n) (inside : n ≤ t.length) :
    f.value (t.take n ++ buffer.drop n) = f.value t := by
  have hfront : (t.take n).length = n := by
    rw [List.length_take, Nat.min_eq_left inside]
  rw [Field.value_append (by rw [hfront]; exact written), Field.value_take written]

end Fills

/-! ## §3. Numbers of one and two bytes. -/

theorem toNat_coded_byte (n : Nat) (small : n < 256 ^ 1) :
    Coded.toNat (Coded.ofNat n : UInt8) = n := UInt8.toNat_ofNat_of_lt' small

theorem toNat_coded_word (n : Nat) (small : n < 256 ^ 2) :
    Coded.toNat (Coded.ofNat n : UInt16) = n := UInt16.toNat_ofNat_of_lt' small

end PacketLayers
