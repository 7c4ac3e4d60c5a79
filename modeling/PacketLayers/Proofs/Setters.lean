/-
  PacketLayers.Proofs.Setters
  ────────────────────────────────
  **A SETTER WRITES ITS FIELD, AND NOTHING ELSE.**

  Fields share bytes, and values may be wider than the bits that are there for
  them.  What a setter does is said here of a header as a run of bits, counted
  from the front: a field at a fixed place has bits of its own, and may clear
  some in front of them; a part whose place the header states — options, an
  address of a stated length — has bytes of its own.

    • `FixedField.Lies`, `MovablePart.Lies` — where a field lies;
    • `FixedField.Lies.bit_put` — the bits of a header after a field was
      written;
    • `HeaderParts.Settles` — all that is asked of the setters of a protocol;
    • `HeaderParts.settles_of_lies` — it follows from where the fields lie.
-/
import PacketLayers.Listing.Standard
import PacketLayers.Proofs.Bits

namespace PacketLayers

open Listing (Listable NamedField Table)

/-! ## §1. Bytes and bits of a header. -/

/-- A bit of a header, counted from the front, the most significant bit of each
byte first. -/
def Bytes.bit (h : Bytes) (k : Nat) : Bool := ((h[k / 8]?).getD 0).toNat.testBit (7 - k % 8)

/-- The last bit of a header is the lowest of its number. -/
theorem Bytes.testBit_toNat {h : Bytes} {k : Nat} (inside : k < 8 * h.length) :
    (toNat h).testBit (8 * h.length - 1 - k) = h.bit k := by
  induction h generalizing k with
  | nil => exact absurd inside (Nat.not_lt_zero k)
  | cons x rest ih =>
    have hlow : toNat rest < 2 ^ (8 * rest.length) := two_pow_eight_mul _ ▸ toNat_lt rest
    rw [toNat_cons, ← two_pow_eight_mul, Nat.mul_comm, Nat.testBit_two_pow_mul_add _ hlow,
      List.length_cons]
    rw [List.length_cons] at inside
    by_cases first : k < 8
    · -- the first byte
      rw [if_neg (by omega), bit, show k / 8 = 0 by omega, show k % 8 = k by omega]
      exact congrArg x.toNat.testBit (by omega)
    · rw [if_pos (by omega), bit, show k / 8 = (k - 8) / 8 + 1 by omega,
        show k % 8 = (k - 8) % 8 by omega]
      refine Eq.trans ?_ (ih (k := k - 8) (by omega))
      exact congrArg (toNat rest).testBit (by omega)

namespace Field

variable {α β : Type} {f : Field α} {g : Field β} {low width low' width' : Nat}
  {read : Nat → α} {write : α → Nat} {read' : Nat → β} {write' : β → Nat} {h : Bytes}

/-- Writing a field puts the value into its run of the number that the header
spells. -/
theorem IsRun.put_eq (run : f.IsRun low width read write) (covers : f.stop ≤ h.length) (v : α) :
    f.put v h = Bytes.ofNat h.length
      (putBits (Bytes.toNat h) (8 * (h.length - f.stop) + low) width (write v)) := by
  have hput := run.put_ofNat covers (Bytes.toNat h) v
  rwa [Bytes.ofNat_toNat] at hput

/-- What was written is read, as far as there is room for it. -/
theorem IsRun.value_put_same (run : f.IsRun low width read write) (covers : f.stop ≤ h.length)
    (v : α) : f.value (f.put v h) = read (write v % 2 ^ width) := by
  rw [run.put_eq covers, run.value_ofNat covers, bitsOf_putBits]

/-- Runs that lie apart are read as before. -/
theorem IsRun.value_put_apart (run : f.IsRun low width read write)
    (run' : g.IsRun low' width' read' write') (covers : f.stop ≤ h.length)
    (covers' : g.stop ≤ h.length)
    (apart : 8 * (h.length - g.stop) + low' + width' ≤ 8 * (h.length - f.stop) + low
      ∨ 8 * (h.length - f.stop) + low + width ≤ 8 * (h.length - g.stop) + low') (v : α) :
    g.value (f.put v h) = g.value h := by
  have hvalue := run'.value_ofNat covers' (Bytes.toNat h)
  rw [Bytes.ofNat_toNat] at hvalue
  rw [run.put_eq covers, run'.value_ofNat covers', bitsOf_putBits_of_apart _ _ apart, hvalue]

/-- The bits of the run are those of the value, and all others stay. -/
theorem IsRun.testBit_put (run : f.IsRun low width read write) (covers : f.stop ≤ h.length) (v : α)
    {i : Nat} (inside : i < 8 * h.length) :
    (Bytes.toNat (f.put v h)).testBit i
      = if 8 * (h.length - f.stop) + low ≤ i ∧ i < 8 * (h.length - f.stop) + low + width then
          (write v).testBit (i - (8 * (h.length - f.stop) + low))
        else (Bytes.toNat h).testBit i := by
  rw [run.put_eq covers, Bytes.toNat_ofNat, ← Bytes.two_pow_eight_mul, Nat.testBit_mod_two_pow,
    decide_eq_true inside, Bool.true_and, testBit_putBits]

end Field

/-! ## §2. Fields at a fixed place. -/

/-- A field at a fixed place, as its setter leaves it. -/
structure FixedField where
  name : String
  {α : Type}
  [listable : Listable α]
  field : Field α
  /-- The first bit, counted from the front of the header. -/
  start : Nat
  width : Nat
  /-- The number of reserved bits in front of it that a write clears. -/
  cleared : Nat
  /-- What is left of a value that was written. -/
  kept : α → α

namespace FixedField

/-- The field in a listing. -/
def named (f : FixedField) : NamedField := have := f.listable; .of f.name f.field

/-- No bit of one field is written or read by the other. -/
def Apart (f g : FixedField) : Prop :=
  g.start + g.width ≤ f.start - f.cleared ∨ f.start + f.width ≤ g.start - g.cleared

instance (f g : FixedField) : Decidable (f.Apart g) := inferInstanceAs (Decidable (_ ∨ _))

/-- The field is the run of bits that it is said to be, inside the first `least`
bytes. -/
structure Lies (least : Nat) (f : FixedField) : Prop where
  run : ∃ read write, f.field.IsRun (8 * f.field.stop - (f.start + f.width)) (f.cleared + f.width)
      read write
    ∧ (∀ v, read (write v % 2 ^ (f.cleared + f.width)) = f.kept v)
    ∧ ∀ v, write v % 2 ^ (f.cleared + f.width) < 2 ^ f.width
  front : f.cleared ≤ f.start
  back : f.start + f.width ≤ 8 * f.field.stop
  inside : f.field.stop ≤ least

variable {f g : FixedField} {least : Nat} {h : Bytes}

namespace Lies

theorem lawful (lies : f.Lies least) : f.field.Lawful := by
  obtain ⟨_, _, run, _⟩ := lies.run
  exact run.lawful

theorem covers (lies : f.Lies least) (long : least ≤ h.length) : f.field.stop ≤ h.length :=
  Nat.le_trans lies.inside long

theorem value_put (lies : f.Lies least) (long : least ≤ h.length) (v : f.α) :
    f.field.value (f.field.put v h) = f.kept v := by
  obtain ⟨_, _, run, kept, _⟩ := lies.run
  rw [run.value_put_same (lies.covers long), kept]

/-- Another field is read as before. -/
theorem value_put_apart (lies : f.Lies least) (lies' : g.Lies least) (apart : f.Apart g)
    (long : least ≤ h.length) (v : f.α) :
    g.field.value (f.field.put v h) = g.field.value h := by
  obtain ⟨_, _, run, _⟩ := lies.run
  obtain ⟨_, _, run', _⟩ := lies'.run
  have hfront := lies.front
  have hback := lies.back
  have hcovers := lies.covers long
  have hfront' := lies'.front
  have hback' := lies'.back
  have hcovers' := lies'.covers long
  unfold Apart at apart
  exact run.value_put_apart run' hcovers hcovers' (by omega) v

/-- **The bits after a write:** those of the field may be new, those in front of
it that it clears are clear, and all others are what they were. -/
theorem bit_put (lies : f.Lies least) (long : least ≤ h.length) (v : f.α) {k : Nat}
    (outside : k < f.start ∨ f.start + f.width ≤ k) :
    (f.field.put v h).bit k
      = if f.start ≤ k + f.cleared ∧ k < f.start then false else h.bit k := by
  obtain ⟨read, write, run, _, small⟩ := lies.run
  have hfront := lies.front
  have hback := lies.back
  have hcovers := lies.covers long
  have hlength : (f.field.put v h).length = h.length := Field.length_put lies.lawful hcovers v
  by_cases inside : k < 8 * h.length
  · have hbit := Bytes.testBit_toNat (h := f.field.put v h) (hlength ▸ inside)
    rw [hlength, run.testBit_put hcovers v (by omega)] at hbit
    rw [← hbit, ← Bytes.testBit_toNat inside]
    by_cases clear : f.start ≤ k + f.cleared ∧ k < f.start
    · rw [if_pos clear, if_pos (by omega)]
      -- a bit of the value beyond the width of the field
      generalize hi : 8 * h.length - 1 - k
        - (8 * (h.length - f.field.stop) + (8 * f.field.stop - (f.start + f.width))) = i
      have high : f.width ≤ i := by omega
      have within : i < f.cleared + f.width := by omega
      have hmod := Nat.testBit_mod_two_pow (write v) (f.cleared + f.width) i
      rw [decide_eq_true within, Bool.true_and] at hmod
      rw [← hmod]
      exact Nat.testBit_lt_two_pow
        (Nat.lt_of_lt_of_le (small v) (Nat.pow_le_pow_right (by decide) high))
    · rw [if_neg clear, if_neg (by omega)]
  · -- beyond the header there is nothing to write
    have hbeyond : ∀ b : Bytes, b.length = h.length → b.bit k = false := by
      intro b same
      rw [Bytes.bit, List.getElem?_eq_none (by omega)]
      exact Nat.zero_testBit _
    rw [hbeyond _ hlength, hbeyond _ rfl, ite_self]

end Lies

/-! Kinds of fields. -/

/-- A field that is a run, and nothing else is cleared. -/
theorem lies_of_run {name : String} {α : Type} [Listable α] {field : Field α} {start width : Nat}
    {kept : α → α} {low : Nat} {read : Nat → α} {write : α → Nat}
    (run : field.IsRun low width read write) (place : low + (start + width) = 8 * field.stop)
    (inside : field.stop ≤ least) (reads : ∀ v, read (write v % 2 ^ width) = kept v) :
    Lies least ⟨name, field, start, width, 0, kept⟩ where
  run := by
    have hlow : 8 * field.stop - (start + width) = low := by omega
    refine ⟨read, write, ?_, ?_, ?_⟩
    · simpa only [hlow, Nat.zero_add] using run
    · simpa only [Nat.zero_add] using reads
    · intro v
      rw [Nat.zero_add]
      exact Nat.mod_lt _ (Nat.two_pow_pos width)
  front := Nat.zero_le start
  back := by
    show start + width ≤ 8 * field.stop
    omega
  inside := inside

theorem lies_word {name : String} {α : Type} [Listable α] [Coded α] (first size : Nat)
    (fits : Field.Fits α (256 ^ size)) (inside : first + size ≤ least) :
    Lies least ⟨name, Field.word α first size, 8 * first, 8 * size, 0, id⟩ :=
  lies_of_run (Field.isRun_word α first size)
    (by show 0 + (8 * first + 8 * size) = 8 * (first + size); omega) inside
    fun v => Field.keeps_of_fits fits v

/-- A value of a number space, of which what is read is left. -/
theorem lies_assigned {name : String} {α κ : Type} [Listable α] [Assigned α κ] [DecidableEq κ]
    [Coded κ] (first size : Nat) (fits : Field.Fits κ (256 ^ size)) (inside : first + size ≤ least) :
    Lies least
      ⟨name, Field.word α first size, 8 * first, 8 * size, 0, Assigned.canonical⟩ :=
  lies_of_run (Field.isRun_word α first size)
    (by show 0 + (8 * first + 8 * size) = 8 * (first + size); omega) inside fun v => by
      rw [Bytes.two_pow_eight_mul]
      exact Field.ofNat_toNat_assigned fits v

theorem lies_octets {name : String} (first n : Nat) (inside : first + n ≤ least) :
    Lies least ⟨name, Field.octets first n, 8 * first, 8 * n, 0, id⟩ :=
  lies_of_run (Field.isRun_octets first n)
    (by show 0 + (8 * first + 8 * n) = 8 * (first + n); omega) inside fun v => Field.keeps_octets v

end FixedField

/-! ## §3. Parts whose place the header states. -/

/-- A part of a header, read and written as bytes, whose place is stated by some
of the fields. -/
structure MovablePart where
  name : String
  get : Bytes → Access Bytes
  set : Bytes → Bytes → Access Bytes
  /-- The first byte and the number of bytes that a header states. -/
  range : Bytes → Nat × Nat
  /-- The fields that state it. -/
  movedBy : List String

namespace MovablePart

/-- The part in a listing. -/
def named (m : MovablePart) : NamedField := .both m.name m.get m.set

/-- The bytes from the first of the part on. -/
def Covers (m : MovablePart) (h : Bytes) (i : Nat) : Prop :=
  (m.range h).1 ≤ i ∧ i < (m.range h).1 + (m.range h).2

/-- The ranges of two parts have no byte in common. -/
def Apart (m n : MovablePart) (h : Bytes) : Prop :=
  (m.range h).1 + (m.range h).2 ≤ (n.range h).1 ∨ (n.range h).1 + (n.range h).2 ≤ (m.range h).1

end MovablePart

/-! ## §4. Protocols. -/

/-- The fields of a protocol that can be set. -/
structure HeaderParts where
  table : Table
  /-- The length of the part that every header has. -/
  least : Nat
  fixed : List FixedField
  movable : List MovablePart

/-- The fields named are read alike from two headers. -/
def HeaderParts.Agree (p : HeaderParts) (names : List String) (h h' : Bytes) : Prop :=
  ∀ g ∈ p.fixed, g.name ∈ names → g.field.value h' = g.field.value h

/-- The part is read and written at the place that an accepted header states,
and read there from any header that states the same place. -/
structure MovablePart.Lies (p : HeaderParts) (m : MovablePart) : Prop where
  inside : ∀ h, p.table.format.accepts h = true →
    p.least ≤ (m.range h).1 ∧ (m.range h).1 + (m.range h).2 ≤ h.length
  reads : ∀ h h' : Bytes, p.table.format.accepts h = true → h'.length = h.length →
    p.Agree m.movedBy h h' → m.get h' = .ok ((h'.drop (m.range h).1).take (m.range h).2)
  writes : ∀ h new, p.table.format.accepts h = true → new.length = (m.range h).2 →
    m.set new h = .ok (h.take (m.range h).1 ++ new ++ h.drop ((m.range h).1 + (m.range h).2))

namespace HeaderParts

/-- Whatever can be set, as listings name it. -/
def Complete (p : HeaderParts) : Prop :=
  ∀ n ∈ p.table.fields, (∃ f ∈ p.fixed, n = f.named) ∨ (∃ m ∈ p.movable, n = m.named)
    ∨ ∀ v h, n.set v h = none

theorem complete_of_fields {p : HeaderParts} (before behind : List NamedField)
    (fields : p.table.fields = p.fixed.map FixedField.named ++ before
      ++ p.movable.map MovablePart.named ++ behind)
    (derived : ∀ n ∈ before ++ behind, ∀ v h, n.set v h = none) : p.Complete := by
  intro n listed
  rw [fields] at listed
  rcases List.mem_append.1 listed with listed | listed
  · rcases List.mem_append.1 listed with listed | listed
    · rcases List.mem_append.1 listed with listed | listed
      · obtain ⟨f, hf, rfl⟩ := List.mem_map.1 listed
        exact .inl ⟨f, hf, rfl⟩
      · exact .inr (.inr (derived n (List.mem_append_left behind listed)))
    · obtain ⟨m, hm, rfl⟩ := List.mem_map.1 listed
      exact .inr (.inl ⟨m, hm, rfl⟩)
  · exact .inr (.inr (derived n (List.mem_append_right before listed)))

/-- **A field at a fixed place was set.** -/
structure WritesField (p : HeaderParts) (f : FixedField) (v : f.α) (h h' : Bytes) : Prop where
  length : h'.length = h.length
  /-- The field holds what there is room for. -/
  own : f.field.get h' = .ok (f.kept v)
  /-- Every other field is read as before. -/
  others : ∀ g ∈ p.fixed, g.name ≠ f.name → ∃ x, g.field.get h = .ok x ∧ g.field.get h' = .ok x
  /-- So is every part that the field does not move. -/
  unmoved : ∀ m ∈ p.movable, f.name ∉ m.movedBy → ∃ b, m.get h = .ok b ∧ m.get h' = .ok b
  /-- No other byte changes. -/
  bytes : ∀ i, ¬ f.field.Covers i → h'[i]? = h[i]?
  /-- No other bit changes either, but those that are cleared. -/
  bits : ∀ k, k < f.start ∨ f.start + f.width ≤ k →
    h'.bit k = if f.start ≤ k + f.cleared ∧ k < f.start then false else h.bit k

/-- **A part whose place the header states was set.** -/
structure WritesPart (p : HeaderParts) (m : MovablePart) (new h h' : Bytes) : Prop where
  length : h'.length = h.length
  own : m.get h' = .ok new
  /-- Every field, and every other part, is read as before. -/
  fields : ∀ g ∈ p.fixed, ∃ x, g.field.get h = .ok x ∧ g.field.get h' = .ok x
  others : ∀ n ∈ p.movable, n.name ≠ m.name → ∃ b, n.get h = .ok b ∧ n.get h' = .ok b
  bytes : ∀ i, ¬ m.Covers h i → h'[i]? = h[i]?

/-- **The setters of a protocol write what they name, and nothing else,** in
every accepted header. -/
def Settles (p : HeaderParts) : Prop := ∀ h, p.table.format.accepts h = true →
  (∀ f ∈ p.fixed, ∀ v, ∃ h', f.field.set v h = .ok h' ∧ p.WritesField f v h h')
  ∧ ∀ m ∈ p.movable, ∀ new : Bytes, new.length = (m.range h).2 →
    ∃ h', m.set new h = .ok h' ∧ p.WritesPart m new h h'

/-- Where all parts of a header lie: those at a fixed place apart from each other
in front, and those that move behind them. -/
structure Lies (p : HeaderParts) : Prop where
  long : ∀ h, p.table.format.accepts h = true → p.least ≤ h.length
  fixed : ∀ f ∈ p.fixed, f.Lies p.least
  apart : ∀ f ∈ p.fixed, ∀ g ∈ p.fixed, g.name ≠ f.name → f.Apart g
  movable : ∀ m ∈ p.movable, m.Lies p
  movable_apart : ∀ m ∈ p.movable, ∀ n ∈ p.movable, n.name ≠ m.name → ∀ h, m.Apart n h

/-! ## §5. From the places to the setters. -/

variable {p : HeaderParts} {h : Bytes}

theorem writesField (lies : p.Lies) (accepted : p.table.format.accepts h = true) {f : FixedField}
    (listed : f ∈ p.fixed) (v : f.α) : p.WritesField f v h (f.field.put v h) := by
  have long := lies.long h accepted
  have place := lies.fixed f listed
  have hcovers := place.covers long
  have hlength : (f.field.put v h).length = h.length := Field.length_put place.lawful hcovers v
  have values : ∀ g ∈ p.fixed, g.name ≠ f.name →
      g.field.value (f.field.put v h) = g.field.value h := fun g listed' other =>
    place.value_put_apart (lies.fixed g listed') (lies.apart f listed g listed' other) long v
  refine ⟨hlength, ?_, fun g listed' other => ⟨g.field.value h, ?_, ?_⟩,
    fun m moves unmoved => ⟨(h.drop (m.range h).1).take (m.range h).2, ?_, ?_⟩,
    fun i outside => Field.getElem?_put place.lawful hcovers v outside,
    fun k outside => place.bit_put long v outside⟩
  · rw [Field.get_eq_value (hlength ▸ hcovers), place.value_put long]
  · exact Field.get_eq_value ((lies.fixed g listed').covers long)
  · rw [Field.get_eq_value (hlength ▸ (lies.fixed g listed').covers long), values g listed' other]
  · exact (lies.movable m moves).reads h h accepted rfl fun _ _ _ => rfl
  · -- the part is behind all fields, at the place that is still stated
    have hbehind : f.field.stop ≤ (m.range h).1 :=
      Nat.le_trans place.inside ((lies.movable m moves).inside h accepted).1
    rw [(lies.movable m moves).reads h _ accepted hlength fun g listed' moving =>
      values g listed' fun same => unmoved (same ▸ moving),
      Field.drop_put place.lawful hcovers v hbehind]

theorem writesPart (lies : p.Lies) (accepted : p.table.format.accepts h = true) {m : MovablePart}
    (listed : m ∈ p.movable) {new : Bytes} (size : new.length = (m.range h).2) :
    p.WritesPart m new h
      (h.take (m.range h).1 ++ new ++ h.drop ((m.range h).1 + (m.range h).2)) := by
  have long := lies.long h accepted
  have place := lies.movable m listed
  obtain ⟨behind, inside⟩ := place.inside h accepted
  generalize hfirst : (m.range h).1 = first at behind inside
  generalize hsize : (m.range h).2 = count at inside size
  generalize hnew : h.take first ++ new ++ h.drop (first + count) = h'
  have hfront : (h.take first).length = first := List.length_take_of_le (by omega)
  have hlength : h'.length = h.length := hnew ▸ Bytes.length_replaced inside size
  have hbytes : ∀ i, i < first ∨ first + count ≤ i → h'[i]? = h[i]? := fun i outside =>
    hnew ▸ Bytes.getElem?_replaced inside size outside
  -- the fields are in front of the part
  have values : ∀ g ∈ p.fixed, g.field.value h' = g.field.value h := by
    intro g listed'
    have hinside := (lies.fixed g listed').inside
    have htake : h'.take p.least = h.take p.least := by
      rw [← hnew, List.append_assoc, List.take_append_of_le_length (by omega), List.take_take,
        Nat.min_eq_left behind]
    rw [← Field.value_take hinside, htake, Field.value_take hinside]
  have agree : ∀ names, p.Agree names h h' := fun names g listed' _ => values g listed'
  refine ⟨hlength, ?_, fun g listed' => ⟨g.field.value h, ?_, ?_⟩,
    fun n moves other => ⟨(h.drop (n.range h).1).take (n.range h).2, ?_, ?_⟩, ?_⟩
  · rw [place.reads h h' accepted hlength (agree _), hfirst, hsize, ← hnew, List.append_assoc,
      List.drop_left' hfront, ← size, List.take_left]
  · exact Field.get_eq_value ((lies.fixed g listed').covers long)
  · rw [Field.get_eq_value (hlength ▸ (lies.fixed g listed').covers long), values g listed']
  · exact (lies.movable n moves).reads h h accepted rfl fun _ _ _ => rfl
  · have hapart := lies.movable_apart m listed n moves other h
    unfold MovablePart.Apart at hapart
    rw [(lies.movable n moves).reads h h' accepted hlength (agree _)]
    refine congrArg Except.ok (List.ext_getElem? fun i => ?_)
    rw [List.getElem?_take, List.getElem?_take, List.getElem?_drop, List.getElem?_drop]
    split
    · exact hbytes _ (by omega)
    · rfl
  · intro i outside
    unfold MovablePart.Covers at outside
    exact hbytes i (by omega)

/-- **Where the parts of a header lie decides what their setters do.** -/
theorem settles_of_lies (lies : p.Lies) : p.Settles := by
  refine fun h accepted => ⟨fun f listed v => ?_, fun m listed new size => ?_⟩
  · have place := lies.fixed f listed
    have hset := Field.set_eq_put place.lawful (place.covers (lies.long h accepted)) v
    exact ⟨_, hset, writesField lies accepted listed v⟩
  · have hset := (lies.movable m listed).writes h new accepted size
    exact ⟨_, hset, writesPart lies accepted listed size⟩

end HeaderParts

end PacketLayers
