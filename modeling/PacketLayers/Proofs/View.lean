/-
  PacketLayers.Proofs.View
  ────────────────────────────────
  **PARTS OF A VIEW, AND WRITES TO IT.**

  A view grants a part of itself exactly if the part ends inside it, and the
  part shows what the view shows there.  A write changes the bytes that it
  addresses, and no other byte of the storage:

    • `View.slice_eq`, `View.tail_eq` — which parts of a view there are;
    • `View.slice_slice` — a part of a part is asked for in one step as well;
    • `View.read_written` — a number that was written is read back;
    • `View.promises` — put together, with what a view refuses.
-/
import PacketLayers.Proofs.Layout
import PacketLayers.Theory.Number

namespace PacketLayers

/-! ## §1. Byte order. -/

/-- Which byte of a number comes first. -/
inductive ByteOrder where
  /-- The most significant one. -/
  | big
  /-- The least significant one. -/
  | little
  deriving DecidableEq

namespace ByteOrder

/-- The number that bytes spell. -/
def number : ByteOrder → Bytes → Nat
  | big, b => Bytes.toNat b
  | little, b => Bytes.toNat b.reverse

/-- The low `size` bytes of a number. -/
def bytes : ByteOrder → (size value : Nat) → Bytes
  | big, size, value => Bytes.ofNat size value
  | little, size, value => (Bytes.ofNat size value).reverse

theorem length_bytes (order : ByteOrder) (size value : Nat) :
    (order.bytes size value).length = size := by
  cases order with
  | big => exact Bytes.length_ofNat size value
  | little => exact (List.length_reverse).trans (Bytes.length_ofNat size value)

/-- A number is read back from its bytes, as far as there is room for it. -/
theorem number_bytes (order : ByteOrder) (size value : Nat) :
    order.number (order.bytes size value) = value % 256 ^ size := by
  cases order with
  | big => exact Bytes.toNat_ofNat size value
  | little =>
    show Bytes.toNat (Bytes.ofNat size value).reverse.reverse = _
    rw [List.reverse_reverse, Bytes.toNat_ofNat]

end ByteOrder

/-! ## §2. Parts of a view. -/

namespace View

/-- The number in the `size` bytes at a position. -/
def read (order : ByteOrder) (v : View) (size position : Nat) : Except Error Nat :=
  match order with
  | .big => v.readBig size position
  | .little => v.readLittle size position

/-- Write a number of `size` bytes at a position. -/
def writeNumber (order : ByteOrder) (v : View) (size position value : Nat) : Except Error View :=
  match order with
  | .big => v.writeBig size position value
  | .little => v.writeLittle size position value

variable {v : View}

/-- A view that is granted looks into the storage that it was asked for. -/
theorem storage_of_ofSpan {storage : Bytes} {span : Span}
    (granted : ofSpan storage span = .ok v) : v.storage = storage := by
  unfold ofSpan at granted
  split at granted
  · injection granted with same
    rw [← same]
  · cases granted

/-- The `size` visible bytes behind the first ones. -/
def part (v : View) (first size : Nat) (fits : first + size ≤ v.span.length) : View where
  storage := v.storage
  span := ⟨v.span.offset + first, size⟩
  inside := by
    have hv := v.inside
    unfold Span.stop at hv ⊢
    simp only
    omega

/-- **A part is there** exactly if it ends inside the view. -/
theorem slice_eq (v : View) (first size : Nat) :
    v.slice first size = if fits : first + size ≤ v.span.length then .ok (v.part first size fits)
      else .error .outOfBounds := by
  unfold slice Span.slice
  by_cases fits : first + size ≤ v.span.length
  · rw [if_pos fits, dif_pos fits]
    exact dif_pos (v.part first size fits).inside
  · rw [if_neg fits, dif_neg fits]
    rfl

theorem tail_eq (v : View) (first : Nat) :
    v.tail first = if fits : first ≤ v.span.length
      then .ok (v.part first (v.span.length - first) (by omega)) else .error .outOfBounds := by
  unfold tail Span.tail
  by_cases fits : first ≤ v.span.length
  · rw [if_pos fits, dif_pos fits]
    exact dif_pos (v.part first (v.span.length - first) (by omega)).inside
  · rw [if_neg fits, dif_neg fits]
    rfl

theorem part_part {first size first' size' : Nat} (fits : first + size ≤ v.span.length)
    (fits' : first' + size' ≤ size) :
    (v.part first size fits).part first' size' fits'
      = v.part (first + first') size' (by omega) := by
  unfold part
  congr 2
  exact Nat.add_assoc _ _ _

/-- A part shows a part of the bytes. -/
theorem bytes_part {first size : Nat} (fits : first + size ≤ v.span.length) :
    (v.part first size fits).bytes = (v.bytes.drop first).take size := by
  show (v.storage.drop (v.span.offset + first)).take size
    = (((v.storage.drop v.span.offset).take v.span.length).drop first).take size
  rw [List.drop_take, List.take_take, Nat.min_eq_left (by omega), List.drop_drop]

/-! ## §3. Writing to a view. -/

/-- Bytes that fit into the window leave its storage as long as it was. -/
theorem stop_le_replaced {position : Nat} {new : Bytes}
    (fits : position + new.length ≤ v.span.length) :
    v.span.stop ≤ (v.storage.take (v.span.offset + position) ++ new
      ++ v.storage.drop (v.span.offset + position + new.length)).length := by
  have hv := v.inside
  unfold Span.stop at hv ⊢
  rw [Bytes.length_replaced (by omega) rfl]
  exact hv

/-- The view after bytes from a position on were replaced. -/
def written (v : View) (position : Nat) (new : Bytes)
    (fits : position + new.length ≤ v.span.length) : View where
  storage := v.storage.take (v.span.offset + position) ++ new
    ++ v.storage.drop (v.span.offset + position + new.length)
  span := v.span
  inside := stop_le_replaced fits

theorem write_eq (v : View) (position : Nat) (new : Bytes) :
    v.write position new = if fits : position + new.length ≤ v.span.length
      then .ok (v.written position new fits) else .error .outOfBounds := rfl

section Written

variable {position : Nat} {new : Bytes} (fits : position + new.length ≤ v.span.length)

theorem length_storage_written :
    (v.written position new fits).storage.length = v.storage.length := by
  have hv := v.inside
  unfold Span.stop at hv
  exact Bytes.length_replaced (by omega) rfl

/-- A write leaves alone what it does not address. -/
theorem getElem?_written {i : Nat} (outside : i < v.span.offset + position
      ∨ v.span.offset + position + new.length ≤ i) :
    (v.written position new fits).storage[i]? = v.storage[i]? := by
  have hv := v.inside
  unfold Span.stop at hv
  exact Bytes.getElem?_replaced (by omega) rfl outside

/-- What was written is what the bytes written to show. -/
theorem bytes_part_written {size : Nat} (length : new.length = size) :
    ((v.written position new fits).part position size (length ▸ fits)).bytes = new := by
  subst length
  have hv := v.inside
  unfold Span.stop at hv
  exact Span.bytesOf_written (s := ⟨v.span.offset + position, new.length⟩)
    (by unfold Span.stop; simp only; omega) rfl

end Written

theorem read_eq (order : ByteOrder) (v : View) (size position : Nat) :
    v.read order size position = if fits : position + size ≤ v.span.length
      then .ok (order.number (v.part position size fits).bytes) else .error .outOfBounds := by
  have hslice := v.slice_eq position size
  cases order with
  | big =>
    show v.slice position size >>= (fun part => Except.ok (Bytes.toNat part.bytes)) = _
    rw [hslice]
    split <;> rfl
  | little =>
    show v.slice position size >>= (fun part => Except.ok (Bytes.toNat part.bytes.reverse)) = _
    rw [hslice]
    split <;> rfl

theorem writeNumber_eq (order : ByteOrder) (v : View) (size position value : Nat) :
    v.writeNumber order size position value = v.write position (order.bytes size value) := by
  cases order <;> rfl

/-! ## §4. What a view promises. -/

/-- A view is the part of another one that shows `size` bytes behind the first
ones. -/
structure IsPart (v : View) (first size : Nat) (part : View) : Prop where
  storage : part.storage = v.storage
  span : part.span = ⟨v.span.offset + first, size⟩
  /-- The part does not begin before the view, nor end behind it. -/
  within : v.span.offset ≤ part.span.offset ∧ part.span.stop ≤ v.span.stop
  bytes : part.bytes = (v.bytes.drop first).take size

/-- A view after a write to `size` bytes of it, and to no other byte. -/
structure IsWritten (v : View) (position size : Nat) (after : View) : Prop where
  span : after.span = v.span
  length : after.storage.length = v.storage.length
  outside : ∀ i, i < v.span.offset + position ∨ v.span.offset + position + size ≤ i →
    after.storage[i]? = v.storage[i]?

/-- **What a view grants, and what it refuses.** -/
structure Promises (v : View) : Prop where
  /-- The part behind the first `first` bytes is there exactly if it ends inside
  the view. -/
  part : ∀ first size, first + size ≤ v.span.length →
    ∃ part, v.slice first size = .ok part ∧ v.IsPart first size part
  part_refused : ∀ first size, v.span.length < first + size →
    v.slice first size = .error .outOfBounds
  /-- What remains behind the first bytes is there exactly if they are. -/
  rest : ∀ first, first ≤ v.span.length →
    ∃ part, v.tail first = .ok part ∧ v.IsPart first (v.span.length - first) part
  rest_refused : ∀ first, v.span.length < first → v.tail first = .error .outOfBounds
  /-- A part of a part is the part that one step leads to. -/
  nested : ∀ a b c d part, v.slice a b = .ok part → c + d ≤ b →
    part.slice c d = v.slice (a + c) d
  /-- A write where there is room for it changes the bytes that it addresses and
  no other, and the number is read back. -/
  written : ∀ (order : ByteOrder) (size position value : Nat), value < 256 ^ size →
    position + size ≤ v.span.length →
      ∃ after, v.writeNumber order size position value = .ok after
        ∧ v.IsWritten position size after ∧ after.read order size position = .ok value
  written_refused : ∀ (order : ByteOrder) (size position value : Nat), value < 256 ^ size →
    v.span.length < position + size →
      v.writeNumber order size position value = .error .outOfBounds

theorem isPart_part {first size : Nat} (fits : first + size ≤ v.span.length) :
    v.IsPart first size (v.part first size fits) where
  storage := rfl
  span := rfl
  within := by
    show v.span.offset ≤ v.span.offset + first
      ∧ v.span.offset + first + size ≤ v.span.offset + v.span.length
    omega
  bytes := bytes_part fits

/-- **A part of a part** is asked for in one step as well. -/
theorem slice_slice {a b c d : Nat} {part : View} (narrowed : v.slice a b = .ok part)
    (fits : c + d ≤ b) : part.slice c d = v.slice (a + c) d := by
  rw [slice_eq] at narrowed
  split at narrowed
  · next room =>
    injection narrowed with narrowed
    subst narrowed
    have hdirect : a + c + d ≤ v.span.length := by omega
    have hinner : c + d ≤ (v.part a b room).span.length := fits
    rw [slice_eq, slice_eq, dif_pos hdirect, dif_pos hinner, part_part room fits]
  · cases narrowed

/-- **A number that was written** is read back, and nothing else has changed. -/
theorem read_written (order : ByteOrder) {size position value : Nat}
    (fits : position + size ≤ v.span.length) (small : value < 256 ^ size) :
    ∃ after, v.writeNumber order size position value = .ok after
      ∧ v.IsWritten position size after ∧ after.read order size position = .ok value := by
  have hnew := order.length_bytes size value
  have room : position + (order.bytes size value).length ≤ v.span.length := by
    rw [hnew]
    exact fits
  refine ⟨v.written position (order.bytes size value) room, ?_, ⟨rfl, ?_, ?_⟩, ?_⟩
  · rw [writeNumber_eq, write_eq, dif_pos room]
  · exact length_storage_written room
  · intro i outside
    apply getElem?_written room
    rwa [hnew]
  · have hinner :
        position + size ≤ (v.written position (order.bytes size value) room).span.length := fits
    rw [read_eq, dif_pos hinner, bytes_part_written room hnew, order.number_bytes,
      Nat.mod_eq_of_lt small]

/-- A number that does not end inside the view is not written. -/
theorem writeNumber_refused (order : ByteOrder) {size position : Nat} (value : Nat)
    (outside : ¬ position + size ≤ v.span.length) :
    v.writeNumber order size position value = .error .outOfBounds := by
  rw [writeNumber_eq, write_eq, dif_neg]
  rwa [order.length_bytes]

theorem promises (v : View) : v.Promises where
  part first size fits := ⟨_, (v.slice_eq first size).trans (dif_pos fits), isPart_part fits⟩
  part_refused first size outside :=
    (v.slice_eq first size).trans (dif_neg (Nat.not_le.2 outside))
  rest first fits :=
    ⟨_, (v.tail_eq first).trans (dif_pos fits), isPart_part (by omega)⟩
  rest_refused first outside := (v.tail_eq first).trans (dif_neg (Nat.not_le.2 outside))
  nested _ _ _ _ _ narrowed fits := slice_slice narrowed fits
  written order _ _ _ small fits := read_written order fits small
  written_refused order _ _ value _ outside :=
    writeNumber_refused order value (Nat.not_le.2 outside)

end View

end PacketLayers
