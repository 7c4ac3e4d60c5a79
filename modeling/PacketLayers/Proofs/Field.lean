/-
  PacketLayers.Proofs.Field
  ────────────────────────────────
  **THE LAWS OF HEADER FIELDS.**

  Where a header covers the window of a field, writing the field is `put`, a
  function without a failure.  Fields whose windows lie apart know nothing of
  each other:

    • `put_put`, `value_put` — the last value written is what counts;
    • `value_put_of_apart`, `put_comm` — writes elsewhere do not matter;
    • `Holds` — a field that holds a value already, which writes elsewhere do
      not change;
    • `fill` — a field that is computed from the header around it.
-/
import PacketLayers.Assigned.Space
import PacketLayers.Theory.Number
import PacketLayers.Theory.Result

namespace PacketLayers.Field

variable {α β : Type} {f : Field α} {g : Field β} {h : Bytes}

/-! ## §1. Windows. -/

/-- The window of a field in a header. -/
def window (f : Field α) (h : Bytes) : Bytes := (h.drop f.first).take f.size

/-- The header with a value put into the window, which it covers. -/
def put (f : Field α) (v : α) (h : Bytes) : Bytes :=
  h.take f.first ++ f.encode v (f.window h) ++ h.drop f.stop

/-- No byte belongs to the windows of both fields. -/
def Apart (f : Field α) (g : Field β) : Prop := f.stop ≤ g.first ∨ g.stop ≤ f.first

instance (f : Field α) (g : Field β) : Decidable (f.Apart g) :=
  inferInstanceAs (Decidable (_ ∨ _))

/-- What writing a field promises: the window keeps its length, and the last
value written is what counts. -/
structure Lawful (f : Field α) : Prop where
  length_encode : ∀ v w, w.length = f.size → (f.encode v w).length = f.size
  encode_encode : ∀ u v w, w.length = f.size → f.encode v (f.encode u w) = f.encode v w

theorem value_eq (f : Field α) (h : Bytes) : f.value h = f.decode (f.window h) := rfl

theorem length_window (covers : f.stop ≤ h.length) : (f.window h).length = f.size := by
  unfold stop at covers
  rw [window, List.length_take, List.length_drop]
  omega

/-- Bytes behind a header do not matter to its fields. -/
theorem value_append (covers : f.stop ≤ h.length) (rest : Bytes) :
    f.value (h ++ rest) = f.value h := by
  unfold stop at covers
  rw [value, value, List.drop_append_of_le_length (by omega),
    List.take_append_of_le_length (by rw [List.length_drop]; omega)]

theorem value_take {n : Nat} (covers : f.stop ≤ n) : f.value (h.take n) = f.value h := by
  unfold stop at covers
  rw [value, value, List.drop_take, List.take_take, Nat.min_eq_left (by omega)]

/-- Nor does it matter how long the header becomes, as long as it covers the
window. -/
theorem value_resize {n : Nat} (covers : f.stop ≤ h.length) (room : f.stop ≤ n) :
    f.value (h.resize n) = f.value h := by
  have hkept : f.stop ≤ (h.take n).length := by
    rw [List.length_take]
    exact Nat.le_min.2 ⟨room, covers⟩
  conv_rhs => rw [← List.take_append_drop n h]
  rw [Bytes.resize, value_append hkept, value_append hkept]

theorem length_front (covers : f.stop ≤ h.length) : (h.take f.first).length = f.first := by
  unfold stop at covers
  rw [List.length_take]
  omega

/-! ## §2. Writing where the header covers the window. -/

theorem length_put (law : f.Lawful) (covers : f.stop ≤ h.length) (v : α) :
    (f.put v h).length = h.length := by
  have hencode := law.length_encode v _ (length_window covers)
  have hfront := length_front covers
  unfold stop at covers
  rw [put, List.length_append, List.length_append, hencode, hfront, List.length_drop, stop]
  omega

/-- Where the window is covered, writing succeeds. -/
theorem set_eq_put (law : f.Lawful) (covers : f.stop ≤ h.length) (v : α) :
    f.set v h = .ok (f.put v h) := by
  have hencode := law.length_encode v _ (length_window covers)
  have hroom : f.first + f.size ≤ h.length := covers
  unfold set Bytes.slice
  rw [if_pos hroom, ok_bind]
  show Bytes.overwrite h f.first (f.encode v (f.window h)) = _
  unfold Bytes.overwrite
  rw [hencode, if_pos hroom]
  rfl

/-- A write between bytes that are in front of the window and bytes behind
it. -/
theorem set_between (law : f.Lawful) {front window back : Bytes} (first : front.length = f.first)
    (size : window.length = f.size) (v : α) :
    f.set v (front ++ window ++ back) = .ok (front ++ f.encode v window ++ back) := by
  have hcovers : f.stop ≤ (front ++ window ++ back).length := by
    rw [List.length_append, List.length_append, first, size]
    exact Nat.le_add_right _ _
  have hfront : (front ++ window ++ back).take f.first = front := by
    rw [List.append_assoc, ← first, List.take_left]
  have hwindow : f.window (front ++ window ++ back) = window := by
    rw [Field.window, List.append_assoc, ← first, List.drop_left, ← size, List.take_left]
  have hback : (front ++ window ++ back).drop f.stop = back := by
    rw [Field.stop, ← first, ← size, ← List.length_append, List.drop_left]
  rw [set_eq_put law hcovers, put, hfront, hwindow, hback]

theorem window_put (law : f.Lawful) (covers : f.stop ≤ h.length) (v : α) :
    f.window (f.put v h) = f.encode v (f.window h) := by
  have hencode := law.length_encode v _ (length_window covers)
  rw [window, put, List.append_assoc, List.drop_left' (length_front covers),
    List.take_left' hencode]

/-- The field holds what was written, as far as the window has room for it. -/
theorem value_put (law : f.Lawful) (covers : f.stop ≤ h.length) (v : α) :
    f.value (f.put v h) = f.decode (f.encode v (f.window h)) := by
  rw [value_eq, window_put law covers]

/-- A write into the window of an earlier one replaces what it wrote. -/
theorem put_put_same_window (law : g.Lawful) (covers : g.stop ≤ h.length)
    (first : f.first = g.first) (size : f.size = g.size) (u : α) (v : β) :
    f.put u (g.put v h)
      = h.take g.first ++ f.encode u (g.encode v (g.window h)) ++ h.drop g.stop := by
  have hencode := law.length_encode v _ (length_window covers)
  have hfront := length_front covers
  -- the header that was written to, cut at both ends of the window
  have hcut : (h.take g.first ++ g.encode v (g.window h)).length = g.stop := by
    rw [List.length_append, hencode, hfront, stop]
  have htake : (g.put v h).take g.first = h.take g.first := by
    rw [put, List.append_assoc, List.take_left' hfront]
  have hdrop : (g.put v h).drop g.stop = h.drop g.stop := by
    rw [put, List.drop_left' hcut]
  have hwindow : f.window (g.put v h) = g.encode v (g.window h) := by
    rw [← window_put law covers, window, window, first, size]
  rw [put, hwindow, stop, first, size]
  show (g.put v h).take g.first ++ _ ++ (g.put v h).drop g.stop = _
  rw [htake, hdrop]

theorem put_put (law : f.Lawful) (covers : f.stop ≤ h.length) (u v : α) :
    f.put v (f.put u h) = f.put v h := by
  rw [put_put_same_window law covers rfl rfl, law.encode_encode _ _ _ (length_window covers), put]

/-- Bytes behind a header stay where they are. -/
theorem put_append (covers : f.stop ≤ h.length) (v : α) (rest : Bytes) :
    f.put v (h ++ rest) = f.put v h ++ rest := by
  have hwindow : f.window (h ++ rest) = f.window h := by
    unfold stop at covers
    rw [window, window, List.drop_append_of_le_length (by omega),
      List.take_append_of_le_length (by rw [List.length_drop]; omega)]
  have hfirst : f.first ≤ h.length := by
    unfold stop at covers
    omega
  rw [put, hwindow, List.take_append_of_le_length hfirst, List.drop_append_of_le_length covers,
    put, List.append_assoc, List.append_assoc, List.append_assoc]

/-! ## §3. Fields that lie apart. -/

/-- Bytes in front of a window stay. -/
theorem take_put (covers : g.stop ≤ h.length) (v : β) {n : Nat} (front : n ≤ g.first) :
    (g.put v h).take n = h.take n := by
  have hfront := length_front covers
  rw [put, List.append_assoc, List.take_append_of_le_length (by omega), List.take_take,
    Nat.min_eq_left front]

/-- So does the first byte. -/
theorem head?_put (covers : g.stop ≤ h.length) (v : β) (behind : 1 ≤ g.first) :
    (g.put v h).head? = h.head? := by
  have hfront := congrArg List.head? (take_put covers v behind)
  rwa [List.head?_take, List.head?_take, if_neg Nat.one_ne_zero, if_neg Nat.one_ne_zero] at hfront

/-- Bytes behind a window stay. -/
theorem drop_put (law : g.Lawful) (covers : g.stop ≤ h.length) (v : β) {n : Nat}
    (back : g.stop ≤ n) : (g.put v h).drop n = h.drop n := by
  have hencode := law.length_encode v _ (length_window covers)
  have hcut : (h.take g.first ++ g.encode v (g.window h)).length = g.stop := by
    rw [List.length_append, hencode, length_front covers, stop]
  obtain ⟨k, rfl⟩ := Nat.exists_eq_add_of_le back
  rw [put, ← List.drop_drop, List.drop_left' hcut, List.drop_drop]

theorem window_put_of_apart (law : g.Lawful) (covers : g.stop ≤ h.length) (apart : f.Apart g)
    (v : β) : f.window (g.put v h) = f.window h := by
  -- the window lies in front of what was written, or behind it
  rcases apart with hfront | hback
  · have htake := take_put covers v hfront
    unfold stop at htake
    rw [window, window, List.take_drop, List.take_drop, htake]
  · rw [window, window, drop_put law covers v hback]

/-- Writing one field leaves the other as it is. -/
theorem value_put_of_apart (law : g.Lawful) (covers : g.stop ≤ h.length) (apart : f.Apart g)
    (v : β) : f.value (g.put v h) = f.value h := by
  rw [value_eq, window_put_of_apart law covers apart, value_eq]

theorem put_comm_of_le (lawf : f.Lawful) (lawg : g.Lawful) (coversf : f.stop ≤ h.length)
    (coversg : g.stop ≤ h.length) (order : f.stop ≤ g.first) (u : α) (v : β) :
    f.put u (g.put v h) = g.put v (f.put u h) := by
  have hwindowf : f.window (g.put v h) = f.window h :=
    window_put_of_apart lawg coversg (.inl order) v
  have hwindowg : g.window (f.put u h) = g.window h :=
    window_put_of_apart lawf coversf (.inr order) u
  have hfront : f.first ≤ g.first := by
    unfold stop at order
    omega
  have hgfront := length_front coversg
  have hcutf : (h.take f.first ++ f.encode u (f.window h)).length = f.stop := by
    rw [List.length_append, lawf.length_encode _ _ (length_window coversf),
      length_front coversf, stop]
  have hback : f.stop ≤ g.stop := by
    unfold stop at order ⊢
    omega
  -- both sides are: front, window of `f`, what lies between, window of `g`, back
  have hleft : (g.put v h).drop f.stop
      = (h.take g.first).drop f.stop ++ (g.encode v (g.window h) ++ h.drop g.stop) := by
    rw [put, List.append_assoc, List.drop_append_of_le_length (by omega)]
  have hright : (f.put u h).take g.first
      = h.take f.first ++ f.encode u (f.window h) ++ (h.take g.first).drop f.stop := by
    obtain ⟨k, hk⟩ := Nat.exists_eq_add_of_le order
    rw [put, List.take_append, hcutf, List.take_of_length_le (by omega), List.drop_take]
  rw [put, hwindowf, take_put coversg v hfront, hleft]
  show _ = (f.put u h).take g.first ++ g.encode v (g.window (f.put u h)) ++ (f.put u h).drop g.stop
  rw [hwindowg, drop_put lawf coversf u hback, hright]
  simp only [List.append_assoc]

/-- **Writes that lie apart** can be made in any order. -/
theorem put_comm (lawf : f.Lawful) (lawg : g.Lawful) (coversf : f.stop ≤ h.length)
    (coversg : g.stop ≤ h.length) (apart : f.Apart g) (u : α) (v : β) :
    f.put u (g.put v h) = g.put v (f.put u h) := by
  -- one order of the two windows is enough
  rcases apart with order | order
  · exact put_comm_of_le lawf lawg coversf coversg order u v
  · exact (put_comm_of_le lawg lawf coversg coversf order v u).symm

/-! ## §4. Fields that hold a value already. -/

/-- Writing the value again changes nothing. -/
def Holds (f : Field α) (v : α) (h : Bytes) : Prop := f.put v h = h

theorem holds_put (law : f.Lawful) (covers : f.stop ≤ h.length) (v : α) :
    f.Holds v (f.put v h) := put_put law covers v v

/-- What a field holds is not changed by writes that lie apart. -/
theorem Holds.put_apart (lawf : f.Lawful) (lawg : g.Lawful) (coversf : f.stop ≤ h.length)
    (coversg : g.stop ≤ h.length) (apart : f.Apart g) {v : α} (holds : f.Holds v h) (u : β) :
    f.Holds v (g.put u h) := by
  unfold Holds at holds ⊢
  rw [put_comm lawf lawg coversf coversg apart, holds]

/-! ## §5. The kinds of fields. -/

theorem lawful_word (α : Type) [Coded α] (first size : Nat) : (word α first size).Lawful where
  length_encode _ _ _ := Bytes.length_ofNat _ _
  encode_encode _ _ _ _ := rfl

theorem lawful_wordLittle (α : Type) [Coded α] (first size : Nat) :
    (wordLittle α first size).Lawful where
  length_encode _ _ _ := by
    rw [wordLittle, List.length_reverse]
    exact Bytes.length_ofNat _ _
  encode_encode _ _ _ _ := rfl

theorem lawful_octets (first n : Nat) : (octets first n).Lawful where
  length_encode v _ _ := v.length_bytes
  encode_encode _ _ _ _ := rfl

theorem lawful_bits (α : Type) [Coded α] (first : Nat) {size low width : Nat}
    (room : low + width ≤ 8 * size) : (bits α first size low width).Lawful where
  length_encode _ _ _ := Bytes.length_ofNat _ _
  encode_encode u v w hw := by
    -- the number in the window stays below what its bytes can spell
    have hlt : Bytes.toNat w < 2 ^ (8 * size) := by
      have h := Bytes.toNat_lt w
      rw [Bytes.two_pow_eight_mul]
      rw [hw] at h
      exact h
    simp only [bits]
    rw [Bytes.toNat_ofNat, ← Bytes.two_pow_eight_mul, Nat.mod_eq_of_lt (putBits_lt room hlt _),
      putBits_putBits]

theorem Lawful.map (law : f.Lawful) (read : α → β) (write : β → α) :
    (f.map read write).Lawful where
  length_encode _ _ hw := law.length_encode _ _ hw
  encode_encode _ _ _ hw := law.encode_encode _ _ _ hw

/-! ## §6. Values that fit their window. -/

/-- A type of values whose numbers lie below a bound and stand for them. -/
def Fits (α : Type) [Coded α] (bound : Nat) : Prop :=
  ∀ v : α, Coded.toNat v < bound ∧ Coded.ofNat (Coded.toNat v) = v

theorem fits_byte : Fits UInt8 (256 ^ 1) := fun v => ⟨v.toNat_lt, UInt8.ofNat_toNat⟩

theorem fits_word : Fits UInt16 (256 ^ 2) := fun v => ⟨v.toNat_lt, UInt16.ofNat_toNat⟩

/-- A value that fits is read back. -/
theorem value_put_word {α : Type} [Coded α] {first size : Nat} (fits : Fits α (256 ^ size))
    {h : Bytes} (covers : (word α first size).stop ≤ h.length) (v : α) :
    (word α first size).value ((word α first size).put v h) = v := by
  rw [value_put (lawful_word α first size) covers]
  simp only [word]
  rw [Bytes.toNat_ofNat, Nat.mod_eq_of_lt (fits v).1]
  exact (fits v).2

section Assigned

variable {κ : Type} [Assigned α κ] [DecidableEq κ] [Coded κ]

/-- A number is written for a value of its number space as it was read. -/
theorem toNat_assigned (n : Nat) : Coded.toNat (Coded.ofNat n : α) = Coded.toNat (Coded.ofNat n : κ) :=
  congrArg Coded.toNat (Assigned.code_ofCode (Coded.ofNat n))

/-- What is read where a value of a number space was written, if there is room
for its number. -/
theorem ofNat_toNat_assigned {bound : Nat} (fits : Fits κ bound) (v : α) :
    (Coded.ofNat (Coded.toNat v % bound) : α) = Assigned.canonical v := by
  obtain ⟨small, same⟩ := fits (Assigned.code v)
  show Assigned.ofCode (Coded.ofNat (Coded.toNat (Assigned.code v) % bound)) = _
  rw [Nat.mod_eq_of_lt small, same, Assigned.canonical]

/-- What was read is read as it is written. -/
theorem canonical_value {first size : Nat} (h : Bytes) :
    Assigned.canonical ((word α first size).value h) = (word α first size).value h :=
  Assigned.canonical_ofCode _

theorem value_put_assigned {first size : Nat} (fits : Fits κ (256 ^ size))
    (covers : (word α first size).stop ≤ h.length) (v : α) :
    (word α first size).value ((word α first size).put v h) = Assigned.canonical v := by
  rw [value_put (lawful_word α first size) covers]
  simp only [word]
  rw [Bytes.toNat_ofNat, ofNat_toNat_assigned fits]

end Assigned

/-- A run of bits reads back the low bits of the number written. -/
theorem value_put_bits {α : Type} [Coded α] {first size low width : Nat}
    (room : low + width ≤ 8 * size) {h : Bytes}
    (covers : (bits α first size low width).stop ≤ h.length) (v : α) :
    (bits α first size low width).value ((bits α first size low width).put v h)
      = Coded.ofNat (Coded.toNat v % 2 ^ width) := by
  have hlt : Bytes.toNat ((bits α first size low width).window h) < 2 ^ (8 * size) := by
    have hwindow := Bytes.toNat_lt ((bits α first size low width).window h)
    rw [Bytes.two_pow_eight_mul]
    rw [length_window covers] at hwindow
    exact hwindow
  rw [value_put (lawful_bits α first room) covers]
  simp only [bits] at hlt ⊢
  rw [Bytes.toNat_ofNat, ← Bytes.two_pow_eight_mul, Nat.mod_eq_of_lt (putBits_lt room hlt _),
    bitsOf_putBits]

/-! ## §7. Runs of bits in one window. -/

section Bits

variable {first size low width low' width' : Nat} [Coded α] [Coded β]

/-- The number in a window that was written to. -/
theorem toNat_window_put_bits (room : low + width ≤ 8 * size)
    (covers : (bits α first size low width).stop ≤ h.length) (v : α) :
    Bytes.toNat (((bits α first size low width).put v h).drop first |>.take size)
      = putBits (Bytes.toNat ((h.drop first).take size)) low width (Coded.toNat v) := by
  have hwindow := window_put (lawful_bits α first room) covers v
  have hlength := length_window covers
  have hlt := Bytes.toNat_lt ((bits α first size low width).window h)
  rw [hlength] at hlt
  simp only [window, bits] at hwindow hlt ⊢
  rw [← Bytes.two_pow_eight_mul] at hlt
  rw [hwindow, Bytes.toNat_ofNat, ← Bytes.two_pow_eight_mul, Nat.mod_eq_of_lt (putBits_lt room hlt _)]

/-- A run of bits keeps its value when other bits of the window are written. -/
theorem value_put_bits_of_apart (room' : low' + width' ≤ 8 * size)
    (covers : (bits β first size low' width').stop ≤ h.length)
    (apart : low + width ≤ low' ∨ low' + width' ≤ low) (v : β) :
    (bits α first size low width).value ((bits β first size low' width').put v h)
      = (bits α first size low width).value h := by
  have hnumber := toNat_window_put_bits room' covers v
  -- both sides read the same run of bits, of two numbers in the window
  show Coded.ofNat (bitsOf (Bytes.toNat _) low width) = Coded.ofNat (bitsOf (Bytes.toNat _) low width)
  simp only [bits] at hnumber ⊢
  rw [hnumber, bitsOf_putBits_of_apart _ _ apart]

theorem encode_bits_comm (room : low + width ≤ 8 * size) (room' : low' + width' ≤ 8 * size)
    (apart : low + width ≤ low' ∨ low' + width' ≤ low) {w : Bytes} (hw : w.length = size) (u : α)
    (v : β) :
    (bits α first size low width).encode u ((bits β first size low' width').encode v w)
      = (bits β first size low' width').encode v ((bits α first size low width).encode u w) := by
  have hlt : Bytes.toNat w < 2 ^ (8 * size) := by
    rw [Bytes.two_pow_eight_mul, ← hw]
    exact Bytes.toNat_lt w
  simp only [bits]
  rw [Bytes.toNat_ofNat, Bytes.toNat_ofNat, ← Bytes.two_pow_eight_mul,
    Nat.mod_eq_of_lt (putBits_lt room' hlt _), Nat.mod_eq_of_lt (putBits_lt room hlt _),
    putBits_comm _ _ _ apart]

/-- Runs of bits of one window can be written in any order. -/
theorem put_bits_comm (room : low + width ≤ 8 * size) (room' : low' + width' ≤ 8 * size)
    (covers : (bits α first size low width).stop ≤ h.length)
    (apart : low + width ≤ low' ∨ low' + width' ≤ low) (u : α) (v : β) :
    (bits α first size low width).put u ((bits β first size low' width').put v h)
      = (bits β first size low' width').put v ((bits α first size low width).put u h) := by
  have hencode := @encode_bits_comm α β first size low width low' width' _ _ room room' apart _
    (length_window covers) u v
  rw [put_put_same_window (f := bits α first size low width) (lawful_bits β first room') covers
      rfl rfl,
    put_put_same_window (f := bits β first size low' width') (lawful_bits α first room) covers
      rfl rfl]
  exact congrArg (fun x => h.take first ++ x ++ h.drop (first + size)) hencode

end Bits

/-! ## §8. Fields that are computed from the header. -/

/-- A field holds a value as far as its window says so. -/
theorem holds_iff (law : f.Lawful) (covers : f.stop ≤ h.length) {v : α} :
    f.Holds v h ↔ f.encode v (f.window h) = f.window h := by
  constructor
  · intro holds
    rw [← window_put law covers, holds]
  · intro same
    -- the window and the bytes behind it are the bytes behind its first
    have hcut : f.window h ++ h.drop f.stop = h.drop f.first := by
      rw [window, stop, ← List.drop_drop, List.take_append_drop]
    rw [Holds, put, same, List.append_assoc, hcut, List.take_append_drop]

/-- A word holds the value that is read from it. -/
theorem holds_value_word {α : Type} [Coded α] {first size : Nat}
    (whole : ∀ n, n < 256 ^ size → Coded.toNat (Coded.ofNat n : α) = n)
    (covers : (word α first size).stop ≤ h.length) :
    (word α first size).Holds ((word α first size).value h) h := by
  have hlength := length_window covers
  have hlt := Bytes.toNat_lt ((word α first size).window h)
  rw [hlength] at hlt
  rw [holds_iff (lawful_word α first size) covers]
  show Bytes.ofNat size (Coded.toNat (Coded.ofNat (Bytes.toNat
    ((word α first size).window h)) : α)) = _
  have hbytes := Bytes.ofNat_toNat ((word α first size).window h)
  rw [hlength] at hbytes
  rw [whole _ hlt]
  exact hbytes

/-- A little-endian word holds the value that is read from it. -/
theorem holds_value_wordLittle [Coded α] {first size : Nat}
    (whole : ∀ n, n < 256 ^ size → Coded.toNat (Coded.ofNat n : α) = n)
    (covers : (wordLittle α first size).stop ≤ h.length) :
    (wordLittle α first size).Holds ((wordLittle α first size).value h) h := by
  have hlength := length_window covers
  have hlt := Bytes.toNat_lt ((wordLittle α first size).window h).reverse
  have hbytes := Bytes.ofNat_toNat ((wordLittle α first size).window h).reverse
  rw [List.length_reverse, hlength] at hlt hbytes
  rw [holds_iff (lawful_wordLittle α first size) covers]
  show (Bytes.ofNat size (Coded.toNat (Coded.ofNat (Bytes.toNat
    ((wordLittle α first size).window h).reverse) : α))).reverse = _
  rw [whole _ hlt]
  exact (congrArg List.reverse hbytes).trans (List.reverse_reverse _)

/-- What a field holds, it holds in every header with the same window. -/
theorem Holds.of_window (law : f.Lawful) {h' : Bytes} (covers : f.stop ≤ h.length)
    (covers' : f.stop ≤ h'.length) (same : f.window h' = f.window h) {v : α}
    (holds : f.Holds v h) : f.Holds v h' := by
  rw [holds_iff law covers', same]
  exact (holds_iff law covers).1 holds

/-- The header with the field computed from the header in which it is blank. -/
def fill (f : Field α) (blank : α) (compute : Bytes → α) (h : Bytes) : Bytes :=
  f.put (compute (f.put blank h)) h

variable {blank : α} {compute : Bytes → α}

theorem length_fill (law : f.Lawful) (covers : f.stop ≤ h.length) :
    (f.fill blank compute h).length = h.length := length_put law covers _

/-- Filling writes the field twice. -/
theorem set_fill (law : f.Lawful) (covers : f.stop ≤ h.length) :
    (f.set blank h >>= fun h => f.set (compute h) h) = .ok (f.fill blank compute h) := by
  have covers' : f.stop ≤ (f.put blank h).length := by
    rw [length_put law covers]
    exact covers
  rw [set_eq_put law covers, ok_bind, set_eq_put law covers', put_put law covers, fill]

/-- The field is blank when it is filled again, so nothing changes. -/
theorem fill_fill (law : f.Lawful) (covers : f.stop ≤ h.length) :
    f.fill blank compute (f.fill blank compute h) = f.fill blank compute h := by
  rw [fill, fill, put_put law covers, put_put law covers]

/-- The header with the field computed, if there is anything to compute it
by. -/
def refill (f : Field α) (blank : α) : Option (Bytes → α) → Bytes → Bytes
  | some compute, h => f.fill blank compute h
  | none, h => h

variable {compute? : Option (Bytes → α)}

theorem length_refill (law : f.Lawful) (covers : f.stop ≤ h.length) :
    (f.refill blank compute? h).length = h.length := by
  cases compute? with
  | some compute => exact length_fill law covers
  | none => rfl

theorem refill_refill (law : f.Lawful) (covers : f.stop ≤ h.length) :
    f.refill blank compute? (f.refill blank compute? h) = f.refill blank compute? h := by
  cases compute? with
  | some compute => exact fill_fill law covers
  | none => rfl

theorem window_refill (law : f.Lawful) (covers : f.stop ≤ h.length) (apart : g.Apart f) :
    g.window (f.refill blank compute? h) = g.window h := by
  cases compute? with
  | some compute => exact window_put_of_apart law covers apart _
  | none => rfl

theorem value_refill (law : f.Lawful) (covers : f.stop ≤ h.length) (apart : g.Apart f) :
    g.value (f.refill blank compute? h) = g.value h := by
  rw [value_eq, window_refill law covers apart, value_eq]

theorem Holds.refill (lawg : g.Lawful) (law : f.Lawful) (coversg : g.stop ≤ h.length)
    (covers : f.stop ≤ h.length) (apart : g.Apart f) {v : β} (holds : g.Holds v h) :
    g.Holds v (f.refill blank compute? h) :=
  holds.of_window lawg coversg (by rw [length_refill law covers]; exact coversg)
    (window_refill law covers apart)

/-! ## §9. Lengths in words of four bytes. -/

variable {first size low : Nat}

/-- A length that four bits count in words of four bytes. -/
def words (first size low : Nat) : Field UInt8 :=
  (bits UInt8 first size low 4).map (· * 4) (· / 4)

theorem lawful_words (room : low + 4 ≤ 8 * size) : (words first size low).Lawful :=
  (lawful_bits UInt8 first room).map _ _

theorem toNat_value_words (h : Bytes) (first size low : Nat) :
    ((words first size low).value h).toNat
      = bitsOf (Bytes.toNat ((words first size low).window h)) low 4 * 4 := by
  have hlt : bitsOf (Bytes.toNat ((words first size low).window h)) low 4 < 16 := by
    rw [bitsOf_eq]
    exact Nat.mod_lt _ (by omega)
  -- four bits count at most fifteen words, so the product does not wrap
  show ((UInt8.ofNat (bitsOf (Bytes.toNat _) low 4)) * 4).toNat = _
  rw [UInt8.toNat_mul, Bytes.toNat_ofNat_byte]
  show bitsOf (Bytes.toNat ((words first size low).window h)) low 4 % 256 * 4 % 256 = _
  omega

/-- What can be stated is at most sixty bytes, and whole words. -/
theorem toNat_value_words_shape (h : Bytes) (first size low : Nat) :
    ∃ n, n < 16 ∧ ((words first size low).value h).toNat = n * 4 := by
  refine ⟨_, ?_, toNat_value_words h first size low⟩
  rw [bitsOf_eq]
  exact Nat.mod_lt _ (by omega)

theorem toNat_value_words_le (h : Bytes) (first size low : Nat) :
    ((words first size low).value h).toNat ≤ 60 := by
  obtain ⟨n, hn, hwords⟩ := toNat_value_words_shape h first size low
  omega

/-- A length that was written is rounded down to words. -/
theorem toNat_value_put_words (room : low + 4 ≤ 8 * size)
    (covers : (words first size low).stop ≤ h.length) (n : Nat) :
    ((words first size low).value ((words first size low).put (UInt8.ofNat n) h)).toNat
      = n % 256 / 4 % 16 * 4 := by
  have hvalue : (words first size low).value ((words first size low).put (UInt8.ofNat n) h)
      = UInt8.ofNat ((UInt8.ofNat n / 4).toNat % 2 ^ 4) * 4 :=
    congrArg (· * 4) (@value_put_bits UInt8 _ first size low 4 room h covers (UInt8.ofNat n / 4))
  rw [hvalue, UInt8.toNat_mul, Bytes.toNat_ofNat_byte, UInt8.toNat_div, Bytes.toNat_ofNat_byte]
  show n % 256 / 4 % 2 ^ 4 % 256 * 4 % 256 = _
  omega

/-- A length that is stated is held. -/
theorem holds_words (room : low + 4 ≤ 8 * size) (covers : (words first size low).stop ≤ h.length)
    {n : Nat} (states : ((words first size low).value h).toNat = n) :
    (words first size low).Holds (UInt8.ofNat n) h := by
  have hlength := length_window covers
  have hbytes := Bytes.ofNat_toNat ((words first size low).window h)
  rw [hlength] at hbytes
  rw [toNat_value_words] at states
  have hlt : bitsOf (Bytes.toNat ((words first size low).window h)) low 4 < 16 := by
    rw [bitsOf_eq]
    exact Nat.mod_lt _ (by omega)
  have hcount : (UInt8.ofNat n / 4).toNat
      = bitsOf (Bytes.toNat ((words first size low).window h)) low 4 := by
    rw [UInt8.toNat_div, Bytes.toNat_ofNat_byte]
    show n % 256 / 4 = _
    omega
  rw [holds_iff (lawful_words room) covers]
  show Bytes.ofNat size (putBits _ low 4 (UInt8.ofNat n / 4).toNat) = _
  rw [hcount, putBits_bitsOf]
  exact hbytes

/-! ## §10. Byte by byte. -/

/-- A byte that belongs to the window of the field. -/
def Covers (f : Field α) (i : Nat) : Prop := f.first ≤ i ∧ i < f.stop

instance (f : Field α) (i : Nat) : Decidable (f.Covers i) := inferInstanceAs (Decidable (_ ∧ _))

/-- Writing the field leaves all other bytes as they are. -/
theorem getElem?_put (law : f.Lawful) (covers : f.stop ≤ h.length) (v : α) {i : Nat}
    (outside : ¬ f.Covers i) : (f.put v h)[i]? = h[i]? := by
  -- the byte lies in front of the window or behind it
  by_cases front : i < f.first
  · have htake := take_put covers v (Nat.le_refl f.first)
    rw [← List.getElem?_take_of_lt front, htake, List.getElem?_take_of_lt front]
  · have back : f.stop ≤ i := Nat.le_of_not_lt fun hlt => outside ⟨Nat.le_of_not_lt front, hlt⟩
    have hdrop := congrArg (·[0]?) (drop_put law covers v back)
    simpa only [List.getElem?_drop, Nat.add_zero] using hdrop

theorem getElem?_refill (law : f.Lawful) (covers : f.stop ≤ h.length) {i : Nat}
    (outside : ¬ f.Covers i) : (f.refill blank compute? h)[i]? = h[i]? := by
  cases compute? with
  | some compute => exact getElem?_put law covers _ outside
  | none => rfl

end PacketLayers.Field
