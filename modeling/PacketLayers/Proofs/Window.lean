/-
  PacketLayers.Proofs.Window
  ────────────────────────────────
  **WINDOWS STAY INSIDE THEIR STORAGE, IN MACHINE WORDS TOO.**

  A `View` counts in numbers without a bound and carries the proof that its
  storage holds it.  A machine counts in words, and proves nothing: narrowing a
  window checks the end of the new window against the old one, with the one sum
  that may not fit checked for that; the place of the new window is a sum that
  nobody checks.  It fits all the same, because the storage does:

    • `Window.Shows` — a window in machine words, and the view that it shows;
      narrowing, reading and writing keep it;
    • `Window.Opened.shows` — all windows show views, by induction on the
      narrowings that led to them;
    • `Window.Opened.stays_inside` — what holds of views, for all windows.
-/
import PacketLayers.Proofs.View
import PacketLayers.Theory.Result

namespace PacketLayers

/-! ## §1. Windows in machine words. -/

/-- The sum of two words, if a word holds it. -/
def checkedSum (a b : USize) : Option USize :=
  if a.toNat + b.toNat < USize.size then some (a + b) else none

theorem toNat_sum {a b : USize} (fits : a.toNat + b.toNat < USize.size) :
    (a + b).toNat = a.toNat + b.toNat :=
  (USize.toNat_add a b).trans (Nat.mod_eq_of_lt fits)

/-- A position and a length as words; nothing ties them to a storage. -/
structure WordSpan where
  /-- The first byte. -/
  offset : USize
  /-- The number of bytes. -/
  length : USize
  deriving DecidableEq

namespace WordSpan

/-- The position after the last byte, as far as a word holds it. -/
def stop (s : WordSpan) : USize := s.offset + s.length

/-- The `length` bytes from `offset` on, relative to the start of the span. -/
def slice (s : WordSpan) (offset length : USize) : Except Error WordSpan :=
  match checkedSum offset length with
  | none => .error .outOfBounds
  | some stop =>
    if s.length < stop then .error .outOfBounds else .ok ⟨s.offset + offset, length⟩

/-- What remains of the span after its first `offset` bytes. -/
def tail (s : WordSpan) (offset : USize) : Except Error WordSpan :=
  if s.length < offset then .error .outOfBounds
  else .ok ⟨s.offset + offset, s.length - offset⟩

/-- The span in numbers without a bound. -/
def toSpan (s : WordSpan) : Span := ⟨s.offset.toNat, s.length.toNat⟩

end WordSpan

/-- A window as a machine has it. -/
structure Window where
  /-- The bytes looked into. -/
  storage : Bytes
  /-- The part of them that is visible, if it is there. -/
  span : WordSpan

namespace Window

/-- The whole storage. -/
def whole (storage : Bytes) : Window := ⟨storage, ⟨0, USize.ofNat storage.length⟩⟩

/-- The part of the storage that a span covers, if the storage holds it. -/
def ofSpan (storage : Bytes) (span : WordSpan) : Except Error Window :=
  match checkedSum span.offset span.length with
  | none => .error .outOfBounds
  | some stop =>
    if USize.ofNat storage.length < stop then .error .outOfBounds else .ok ⟨storage, span⟩

/-- The `length` bytes from `offset` on. -/
def slice (w : Window) (offset length : USize) : Except Error Window := do
  return ⟨w.storage, ← w.span.slice offset length⟩

/-- What remains after the first `offset` bytes. -/
def tail (w : Window) (offset : USize) : Except Error Window := do
  return ⟨w.storage, ← w.span.tail offset⟩

/-- The visible bytes, looked up from their first position to their last; a
window that the storage does not hold is the caller's fault. -/
def bytes (w : Window) : Access Bytes :=
  if w.span.stop < w.span.offset then .error .outOfRange
  else w.storage.slice w.span.offset.toNat (w.span.stop.toNat - w.span.offset.toNat)

/-- The number in the `size` bytes at a position. -/
def read (order : ByteOrder) (w : Window) (size position : USize) :
    Access (Except Error Nat) :=
  match w.slice position size with
  | .error e => .ok (.error e)
  | .ok field => do return .ok (order.number (← field.bytes))

/-- Write a number of `size` bytes at a position, and what the window is then. -/
def write (order : ByteOrder) (w : Window) (size position : USize) (value : Nat) :
    Access (Except Error Unit × Window) :=
  match w.span.slice position size with
  | .error e => .ok (.error e, w)
  | .ok field =>
    if field.stop < field.offset then .error .outOfRange
    else do
      let storage ← w.storage.replace field.offset.toNat (field.stop.toNat - field.offset.toNat)
        (order.bytes size.toNat value)
      return (.ok (), ⟨storage, w.span⟩)

/-! ## §2. What a window shows. -/

/-- A window in machine words shows what a view does: the same bytes of the same
storage, at positions that are the same numbers. -/
structure Shows (w : Window) (v : View) : Prop where
  storage : w.storage = v.storage
  span : w.span.toSpan = v.span

variable {w : Window} {v : View}

namespace Shows

theorem offset (h : w.Shows v) : w.span.offset.toNat = v.span.offset :=
  congrArg Span.offset h.span

theorem length (h : w.Shows v) : w.span.length.toNat = v.span.length :=
  congrArg Span.length h.span

/-- No position of a window reaches the bound of a word. -/
theorem room (h : w.Shows v) (held : w.storage.length < USize.size) :
    w.span.offset.toNat + w.span.length.toNat < USize.size := by
  have hv : v.span.offset + v.span.length ≤ v.storage.length := v.inside
  rw [h.offset, h.length]
  rw [h.storage] at held
  omega

theorem stop (h : w.Shows v) (held : w.storage.length < USize.size) :
    w.span.stop.toNat = v.span.stop := by
  show (w.span.offset + w.span.length).toNat = v.span.offset + v.span.length
  rw [toNat_sum (h.room held), h.offset, h.length]

/-- **The place of a part** is a sum that nobody checks, and that fits. -/
theorem part (h : w.Shows v) (held : w.storage.length < USize.size) {offset length : USize}
    (fits : offset.toNat + length.toNat ≤ v.span.length) :
    Shows ⟨w.storage, ⟨w.span.offset + offset, length⟩⟩
      (v.part offset.toNat length.toNat fits) := by
  have hroom := h.room held
  have hlength := h.length
  have hsum : (w.span.offset + offset).toNat = v.span.offset + offset.toNat := by
    rw [toNat_sum (by omega), h.offset]
  refine ⟨h.storage, ?_⟩
  unfold WordSpan.toSpan
  rw [hsum]
  rfl

/-- **Narrowing in words** is narrowing: the same parts are there. -/
theorem slice (h : w.Shows v) (held : w.storage.length < USize.size) (offset length : USize) :
    Agrees Shows (w.slice offset length) (v.slice offset.toNat length.toNat) := by
  have hlength := h.length
  have hroom := h.room held
  rw [View.slice_eq]
  unfold Window.slice WordSpan.slice checkedSum
  by_cases sum : offset.toNat + length.toNat < USize.size
  · rw [if_pos sum]
    have hstop := toNat_sum sum
    by_cases fits : offset.toNat + length.toNat ≤ v.span.length
    · have hinside : ¬ w.span.length < offset + length := by
        rw [USize.lt_iff_toNat_lt, hstop]
        omega
      simp only [if_neg hinside, dif_pos fits]
      exact .ok (h.part held fits)
    · have houtside : w.span.length < offset + length := by
        rw [USize.lt_iff_toNat_lt, hstop]
        omega
      simp only [if_pos houtside, dif_neg fits]
      exact .error Error.outOfBounds
  · -- a sum that no word holds is larger than any length
    have fits : ¬ offset.toNat + length.toNat ≤ v.span.length := by omega
    simp only [if_neg sum, dif_neg fits]
    exact .error Error.outOfBounds

theorem tail (h : w.Shows v) (held : w.storage.length < USize.size) (offset : USize) :
    Agrees Shows (w.tail offset) (v.tail offset.toNat) := by
  have hlength := h.length
  rw [View.tail_eq]
  unfold Window.tail WordSpan.tail
  by_cases fits : offset.toNat ≤ v.span.length
  · have hinside : ¬ w.span.length < offset := by
      rw [USize.lt_iff_toNat_lt]
      omega
    have hrest : (w.span.length - offset).toNat = v.span.length - offset.toNat := by
      rw [USize.toNat_sub_of_le _ _ (USize.le_iff_toNat_le.2 (by omega)), hlength]
    have hroom : offset.toNat + (w.span.length - offset).toNat ≤ v.span.length := by omega
    have hpart := h.part held hroom
    simp only [hrest] at hpart
    simp only [if_neg hinside, dif_pos fits]
    exact .ok hpart
  · have houtside : w.span.length < offset := by
      rw [USize.lt_iff_toNat_lt]
      omega
    simp only [if_pos houtside, dif_neg fits]
    exact .error Error.outOfBounds

/-- **The bytes of a window** are there to be looked up. -/
theorem bytes (h : w.Shows v) (held : w.storage.length < USize.size) : w.bytes = .ok v.bytes := by
  have hstop : w.span.stop.toNat = v.span.offset + v.span.length := h.stop held
  have hforward : ¬ w.span.stop < w.span.offset := by
    rw [USize.lt_iff_toNat_lt, hstop, h.offset]
    omega
  have hinside : v.span.offset + v.span.length ≤ v.storage.length := v.inside
  unfold Window.bytes
  rw [if_neg hforward, hstop, h.storage, h.offset, Nat.add_sub_cancel_left]
  exact if_pos hinside

theorem read (h : w.Shows v) (held : w.storage.length < USize.size) (order : ByteOrder)
    (size position : USize) :
    w.read order size position = .ok (v.read order size.toNat position.toNat) := by
  have hslice := h.slice held position size
  rw [View.slice_eq] at hslice
  rw [View.read_eq]
  unfold Window.read
  by_cases fits : position.toNat + size.toNat ≤ v.span.length
  · rw [dif_pos fits] at hslice ⊢
    obtain ⟨field, hfield, shows⟩ := hslice.of_ok_right
    have heldField : field.storage.length < USize.size := by
      rw [shows.storage]
      exact h.storage ▸ held
    simp only [hfield, shows.bytes heldField]
    rfl
  · rw [dif_neg fits] at hslice ⊢
    simp only [hslice.of_error_right]

/-- **A write in words** replaces the bytes that it addresses. -/
theorem write (h : w.Shows v) (held : w.storage.length < USize.size) (order : ByteOrder)
    {size position : USize} (value : Nat) (fits : position.toNat + size.toNat ≤ v.span.length) :
    ∃ w' v', w.write order size position value = .ok (.ok (), w')
      ∧ v.writeNumber order size.toNat position.toNat value = .ok v' ∧ w'.Shows v' := by
  have hslice := h.slice held position size
  rw [View.slice_eq, dif_pos fits] at hslice
  obtain ⟨field, hfield, shows⟩ := hslice.of_ok_right
  obtain ⟨span, hspan, hpair⟩ := bind_eq_ok.1 hfield
  injection hpair with hpair
  subst hpair
  have hoffset : span.offset.toNat = v.span.offset + position.toNat := shows.offset
  have hstop : span.stop.toNat = v.span.offset + position.toNat + size.toNat := shows.stop held
  -- the bounds of the field are in order, as its length has not wrapped
  have hforward : ¬ span.stop < span.offset := by
    rw [USize.lt_iff_toNat_lt]
    omega
  have hnew := order.length_bytes size.toNat value
  have hinside : v.span.offset + v.span.length ≤ v.storage.length := v.inside
  have hfits : position.toNat + (order.bytes size.toNat value).length ≤ v.span.length := by
    rw [hnew]
    exact fits
  refine ⟨⟨(v.written position.toNat (order.bytes size.toNat value) hfits).storage, w.span⟩,
    v.written position.toNat (order.bytes size.toNat value) hfits, ?_, ?_, ⟨rfl, h.span⟩⟩
  · unfold Window.write
    simp only [hspan, if_neg hforward, hstop, hoffset, Nat.add_sub_cancel_left, h.storage]
    rw [Bytes.replace_eq (by omega) hnew]
    simp only [ok_bind, pure_eq_ok, View.written, hnew]
  · rw [View.writeNumber_eq, View.write_eq, dif_pos hfits]

/-- A write outside the window leaves everything as it was. -/
theorem write_refused (h : w.Shows v) (held : w.storage.length < USize.size) (order : ByteOrder)
    {size position : USize} (value : Nat)
    (outside : ¬ position.toNat + size.toNat ≤ v.span.length) :
    w.write order size position value = .ok (.error .outOfBounds, w) := by
  have hslice := h.slice held position size
  rw [View.slice_eq, dif_neg outside] at hslice
  have hrefused : w.span.slice position size = .error .outOfBounds := by
    have hwindow := hslice.of_error_right
    unfold Window.slice at hwindow
    cases hspan : w.span.slice position size with
    | ok span => simp [hspan] at hwindow
    | error e =>
      rw [hspan] at hwindow
      injection hwindow with same
      rw [same]
  unfold Window.write
  simp only [hrefused]

end Shows

theorem shows_whole {storage : Bytes} (held : storage.length < USize.size) :
    (whole storage).Shows (View.whole storage) := by
  refine ⟨rfl, ?_⟩
  show Span.mk (USize.toNat 0) (USize.ofNat storage.length).toNat = ⟨0, storage.length⟩
  rw [USize.toNat_ofNat_of_lt' held, USize.toNat_zero]

/-- The parts of a storage that a machine grants are those that there are. -/
theorem shows_ofSpan {storage : Bytes} (held : storage.length < USize.size) (span : WordSpan) :
    Agrees Shows (ofSpan storage span) (View.ofSpan storage span.toSpan) := by
  unfold ofSpan checkedSum View.ofSpan
  by_cases sum : span.offset.toNat + span.length.toNat < USize.size
  · have hstop := toNat_sum sum
    by_cases fits : span.toSpan.stop ≤ storage.length
    · have hinside : ¬ USize.ofNat storage.length < span.offset + span.length := by
        rw [USize.lt_iff_toNat_lt, hstop, USize.toNat_ofNat_of_lt' held]
        exact Nat.not_lt.2 fits
      simp only [if_pos sum, if_neg hinside, dif_pos fits]
      exact .ok ⟨rfl, rfl⟩
    · have houtside : USize.ofNat storage.length < span.offset + span.length := by
        rw [USize.lt_iff_toNat_lt, hstop, USize.toNat_ofNat_of_lt' held]
        exact Nat.not_le.1 fits
      simp only [if_pos sum, if_pos houtside, dif_neg fits]
      exact .error Error.outOfBounds
  · have fits : ¬ span.toSpan.stop ≤ storage.length := by
      show ¬ span.offset.toNat + span.length.toNat ≤ storage.length
      omega
    simp only [if_neg sum, dif_neg fits]
    exact .error Error.outOfBounds

/-! ## §3. Windows that can come about. -/

/-- The windows that chains of narrowings lead to, from a storage or from any
part of it that is granted. -/
inductive Opened (storage : Bytes) : Window → Prop where
  | whole : Opened storage (.whole storage)
  | ofSpan {span : WordSpan} {w : Window} (granted : ofSpan storage span = .ok w) :
    Opened storage w
  | slice {offset length : USize} {w part : Window} (opened : Opened storage w)
    (narrowed : w.slice offset length = .ok part) : Opened storage part
  | tail {offset : USize} {w part : Window} (opened : Opened storage w)
    (narrowed : w.tail offset = .ok part) : Opened storage part

/-- **Every window shows a view** of the storage that it was opened on. -/
theorem Opened.shows {storage : Bytes} (held : storage.length < USize.size)
    (opened : Opened storage w) : ∃ v : View, v.storage = storage ∧ w.Shows v := by
  induction opened with
  | whole => exact ⟨_, rfl, shows_whole held⟩
  | @ofSpan span w granted =>
    obtain ⟨v, hv, shows⟩ := (granted ▸ shows_ofSpan held span).of_ok_left
    exact ⟨v, View.storage_of_ofSpan hv, shows⟩
  | @slice offset length w part _ narrowed ih =>
    obtain ⟨v, rfl, shows⟩ := ih
    obtain ⟨p, hp, hshows⟩ :=
      (narrowed ▸ shows.slice (shows.storage ▸ held) offset length).of_ok_left
    obtain ⟨_, _, granted⟩ := bind_eq_ok.1 hp
    exact ⟨p, View.storage_of_ofSpan granted, hshows⟩
  | @tail offset w part _ narrowed ih =>
    obtain ⟨v, rfl, shows⟩ := ih
    obtain ⟨p, hp, hshows⟩ := (narrowed ▸ shows.tail (shows.storage ▸ held) offset).of_ok_left
    obtain ⟨_, _, granted⟩ := bind_eq_ok.1 hp
    exact ⟨p, View.storage_of_ofSpan granted, hshows⟩

/-- A window works as a view does: whatever is asked of it in words, the answer
is that of the view, nothing faults, and what a refused write leaves is the
window as it was. -/
structure Works (w : Window) (v : View) : Prop where
  shows : w.Shows v
  /-- The position after the last byte is the number that it should be. -/
  stop : w.span.stop.toNat = v.span.stop
  bytes : w.bytes = .ok v.bytes
  slice : ∀ offset length : USize,
    Agrees Shows (w.slice offset length) (v.slice offset.toNat length.toNat)
  tail : ∀ offset : USize, Agrees Shows (w.tail offset) (v.tail offset.toNat)
  read : ∀ (order : ByteOrder) (size position : USize),
    w.read order size position = .ok (v.read order size.toNat position.toNat)
  write : ∀ (order : ByteOrder) (size position : USize) (value : Nat),
    (∃ w' v', w.write order size position value = .ok (.ok (), w')
        ∧ v.writeNumber order size.toNat position.toNat value = .ok v' ∧ w'.Shows v')
      ∨ (w.write order size position value = .ok (.error .outOfBounds, w)
        ∧ v.writeNumber order size.toNat position.toNat value = .error .outOfBounds)

theorem Shows.works (h : w.Shows v) (held : w.storage.length < USize.size) : w.Works v where
  shows := h
  stop := h.stop held
  bytes := h.bytes held
  slice := h.slice held
  tail := h.tail held
  read := h.read held
  write order size position value := by
    by_cases fits : position.toNat + size.toNat ≤ v.span.length
    · exact .inl (h.write held order value fits)
    · exact .inr ⟨h.write_refused held order value fits, View.writeNumber_refused order value fits⟩

end Window

/-! ## §4. Windows stay inside. -/

/-- **Windows never leave their storage.**  Every window that a chain of
narrowings leads to, with any words for positions and lengths, shows a view of
the storage that ends inside it, and works as the view does: no sum of words
that is not checked wraps, and no look-up faults.  What there is of a view is
what it promises. -/
theorem Window.Opened.stays_inside {storage : Bytes} (held : storage.length < USize.size)
    {w : Window} (opened : Opened storage w) :
    ∃ v : View, v.storage = storage ∧ v.span.stop ≤ storage.length ∧ w.Works v ∧ v.Promises := by
  obtain ⟨v, hv, shows⟩ := opened.shows held
  have heldWindow : w.storage.length < USize.size := by
    rw [shows.storage, hv]
    exact held
  exact ⟨v, hv, hv ▸ v.inside, shows.works heldWindow, v.promises⟩

/-- A window into the middle of a storage: a position near the largest word is
refused, although the sum of it and the length is small when it wraps; and a
number is written to it with its least significant byte first. -/
theorem Window.Opened.stays_inside_wrapping :
    ∃ w after : Window, Opened [0, 1, 2, 3, 4, 5, 6, 7] w ∧ w.bytes = .ok [2, 3, 4, 5]
      ∧ w.slice (USize.ofNat (USize.size - 1)) 2 = .error .outOfBounds
      ∧ w.write .little 2 1 0xbeef = .ok (.ok (), after)
      ∧ after.read .little 2 1 = .ok (.ok 0xbeef)
      ∧ after.storage[2]? = some 2 ∧ after.storage[5]? = some 5 := by
  have hsize := USize.le_size
  have held : [0, 1, 2, 3, 4, 5, 6, 7].length < USize.size := by
    show 8 < USize.size
    omega
  have one : (1 : USize).toNat = 1 := by simp
  have two : (2 : USize).toNat = 2 := by simp
  have four : (4 : USize).toNat = 4 := by simp
  have last : (USize.ofNat (USize.size - 1)).toNat = USize.size - 1 :=
    USize.toNat_ofNat_of_lt' (by omega)
  -- the view of the whole storage, and its part
  have opened : Opened [0, 1, 2, 3, 4, 5, 6, 7] (Window.whole [0, 1, 2, 3, 4, 5, 6, 7]) := .whole
  obtain ⟨v, hv, _, works, promises⟩ := opened.stays_inside held
  have hspan : v.span = ⟨0, 8⟩ := works.shows.span.symm.trans (shows_whole held).span
  obtain ⟨p, hp, hpart⟩ := promises.part 2 4 (by rw [hspan]; decide)
  have hslice := works.slice 2 4
  rw [two, four, hp] at hslice
  obtain ⟨w, hw, shows⟩ := hslice.of_ok_right
  -- the view that the window shows is that part
  obtain ⟨v', hv', _, works', promises'⟩ := (opened.slice hw).stays_inside held
  have hspan' : v'.span = ⟨2, 4⟩ := by
    rw [← works'.shows.span, shows.span, hpart.span, hspan]
  have hbytes : v'.bytes = [2, 3, 4, 5] := by
    rw [View.bytes, hv', hspan']
    rfl
  have hrefused := works'.slice (USize.ofNat (USize.size - 1)) 2
  rw [last, two, promises'.part_refused _ _ (by rw [hspan']; show 4 < _; omega)] at hrefused
  obtain ⟨after, hafter, written, hread⟩ :=
    promises'.written .little 2 1 0xbeef (by decide) (by rw [hspan']; decide)
  rcases works'.write .little 2 1 0xbeef with ⟨w', u, hwrite, hu, shows'⟩ | ⟨_, hnone⟩
  · rw [two, one, hafter] at hu
    injection hu with hu
    subst hu
    have held' : w'.storage.length < USize.size := by
      rw [shows'.storage, written.length, hv']
      exact held
    have hread' := shows'.read held' .little 2 1
    rw [two, one, hread] at hread'
    refine ⟨w, w', opened.slice hw, by rw [works'.bytes, hbytes], hrefused.of_error_right, hwrite,
      hread', ?_, ?_⟩
    · rw [shows'.storage, written.outside 2 (by rw [hspan']; decide), hv']
      rfl
    · rw [shows'.storage, written.outside 5 (by rw [hspan']; decide), hv']
      rfl
  · rw [two, one, hafter] at hnone
    cases hnone

end PacketLayers
