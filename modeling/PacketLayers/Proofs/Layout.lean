/-
  PacketLayers.Proofs.Layout
  ────────────────────────────────
  **REGIONS LAID OUT OVER AN ARENA.**

  Regions are *laid out* over an arena if those that share it lie inside it,
  one behind the other.  The facts that everything about packets rests on:

    • `LaidOut.of_sublist` — an edit that only drops shared regions, or gives
      them buffers of their own, keeps regions laid out;
    • `LaidOut.contents_store` — a write into one region changes the bytes of
      that region and of no other;
    • `joined_eq_concat` — reading a run of the arena in one piece gives what
      looking up each region gives.
-/
import PacketLayers.Packet.Region

namespace PacketLayers

/-! ## §1. Spans of an arena that is written to. -/

namespace Span

theorem length_bytesOf {s : Span} {arena : Bytes} (inside : s.stop ≤ arena.length) :
    (s.bytesOf arena).length = s.length := by
  unfold stop at inside
  simp only [bytesOf, List.length_take, List.length_drop]
  omega

/-- A span reads what was just written to it. -/
theorem bytesOf_written {s : Span} {arena new : Bytes} (inside : s.stop ≤ arena.length)
    (fits : new.length = s.length) :
    s.bytesOf (arena.take s.offset ++ new ++ arena.drop (s.offset + new.length)) = new := by
  unfold stop at inside
  have hfront : (arena.take s.offset).length = s.offset := by
    rw [List.length_take]
    omega
  rw [bytesOf, List.append_assoc, List.drop_left' hfront, List.take_left' fits]

/-- A span in front of the bytes written reads what it read before. -/
theorem bytesOf_written_behind {s : Span} {arena new : Bytes} {first : Nat}
    (before : s.stop ≤ first) (inside : first + new.length ≤ arena.length) :
    s.bytesOf (arena.take first ++ new ++ arena.drop (first + new.length))
      = s.bytesOf arena := by
  unfold stop at before
  have hfront : (arena.take first).length = first := by
    rw [List.length_take]
    omega
  rw [bytesOf, List.append_assoc, List.drop_append_of_le_length (by omega),
    List.take_append_of_le_length (by rw [List.length_drop]; omega), List.drop_take,
    List.take_take, Nat.min_eq_left (by omega), bytesOf]

/-- A span behind the bytes written reads what it read before. -/
theorem bytesOf_written_before {s : Span} {arena new : Bytes} {first : Nat}
    (behind : first + new.length ≤ s.offset) (inside : first + new.length ≤ arena.length) :
    s.bytesOf (arena.take first ++ new ++ arena.drop (first + new.length))
      = s.bytesOf arena := by
  have hfront : (arena.take first ++ new).length = first + new.length := by
    rw [List.length_append, List.length_take]
    omega
  obtain ⟨k, hk⟩ := Nat.exists_eq_add_of_le behind
  rw [bytesOf, hk, ← List.drop_drop, List.drop_left' hfront, List.drop_drop, bytesOf, hk]

end Span

namespace Region

/-! ## §2. One region. -/

/-- The part of the arena that a region shares, if it does, is there. -/
def Inside (arena : Bytes) (r : Region) : Prop := ∀ s, r.span? = some s → s.stop ≤ arena.length

theorem bytes_shared {arena : Bytes} {s : Span} (inside : s.stop ≤ arena.length) :
    (shared s).bytes arena = s.bytesOf arena := if_pos inside

theorem length_bytes {arena : Bytes} {r : Region} (inside : r.Inside arena) :
    (r.bytes arena).length = r.length := by
  cases r with
  | owned b => rfl
  | shared s =>
    have hs : s.stop ≤ arena.length := inside s rfl
    rw [bytes_shared hs]
    exact Span.length_bytesOf hs

/-- Growing or shrinking a region is resizing its bytes. -/
theorem bytes_resize {arena : Bytes} {r : Region} (inside : r.Inside arena) (size : Nat) :
    (r.resize arena size).bytes arena = (r.bytes arena).resize size := by
  unfold resize
  split
  · next h =>
    subst h
    rw [← length_bytes inside, Bytes.resize, List.take_length, Nat.sub_self,
      List.replicate_zero, List.append_nil]
  · rfl

theorem length_resize (arena : Bytes) (r : Region) (size : Nat) :
    (r.resize arena size).length = size := by
  unfold resize
  split
  · next h => exact h.symm
  · exact Bytes.length_resize _ _

/-! ## §3. Consecutive regions. -/

/-- The parts of the arena that regions share, in the order of the regions. -/
def spans (rs : List Region) : List Span := rs.filterMap span?

/-- The bytes of each region. -/
def contents (arena : Bytes) (rs : List Region) : List Bytes := rs.map (·.bytes arena)

/-- Regions that share an arena lie inside it, in order and without overlap. -/
structure LaidOut (arena : Bytes) (rs : List Region) : Prop where
  /-- No shared part ends behind the arena. -/
  inside : ∀ s ∈ spans rs, s.stop ≤ arena.length
  /-- Each shared part ends before those of later regions begin. -/
  ordered : (spans rs).Pairwise fun a b => a.stop ≤ b.offset

/-- Every region that has bytes is owned, or the arena holds it. -/
def Held (arena : Bytes) (rs : List Region) : Prop :=
  ∀ r ∈ rs, r.isEmpty = false → r.Inside arena

@[simp] theorem spans_nil : spans [] = [] := rfl

@[simp] theorem spans_shared (s : Span) (rs : List Region) :
    spans (shared s :: rs) = s :: spans rs := rfl

@[simp] theorem spans_owned (b : Bytes) (rs : List Region) :
    spans (owned b :: rs) = spans rs := rfl

@[simp] theorem spans_append (as bs : List Region) : spans (as ++ bs) = spans as ++ spans bs := by
  simp [spans]

theorem spans_cons (r : Region) (rs : List Region) :
    spans (r :: rs) = r.span?.toList ++ spans rs := by
  cases r <;> rfl

@[simp] theorem contents_nil (arena : Bytes) : contents arena [] = [] := rfl

@[simp] theorem contents_cons (arena : Bytes) (r : Region) (rs : List Region) :
    contents arena (r :: rs) = r.bytes arena :: contents arena rs := rfl

@[simp] theorem contents_append (arena : Bytes) (as bs : List Region) :
    contents arena (as ++ bs) = contents arena as ++ contents arena bs := by
  simp [contents]

theorem concat_eq_flatten (arena : Bytes) (rs : List Region) :
    concat arena rs = (contents arena rs).flatten := by
  simp [concat, contents, List.flatMap]

theorem concat_cons (arena : Bytes) (r : Region) (rs : List Region) :
    concat arena (r :: rs) = r.bytes arena ++ concat arena rs := rfl

theorem concat_append (arena : Bytes) (as bs : List Region) :
    concat arena (as ++ bs) = concat arena as ++ concat arena bs := by
  simp [concat]

theorem length_concat {arena : Bytes} {rs : List Region} (inside : ∀ r ∈ rs, r.Inside arena) :
    (concat arena rs).length = totalLength rs := by
  induction rs with
  | nil => rfl
  | cons r rest ih =>
    have hr := length_bytes (inside r List.mem_cons_self)
    have hrest := ih fun t ht => inside t (List.mem_cons_of_mem r ht)
    rw [concat_cons, List.length_append, hrest, hr, totalLength]

namespace LaidOut

variable {arena : Bytes} {rs : List Region}

theorem inside_of_mem (h : LaidOut arena rs) {r : Region} (hr : r ∈ rs) : r.Inside arena := by
  intro s hs
  exact h.inside s (List.mem_filterMap.2 ⟨r, hr, hs⟩)

theorem held (h : LaidOut arena rs) : Held arena rs := fun _ hr _ => h.inside_of_mem hr

/-- **Regions stay laid out** if the arena does not shrink and they share no
more of it than before. -/
theorem of_sublist (h : LaidOut arena rs) {arena' : Bytes} {rs' : List Region}
    (room : arena.length ≤ arena'.length) (fewer : (spans rs').Sublist (spans rs)) :
    LaidOut arena' rs' where
  inside s hs := Nat.le_trans (h.inside s (fewer.mem hs)) room
  ordered := h.ordered.sublist fewer

theorem right (h : LaidOut arena rs) {front back : List Region} (split : rs = front ++ back) :
    LaidOut arena back := by
  apply h.of_sublist (Nat.le_refl _)
  rw [split, spans_append]
  exact List.sublist_append_right _ _

theorem left (h : LaidOut arena rs) {front back : List Region} (split : rs = front ++ back) :
    LaidOut arena front := by
  apply h.of_sublist (Nat.le_refl _)
  rw [split, spans_append]
  exact List.sublist_append_left _ _

end LaidOut

/-! ## §4. Writes. -/

/-- What a write into a region does to it and to the arena. -/
theorem store_eq_ok {arena : Bytes} {r : Region} {new : Bytes} {out : Bytes × Region}
    (inside : r.Inside arena) (ok : r.store arena new = .ok out) :
    new.length = r.length ∧
      ((∃ s, r = shared s
          ∧ out = (arena.take s.offset ++ new ++ arena.drop (s.offset + new.length), shared s))
        ∨ (∃ b, r = owned b ∧ out = (arena, owned new))) := by
  have hlength := length_bytes inside
  unfold store at ok
  -- first the length is compared, then the place decides what is written
  split at ok
  · cases ok
  · next hnew =>
    have hsize : new.length = r.length := by omega
    cases r with
    | owned b =>
      injection ok with ok
      exact ⟨hsize, .inr ⟨b, rfl, ok.symm⟩⟩
    | shared s =>
      simp only [if_pos (inside s rfl)] at ok
      injection ok with ok
      exact ⟨hsize, .inl ⟨s, rfl, ok.symm⟩⟩

/-- A write succeeds exactly with as many bytes as the region has. -/
theorem store_succeeds {arena : Bytes} {r : Region} {new : Bytes} (inside : r.Inside arena)
    (fits : new.length = (r.bytes arena).length) : ∃ out, r.store arena new = .ok out := by
  unfold store
  rw [if_neg (by omega)]
  cases r with
  | owned b => exact ⟨_, rfl⟩
  | shared s => exact ⟨_, if_pos (inside s rfl)⟩

/-- A write leaves a region where it is. -/
theorem span?_store {arena arena' : Bytes} {r r' : Region} {new : Bytes}
    (inside : r.Inside arena) (ok : r.store arena new = .ok (arena', r')) :
    r'.span? = r.span? := by
  obtain ⟨_, ⟨s, rfl, h⟩ | ⟨b, rfl, h⟩⟩ := store_eq_ok inside ok <;> cases h <;> rfl

/-- A write keeps the length of the arena. -/
theorem length_arena_store {arena arena' : Bytes} {r r' : Region} {new : Bytes}
    (inside : r.Inside arena) (ok : r.store arena new = .ok (arena', r')) :
    arena'.length = arena.length := by
  obtain ⟨hsize, ⟨s, rfl, h⟩ | ⟨b, rfl, h⟩⟩ := store_eq_ok inside ok <;> cases h
  · have hs : s.offset + s.length ≤ arena.length := inside s rfl
    have hn : new.length = s.length := hsize
    simp only [List.length_append, List.length_take, List.length_drop]
    omega
  · rfl

/-- The region written to holds what was written. -/
theorem bytes_store {arena arena' : Bytes} {r r' : Region} {new : Bytes}
    (inside : r.Inside arena) (ok : r.store arena new = .ok (arena', r')) :
    r'.bytes arena' = new := by
  have hroom := length_arena_store inside ok
  obtain ⟨hsize, ⟨s, rfl, h⟩ | ⟨b, rfl, h⟩⟩ := store_eq_ok inside ok <;> cases h
  · have hs : s.stop ≤ arena.length := inside s rfl
    rw [bytes, if_pos (by omega)]
    exact Span.bytesOf_written hs hsize
  · rfl

/-- A region that shares nothing with the one written to keeps its bytes. -/
theorem bytes_store_of_apart {arena arena' : Bytes} {r r' t : Region} {new : Bytes}
    (inside : r.Inside arena) (ok : r.store arena new = .ok (arena', r'))
    (apart : ∀ s u, r.span? = some s → t.span? = some u → s.stop ≤ u.offset ∨ u.stop ≤ s.offset) :
    t.bytes arena' = t.bytes arena := by
  have hroom := length_arena_store inside ok
  cases t with
  | owned b => rfl
  | shared u =>
    obtain ⟨hsize, ⟨s, rfl, h⟩ | ⟨b, rfl, h⟩⟩ := store_eq_ok inside ok <;> cases h
    · have hs : s.offset + s.length ≤ arena.length := inside s rfl
      have hn : new.length = s.length := hsize
      have hwritten : u.bytesOf
          (arena.take s.offset ++ new ++ arena.drop (s.offset + new.length))
            = u.bytesOf arena := by
        -- the part written to lies in front of the one read, or behind it
        rcases apart s u rfl rfl with hbehind | hbefore
        · exact Span.bytesOf_written_before (by unfold Span.stop at hbehind; omega) (by omega)
        · exact Span.bytesOf_written_behind hbefore (by omega)
      simp only [bytes, hroom, hwritten]
    · rfl

namespace LaidOut

variable {arena arena' : Bytes} {front back : List Region} {r r' : Region} {new : Bytes}

/-- Regions on both sides of one of them share nothing with it. -/
theorem apart (h : LaidOut arena (front ++ r :: back)) {t : Region}
    (ht : t ∈ front ∨ t ∈ back) {s u : Span} (hs : r.span? = some s) (hu : t.span? = some u) :
    s.stop ≤ u.offset ∨ u.stop ≤ s.offset := by
  have hord := h.ordered
  rw [spans_append, spans_cons, hs, List.pairwise_append] at hord
  obtain ⟨_, hback, hcross⟩ := hord
  rw [Option.toList_some, List.singleton_append, List.pairwise_cons] at hback
  have hmem : ∀ {rs : List Region}, t ∈ rs → u ∈ spans rs := fun hm =>
    List.mem_filterMap.2 ⟨t, hm, hu⟩
  -- order among the regions in front, or among those behind
  rcases ht with ht | ht
  · exact .inr (hcross u (hmem ht) s (List.mem_append_left _ (by simp)))
  · exact .inl (hback.1 u (hmem ht))

theorem inside_middle (h : LaidOut arena (front ++ r :: back)) : r.Inside arena :=
  h.inside_of_mem (List.mem_append_right _ List.mem_cons_self)

/-- A write keeps regions laid out. -/
theorem store (h : LaidOut arena (front ++ r :: back))
    (ok : r.store arena new = .ok (arena', r')) : LaidOut arena' (front ++ r' :: back) := by
  have hspans : spans (front ++ r' :: back) = spans (front ++ r :: back) := by
    rw [spans_append, spans_append, spans_cons, spans_cons, span?_store h.inside_middle ok]
  -- the same parts are shared, in an arena of the same length
  apply h.of_sublist (Nat.le_of_eq (length_arena_store h.inside_middle ok).symm)
  exact hspans ▸ List.Sublist.refl _

/-- The regions around the one written to keep their bytes. -/
theorem contents_store_around (h : LaidOut arena (front ++ r :: back))
    (ok : r.store arena new = .ok (arena', r')) :
    contents arena' front = contents arena front ∧ contents arena' back = contents arena back := by
  have key : ∀ t, t ∈ front ∨ t ∈ back → t.bytes arena' = t.bytes arena := fun t ht =>
    bytes_store_of_apart h.inside_middle ok fun _ _ hs hu => h.apart ht hs hu
  exact ⟨List.map_congr_left fun t ht => key t (.inl ht),
    List.map_congr_left fun t ht => key t (.inr ht)⟩

/-- **A write changes the region written to and no other.** -/
theorem contents_store (h : LaidOut arena (front ++ r :: back))
    (ok : r.store arena new = .ok (arena', r')) :
    contents arena' (front ++ r' :: back)
      = contents arena front ++ new :: contents arena back := by
  obtain ⟨hfront, hback⟩ := h.contents_store_around ok
  rw [contents_append, contents_cons, hfront, hback, bytes_store h.inside_middle ok]

/-- The same by position. -/
theorem contents_store_set (h : LaidOut arena (front ++ r :: back))
    (ok : r.store arena new = .ok (arena', r')) :
    contents arena' (front ++ r' :: back)
      = (contents arena (front ++ r :: back)).set front.length new := by
  have hindex : (contents arena front).length = front.length := List.length_map _
  rw [h.contents_store ok, contents_append, contents_cons, ← hindex,
    List.set_append_right _ _ (Nat.le_refl _), Nat.sub_self, List.set_cons_zero]

end LaidOut

/-! ## §5. Runs of the arena. -/

/-- Spans side by side read what each of them reads. -/
theorem bytesOf_adjacent (arena : Bytes) (s : Span) (size : Nat) :
    Span.bytesOf ⟨s.offset, s.length + size⟩ arena
      = s.bytesOf arena ++ Span.bytesOf ⟨s.stop, size⟩ arena := by
  simp only [Span.bytesOf, Span.stop]
  rw [List.take_add, List.drop_drop]

/-- Two spans side by side end where the second one does. -/
theorem stop_merge {s t : Span} (next : s.stop = t.offset) :
    Span.stop ⟨s.offset, s.length + t.length⟩ = t.stop := by
  unfold Span.stop at next ⊢
  simp only
  omega

/-- A region without bytes has none in any arena, be it inside or not. -/
theorem bytes_of_isEmpty {arena : Bytes} {r : Region} (none : r.isEmpty = true) :
    r.bytes arena = [] := by
  have hlength : r.length = 0 := by simpa [isEmpty] using none
  cases r with
  | owned b => exact List.length_eq_zero_iff.1 hlength
  | shared s =>
    have hs : s.length = 0 := hlength
    show (if s.stop ≤ arena.length then s.bytesOf arena else []) = []
    rw [Span.bytesOf, hs, List.take_zero, ite_self]

/-- The run found lies in the arena and reads as the regions do. -/
theorem contiguousFrom_eq_some {arena : Bytes} :
    ∀ {rs : List Region} {covered run : Span}, Held arena rs →
      covered.stop ≤ arena.length → contiguousFrom covered rs = some run →
      run.stop ≤ arena.length ∧ run.bytesOf arena = covered.bytesOf arena ++ concat arena rs := by
  -- the run covered so far is read, and every region goes on from its end
  intro rs
  induction rs with
  | nil =>
    intro covered run _ hcovered found
    injection found with found
    subst found
    exact ⟨hcovered, by simp [concat]⟩
  | cons r rest ih =>
    intro covered run held hcovered found
    have hrest : Held arena rest := fun t ht => held t (List.mem_cons_of_mem r ht)
    rw [contiguousFrom] at found
    split at found
    · next hempty =>
      -- an empty region lies anywhere
      rw [concat_cons, bytes_of_isEmpty hempty, List.nil_append]
      exact ih hrest hcovered found
    · next hsome =>
      split at found
      · cases found
      · next s hs =>
        split at found
        · next hnext =>
          have hstop : s.stop ≤ arena.length :=
            held r List.mem_cons_self (Bool.eq_false_iff.2 hsome) s hs
          have hjoin : s = ⟨covered.stop, s.length⟩ := by rw [hnext]
          -- the run that is one region longer ends where the region does
          obtain ⟨hrun, hbytes⟩ := ih hrest (by rw [stop_merge hnext]; exact hstop) found
          refine ⟨hrun, ?_⟩
          cases r with
          | owned b => cases hs
          | shared t =>
            injection hs with hs
            subst hs
            rw [hbytes, bytesOf_adjacent, ← hjoin, concat_cons, bytes_shared hstop,
              List.append_assoc]
        · cases found

theorem contiguous_eq_some {arena : Bytes} {rs : List Region} {run : Span}
    (held : Held arena rs) (found : contiguous rs = some run) :
    run.stop ≤ arena.length ∧ run.bytesOf arena = concat arena rs := by
  induction rs with
  | nil =>
    injection found with found
    subst found
    exact ⟨Nat.zero_le _, rfl⟩
  | cons r rest ih =>
    have hrest : Held arena rest := fun t ht => held t (List.mem_cons_of_mem r ht)
    rw [contiguous] at found
    split at found
    · next hempty =>
      -- empty regions in front do not fix where the run starts
      rw [concat_cons, bytes_of_isEmpty hempty, List.nil_append]
      exact ih hrest found
    · next hsome =>
      split at found
      · cases found
      · next s hs =>
        have hstop : s.stop ≤ arena.length :=
          held r List.mem_cons_self (Bool.eq_false_iff.2 hsome) s hs
        obtain ⟨hrun, hbytes⟩ := contiguousFrom_eq_some hrest hstop found
        refine ⟨hrun, ?_⟩
        cases r with
        | owned b => cases hs
        | shared t =>
          injection hs with hs
          subst hs
          rw [hbytes, concat_cons, bytes_shared hstop]

/-- **Reading a run in one piece** gives what looking up each region gives. -/
theorem joined_eq_concat {arena : Bytes} {rs : List Region} (held : Held arena rs) :
    joined arena rs = concat arena rs := by
  unfold joined
  split
  · next run found =>
    obtain ⟨hrun, hbytes⟩ := contiguous_eq_some held found
    rw [bytes, if_pos hrun, hbytes]
  · rfl

theorem LaidOut.joined_eq {arena : Bytes} {rs : List Region} (h : LaidOut arena rs) :
    joined arena rs = concat arena rs :=
  joined_eq_concat h.held

theorem LaidOut.length_concat {arena : Bytes} {rs : List Region} (h : LaidOut arena rs) :
    (concat arena rs).length = totalLength rs :=
  Region.length_concat fun _ hr => h.inside_of_mem hr

end Region

end PacketLayers
