/-
  PacketLayers.Proofs.Contiguity
  ────────────────────────────────
  **ONE RUN OF THE ARENA, OR A COPY OF ITS PARTS.**

  Regions that share one unbroken run of the arena are read in one piece, all
  others are copied one behind the other.  Empty regions have no say in that,
  wherever they claim to lie.  The bytes are the same either way:

    • `contiguous_eq_some_iff` — which regions share a run, and which run;
    • `Packet.isFlush_iff` — the arena is handed out exactly if the run of all
      regions covers it;
    • `readings_agree` — put together, for lists of regions and for packets.
-/
import Mathlib.Data.List.Chain
import PacketLayers.Network.Gre
import PacketLayers.Packet.Inspect
import PacketLayers.Packet.Serialize
import PacketLayers.Proofs.Plain

namespace PacketLayers

namespace Region

/-! ## §1. Regions that are not empty. -/

/-- The regions that have bytes. -/
def solid (rs : List Region) : List Region := rs.filter (!·.isEmpty)

theorem solid_cons_of_isEmpty {r : Region} {rs : List Region} (none : r.isEmpty = true) :
    solid (r :: rs) = solid rs := by
  simp [solid, none]

theorem solid_cons {r : Region} {rs : List Region} (some : r.isEmpty = false) :
    solid (r :: rs) = r :: solid rs := by
  simp [solid, some]

theorem mem_solid {r : Region} {rs : List Region} :
    r ∈ solid rs ↔ r ∈ rs ∧ r.isEmpty = false := by
  simp [solid]

theorem length_pos_of_mem_spans {rs : List Region} {s : Span} (hs : s ∈ spans (solid rs)) :
    0 < s.length := by
  obtain ⟨r, hr, hspan⟩ := List.mem_filterMap.1 hs
  have hsome := (mem_solid.1 hr).2
  cases r with
  | owned b => cases hspan
  | shared t =>
    injection hspan with hspan
    subst hspan
    simpa [isEmpty, length, Nat.pos_iff_ne_zero] using hsome

/-! ## §2. Runs of spans. -/

/-- The number of bytes of spans. -/
def spansLength : List Span → Nat
  | [] => 0
  | s :: rest => s.length + spansLength rest

/-- What adjacent spans cover, from the start of the first one on; none cover
nothing. -/
def run : List Span → Span
  | [] => ⟨0, 0⟩
  | s :: rest => ⟨s.offset, s.length + spansLength rest⟩

/-- Each span begins where the one before ends. -/
def Adjacent (ss : List Span) : Prop := ss.IsChain fun s t => s.stop = t.offset

@[simp] theorem adjacent_nil : Adjacent [] := List.isChain_nil

@[simp] theorem adjacent_singleton (s : Span) : Adjacent [s] := List.isChain_singleton s

@[simp] theorem adjacent_cons_cons {s t : Span} {rest : List Span} :
    Adjacent (s :: t :: rest) ↔ s.stop = t.offset ∧ Adjacent (t :: rest) :=
  List.isChain_cons_cons

/-- What may follow a span depends on where it ends. -/
theorem adjacent_cons_congr {s t : Span} {rest : List Span} (same : s.stop = t.stop) :
    Adjacent (s :: rest) ↔ Adjacent (t :: rest) := by
  cases rest with
  | nil => simp
  | cons u rest => rw [adjacent_cons_cons, adjacent_cons_cons, same]

/-- A span and the one behind it, taken as one, begin the same run. -/
theorem run_merge (s t : Span) (rest : List Span) :
    run (⟨s.offset, s.length + t.length⟩ :: rest) = run (s :: t :: rest) := by
  simp [run, spansLength, Nat.add_assoc]

/-- A run ends where it does without its first span, if there are others. -/
theorem stop_run_cons {s t : Span} {rest : List Span} (next : s.stop = t.offset) :
    (run (s :: t :: rest)).stop = (run (t :: rest)).stop := by
  unfold Span.stop at next ⊢
  simp only [run, spansLength]
  omega

/-- Adjacent spans cover the positions of their run and no others. -/
theorem covered_iff {s : Span} {rest : List Span} (adjacent : Adjacent (s :: rest)) (i : Nat) :
    (∃ t ∈ s :: rest, t.offset ≤ i ∧ i < t.stop)
      ↔ (run (s :: rest)).offset ≤ i ∧ i < (run (s :: rest)).stop := by
  induction rest generalizing s with
  | nil => simp [run, spansLength]
  | cons u rest ih =>
    obtain ⟨next, adjacent⟩ := adjacent_cons_cons.1 adjacent
    have hfirst : (run (s :: u :: rest)).offset = s.offset := rfl
    have hbehind : (run (u :: rest)).offset = u.offset := rfl
    -- what the others cover begins where the first span ends
    have hgrows : u.offset ≤ (run (u :: rest)).stop := Nat.le_add_right _ _
    have hs : s.offset ≤ s.stop := Nat.le_add_right _ _
    rw [List.exists_mem_cons_iff, ih adjacent, stop_run_cons next, hfirst, hbehind]
    omega

/-- The run of spans that are not empty is all of a storage exactly if each
position of the storage is in one of them. -/
theorem run_eq_whole_iff {ss : List Span} {size : Nat} (adjacent : Adjacent ss)
    (some : ∀ s ∈ ss, 0 < s.length) (fits : (run ss).stop ≤ size) :
    run ss = ⟨0, size⟩ ↔ ∀ i < size, ∃ s ∈ ss, s.offset ≤ i ∧ i < s.stop := by
  cases ss with
  | nil =>
    show (⟨0, 0⟩ : Span) = ⟨0, size⟩ ↔ _
    cases size with
    | zero => simp
    | succ size =>
      refine iff_of_false (by simp) fun covered => ?_
      obtain ⟨s, hs, -⟩ := covered 0 size.succ_pos
      cases hs
  | cons s rest =>
    have hs : 0 < s.length := some s List.mem_cons_self
    have hoffset : (run (s :: rest)).offset = s.offset := rfl
    have hstop : (run (s :: rest)).stop = s.offset + (s.length + spansLength rest) := rfl
    constructor
    · intro whole i hi
      rw [covered_iff adjacent, whole]
      show 0 ≤ i ∧ i < 0 + size
      omega
    · intro covered
      -- the first position says where the run starts, the last one where it ends
      have hfirst := (covered_iff adjacent 0).1 (covered 0 (by omega))
      have hlast := (covered_iff adjacent (size - 1)).1 (covered (size - 1) (by omega))
      rw [hoffset] at hfirst
      show (⟨s.offset, s.length + spansLength rest⟩ : Span) = ⟨0, size⟩
      rw [Span.mk.injEq]
      omega

/-! ## §3. When regions share a run. -/

/-- All regions with bytes are shared, each beginning where the one before
ends. -/
@[mk_iff]
structure SharesRun (rs : List Region) : Prop where
  /-- None of them has a buffer of its own. -/
  shares : ∀ r ∈ rs, r.isEmpty = false → ∃ s, r = shared s
  /-- There is no gap and no overlap. -/
  adjacent : Adjacent (spans (solid rs))

/-- What is covered already goes on through the regions. -/
theorem contiguousFrom_eq_some_iff {rs : List Region} {covered found : Span} :
    contiguousFrom covered rs = some found ↔
      (∀ r ∈ rs, r.isEmpty = false → ∃ s, r = shared s)
        ∧ Adjacent (covered :: spans (solid rs))
        ∧ run (covered :: spans (solid rs)) = found := by
  -- each region that has bytes makes what is covered longer by its span
  induction rs generalizing covered with
  | nil => simp [contiguousFrom, solid, run, spansLength]
  | cons r rest ih =>
    rw [contiguousFrom, List.forall_mem_cons]
    cases hr : r.isEmpty with
    | true =>
      rw [if_pos rfl, solid_cons_of_isEmpty hr, ih]
      simp
    | false =>
      rw [if_neg Bool.false_ne_true, solid_cons hr]
      cases r with
      | owned b => simp [span?]
      | shared s =>
        show (if covered.stop = s.offset then
            contiguousFrom ⟨covered.offset, covered.length + s.length⟩ rest else none)
          = some found ↔ _
        by_cases next : covered.stop = s.offset
        · rw [if_pos next, ih, adjacent_cons_congr (stop_merge next), run_merge]
          simp [next]
        · rw [if_neg next]
          simp [next]

/-- **Regions share a run** exactly if those with bytes are shared and
adjacent.  What is found is the run of their spans. -/
theorem contiguous_eq_some_iff {rs : List Region} {found : Span} :
    contiguous rs = some found ↔ SharesRun rs ∧ run (spans (solid rs)) = found := by
  rw [sharesRun_iff, and_assoc]
  -- the first region that has bytes says where the run starts
  induction rs with
  | nil => simp [contiguous, solid, run]
  | cons r rest ih =>
    rw [contiguous, List.forall_mem_cons]
    cases hr : r.isEmpty with
    | true =>
      rw [if_pos rfl, solid_cons_of_isEmpty hr, ih]
      simp
    | false =>
      rw [if_neg Bool.false_ne_true, solid_cons hr]
      cases r with
      | owned b => simp [span?]
      | shared s =>
        show contiguousFrom s rest = some found ↔ _
        rw [contiguousFrom_eq_some_iff]
        simp

theorem isSome_contiguous_iff {rs : List Region} :
    (contiguous rs).isSome = true ↔ SharesRun rs := by
  simp [Option.isSome_iff_exists, contiguous_eq_some_iff]

theorem SharesRun.of_solid_eq_nil {rs : List Region} (none : solid rs = []) : SharesRun rs where
  shares r hr some := by
    have hsolid := mem_solid.2 ⟨hr, some⟩
    rw [none] at hsolid
    cases hsolid
  adjacent := by
    rw [none]
    exact adjacent_nil

end Region

/-! ## §4. Packets. -/

namespace Packet

open Region

variable {p : Packet}

theorem isFlush_eq_true_iff :
    p.isFlush = true ↔
      SharesRun p.allRegions ∧ run (spans (solid p.allRegions)) = ⟨0, p.arena.length⟩ := by
  rw [← contiguous_eq_some_iff]
  unfold isFlush
  cases contiguous p.allRegions with
  | none => simp
  | some s => cases s; simp

/-- **The arena is handed out as it is** exactly if the regions share a run
that covers it. -/
theorem isFlush_iff (held : Held p.arena p.allRegions) :
    p.isFlush = true ↔
      SharesRun p.allRegions ∧
        ∀ i < p.arena.length, ∃ s ∈ spans (solid p.allRegions), s.offset ≤ i ∧ i < s.stop := by
  rw [isFlush_eq_true_iff]
  refine and_congr_right fun shares => ?_
  have hrun := (contiguous_eq_some held (contiguous_eq_some_iff.2 ⟨shares, rfl⟩)).1
  exact run_eq_whole_iff shares.adjacent (fun _ => length_pos_of_mem_spans) hrun

/-- Regions without bytes make up an arena without bytes, and no other. -/
theorem isFlush_iff_of_solid_eq_nil (none : solid p.allRegions = []) :
    p.isFlush = true ↔ p.arena = [] := by
  rw [isFlush_eq_true_iff, and_iff_right (SharesRun.of_solid_eq_nil none), none]
  show (⟨0, 0⟩ : Span) = ⟨0, p.arena.length⟩ ↔ p.arena = []
  rw [Span.mk.injEq, eq_self, true_and, eq_comm, List.length_eq_zero_iff]

theorem held_wireRegions (held : Held p.arena p.allRegions) : Held p.arena p.wireRegions :=
  fun r hr => held r (List.mem_append_left _ hr)

/-- What is inside some of the layers is held, if all is. -/
theorem held_within (held : Held p.arena p.allRegions) (depth : Nat) :
    Held p.arena (Layer.wireRegions (p.layers.drop depth) p.body) := by
  intro r hr
  apply held_wireRegions held
  rw [wireRegions, ← List.take_append_drop depth p.layers, Layer.wireRegions_append]
  exact List.mem_append_left _ (List.mem_append_right _ hr)

end Packet

open Region

/-- **Borrowing agrees with copying.**  Whatever empty regions lie between,
reading gives the bytes of the regions one after the other.  A run is found
exactly if they share one, and reads as they do.  The arena itself is handed out
exactly if such a run covers it.  So payloads and frames are the same whether
they are borrowed or copied. -/
theorem readings_agree :
    (∀ (arena : Bytes) (rs : List Region), Held arena rs →
      joined arena rs = concat arena rs
        ∧ ((contiguous rs).isSome = true ↔ SharesRun rs)
        ∧ ∀ found, contiguous rs = some found →
            found = run (spans (solid rs)) ∧ found.stop ≤ arena.length
              ∧ found.bytesOf arena = concat arena rs)
      ∧ ∀ p : Packet, Held p.arena p.allRegions →
        (p.isFlush = true ↔
            SharesRun p.allRegions
              ∧ ∀ i < p.arena.length,
                  ∃ s ∈ spans (solid p.allRegions), s.offset ≤ i ∧ i < s.stop)
          ∧ (solid p.allRegions = [] → (p.isFlush = true ↔ p.arena = []))
          ∧ p.frameBytes = concat p.arena p.wireRegions
          ∧ ∀ depth, p.payloadBytes depth
              = concat p.arena (Layer.wireRegions (p.layers.drop (depth + 1)) p.body) := by
  constructor
  · intro arena rs held
    refine ⟨joined_eq_concat held, isSome_contiguous_iff, fun found hfound => ⟨?_, ?_⟩⟩
    · exact (contiguous_eq_some_iff.1 hfound).2.symm
    · exact contiguous_eq_some held hfound
  · intro p held
    refine ⟨Packet.isFlush_iff held, Packet.isFlush_iff_of_solid_eq_nil, ?_, fun depth => ?_⟩
    · exact joined_eq_concat (Packet.held_wireRegions held)
    · exact joined_eq_concat (Packet.held_within held (depth + 1))

/-- Empty regions that lie anywhere do not break a run. -/
theorem readings_agree_of_gaps :
    let arena : Bytes := [1, 2, 3, 4, 5, 6]
    let p : Packet := ⟨arena, [⟨Gre.dissector, none, .shared ⟨0, 2⟩, .shared ⟨9, 0⟩⟩],
      some (.shared ⟨2, 4⟩), none, false⟩
    let rs : List Region := [.shared ⟨1, 2⟩, .owned [], .shared ⟨9, 0⟩, .shared ⟨3, 1⟩]
    Held arena rs ∧ Held p.arena p.allRegions ∧ SharesRun rs ∧ joined arena rs = [2, 3, 4]
      ∧ p.isFlush = true ∧ p.frameBytes = arena ∧ p.payloadBytes 0 = [3, 4, 5, 6] := by
  intro arena p rs
  have heldList : Held arena rs := by
    simp [Held, Inside, isEmpty, length, span?, Span.stop, arena, rs]
  have heldPacket : Held p.arena p.allRegions := by
    simp [Held, Inside, isEmpty, length, span?, Span.stop, arena, p, Packet.allRegions,
      Packet.wireRegions, Layer.wireRegions]
  obtain ⟨hjoined, hshares, -⟩ := readings_agree.1 arena rs heldList
  obtain ⟨-, -, hframe, hpayload⟩ := readings_agree.2 p heldPacket
  exact ⟨heldList, heldPacket, hshares.1 rfl, hjoined, rfl, hframe, hpayload 0⟩

end PacketLayers
