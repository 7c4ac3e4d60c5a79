/-
  PacketLayers.Proofs.Serialize
  ────────────────────────────────
  **WHAT A PACKET SERIALIZES TO.**

  The *contents* of a packet are the bytes of its regions, in the order of the
  wire.  Two ways lead from a packet to its serialization: the arena as it is,
  or a new arena with a copy of each region.  Both give the contents one
  behind the other, and both leave the contents alone:

    • `Tiles` — regions that share a run of the arena without a gap;
    • `settle_spec` — settling a packet keeps its contents, and the arena then
      spells them;
    • `serialize_of_refreshed` — what that says about serialization.
-/
import PacketLayers.Packet.Serialize
import PacketLayers.Proofs.Plain
import PacketLayers.Theory.Result

namespace PacketLayers

namespace Region

/-! ## §1. Runs without a gap. -/

/-- Regions that share the arena from one position to another, each beginning
where the one before ends. -/
def Tiles : Nat → List Region → Nat → Prop
  | first, [], last => first = last
  | first, r :: rest, last => ∃ size, r = shared ⟨first, size⟩ ∧ Tiles (first + size) rest last

namespace Tiles

theorem append {left right : List Region} {a b c : Nat} (hleft : Tiles a left b)
    (hright : Tiles b right c) : Tiles a (left ++ right) c := by
  induction left generalizing a with
  | nil =>
    have hab : a = b := hleft
    subst hab
    exact hright
  | cons r rest ih =>
    obtain ⟨size, hr, hrest⟩ := hleft
    exact ⟨size, hr, ih hrest⟩

theorem single (first size : Nat) : Tiles first [shared ⟨first, size⟩] (first + size) :=
  ⟨size, rfl, rfl⟩

theorem last_eq {rs : List Region} :
    ∀ {first last : Nat}, Tiles first rs last → last = first + totalLength rs := by
  -- each region moves the start of the rest by its length
  induction rs with
  | nil =>
    intro first last h
    have hlast : first = last := h
    simp only [totalLength]
    omega
  | cons r rest ih =>
    intro first last h
    obtain ⟨size, rfl, hrest⟩ := h
    have hlast := ih hrest
    simp only [totalLength, length]
    omega

/-- The parts shared lie between both ends, in order. -/
theorem spans_between {rs : List Region} :
    ∀ {first last : Nat}, Tiles first rs last →
      (∀ s ∈ spans rs, first ≤ s.offset ∧ s.stop ≤ last) ∧
        (spans rs).Pairwise fun a b => a.stop ≤ b.offset := by
  induction rs with
  | nil =>
    intro first last _
    exact ⟨fun s hs => absurd hs List.not_mem_nil, List.Pairwise.nil⟩
  | cons r rest ih =>
    intro first last h
    obtain ⟨size, rfl, hrest⟩ := h
    obtain ⟨hbounds, hordered⟩ := ih hrest
    have hlast := last_eq hrest
    rw [spans_shared]
    refine ⟨?_, List.pairwise_cons.2 ⟨fun s hs => (hbounds s hs).1, hordered⟩⟩
    intro s hs
    -- the first region starts the run, all others lie behind it
    rcases List.mem_cons.1 hs with rfl | hs
    · exact ⟨Nat.le_refl _, by simp only [Span.stop]; omega⟩
    · have hb := hbounds s hs
      exact ⟨by omega, hb.2⟩

theorem laidOut {arena : Bytes} {rs : List Region} {first last : Nat}
    (h : Tiles first rs last) (inside : last ≤ arena.length) : LaidOut arena rs where
  inside s hs := Nat.le_trans ((spans_between h).1 s hs).2 inside
  ordered := (spans_between h).2

theorem contiguousFrom_eq {rs : List Region} :
    ∀ {covered : Span} {last : Nat}, Tiles covered.stop rs last →
      contiguousFrom covered rs = some ⟨covered.offset, last - covered.offset⟩ := by
  induction rs with
  | nil =>
    intro covered last h
    have hlast : covered.stop = last := h
    unfold Span.stop at hlast
    rw [contiguousFrom, ← hlast, Nat.add_sub_cancel_left]
  | cons r rest ih =>
    intro covered last h
    obtain ⟨size, rfl, hrest⟩ := h
    rw [contiguousFrom]
    -- empty regions are passed over, and tile nothing
    split
    · next hempty =>
      have hsize : size = 0 := by simpa [isEmpty, length] using hempty
      subst hsize
      exact ih hrest
    · have hnext : Tiles (Span.stop ⟨covered.offset, covered.length + size⟩) rest last := by
        unfold Span.stop at hrest ⊢
        rw [← Nat.add_assoc]
        exact hrest
      simp only [span?, if_true]
      exact ih hnext

/-- Regions that tile an arena from its start are found to share it. -/
theorem contiguous_eq {rs : List Region} {last : Nat} (h : Tiles 0 rs last) :
    contiguous rs = some ⟨0, last⟩ := by
  induction rs with
  | nil =>
    have hlast : 0 = last := h
    rw [contiguous, ← hlast]
  | cons r rest ih =>
    obtain ⟨size, rfl, hrest⟩ := h
    rw [contiguous]
    split
    · next hempty =>
      have hsize : size = 0 := by simpa [isEmpty, length] using hempty
      subst hsize
      exact ih hrest
    · have hfrom : Tiles (Span.stop ⟨0, size⟩) rest last := hrest
      exact contiguousFrom_eq hfrom

end Tiles

end Region

/-! ## §2. Copying regions into a new arena. -/

namespace Layer

/-- What copying layers behind some bytes of a new arena gives: their bytes,
and layers that tile them and say the same. -/
structure Relocated (arena : Bytes) (offset : Nat) (layers : List Layer) (body : Option Region)
    (out : Bytes × List Layer × Option Region) : Prop where
  bytes : out.1 = Region.concat arena (wireRegions layers body)
  tiles : Region.Tiles offset (wireRegions out.2.1 out.2.2) (offset + out.1.length)
  layers : ∀ front back : Bytes, front.length = offset →
    out.2.1.map (plain (front ++ (out.1 ++ back))) = layers.map (plain arena)
  body : ∀ front back : Bytes, front.length = offset →
    out.2.2.map (Region.bytes (front ++ (out.1 ++ back))) = body.map (Region.bytes arena)

end Layer

namespace Region

/-- A region copied behind some bytes of a new arena reads what it read. -/
theorem bytes_relocate {arena : Bytes} {r : Region} (inside : r.Inside arena)
    (front back : Bytes) {offset : Nat} (hfront : front.length = offset) :
    (shared ⟨offset, r.length⟩).bytes (front ++ (r.bytes arena ++ back)) = r.bytes arena := by
  have hlength := length_bytes inside
  have hstop : Span.stop ⟨offset, r.length⟩ ≤ (front ++ (r.bytes arena ++ back)).length := by
    simp only [Span.stop, List.length_append]
    omega
  rw [bytes_shared hstop, Span.bytesOf, List.drop_left' hfront, List.take_left' hlength]

end Region

namespace Layer

/-- A layer copied in front of and behind what was copied inside it. -/
theorem Relocated.cons {arena : Bytes} {offset : Nat} {l : Layer} {inner : List Layer}
    {body : Option Region} {middle : Bytes} {inner' : List Layer} {body' : Option Region}
    (hheader : l.header.Inside arena) (hpadding : l.padding.Inside arena)
    (h : Relocated arena (offset + (l.header.bytes arena).length) inner body
      (middle, inner', body')) :
    Relocated arena offset (l :: inner) body
      (l.header.bytes arena ++ (middle ++ l.padding.bytes arena),
        { l with
          header := .shared ⟨offset, l.header.length⟩
          padding := .shared ⟨offset + (l.header.bytes arena).length + middle.length,
            l.padding.length⟩ } :: inner', body') := by
  have hheaderLength := Region.length_bytes hheader
  have hpaddingLength := Region.length_bytes hpadding
  obtain ⟨hbytes, htiles, hlayers, hbody⟩ := h
  simp only at hbytes htiles hlayers hbody
  -- the same arena, cut in front of the header, of the inner layers and of the padding
  have cutInner : ∀ front back : Bytes,
      front ++ (l.header.bytes arena ++ (middle ++ l.padding.bytes arena) ++ back)
        = front ++ l.header.bytes arena ++ (middle ++ (l.padding.bytes arena ++ back)) := by
    intro front back
    simp
  have cutPadding : ∀ front back : Bytes,
      front ++ (l.header.bytes arena ++ (middle ++ l.padding.bytes arena) ++ back)
        = front ++ l.header.bytes arena ++ middle ++ (l.padding.bytes arena ++ back) := by
    intro front back
    simp
  have hinside : ∀ front : Bytes, front.length = offset →
      (front ++ l.header.bytes arena).length = offset + (l.header.bytes arena).length := by
    intro front hfront
    rw [List.length_append, hfront]
  refine ⟨?_, ⟨l.header.length, rfl, ?_⟩, fun front back hfront => ?_,
    fun front back hfront => ?_⟩
  · rw [hbytes, wireRegions, Region.concat_cons, Region.concat_append, Region.concat_cons]
    simp [Region.concat]
  · have hlast : offset + (l.header.bytes arena ++ (middle ++ l.padding.bytes arena)).length
        = offset + (l.header.bytes arena).length + middle.length + l.padding.length := by
      simp only [List.length_append, hpaddingLength]
      omega
    rw [← hheaderLength, hlast]
    exact htiles.append (Region.Tiles.single _ _)
  · have hbehind : (front ++ l.header.bytes arena ++ middle).length
        = offset + (l.header.bytes arena).length + middle.length := by
      rw [List.length_append, hinside front hfront]
    rw [List.map_cons, List.map_cons, cutInner, hlayers _ _ (hinside front hfront), ← cutInner,
      plain, plain]
    congr 2
    · simp only
      rw [List.append_assoc]
      exact Region.bytes_relocate hheader _ _ hfront
    · simp only
      rw [cutPadding]
      exact Region.bytes_relocate hpadding _ _ hbehind
  · rw [cutInner]
    exact hbody _ _ (hinside front hfront)

theorem relocate_spec {arena : Bytes} {layers : List Layer} {body : Option Region} :
    ∀ offset, (∀ r ∈ wireRegions layers body, r.Inside arena) →
      Relocated arena offset layers body (relocate arena offset layers body) := by
  -- on the layers, for all offsets: those inside are copied behind the header
  induction layers with
  | nil =>
    intro offset inside
    cases body with
    | none =>
      exact ⟨rfl, rfl, fun _ _ _ => rfl, fun _ _ _ => rfl⟩
    | some b =>
      have hb := inside b List.mem_cons_self
      have hlength := Region.length_bytes hb
      refine ⟨?_, ?_, fun _ _ _ => rfl, ?_⟩
      · simp [relocate, Region.relocate, wireRegions, Region.concat]
      · simp only [relocate, Region.relocate, wireRegions, hlength]
        exact Region.Tiles.single _ _
      · intro front back hfront
        exact congrArg some (Region.bytes_relocate hb _ _ hfront)
  | cons l inner ih =>
    intro offset inside
    have hheader := inside l.header List.mem_cons_self
    have hpadding := inside l.padding (by simp [wireRegions])
    have hinner : ∀ r ∈ wireRegions inner body, r.Inside arena := fun r hr =>
      inside r (List.mem_cons_of_mem _ (List.mem_append_left _ hr))
    exact Relocated.cons hheader hpadding (ih (offset + (l.header.bytes arena).length) hinner)

end Layer

namespace Packet

/-! ## §3. Settling a packet. -/

/-- Regions that tile the arena make it what the packet serializes to. -/
theorem isFlush_of_tiles {p : Packet} (h : Region.Tiles 0 p.allRegions p.arena.length) :
    p.isFlush = true := by
  unfold isFlush
  rw [h.contiguous_eq]
  simp

/-- An arena that is what the packet serializes to spells the contents. -/
theorem arena_of_isFlush {p : Packet} (h : p.LaidOut) (flush : p.isFlush = true) :
    p.arena = p.contents.flatten := by
  unfold isFlush at flush
  split at flush
  · next run found =>
    rw [Bool.and_eq_true, beq_iff_eq, beq_iff_eq] at flush
    obtain ⟨hoffset, hlength⟩ := flush
    have hrun := (Region.contiguous_eq_some h.held found).2
    rw [Span.bytesOf, hoffset, hlength, List.drop_zero, List.take_length,
      Region.concat_eq_flatten] at hrun
    exact hrun
  · cases flush

theorem arena_of_tiles {p : Packet} (h : Region.Tiles 0 p.allRegions p.arena.length) :
    p.arena = p.contents.flatten :=
  arena_of_isFlush (h.laidOut (Nat.le_refl _)) (isFlush_of_tiles h)

/-- What settling a packet gives: the same packet, over an arena that is its
serialization. -/
structure Settled (p q : Packet) : Prop where
  plain : q.plain = p.plain
  stale : q.stale = p.stale
  arena : q.arena = p.contents.flatten
  laidOut : q.LaidOut
  flush : q.isFlush = true

/-- Copied layers, with a frame check sequence copied behind them, are the
packet over a new arena. -/
theorem settled_of_relocated {p : Packet} {out : Bytes × List Layer × Option Region}
    (hout : Layer.Relocated p.arena 0 p.layers p.body out) (fcs : Option Region) (tail : Bytes)
    (htail : Region.Tiles (0 + out.1.length) fcs.toList (out.1 ++ tail).length)
    (hfcs : fcs.map (Region.bytes (out.1 ++ tail)) = p.fcs.map (Region.bytes p.arena))
    (hspells : tail = Region.concat p.arena p.fcs.toList) :
    Settled p ⟨out.1 ++ tail, out.2.1, out.2.2, fcs, p.stale⟩ := by
  have htiled := hout.tiles.append htail
  refine ⟨?_, rfl, ?_, htiled.laidOut (Nat.le_refl _), isFlush_of_tiles htiled⟩
  · have hlayers := hout.layers [] tail rfl
    have hbody := hout.body [] tail rfl
    rw [List.nil_append] at hlayers hbody
    simp only [Packet.plain, hlayers, hbody, hfcs]
  · rw [contents, allRegions, wireRegions, ← Region.concat_eq_flatten, Region.concat_append,
      ← hout.bytes, ← hspells]

theorem rebuild_spec {p : Packet} (h : p.LaidOut) : Settled p p.rebuild := by
  obtain ⟨arena, layers, body, fcs, stale⟩ := p
  have hout : Layer.Relocated arena 0 layers body (Layer.relocate arena 0 layers body) :=
    Layer.relocate_spec 0 fun r hr => h.inside_of_mem (List.mem_append_left _ hr)
  cases fcs with
  | none =>
    refine settled_of_relocated hout none [] ?_ rfl rfl
    simp [Region.Tiles]
  | some r =>
    have hr : r.Inside arena := h.inside_of_mem (by simp [allRegions])
    have hlength := Region.length_bytes hr
    refine settled_of_relocated hout _ _ ?_ (congrArg some ?_) ?_
    · refine ⟨r.length, by rw [Nat.zero_add], ?_⟩
      simp only [Region.Tiles, List.length_append]
      omega
    · have hback := Region.bytes_relocate hr (Layer.relocate arena 0 layers body).1 [] rfl
      rw [List.append_nil] at hback
      exact hback
    · simp [Region.concat]

/-- **Settling keeps a packet** and gives it an arena that spells it. -/
theorem settle_spec {p : Packet} (h : p.LaidOut) : Settled p p.settle := by
  unfold settle
  split
  · next flush => exact ⟨rfl, rfl, arena_of_isFlush h flush, h, flush⟩
  · exact rebuild_spec h

/-- A packet that shares the whole arena is left as it is. -/
theorem settle_of_isFlush {p : Packet} (flush : p.isFlush = true) : p.settle = p := if_pos flush

/-! ## §4. Serialization. -/

/-- The packet that is serialized: brought up to date, if it was changed. -/
def refreshed (p : Packet) (mode : ChecksumMode) : Access Packet :=
  if p.stale then p.recompute mode else pure p

theorem serialize_of_refreshed {p q : Packet} {mode : ChecksumMode}
    (fresh : p.refreshed mode = .ok q) : p.serialize mode = .ok (q.settle.arena, q.settle) := by
  unfold refreshed at fresh
  unfold serialize
  by_cases hstale : p.stale
  · rw [if_pos hstale] at fresh
    simp only [hstale, if_true, fresh, ok_bind, pure_eq_ok]
  · rw [if_neg hstale] at fresh
    injection fresh with fresh
    subst fresh
    simp only [hstale, Bool.false_eq_true, if_false, ok_bind, pure_eq_ok]

/-- A packet that counts as up to date serializes to the bytes it has. -/
theorem serialize_of_fresh {p : Packet} (laid : p.LaidOut) (fresh : p.stale = false)
    (mode : ChecksumMode) : p.serialize mode = .ok (p.contents.flatten, p.settle) := by
  have hfresh : p.refreshed mode = .ok p := by
    unfold refreshed
    rw [fresh]
    rfl
  rw [serialize_of_refreshed hfresh, (settle_spec laid).arena]

theorem serialize_of_fault {p : Packet} {mode : ChecksumMode} {f : Fault}
    (fault : p.refreshed mode = .error f) : p.serialize mode = .error f := by
  unfold refreshed at fault
  unfold serialize
  by_cases hstale : p.stale
  · rw [if_pos hstale] at fault
    simp only [hstale, if_true, fault, error_bind]
  · rw [if_neg hstale] at fault
    cases fault

/-- The frame check sequence takes part as the mode says. -/
def refreshFcs (p : Packet) : ChecksumMode → Access Packet
  | .fill => p.updateFcs
  | .keep => .ok p

/-- The pass over all layers, then the frame check sequence. -/
theorem recompute_eq_ok {p q : Packet} {mode : ChecksumMode} :
    p.recompute mode = .ok q ↔
      ∃ (arena : Bytes) (layers : List Layer) (p' : Packet),
        Layer.recomputeAll mode p.body p.arena none p.layers = .ok (arena, layers)
          ∧ { p with arena := arena, layers := layers }.refreshFcs mode = .ok p'
          ∧ q = { p' with stale := false } := by
  unfold recompute
  rw [bind_eq_ok]
  constructor
  · rintro ⟨⟨arena, layers⟩, hall, h⟩
    -- only filling checksums touches the check sequence
    cases mode with
    | fill =>
      obtain ⟨p', hp', hq⟩ := bind_eq_ok.1 h
      injection hq with hq
      exact ⟨arena, layers, p', hall, hp', hq.symm⟩
    | keep =>
      injection h with hq
      exact ⟨arena, layers, _, hall, rfl, hq.symm⟩
  · rintro ⟨arena, layers, p', hall, hp', rfl⟩
    refine ⟨(arena, layers), hall, ?_⟩
    cases mode with
    | fill => exact bind_eq_ok.2 ⟨p', hp', rfl⟩
    | keep =>
      injection hp' with hp'
      rw [← hp']
      rfl

theorem refreshed_not_stale {p q : Packet} {mode : ChecksumMode}
    (fresh : p.refreshed mode = .ok q) : q.stale = false := by
  unfold refreshed at fresh
  split at fresh
  · obtain ⟨_, _, _, _, _, hq⟩ := recompute_eq_ok.1 fresh
    rw [hq]
  · next hstale =>
    injection fresh with fresh
    rw [← fresh]
    simpa using hstale

/-- A packet over its own serialization serializes to that, whatever the
mode. -/
theorem serialize_of_isFlush {p : Packet} (fresh : p.stale = false) (flush : p.isFlush = true)
    (mode : ChecksumMode) : p.serialize mode = .ok (p.arena, p) := by
  have hfresh : p.refreshed mode = .ok p := by
    rw [refreshed, fresh]
    rfl
  rw [serialize_of_refreshed hfresh, settle_of_isFlush flush]

end Packet

end PacketLayers
