/-
  PacketLayers.Proofs.Refusal
  ────────────────────────────────
  **A PAYLOAD THAT IS REFUSED LEAVES A MARK.**

  A layer that cannot name a payload refuses it, and then no header, body,
  padding or check sequence of the packet has changed.  The packet was opened
  for the change all the same, and opening counts as changing: the next time
  it is serialized it is brought up to date first.  For a captured packet that
  is the difference between the bytes that were captured and bytes whose
  lengths, checksums and check sequence are right:

    • `push_eq_error` — when a payload is refused, and what is left;
    • `push_refused` — what a captured packet serializes to afterwards.
-/
import PacketLayers.Proofs.Assembly
import PacketLayers.Proofs.Redecode

namespace PacketLayers

/-! ## §1. What a refusal leaves. -/

/-- A layer that was opened and closed again: the packet counts as changed. -/
theorem Cursor.close_eq_of_open {p : Packet} {depth : Nat} {c : Cursor}
    (opened : p.open? depth = some c) : c.close = { p with stale := true } := by
  obtain ⟨rfl, hlayers, _⟩ := close_of_open opened
  rw [close, hlayers]

/-- A layer takes every payload but layers that it cannot name. -/
theorem Cursor.setPayload_eq_error {c : Cursor} {payload : Payload} {e : Error}
    (refused : c.setPayload payload = .ok (.error e)) :
    e = .unsupported ∧ ∃ child, payload.layers.head? = some child
      ∧ c.focus.dissector.discriminantOf child.kind = none := by
  unfold setPayload at refused
  split at refused
  · injection refused with refused
    cases refused
  · next child rest hlayers =>
    split at refused
    · next hunnamed =>
      injection refused with refused
      injection refused with refused
      exact ⟨refused.symm, child, by rw [hlayers]; rfl, hunnamed⟩
    · -- whatever is named is stored, or the access faults
      obtain ⟨_, _, refused⟩ := bind_eq_ok.1 refused
      obtain ⟨_, _, refused⟩ := bind_eq_ok.1 refused
      injection refused with refused
      cases refused

namespace Packet

variable {p p' : Packet} {payload : Payload} {e : Error}

/-- **A payload is refused** exactly if it has layers and the innermost layer
cannot name the outermost of them.  Then nothing has changed, but that the
packet counts as changed. -/
theorem push_eq_error (filled : p.layers ≠ []) :
    p.push payload = .ok (p', .error e)
      ↔ (∃ l child, p.layers.getLast? = some l ∧ payload.layers.head? = some child
          ∧ l.dissector.discriminantOf child.kind = none)
        ∧ e = .unsupported ∧ p' = { p with stale := true } := by
  obtain ⟨outer, last, hlayers⟩ : ∃ outer last, p.layers = outer ++ [last] :=
    ⟨_, _, (List.dropLast_append_getLast filled).symm⟩
  have hopen := openInnermost_eq hlayers
  have hclose := Cursor.close_eq_of_open hopen
  have hlast : p.layers.getLast? = some last := by
    rw [hlayers, List.getLast?_append, List.getLast?_singleton, Option.some_or]
  unfold push
  rw [hopen, hlast]
  -- the only thing that is refused is a layer that the innermost cannot announce
  constructor
  · intro refused
    obtain ⟨out, hout, refused⟩ := bind_eq_ok.1 refused
    cases out with
    | ok c =>
      injection refused with refused
      cases refused
    | error e' =>
      injection refused with refused
      obtain ⟨hp', he⟩ := Prod.mk.inj refused
      injection he with he
      subst he
      obtain ⟨rfl, child, hchild, hunnamed⟩ := Cursor.setPayload_eq_error hout
      exact ⟨⟨last, child, rfl, hchild, hunnamed⟩, rfl, hp'.symm.trans hclose⟩
  · rintro ⟨⟨l, child, hl, hchild, hunnamed⟩, rfl, rfl⟩
    obtain rfl : last = l := Option.some.inj hl
    obtain ⟨rest, hpayload⟩ := List.head?_eq_some_iff.1 hchild
    rw [← hclose]
    simp only [Cursor.setPayload_unsupported (c := ⟨p, outer, last, []⟩) hpayload hunnamed, ok_bind]
    rfl

/-- A mark changes no byte. -/
theorem contents_of_mark (p : Packet) : ({ p with stale := true } : Packet).contents = p.contents :=
  rfl

/-- Bringing a packet up to date does not ask whether it was changed. -/
theorem recompute_of_mark (p : Packet) (mode : ChecksumMode) :
    ({ p with stale := true } : Packet).recompute mode = p.recompute mode := by
  unfold recompute
  cases Layer.recomputeAll mode p.body p.arena none p.layers with
  | error f => rfl
  | ok out =>
    cases mode with
    | keep => rfl
    | fill =>
      simp only [ok_bind, updateFcs]
      cases p.fcs with
      | none => rfl
      | some r =>
        simp only [computedFcs, frameBytes, wireRegions]
        cases (r.resize out.1 fcsLength).store out.1 _ <;> rfl

/-- A packet that was marked is serialized as it is after bringing it up to
date. -/
theorem serialize_of_mark {q : Packet} {mode : ChecksumMode} (ok : p.recompute mode = .ok q) :
    ({ p with stale := true } : Packet).serialize mode = q.serialize mode := by
  have hmarked : ({ p with stale := true } : Packet).refreshed mode = .ok q :=
    (recompute_of_mark p mode).trans ok
  have hfresh : q.refreshed mode = .ok q := by
    rw [refreshed, refreshed_not_stale hmarked]
    rfl
  rw [serialize_of_refreshed hmarked, serialize_of_refreshed hfresh]

end Packet

/-! ## §2. Captured packets. -/

namespace Registry

/-- **A refusal leaves a mark.**  Take any packet that was decoded, completely or up
to an error, by any choice of the protocols of the library, whose innermost
layer refuses a payload.  All layers, the body and the check sequence are what
they were, byte for byte; but where the packet would have serialized to the
buffer that was captured, it now serializes to what bringing it up to date
makes of that.  The result is as long as the capture, differs from it in
derived bytes at most, and is decoded to the same layers.  It is the capture
exactly if that was up to date. -/
theorem push_refused {r : Registry} {d : Dissector} {origin : Option Discriminant} {data : Bytes}
    {hasFcs : Bool} {out : Decoding} {p p' : Packet} {payload : Payload} {e : Error}
    (uses : r.Uses (· ∈ Dissector.all)) (root : d ∈ Dissector.all)
    (h : r.decodeFrom d origin data hasFcs = .ok out) (hp : out.packet? = some p)
    (refused : p.push payload = .ok (p', .error e)) (mode : ChecksumMode) :
    e = .unsupported ∧ p' = { p with stale := true } ∧ p'.contents = p.contents
      ∧ p.serialize mode = .ok (data, p)
      ∧ ∃ q, p.recompute mode = .ok q ∧ p'.serialize mode = .ok (q.arena, q)
        ∧ q.layers = p.layers ∧ q.body = p.body ∧ q.fcs = p.fcs
        ∧ q.arena.length = data.length ∧ (∀ i, ¬ p.Derives i → q.arena[i]? = data[i]?)
        ∧ r.decodeFrom d origin q.arena hasFcs = .ok (out.over q)
        ∧ (q.arena = data ↔ q.contents = p.contents) := by
  obtain ⟨harena, hfresh, htiles⟩ := tiles_of_decodeFrom h hp
  obtain ⟨_, he, hp'⟩ := (Packet.push_eq_error (layers_of_decodeFrom h hp)).1 refused
  have hserialize := (serialize_of_tiles hfresh htiles mode).1
  rw [harena] at hserialize
  have hcontents : p'.contents = p.contents := hp' ▸ p.contents_of_mark
  refine ⟨he, hp', hcontents, hserialize, ?_⟩
  -- the pass leaves every region where it is
  obtain ⟨q, hq, hsame, hlength, hkeeps, hagain⟩ := decodeFrom_recomputed
    (fun _ => Dissector.steady_of_mem_all) uses root h hp mode
  obtain ⟨htiles', hsettled⟩ := serialize_recomputed htiles hsame (hlength.trans (by rw [harena]))
  have hregions : q.allRegions = p.allRegions := by rw [hsame]; rfl
  refine ⟨q, hq, ?_, by rw [hsame], by rw [hsame], by rw [hsame], hlength, hkeeps, hagain, ?_⟩
  · rw [hp', Packet.serialize_of_mark hq, hsettled]
  · -- over the same arena the regions read the same, and the other way round
    constructor
    · intro hsameArena
      rw [Packet.contents, Packet.contents, hregions, hsameArena, harena]
    · intro hsameContents
      rw [Packet.arena_of_tiles htiles', hsameContents, ← Packet.arena_of_tiles htiles, harena]

/-- An IPv4 header with a wrong checksum. -/
def miscounted : Bytes :=
  [0x45, 0, 0, 20, 0, 0, 0x40, 0, 64, 255, 0, 0, 0, 0, 0, 0, 0, 0, 0, 0]

/-- It refuses an Ethernet frame.  Serialized afterwards it is as long as before
and decoded to the same layer. -/
theorem push_refused_ethernet :
    ∃ p p' q, standard.decode .ipv4 miscounted false = .ok (.complete p)
      ∧ p.push (Packet.new Ethernet.dissector).toPayload = .ok (p', .error .unsupported)
      ∧ p'.contents = p.contents ∧ p'.serialize .fill = .ok (q.arena, q)
      ∧ q.arena.length = 20 ∧ standard.decode .ipv4 q.arena false = .ok (.complete q) := by
  obtain ⟨p, p', hp, hrefused⟩ :
      ∃ p p', standard.decode .ipv4 miscounted false = .ok (.complete p)
        ∧ p.push (Packet.new Ethernet.dissector).toPayload = .ok (p', .error .unsupported) :=
    ⟨_, _, rfl, rfl⟩
  have hfrom : standard.decodeFrom Ipv4.dissector (some (.link .ipv4)) miscounted false
      = .ok (.complete p) := hp
  obtain ⟨_, _, hcontents, _, q, _, hserialize, _, _, _, hlength, _, hagain, _⟩ :=
    push_refused standard_uses (by simp [Dissector.all]) hfrom rfl hrefused .fill
  exact ⟨p, p', q, hp, hrefused, hcontents, hserialize, hlength, hagain⟩

/-- Without the attempt it serializes to what was captured, after it to a header
with another checksum. -/
theorem push_refused_rewrites :
    ∃ p p' bytes s, standard.decode .ipv4 miscounted false = .ok (.complete p)
      ∧ p.push (Packet.new Ethernet.dissector).toPayload = .ok (p', .error .unsupported)
      ∧ p.serialize .fill = .ok (miscounted, p) ∧ p'.serialize .fill = .ok (bytes, s)
      ∧ bytes = [0x45, 0, 0, 20, 0, 0, 0x40, 0, 64, 255, 0x39, 0xec, 0, 0, 0, 0, 0, 0, 0, 0]
      ∧ bytes ≠ miscounted :=
  ⟨_, _, _, _, rfl, rfl, rfl, rfl, rfl, by decide⟩

end Registry

end PacketLayers
