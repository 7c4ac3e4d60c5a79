/-
  PacketLayers.Proofs.Dispatch
  ────────────────────────────────
  **EVERY DECODED BUFFER, LAYER BY LAYER.**

  What the rules say of a buffer is said here of the layers that were decoded
  from it: how each of them was cut, why there is another one inside it or not,
  and how decoding failed, if it did.

    • `decodeFrom_succeeds` — dissectors that answer make decoding give a
      result;
    • `Dispatched.follows` — every layer of a branch follows the rules;
    • `decodeFrom_follows` — so does every layer of every decoded buffer.
-/
import PacketLayers.Proofs.Lawful.Standard

namespace PacketLayers

variable {r : Registry} {arena : Bytes} {d child : Dissector} {origin : Option Discriminant}
  {span header payload padding : Span} {e : Error} {branch inner : Branch} {room : Nat}

/-! ## §1. Decoding gives a result. -/

/-- A dissector that answers what decoding asks. -/
structure Dissector.Answers (d : Dissector) : Prop where
  payloadLength : ∀ h available, ∃ n, d.payloadLength h available = .ok n
  next : ∀ h payload, ∃ o, d.next h payload = .ok o
  isSealed : ∀ h, ∃ b, d.sealed h = .ok b

theorem Dissector.Total.answers {d : Dissector} (t : d.Total) : d.Answers :=
  ⟨t.payloadLength, t.next, t.isSealed⟩

namespace Registry

theorem decodePayload_succeeds {nested : Option Nested} (answers : r.Uses Dissector.Answers)
    (root : d.Answers) (h : Bytes)
    (inner : ∀ f, nested = some f → ∀ next o span, next.Answers → ∃ out, f next o span = .ok out) :
    ∃ out, decodePayload r arena nested d h payload = .ok out := by
  -- the dissector answers both questions, and what is inside answers its own
  obtain ⟨isSealed, hsealed⟩ := root.isSealed h
  obtain ⟨stated, hstated⟩ := root.next h (payload.bytesOf arena)
  unfold decodePayload
  simp only [hsealed, hstated, ok_bind]
  split
  · exact ⟨_, rfl⟩
  · split
    · exact ⟨_, rfl⟩
    · split
      · next o f =>
        split
        · exact ⟨_, rfl⟩
        · exact ⟨_, rfl⟩
        · next child hstands =>
          obtain ⟨out, hout⟩ := inner f rfl child o payload (answers _ (dissect_mem hstands) _ rfl)
          rw [hout, ok_bind]
          cases out <;> exact ⟨_, rfl⟩
      · exact ⟨_, rfl⟩

/-- **Decoding gives a result** as long as dissectors answer. -/
theorem decodeLayers_succeeds (answers : r.Uses Dissector.Answers) {room : Nat} :
    ∀ {d : Dissector} (_ : d.Answers) (origin : Option Discriminant) (span : Span),
      ∃ out, decodeLayers r arena room d origin span = .ok out := by
  have layer : ∀ (nested : Option Nested),
      (∀ f, nested = some f → ∀ next o span, next.Answers → ∃ out, f next o span = .ok out) →
      ∀ {d : Dissector} (_ : d.Answers) (origin : Option Discriminant) (span : Span),
        ∃ out, decodeWith r arena nested d origin span = .ok out := by
    intro nested inner d root origin span
    unfold decodeWith
    split
    · exact ⟨_, rfl⟩
    · next header rest _ =>
      obtain ⟨stated, hstated⟩ := root.payloadLength (header.bytesOf arena) rest.length
      obtain ⟨branch, hbranch⟩ := @decodePayload_succeeds r arena d
        ⟨rest.offset, min stated rest.length⟩ nested answers root (header.bytesOf arena) inner
      simp only [hstated, ok_bind, hbranch]
      exact ⟨_, rfl⟩
  -- on the room: what may be inside a layer is decoded with less of it
  induction room with
  | zero =>
    intro d root origin span
    exact layer none (fun f hf => by cases hf) root origin span
  | succ room ih =>
    intro d root origin span
    refine layer _ (fun f hf next o body hnext => ?_) root origin span
    injection hf with hf
    subst hf
    exact ih hnext (some o) body

end Registry

/-! ## §2. The rules, layer by layer. -/

namespace Layer

/-- Where a decoded layer has its header. -/
def headerSpan (l : Layer) : Span := l.header.span?.getD ⟨0, 0⟩

/-- Where a decoded layer has its padding. -/
def paddingSpan (l : Layer) : Span := l.padding.span?.getD ⟨0, 0⟩

/-- Where a decoded layer has its payload: between header and padding. -/
def payloadSpan (l : Layer) : Span :=
  ⟨l.headerSpan.stop, l.paddingSpan.offset - l.headerSpan.stop⟩

end Layer

theorem Cut.payloadSpan {arena : Bytes} {d : Dissector} {origin : Option Discriminant}
    {span header payload padding : Span} (cut : Cut arena d span header payload padding) :
    (Cut.layer d origin header padding).payloadSpan = payload := by
  have hpadding := cut.padding_offset
  show Span.mk header.stop (padding.offset - header.stop) = payload
  rw [hpadding, ← cut.body_offset, Span.stop, Nat.add_sub_cancel_left]

namespace Registry

/-- What the layer at a depth was cut out of: all of the frame, or the payload
of the layer around it. -/
def spanAt (frame : Span) (layers : List Layer) : Nat → Span
  | 0 => frame
  | above + 1 => (layers[above]?.map Layer.payloadSpan).getD ⟨0, 0⟩

/-- The payload of the layer at a depth is decoded by a dissector, under a
name: it is offered, there is room, the name stands for the dissector, and the
dissector can read its header. -/
structure Nests (r : Registry) (arena : Bytes) (room depth : Nat) (l : Layer) (o : Discriminant)
    (child : Dissector) : Prop where
  offers : Offers arena l.dissector l.headerSpan l.payloadSpan o
  deep : depth < room
  stands : r.lookup? o = some child
  fits : HeaderFits arena child l.payloadSpan

/-- The payload of the layer at a depth should have been decoded, but its name
is refused, or its header cannot be read. -/
def FailsIn (r : Registry) (arena : Bytes) (room depth : Nat) (l : Layer) (e : Error) : Prop :=
  ∃ o, Offers arena l.dissector l.headerSpan l.payloadSpan o ∧ depth < room
    ∧ (r.Refuses o ∧ e = .notImplemented
      ∨ ∃ child, r.lookup? o = some child ∧ HeaderFails arena child l.payloadSpan e)

/-- The rules for the layer at a depth, with room for some number of layers
inside the outermost. -/
structure Follows (r : Registry) (arena : Bytes) (frame : Span) (room : Nat) (branch : Branch)
    (depth : Nat) (l : Layer) : Prop where
  /-- The parts of the layer are parts of the buffer. -/
  shared : l.header = .shared l.headerSpan ∧ l.padding = .shared l.paddingSpan
  /-- The header is as long as its dissector says, the payload no longer than
  that, and the padding is the rest. -/
  cut : Cut arena l.dissector (spanAt frame branch.layers depth) l.headerSpan l.payloadSpan
    l.paddingSpan
  /-- A layer inside was decoded by the rules. -/
  sound : ∀ m, branch.layers[depth + 1]? = some m →
    ∃ o, m.origin = some o ∧ r.Nests arena room depth l o m.dissector
  /-- What the rules decode was decoded. -/
  complete : ∀ o child, r.Nests arena room depth l o child →
    ∃ m, branch.layers[depth + 1]? = some m ∧ m.dissector = child ∧ m.origin = some o
  /-- Whatever else there is stays bytes. -/
  body : branch.layers[depth + 1]? = none → branch.body = rawBody l.payloadSpan
  failure : branch.layers[depth + 1]? = none →
    ∀ e, branch.failure = some e ↔ r.FailsIn arena room depth l e

/-- A payload is decoded in one way. -/
theorem Nests.unique {depth : Nat} {l : Layer} {o o' : Discriminant} {child' : Dissector}
    (h : r.Nests arena room depth l o child) (h' : r.Nests arena room depth l o' child') :
    o' = o ∧ child' = child := by
  obtain rfl := h.offers.unique h'.offers
  have hsame := h'.stands.symm.trans h.stands
  injection hsame with hsame
  exact ⟨rfl, hsame⟩

/-- Room and depth count alike. -/
theorem nests_succ {depth : Nat} {l : Layer} {o : Discriminant} :
    r.Nests arena (room + 1) (depth + 1) l o child ↔ r.Nests arena room depth l o child :=
  ⟨fun h => ⟨h.offers, Nat.lt_of_succ_lt_succ h.deep, h.stands, h.fits⟩,
    fun h => ⟨h.offers, Nat.succ_lt_succ h.deep, h.stands, h.fits⟩⟩

theorem failsIn_succ {depth : Nat} {l : Layer} :
    r.FailsIn arena (room + 1) (depth + 1) l e ↔ r.FailsIn arena room depth l e := by
  unfold FailsIn
  simp only [Nat.add_lt_add_iff_right]

/-- A payload that stays bytes is not decoded by any rule, and fails as it is
said to. -/
theorem Stays.spec {l : Layer} {failure : Option Error}
    (stays : Stays r arena room l.dissector l.headerSpan l.payloadSpan failure) :
    (∀ o child, ¬ r.Nests arena room 0 l o child)
      ∧ ∀ e, failure = some e ↔ r.FailsIn arena room 0 l e := by
  -- nothing is offered, or whatever is offered is offered under one name
  have unoffered : (∀ o, ¬ Offers arena l.dissector l.headerSpan l.payloadSpan o) →
      (∀ o child, ¬ r.Nests arena room 0 l o child)
        ∧ ∀ e, (none : Option Error) = some e ↔ r.FailsIn arena room 0 l e := by
    refine fun unoffered => ⟨fun o child nests => unoffered o nests.offers, fun e => ?_⟩
    refine iff_of_false (by simp) ?_
    rintro ⟨o, offers, _⟩
    exact unoffered o offers
  have offered : ∀ {o : Discriminant}, Offers arena l.dissector l.headerSpan l.payloadSpan o →
      (0 < room → ∀ child, r.resolve o = .dissect child →
        ¬ HeaderFits arena child l.payloadSpan) →
      (∀ e, failure = some e ↔ 0 < room ∧ (r.resolve o = .refuse ∧ e = .notImplemented
        ∨ ∃ child, r.resolve o = .dissect child ∧ HeaderFails arena child l.payloadSpan e)) →
      (∀ o child, ¬ r.Nests arena room 0 l o child)
        ∧ ∀ e, failure = some e ↔ r.FailsIn arena room 0 l e := by
    intro o offers unread fails
    refine ⟨fun o' child nests => ?_, fun e => (fails e).trans ⟨?_, ?_⟩⟩
    · obtain rfl := offers.unique nests.offers
      exact unread nests.deep child (resolve_eq_dissect.2 nests.stands) nests.fits
    · rintro ⟨deep, ⟨refused, he⟩ | ⟨child, stands, hfails⟩⟩
      · exact ⟨o, offers, deep, .inl ⟨resolve_eq_refuse.1 refused, he⟩⟩
      · exact ⟨o, offers, deep, .inr ⟨child, resolve_eq_dissect.1 stands, hfails⟩⟩
    · rintro ⟨o', offers', deep, ⟨refused, he⟩ | ⟨child, stands, hfails⟩⟩
      · obtain rfl := offers.unique offers'
        exact ⟨deep, .inl ⟨resolve_eq_refuse.2 refused, he⟩⟩
      · obtain rfl := offers.unique offers'
        exact ⟨deep, .inr ⟨child, resolve_eq_dissect.2 stands, hfails⟩⟩
  cases stays with
  | empty hnone => exact unoffered fun o offers => offers.nonempty hnone
  | closed _ hsealed =>
    refine unoffered fun o offers => ?_
    have hsame := hsealed.symm.trans offers.unsealed
    cases hsame
  | unnamed _ _ hunnamed =>
    refine unoffered fun o offers => ?_
    have hsame := hunnamed.symm.trans offers.named
    cases hsame
  | full offers hroom =>
    subst hroom
    exact offered offers (fun deep => by cases deep) (by simp)
  | unknown offers deep hkept => exact offered offers (by simp [hkept]) (by simp [hkept])
  | refused offers deep hrefused =>
    exact offered offers (by simp [hrefused]) (by simp [hrefused, deep, eq_comm])
  | @unreadable o child e offers deep hstands hfails =>
    refine offered offers (fun _ child' hstands' hfits => ?_) fun e' => ?_
    · rw [hstands] at hstands'
      injection hstands' with hsame
      exact hfits.not_fails (hsame ▸ hfails)
    · simp only [hstands, deep, true_and, reduceCtorEq, false_and, false_or, Verdict.dissect.injEq,
        exists_eq_left', Option.some.injEq]
      exact ⟨fun he => he ▸ hfails, fun hfails' => hfails.unique hfails'⟩

/-- The outermost layer is the one that was asked for. -/
theorem Dispatched.head? (h : Dispatched r arena room d origin span branch) :
    ∃ l, branch.layers[0]? = some l ∧ l.dissector = d ∧ l.origin = origin
      ∧ HeaderFits arena d span := by
  cases h with
  | innermost cut _ => exact ⟨_, rfl, rfl, rfl, fits_of_cut cut⟩
  | around cut _ _ _ => exact ⟨_, rfl, rfl, rfl, fits_of_cut cut⟩

theorem Dispatched.length_le (h : Dispatched r arena room d origin span branch) :
    branch.layers.length ≤ room + 1 := by
  induction h with
  | innermost _ _ => exact Nat.le_add_left 1 _
  | around _ _ _ _ ih => exact Nat.succ_le_succ ih

/-- The rules of a layer do not depend on the layers around the one that it was
cut out of. -/
theorem Follows.around {header padding : Span} (cut : Cut arena d span header payload padding)
    {depth : Nat} {l : Layer} (h : r.Follows arena payload room inner depth l) :
    r.Follows arena span (room + 1)
      { inner with layers := Cut.layer d origin header padding :: inner.layers } (depth + 1) l where
  shared := h.shared
  cut := by
    have hspan : spanAt span (Cut.layer d origin header padding :: inner.layers) (depth + 1)
        = spanAt payload inner.layers depth := by
      cases depth with
      | zero =>
        show (Cut.layer d origin header padding).payloadSpan = payload
        exact cut.payloadSpan
      | succ above => rfl
    rw [hspan]
    exact h.cut
  sound m hm := by
    obtain ⟨o, horigin, nests⟩ := h.sound m hm
    exact ⟨o, horigin, nests_succ.2 nests⟩
  complete o child nests := h.complete o child (nests_succ.1 nests)
  body := h.body
  failure hnone e := (h.failure hnone e).trans failsIn_succ.symm

/-- **Every layer of a branch follows the rules.** -/
theorem Dispatched.follows (h : Dispatched r arena room d origin span branch) :
    ∀ depth l, branch.layers[depth]? = some l → r.Follows arena span room branch depth l := by
  -- on the rules: each layer is judged by what it was cut out of
  induction h with
  | @innermost room d origin span header payload padding failure cut stays =>
    intro depth l hl
    cases depth with
    | succ depth => cases hl
    | zero =>
      injection hl with hl
      subst hl
      have hpayload := @Cut.payloadSpan arena d origin span header payload padding cut
      have hstays : Stays r arena room (Cut.layer d origin header padding).dissector
          (Cut.layer d origin header padding).headerSpan
          (Cut.layer d origin header padding).payloadSpan failure := by
        rw [hpayload]
        exact stays
      obtain ⟨hnone, hfails⟩ := hstays.spec
      refine ⟨⟨rfl, rfl⟩, ?_, fun m hm => (nomatch hm),
        fun o child nests => (hnone o child nests).elim, fun _ => ?_, fun _ => hfails⟩
      · rw [hpayload]
        exact cut
      · rw [hpayload]
  | @around room d child origin o span header payload padding inner cut offers stands inside ih =>
    intro depth l hl
    cases depth with
    | succ depth => exact (ih depth l hl).around cut
    | zero =>
      injection hl with hl
      subst hl
      have hpayload := @Cut.payloadSpan arena d origin span header payload padding cut
      obtain ⟨m, hm, hchild, ho, hfits⟩ := inside.head?
      have nests : r.Nests arena (room + 1) 0 (Cut.layer d origin header padding) o child := by
        refine ⟨?_, Nat.succ_pos room, resolve_eq_dissect.1 stands, ?_⟩
        · rw [hpayload]
          exact offers
        · rw [hpayload]
          exact hfits
      have nonempty : ¬ inner.layers[0]? = none := by rw [hm]; exact Option.some_ne_none m
      refine ⟨⟨rfl, rfl⟩, ?_, fun m' hm' => ?_, fun o' child' nests' => ?_,
        fun hnone => (nonempty hnone).elim, fun hnone => (nonempty hnone).elim⟩
      · rw [hpayload]
        exact cut
      · have hsame : some m = some m' := hm.symm.trans hm'
        injection hsame with hsame
        subst hsame
        exact ⟨o, ho, hchild.symm ▸ nests⟩
      · obtain ⟨rfl, rfl⟩ := nests.unique nests'
        exact ⟨m, hm, hchild, ho⟩

end Registry

/-! ## §3. Whole buffers. -/

/-- An IPv4 layer that is not the first fragment offers nothing. -/
theorem Ipv4.first_of_unsealed {h : Bytes} (unsealed : Ipv4.isSealed h = .ok false) :
    Ipv4.Layout.fragmentOffset.value h = 0 := by
  obtain ⟨accepted, asked⟩ := HeaderFormat.accepts_of_answer unsealed (by decide)
  have hcovers : Ipv4.Layout.fragmentOffset.stop ≤ h.length :=
    Nat.le_trans (by decide) (Ipv4.accepts_iff.1 accepted).1
  rw [Field.get_eq_value hcovers] at asked
  injection asked with hfirst
  simpa using hfirst

namespace Registry

theorem decodeFrom_succeeds (root : d.Answers) (answers : r.Uses Dissector.Answers)
    (origin : Option Discriminant) (data : Bytes) (hasFcs : Bool) :
    ∃ out, r.decodeFrom d origin data hasFcs = .ok out := by
  cases hcut : cutFcs data hasFcs with
  | error e => exact ⟨_, decodeFrom_eq_ok.2 (.inl ⟨e, .inl hcut, rfl⟩)⟩
  | ok parts =>
    obtain ⟨frame, fcs⟩ := parts
    obtain ⟨found, hfound⟩ := @decodeLayers_succeeds r data answers (maxDepth - 1) d root origin
      frame
    cases found with
    | error e =>
      have hfails := (decodeLayers_eq_error (cutFcs_inside hcut)).1 hfound
      exact ⟨_, decodeFrom_eq_ok.2 (.inl ⟨e, .inr ⟨frame, fcs, hcut, hfails⟩, rfl⟩)⟩
    | ok branch =>
      exact ⟨_, decodeFrom_eq_ok.2 (.inr ⟨frame, fcs, branch, hcut, decodeLayers_eq_ok.1 hfound,
        rfl⟩)⟩

section Known

variable (uses : r.Uses (· ∈ Dissector.all))

include uses

theorem answers_of_uses : r.Uses Dissector.Answers := fun entry listed d told =>
  (Dissector.lawful_of_mem_all (uses entry listed d told)).total.answers

/-- **Every buffer is decoded,** if only to an error, from the header of any
protocol of the library on. -/
theorem decodeLayer_succeeds (known : d ∈ Dissector.all) (data : Bytes) (hasFcs : Bool) :
    ∃ out, r.decodeLayer d data hasFcs = .ok out :=
  decodeFrom_succeeds (Dissector.lawful_of_mem_all known).total.answers (answers_of_uses uses)
    none data hasFcs

/-- So it is from the link layer on. -/
theorem decode_succeeds (link : LinkType) (data : Bytes) (hasFcs : Bool) :
    ∃ out, r.decode link data hasFcs = .ok out := by
  have answers := answers_of_uses uses
  unfold decode
  split
  · next d stands =>
    exact decodeFrom_succeeds (answers _ (dissect_mem stands) d rfl) answers _ data hasFcs
  · exact ⟨_, rfl⟩

end Known

/-- **The decoder follows its rules**, and no others: for every registry,
outermost dissector and buffer. -/
theorem decodeFrom_follows (r : Registry) (d : Dissector) (origin : Option Discriminant)
    (data : Bytes) (hasFcs : Bool) :
    (d.Answers → r.Uses Dissector.Answers → ∃ out, r.decodeFrom d origin data hasFcs = .ok out)
    ∧ ∀ out, r.decodeFrom d origin data hasFcs = .ok out →
      (∀ e, out = .refused e ↔ BufferFails data d hasFcs e)
      ∧ ∀ p, out.packet? = some p → ∃ frame, cutFcs data hasFcs = .ok (frame, p.fcs)
        ∧ p.arena = data ∧ p.layers.length ≤ maxDepth
        ∧ (∃ root, p.layers[0]? = some root ∧ root.dissector = d ∧ root.origin = origin)
        ∧ (∀ depth l, p.layers[depth]? = some l →
          r.Follows data frame (maxDepth - 1) ⟨p.layers, p.body, out.error?⟩ depth l)
        ∧ ∀ depth l, p.layers[depth]? = some l → l.dissector = Ipv4.dissector →
          Ipv4.Layout.fragmentOffset.value (l.headerSpan.bytesOf data) ≠ 0 →
            p.layers[depth + 1]? = none := by
  refine ⟨fun root answers => decodeFrom_succeeds root answers origin data hasFcs,
    fun out h => ?_⟩
  rcases decodeFrom_eq_ok.1 h with ⟨e, hfails, rfl⟩ | ⟨frame, fcs, branch, hcut, found, rfl⟩
  · refine ⟨fun e' => ⟨fun he => ?_, fun hfails' => ?_⟩, fun p hp => (nomatch hp)⟩
    · injection he with he
      exact he ▸ hfails
    · rw [hfails.unique hfails']
  · obtain ⟨root, hroot, hd, horigin, hfits⟩ := found.head?
    refine ⟨fun e => iff_of_false (branch.decoding_ne_refused data fcs e)
      (not_bufferFails hcut hfits), fun p hp => ?_⟩
    rw [Branch.packet?_decoding] at hp
    injection hp with hp
    subst hp
    have follows := found.follows
    rw [Branch.error?_decoding]
    refine ⟨frame, hcut, rfl, found.length_le, ⟨root, hroot, hd, horigin⟩, follows, ?_⟩
    -- whatever is inside a layer was offered by it
    intro depth l hl hipv4 hoffset
    cases hm : branch.layers[depth + 1]? with
    | none => rfl
    | some m =>
      obtain ⟨o, _, nests⟩ := (follows depth l hl).sound m hm
      have hunsealed := nests.offers.unsealed
      rw [hipv4] at hunsealed
      exact (hoffset (Ipv4.first_of_unsealed hunsealed)).elim

/-- A frame with a trailing check sequence, whose IPv4 header is cut short:
the Ethernet layer offers its payload, but the header in it cannot be read. -/
theorem decodeFrom_follows_truncated :
    (∃ out, standard.decodeFrom Ethernet.dissector none
        (List.replicate 12 0 ++ [0x08, 0, 0x45, 0, 1, 2, 3, 4]) true = .ok out)
      ∧ ∃ p l, standard.decodeFrom Ethernet.dissector none
          (List.replicate 12 0 ++ [0x08, 0, 0x45, 0, 1, 2, 3, 4]) true
            = .ok (.stopped .truncated p)
        ∧ p.layers = [l]
        ∧ standard.FailsIn (List.replicate 12 0 ++ [0x08, 0, 0x45, 0, 1, 2, 3, 4])
          (maxDepth - 1) 0 l .truncated := by
  obtain ⟨succeeds, follows⟩ := decodeFrom_follows standard Ethernet.dissector none
    (List.replicate 12 0 ++ [0x08, 0, 0x45, 0, 1, 2, 3, 4]) true
  have answers := answers_of_uses standard_uses
  refine ⟨succeeds Ethernet.lawful.total.answers answers, _, _, rfl, rfl, ?_⟩
  obtain ⟨_, _, _, _, _, rules, _⟩ := (follows _ rfl).2 _ rfl
  exact ((rules 0 _ rfl).failure rfl .truncated).1 rfl

end Registry

end PacketLayers
