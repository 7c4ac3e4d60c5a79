/-
  PacketLayers.Proofs.Rules
  ────────────────────────────────
  **THE DECODER FOLLOWS ITS RULES, AND NO OTHERS.**

  A layer is cut into a header, a payload and padding.  The payload becomes a
  layer if there is any, the layer around it does not seal it and names it,
  there is room, the name stands for a dissector, and that dissector finds its
  header in the payload.  Otherwise it stays bytes; it should have been a layer
  if the name is refused, or only the header was wanting.  `Dispatched` has one
  constructor for either case, and the decoder is what it says, in both
  directions:

    • `decodeLayers_eq_ok` — a branch is decoded exactly if the rules lead to
      it;
    • `decodeLayers_eq_error` — nothing is decoded exactly if the first header
      cannot be read;
    • `decodeFrom_eq_ok` — the same for a buffer with its frame check sequence.
-/
import PacketLayers.Packet.Decode
import PacketLayers.Proofs.Serialize

namespace PacketLayers

variable {r : Registry} {arena : Bytes} {d child : Dissector} {origin : Option Discriminant}
  {span header payload padding : Span} {e : Error} {branch inner : Branch} {room : Nat}

/-! ## §1. Cutting one layer. -/

/-- A span of the arena cut into header, body and padding by the answers of a
dissector. -/
structure Cut (arena : Bytes) (d : Dissector) (span header body padding : Span) : Prop where
  inside : span.stop ≤ arena.length
  /-- The three parts lie side by side and fill the span. -/
  header_offset : header.offset = span.offset
  body_offset : body.offset = header.stop
  padding_offset : padding.offset = body.stop
  padding_stop : padding.stop = span.stop
  /-- The header is as long as the dissector says. -/
  header_length : d.headerLength (span.bytesOf arena) = .ok header.length
  /-- The body is as long as the dissector says, or as long as possible. -/
  body_length : ∃ stated, d.payloadLength (header.bytesOf arena) (body.length + padding.length)
      = .ok stated ∧ body.length = min stated (body.length + padding.length)

/-- The layer cut out of a span. -/
def Cut.layer (d : Dissector) (origin : Option Discriminant) (header padding : Span) : Layer :=
  ⟨d, origin, .shared header, .shared padding⟩

namespace Registry

theorem cutHeader_eq_ok {arena : Bytes} {d : Dissector} {span header rest : Span}
    (h : cutHeader arena d span = .ok (header, rest)) :
    span.stop ≤ arena.length ∧ d.headerLength (span.bytesOf arena) = .ok header.length
      ∧ header.offset = span.offset ∧ rest.offset = header.stop ∧ rest.stop = span.stop := by
  unfold cutHeader at h
  obtain ⟨view, hview, h⟩ := bind_eq_ok.1 h
  obtain ⟨size, hsize, h⟩ := bind_eq_ok.1 h
  obtain ⟨first, hfirst, h⟩ := bind_eq_ok.1 h
  obtain ⟨tail, htail, h⟩ := bind_eq_ok.1 h
  injection h with h
  injection h with hh hr
  subst hh hr
  -- the view is granted inside the arena only, and both cuts inside the view
  unfold View.ofSpan at hview
  split at hview
  · next inside =>
    injection hview with hview
    subst hview
    unfold Span.slice at hfirst
    unfold Span.tail at htail
    split at hfirst
    · split at htail
      · next hroom =>
        injection hfirst with hfirst
        injection htail with htail
        subst hfirst htail
        refine ⟨inside, hsize, rfl, ?_, ?_⟩
        · simp only [Span.stop]
          omega
        · simp only [Span.stop]
          omega
      · cases htail
    · cases hfirst
  · cases hview

/-- A header that was cut off, and what its dissector says about the rest: the
body ends where the stated length or the span does, padding fills the rest. -/
theorem cut_of_cutHeader {arena : Bytes} {d : Dissector} {span header rest : Span} {stated : Nat}
    (h : cutHeader arena d span = .ok (header, rest))
    (states : d.payloadLength (header.bytesOf arena) rest.length = .ok stated) :
    Cut arena d span header ⟨rest.offset, min stated rest.length⟩
      ⟨rest.offset + min stated rest.length, rest.length - min stated rest.length⟩ := by
  obtain ⟨hinside, hlength, hheader, hrest, hstop⟩ := cutHeader_eq_ok h
  refine ⟨hinside, hheader, hrest, rfl, ?_, hlength, stated, ?_, ?_⟩
  · unfold Span.stop at hstop ⊢
    simp only
    omega
  · have hfill : min stated rest.length + (rest.length - min stated rest.length)
        = rest.length := by
      omega
    simp only [hfill]
    exact states
  · simp only
    omega

/-! ## §2. Headers that can be read. -/

/-- The header at the start of a span ends inside it. -/
def HeaderFits (arena : Bytes) (d : Dissector) (span : Span) : Prop :=
  ∃ size, d.headerLength (span.bytesOf arena) = .ok size ∧ size ≤ span.length

/-- Why the header at the start of a span cannot be read: its dissector says
so, or it ends beyond the span. -/
def HeaderFails (arena : Bytes) (d : Dissector) (span : Span) (e : Error) : Prop :=
  d.headerLength (span.bytesOf arena) = .error e
    ∨ e = .truncated
      ∧ ∃ size, d.headerLength (span.bytesOf arena) = .ok size ∧ span.length < size

/-- A header fits or fails, not both. -/
theorem HeaderFits.not_fails (fits : HeaderFits arena d span) : ¬ HeaderFails arena d span e := by
  obtain ⟨size, hsize, hle⟩ := fits
  rintro (herror | ⟨_, size', hsize', hlt⟩)
  · rw [hsize] at herror
    cases herror
  · obtain rfl : size = size' := Except.ok.inj (hsize.symm.trans hsize')
    omega

/-- A header fails for one reason. -/
theorem HeaderFails.unique {e' : Error} (h : HeaderFails arena d span e)
    (h' : HeaderFails arena d span e') : e = e' := by
  rcases h with herror | ⟨rfl, size, hsize, _⟩ <;> rcases h' with herror' | ⟨rfl, size', hsize', _⟩
  · exact Except.error.inj (herror.symm.trans herror')
  · cases herror.symm.trans hsize'
  · cases hsize.symm.trans herror'
  · rfl

theorem cutHeader_eq (inside : span.stop ≤ arena.length) :
    cutHeader arena d span = d.headerLength (span.bytesOf arena) >>= fun size =>
      if size ≤ span.length then .ok (⟨span.offset, size⟩, ⟨span.offset + size, span.length - size⟩)
      else .error .truncated := by
  unfold cutHeader View.ofSpan
  rw [dif_pos inside, ok_bind]
  refine congrArg (d.headerLength (span.bytesOf arena) >>= ·) (funext fun size => ?_)
  have hslice : span.slice 0 size
      = if size ≤ span.length then .ok ⟨span.offset, size⟩ else .error .outOfBounds := by
    unfold Span.slice
    rw [Nat.zero_add]
    rfl
  have htail : span.tail size
      = if size ≤ span.length then .ok ⟨span.offset + size, span.length - size⟩
        else .error .outOfBounds := rfl
  rw [hslice, htail]
  by_cases hfits : size ≤ span.length
  · rw [if_pos hfits, if_pos hfits, if_pos hfits]
    rfl
  · rw [if_neg hfits, if_neg hfits, if_neg hfits]
    rfl

theorem cutHeader_eq_error (inside : span.stop ≤ arena.length) :
    cutHeader arena d span = .error e ↔ HeaderFails arena d span e := by
  rw [cutHeader_eq inside, HeaderFails]
  cases hsize : d.headerLength (span.bytesOf arena) with
  | error e' => simp
  | ok size =>
    rw [ok_bind]
    by_cases hfits : size ≤ span.length
    · rw [if_pos hfits]
      simp only [reduceCtorEq, Except.ok.injEq, exists_eq_left', false_or, false_iff, not_and]
      omega
    · rw [if_neg hfits]
      simp only [reduceCtorEq, Except.ok.injEq, Except.error.injEq, exists_eq_left', false_or]
      constructor
      · rintro rfl
        exact ⟨rfl, by omega⟩
      · rintro ⟨rfl, _⟩
        rfl

/-- Every cut is made by the header in front of it. -/
theorem cutHeader_of_cut (cut : Cut arena d span header payload padding) :
    cutHeader arena d span
      = .ok (header, ⟨payload.offset, payload.length + padding.length⟩) := by
  have hheader := cut.header_offset
  have hpayload := cut.body_offset
  have hpadding := cut.padding_offset
  have hstop := cut.padding_stop
  rw [cutHeader_eq cut.inside, cut.header_length, ok_bind]
  unfold Span.stop at hpayload hpadding hstop
  rw [if_pos (by omega), ← hheader]
  have hrest : span.length - header.length = payload.length + padding.length := by omega
  rw [hrest, ← hpayload]

theorem fits_of_cut (cut : Cut arena d span header payload padding) : HeaderFits arena d span := by
  have hheader := cut.header_offset
  have hpayload := cut.body_offset
  have hpadding := cut.padding_offset
  have hstop := cut.padding_stop
  refine ⟨_, cut.header_length, ?_⟩
  unfold Span.stop at hpayload hpadding hstop
  omega

theorem payload_inside (cut : Cut arena d span header payload padding) :
    payload.stop ≤ arena.length := by
  have hinside := cut.inside
  have hpadding := cut.padding_offset
  have hstop := cut.padding_stop
  unfold Span.stop at *
  omega

theorem header_inside (cut : Cut arena d span header payload padding) :
    header.stop ≤ arena.length := by
  have hpayload := cut.body_offset
  have hinside := payload_inside cut
  unfold Span.stop at *
  omega

/-! ## §3. The rules. -/

/-- Payloads announced by a discriminant fail decoding: it is marked so, or
unknown in a number space where every discriminant has to be known. -/
def Refuses (r : Registry) (o : Discriminant) : Prop :=
  r.instructions.lookup o = some .refuse
    ∨ r.instructions.lookup o = none ∧ o.space ∈ r.strict

theorem resolve_eq_dissect {o : Discriminant} :
    r.resolve o = .dissect child ↔ r.lookup? o = some child := by
  unfold resolve lookup?
  cases r.instructions.lookup o with
  | none => by_cases hstrict : o.space ∈ r.strict <;> simp [hstrict]
  | some instruction => cases instruction <;> simp

theorem resolve_eq_refuse {o : Discriminant} : r.resolve o = .refuse ↔ r.Refuses o := by
  unfold resolve Refuses
  split
  · next hl => simp [hl]
  · next hl => simp [hl]
  · next hl =>
    rw [hl]
    split
    · next hstrict => simpa using hstrict
    · next hopen => simpa using hopen

/-- A layer offers its payload to whatever decodes it under a name: there is a
payload, the layer does not seal it, and names it. -/
structure Offers (arena : Bytes) (d : Dissector) (header payload : Span) (o : Discriminant) :
    Prop where
  nonempty : payload.length ≠ 0
  unsealed : d.sealed (header.bytesOf arena) = .ok false
  named : d.next (header.bytesOf arena) (payload.bytesOf arena) = .ok (some o)

/-- A payload has one name. -/
theorem Offers.unique {o o' : Discriminant} (h : Offers arena d header payload o)
    (h' : Offers arena d header payload o') : o' = o := by
  have hsame := h.named.symm.trans h'.named
  injection hsame with hsame
  injection hsame with hsame
  exact hsame.symm

/-- Why a payload stays bytes, and the failure if it should have been
decoded. -/
inductive Stays (r : Registry) (arena : Bytes) (room : Nat) (d : Dissector)
    (header payload : Span) : Option Error → Prop where
  /-- There is nothing to decode. -/
  | empty (empty : payload.length = 0) : Stays r arena room d header payload none
  | closed (nonempty : payload.length ≠ 0) (closed : d.sealed (header.bytesOf arena) = .ok true) :
      Stays r arena room d header payload none
  | unnamed (nonempty : payload.length ≠ 0) (unsealed : d.sealed (header.bytesOf arena) = .ok false)
      (unnamed : d.next (header.bytesOf arena) (payload.bytesOf arena) = .ok none) :
      Stays r arena room d header payload none
  | full {o : Discriminant} (offers : Offers arena d header payload o) (full : room = 0) :
      Stays r arena room d header payload none
  | unknown {o : Discriminant} (offers : Offers arena d header payload o) (deep : 0 < room)
      (kept : r.resolve o = .keep) : Stays r arena room d header payload none
  | refused {o : Discriminant} (offers : Offers arena d header payload o) (deep : 0 < room)
      (refused : r.resolve o = .refuse) : Stays r arena room d header payload (some .notImplemented)
  | unreadable {o : Discriminant} {child : Dissector} {e : Error}
      (offers : Offers arena d header payload o) (deep : 0 < room)
      (stands : r.resolve o = .dissect child) (fails : HeaderFails arena child payload e) :
      Stays r arena room d header payload (some e)

/-- A payload as bytes, if it has any. -/
def rawBody (payload : Span) : Option Region :=
  if payload.length = 0 then none else some (.shared payload)

/-- What the rules make of a span, with room for some number of layers inside
the first. -/
inductive Dispatched (r : Registry) (arena : Bytes) :
    (room : Nat) → Dissector → Option Discriminant → Span → Branch → Prop where
  /-- A layer whose payload stays bytes. -/
  | innermost {room : Nat} {d : Dissector} {origin : Option Discriminant}
      {span header payload padding : Span} {failure : Option Error}
      (cut : Cut arena d span header payload padding)
      (stays : Stays r arena room d header payload failure) :
      Dispatched r arena room d origin span
        ⟨[Cut.layer d origin header padding], rawBody payload, failure⟩
  /-- A layer whose payload is another one. -/
  | around {room : Nat} {d child : Dissector} {origin : Option Discriminant} {o : Discriminant}
      {span header payload padding : Span} {inner : Branch}
      (cut : Cut arena d span header payload padding) (offers : Offers arena d header payload o)
      (stands : r.resolve o = .dissect child)
      (inside : Dispatched r arena room child (some o) payload inner) :
      Dispatched r arena (room + 1) d origin span
        { inner with layers := Cut.layer d origin header padding :: inner.layers }

/-! ## §4. The decoder is what the rules say. -/

/-- How payloads are decoded with room for some number of layers. -/
def within (r : Registry) (arena : Bytes) : (room : Nat) → Option Nested
  | 0 => none
  | room + 1 => some fun next announced body => decodeLayers r arena room next (some announced) body

theorem decodeLayers_eq (r : Registry) (arena : Bytes) (room : Nat) (d : Dissector)
    (origin : Option Discriminant) (span : Span) :
    decodeLayers r arena room d origin span
      = decodeWith r arena (within r arena room) d origin span := by
  cases room <;> rfl

theorem decodeWith_eq_error {nested : Option Nested} (inside : span.stop ≤ arena.length) :
    decodeWith r arena nested d origin span = .ok (.error e) ↔ HeaderFails arena d span e := by
  rw [← cutHeader_eq_error inside]
  unfold decodeWith
  cases hcut : cutHeader arena d span with
  | error e' => simp
  | ok parts =>
    simp only [reduceCtorEq, iff_false]
    intro h
    obtain ⟨_, _, h⟩ := bind_eq_ok.1 h
    obtain ⟨_, _, h⟩ := bind_eq_ok.1 h
    cases h

/-- **Nothing is decoded** exactly if the first header cannot be read. -/
theorem decodeLayers_eq_error (inside : span.stop ≤ arena.length) :
    decodeLayers r arena room d origin span = .ok (.error e) ↔ HeaderFails arena d span e := by
  rw [decodeLayers_eq]
  exact decodeWith_eq_error inside

/-- A layer is cut, and its payload decoded. -/
theorem decodeWith_eq_ok {nested : Option Nested} :
    decodeWith r arena nested d origin span = .ok (.ok branch)
      ↔ ∃ header payload padding inner, Cut arena d span header payload padding
        ∧ decodePayload r arena nested d (header.bytesOf arena) payload = .ok inner
        ∧ branch = { inner with layers := Cut.layer d origin header padding :: inner.layers } := by
  unfold decodeWith
  constructor
  · intro h
    split at h
    · injection h with h
      cases h
    · next header rest hcut =>
      obtain ⟨stated, hstated, h⟩ := bind_eq_ok.1 h
      obtain ⟨inner, hinner, h⟩ := bind_eq_ok.1 h
      injection h with h
      injection h with h
      exact ⟨_, _, _, inner, cut_of_cutHeader hcut hstated, hinner, h.symm⟩
  · rintro ⟨header, payload, padding, inner, cut, hinner, rfl⟩
    obtain ⟨stated, hstated, hlength⟩ := cut.body_length
    have hpadding : padding
        = ⟨payload.offset + payload.length, payload.length + padding.length - payload.length⟩ := by
      have hoffset := cut.padding_offset
      unfold Span.stop at hoffset
      rw [Nat.add_sub_cancel_left, ← hoffset]
    rw [cutHeader_of_cut cut]
    simp only [hstated, ok_bind, ← hlength]
    rw [hinner, ok_bind, ← hpadding]
    rfl

theorem isEmpty_payload (inside : payload.stop ≤ arena.length) :
    (payload.bytesOf arena).isEmpty = true ↔ payload.length = 0 := by
  rw [List.isEmpty_iff_length_eq_zero, Span.length_bytesOf inside]

theorem raw_of_nonempty (nonempty : payload.length ≠ 0) (failure : Option Error) :
    Branch.raw payload failure = ⟨[], rawBody payload, failure⟩ := by
  rw [rawBody, if_neg nonempty]
  rfl

/-- Every way out of the decoder is one of the rules. -/
theorem rule_of_decodePayload (inside : payload.stop ≤ arena.length)
    (h : decodePayload r arena (within r arena room) d (header.bytesOf arena) payload = .ok inner) :
    (∃ failure, Stays r arena room d header payload failure
        ∧ inner = ⟨[], rawBody payload, failure⟩)
      ∨ ∃ room' o child, room = room' + 1 ∧ Offers arena d header payload o
        ∧ r.resolve o = .dissect child
        ∧ decodeLayers r arena room' child (some o) payload = .ok (.ok inner) := by
  -- question by question, in the order in which the decoder asks them
  unfold decodePayload at h
  simp only at h
  split at h
  · next hnothing =>
    have hnone := (isEmpty_payload inside).1 hnothing
    injection h with h
    refine .inl ⟨none, .empty hnone, ?_⟩
    rw [← h, rawBody, if_pos hnone]
    rfl
  · next hsome =>
    have hfull : payload.length ≠ 0 := mt (isEmpty_payload inside).2 hsome
    have hraw := raw_of_nonempty hfull
    obtain ⟨isSealed, hsealed, h⟩ := bind_eq_ok.1 h
    cases isSealed with
    | true =>
      injection h with h
      exact .inl ⟨none, .closed hfull hsealed, h ▸ hraw none⟩
    | false =>
      obtain ⟨stated, hstated, h⟩ := bind_eq_ok.1 h
      cases stated with
      | none =>
        injection h with h
        exact .inl ⟨none, .unnamed hfull hsealed hstated, h ▸ hraw none⟩
      | some o =>
        have offers : Offers arena d header payload o := ⟨hfull, hsealed, hstated⟩
        cases room with
        | zero =>
          injection h with h
          exact .inl ⟨none, .full offers rfl, h ▸ hraw none⟩
        | succ room =>
          -- there is room, so what the name stands for decides
          simp only [within] at h
          split at h
          · next hkept =>
            injection h with h
            exact .inl ⟨none, .unknown offers (Nat.succ_pos room) hkept, h ▸ hraw none⟩
          · next hrefused =>
            injection h with h
            exact .inl ⟨_, .refused offers (Nat.succ_pos room) hrefused, h ▸ hraw _⟩
          · next child hstands =>
            obtain ⟨out, hout, h⟩ := bind_eq_ok.1 h
            cases out with
            | ok found =>
              injection h with h
              subst h
              exact .inr ⟨room, o, child, rfl, offers, hstands, hout⟩
            | error e =>
              injection h with h
              have hfails := (decodeLayers_eq_error inside).1 hout
              exact .inl ⟨_, .unreadable offers (Nat.succ_pos room) hstands hfails, h ▸ hraw _⟩

/-- And every rule that leaves the payload bytes is taken. -/
theorem decodePayload_of_stays (inside : payload.stop ≤ arena.length) {failure : Option Error}
    (stays : Stays r arena room d header payload failure) :
    decodePayload r arena (within r arena room) d (header.bytesOf arena) payload
      = .ok ⟨[], rawBody payload, failure⟩ := by
  have hempty := isEmpty_payload inside
  unfold decodePayload
  -- a rule holds the answers up to the question that stops the decoder
  cases stays with
  | empty hnone =>
    rw [rawBody, if_pos hnone]
    simp only [hempty.2 hnone, if_true]
    rfl
  | closed hfull hsealed =>
    rw [← raw_of_nonempty hfull]
    simp only [mt hempty.1 hfull, hsealed, ok_bind, if_true]
    rfl
  | unnamed hfull hsealed hstated =>
    rw [← raw_of_nonempty hfull]
    simp only [mt hempty.1 hfull, hsealed, hstated, ok_bind, Bool.false_eq_true, if_false]
    rfl
  | full offers hroom =>
    subst hroom
    rw [← raw_of_nonempty offers.nonempty]
    simp only [mt hempty.1 offers.nonempty, offers.unsealed, offers.named, ok_bind,
      Bool.false_eq_true, if_false]
    rfl
  | unknown offers deep hkept =>
    obtain ⟨room, rfl⟩ := Nat.exists_eq_succ_of_ne_zero (Nat.ne_of_gt deep)
    rw [← raw_of_nonempty offers.nonempty]
    simp only [mt hempty.1 offers.nonempty, offers.unsealed, offers.named, ok_bind, within,
      hkept, Bool.false_eq_true, if_false]
    rfl
  | refused offers deep hrefused =>
    obtain ⟨room, rfl⟩ := Nat.exists_eq_succ_of_ne_zero (Nat.ne_of_gt deep)
    rw [← raw_of_nonempty offers.nonempty]
    simp only [mt hempty.1 offers.nonempty, offers.unsealed, offers.named, ok_bind, within,
      hrefused, Bool.false_eq_true, if_false]
    rfl
  | @unreadable o child e offers deep hstands hfails =>
    obtain ⟨room, rfl⟩ := Nat.exists_eq_succ_of_ne_zero (Nat.ne_of_gt deep)
    have hout := (@decodeLayers_eq_error r arena child (some o) payload e room inside).2 hfails
    rw [← raw_of_nonempty offers.nonempty]
    simp only [mt hempty.1 offers.nonempty, offers.unsealed, offers.named, ok_bind, within,
      hstands, hout, Bool.false_eq_true, if_false]
    rfl

/-- What becomes of a payload. -/
theorem decodePayload_eq_ok (inside : payload.stop ≤ arena.length) :
    decodePayload r arena (within r arena room) d (header.bytesOf arena) payload = .ok inner
      ↔ (∃ failure, Stays r arena room d header payload failure
          ∧ inner = ⟨[], rawBody payload, failure⟩)
        ∨ ∃ room' o child, room = room' + 1 ∧ Offers arena d header payload o
          ∧ r.resolve o = .dissect child
          ∧ decodeLayers r arena room' child (some o) payload = .ok (.ok inner) := by
  constructor
  · exact rule_of_decodePayload inside
  · rintro (⟨failure, stays, rfl⟩ | ⟨room', o, child, rfl, offers, hstands, hinner⟩)
    · exact decodePayload_of_stays inside stays
    · unfold decodePayload
      simp only [mt (isEmpty_payload inside).1 offers.nonempty, offers.unsealed, offers.named,
        ok_bind, within, hstands, hinner, Bool.false_eq_true, if_false]
      rfl

/-- A layer is decoded by the rules if those inside it are. -/
theorem dispatched_of_inner
    (inner : ∀ room', room = room' + 1 → ∀ {child : Dissector} {o : Option Discriminant}
      {payload : Span} {branch : Branch}, decodeLayers r arena room' child o payload
        = .ok (.ok branch) ↔ Dispatched r arena room' child o payload branch) :
    decodeLayers r arena room d origin span = .ok (.ok branch)
      ↔ Dispatched r arena room d origin span branch := by
  rw [decodeLayers_eq, decodeWith_eq_ok]
  constructor
  · rintro ⟨header, payload, padding, inside, cut, hinside, rfl⟩
    rcases (decodePayload_eq_ok (payload_inside cut)).1 hinside with
      ⟨failure, stays, rfl⟩ | ⟨room', o, child, rfl, offers, stands, hfound⟩
    · exact .innermost cut stays
    · exact .around cut offers stands ((inner room' rfl).1 hfound)
  · intro h
    cases h with
    | innermost cut stays =>
      exact ⟨_, _, _, _, cut, (decodePayload_eq_ok (payload_inside cut)).2 (.inl ⟨_, stays, rfl⟩),
        rfl⟩
    | around cut offers stands inside =>
      exact ⟨_, _, _, _, cut, (decodePayload_eq_ok (payload_inside cut)).2
        (.inr ⟨_, _, _, rfl, offers, stands, (inner _ rfl).2 inside⟩), rfl⟩

/-- **A branch is decoded** exactly if the rules lead to it. -/
theorem decodeLayers_eq_ok {room : Nat} :
    ∀ {d : Dissector} {origin : Option Discriminant} {span : Span} {branch : Branch},
      decodeLayers r arena room d origin span = .ok (.ok branch)
        ↔ Dispatched r arena room d origin span branch := by
  -- on the room left, since each layer is decoded with one less
  induction room with
  | zero => exact dispatched_of_inner fun room' hroom => nomatch hroom
  | succ room ih =>
    refine dispatched_of_inner fun room' hroom => ?_
    obtain rfl := Nat.succ.inj hroom
    exact ih

end Registry

/-! ## §5. Whole buffers. -/

/-- What is answered for a frame that a branch was found in. -/
def Branch.decoding (branch : Branch) (data : Bytes) (fcs : Option Region) : Decoding :=
  match branch.failure with
  | none => .complete ⟨data, branch.layers, branch.body, fcs, false⟩
  | some e => .stopped e ⟨data, branch.layers, branch.body, fcs, false⟩

@[simp] theorem Branch.packet?_decoding (branch : Branch) (data : Bytes) (fcs : Option Region) :
    (branch.decoding data fcs).packet? = some ⟨data, branch.layers, branch.body, fcs, false⟩ := by
  unfold decoding
  cases branch.failure <;> rfl

@[simp] theorem Branch.error?_decoding (branch : Branch) (data : Bytes) (fcs : Option Region) :
    (branch.decoding data fcs).error? = branch.failure := by
  unfold decoding
  cases branch.failure <;> rfl

theorem Branch.decoding_ne_refused (branch : Branch) (data : Bytes) (fcs : Option Region)
    (e : Error) : branch.decoding data fcs ≠ .refused e := by
  unfold decoding
  cases branch.failure <;> exact Decoding.noConfusion

namespace Registry

/-- Why nothing is decoded of a buffer: it has no room for the frame check
sequence, or its first header cannot be read. -/
def BufferFails (data : Bytes) (d : Dissector) (hasFcs : Bool) (e : Error) : Prop :=
  cutFcs data hasFcs = .error e
    ∨ ∃ frame fcs, cutFcs data hasFcs = .ok (frame, fcs) ∧ HeaderFails data d frame e

theorem BufferFails.unique {data : Bytes} {hasFcs : Bool} {e' : Error}
    (h : BufferFails data d hasFcs e) (h' : BufferFails data d hasFcs e') : e = e' := by
  rcases h with herror | ⟨frame, fcs, hcut, hfails⟩ <;>
    rcases h' with herror' | ⟨frame', fcs', hcut', hfails'⟩
  · exact Except.error.inj (herror.symm.trans herror')
  · cases herror.symm.trans hcut'
  · cases hcut.symm.trans herror'
  · obtain ⟨rfl, _⟩ := Prod.mk.inj (Except.ok.inj (hcut.symm.trans hcut'))
    exact hfails.unique hfails'

/-- A buffer whose first header can be read does not fail. -/
theorem not_bufferFails {data : Bytes} {hasFcs : Bool} {frame : Span} {fcs : Option Region}
    (cut : cutFcs data hasFcs = .ok (frame, fcs)) (fits : HeaderFits data d frame) :
    ¬ BufferFails data d hasFcs e := by
  rintro (herror | ⟨frame', fcs', hcut', hfails⟩)
  · cases cut.symm.trans herror
  · obtain ⟨rfl, _⟩ := Prod.mk.inj (Except.ok.inj (cut.symm.trans hcut'))
    exact fits.not_fails hfails

/-- The frame and its check sequence fill the buffer. -/
theorem cutFcs_tiles {data : Bytes} {hasFcs : Bool} {frame : Span} {fcs : Option Region}
    (h : cutFcs data hasFcs = .ok (frame, fcs)) :
    frame.offset = 0 ∧ Region.Tiles frame.stop fcs.toList data.length := by
  unfold cutFcs at h
  split at h
  · split at h
    · cases h
    · next hlong =>
      injection h with h
      injection h with hframe hfcs
      subst hframe hfcs
      refine ⟨rfl, fcsLength, by simp [Span.stop], ?_⟩
      simp only [Span.stop, Region.Tiles]
      omega
  · injection h with h
    injection h with hframe hfcs
    subst hframe hfcs
    exact ⟨rfl, by simp [Span.stop, Region.Tiles]⟩

theorem cutFcs_inside {data : Bytes} {hasFcs : Bool} {frame : Span} {fcs : Option Region}
    (cut : cutFcs data hasFcs = .ok (frame, fcs)) : frame.stop ≤ data.length := by
  have hlast := (cutFcs_tiles cut).2.last_eq
  omega

/-- **A buffer is decoded** to whatever branch the rules lead to, or to nothing
if it fails. -/
theorem decodeFrom_eq_ok {data : Bytes} {hasFcs : Bool} {out : Decoding} :
    r.decodeFrom d origin data hasFcs = .ok out
      ↔ (∃ e, BufferFails data d hasFcs e ∧ out = .refused e)
        ∨ ∃ frame fcs branch, cutFcs data hasFcs = .ok (frame, fcs)
          ∧ Dispatched r data (maxDepth - 1) d origin frame branch
          ∧ out = branch.decoding data fcs := by
  unfold decodeFrom
  constructor
  · intro h
    -- the check sequence is cut off before anything else is read
    cases hcut : cutFcs data hasFcs with
    | error e =>
      rw [hcut] at h
      injection h with h
      exact .inl ⟨e, .inl hcut, h.symm⟩
    | ok parts =>
      obtain ⟨frame, fcs⟩ := parts
      rw [hcut] at h
      obtain ⟨found, hfound, h⟩ := bind_eq_ok.1 h
      cases found with
      | error e =>
        injection h with h
        have hfails := (decodeLayers_eq_error (cutFcs_inside hcut)).1 hfound
        exact .inl ⟨e, .inr ⟨frame, fcs, hcut, hfails⟩, h.symm⟩
      | ok branch =>
        refine .inr ⟨frame, fcs, branch, rfl, decodeLayers_eq_ok.1 hfound, ?_⟩
        unfold Branch.decoding
        cases hfailure : branch.failure with
        | none =>
          simp only [hfailure] at h
          exact (Except.ok.inj h).symm
        | some e =>
          simp only [hfailure] at h
          exact (Except.ok.inj h).symm
  · rintro (⟨e, hcut | ⟨frame, fcs, hcut, hfails⟩, rfl⟩ | ⟨frame, fcs, branch, hcut, found, rfl⟩)
    · rw [hcut]
      rfl
    · rw [hcut]
      simp only [(decodeLayers_eq_error (cutFcs_inside hcut)).2 hfails, ok_bind]
      rfl
    · rw [hcut]
      simp only [decodeLayers_eq_ok.2 found, ok_bind]
      unfold Branch.decoding
      cases branch.failure <;> rfl

end Registry

end PacketLayers
