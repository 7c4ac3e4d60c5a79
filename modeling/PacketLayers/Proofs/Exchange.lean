/-
  PacketLayers.Proofs.Exchange
  ────────────────────────────────
  **ANOTHER HEADER, THE SAME LAYERS AROUND AND INSIDE IT.**

  One header of a captured packet is exchanged for another one, shorter or
  longer, that says the same of what is inside.  Layers around it get another
  payload, and are measured anew; layers inside it keep theirs.  When all
  headers were brought up to date, decoding finds the same layers again.

    • `Dissector.Exchanges` — what the new header has to have in common with
      the old one;
    • `Parses.again` — the rules for layers that kept their payload;
    • `Parses.exchanged` — the rules around the new header;
    • `decodeFrom_exchanged` — the same for packets.
-/
import PacketLayers.Proofs.Announcement
import PacketLayers.Proofs.Replacement

namespace PacketLayers

/-! ## §1. The first byte of a payload. -/

namespace Bytes

theorem version?_eq (b : Bytes) : b.version? = b.head?.map fun x : UInt8 => x >>> 4 := by
  cases b <;> rfl

theorem version?_eq_none {b : Bytes} : b.version? = none ↔ b = [] := by
  rw [version?_eq, Option.map_eq_none_iff, List.head?_eq_none_iff]

theorem version?_append (a b : Bytes) : (a ++ b).version? = a.version?.or b.version? := by
  rw [version?_eq, version?_eq, version?_eq, List.head?_append, Option.map_or]

end Bytes

/-- Raw IP reads nothing but the version. -/
theorem RawIp.next_eq (payload : Bytes) : next payload = payload.version?.map .ipVersion := by
  cases payload <;> rfl

namespace Dissector

variable {d : Dissector}

/-- Of a payload only the first four bits have a say in what it is named. -/
theorem next_of_version (known : d ∈ all) (h : Bytes) {payload payload' : Bytes}
    (same : payload'.version? = payload.version?) : d.next h payload' = d.next h payload := by
  cases known using Dissector.all_cases with
  | rawIp =>
    show Except.ok (RawIp.next payload') = Except.ok (RawIp.next payload)
    rw [RawIp.next_eq, RawIp.next_eq, same]
  | _ => rfl

/-! ## §2. Headers that can be exchanged. -/

/-- A header in place of another one: it is whole, says of what is inside what
the other one says, begins with the same version, and when it was brought up to
date it cuts off the payload that it was brought up to date with, if the
padding is kept apart by a length that fits. -/
structure Exchanges (d : Dissector) (h h₁ : Bytes) : Prop where
  whole : d.Whole h₁
  nonempty : h₁ ≠ []
  isSealed : d.sealed h₁ = d.sealed h
  next : ∀ payload, d.next h₁ payload = d.next h payload
  version : h₁.version? = h.version?
  cuts : ∀ {h' : Bytes} {cx : Context} {old padding stated : Nat},
    d.payloadLength h (old + padding) = .ok stated → old = min stated (old + padding) →
      d.recompute h₁ cx = .ok h' → padding = 0 ∨ d.kind.Fits h₁.length cx.payload.length →
        ∃ stated', d.payloadLength h' (cx.payload.length + padding) = .ok stated'
          ∧ cx.payload.length = min stated' (cx.payload.length + padding)

/-- Bytes that begin with the new header carry the same version. -/
theorem Exchanges.version_append {header header₁ header' : Bytes} {cx : Context}
    (exchanges : d.Exchanges header header₁) (steady : d.Steady)
    (ok : d.recompute header₁ cx = .ok header') (rest rest' : Bytes) :
    (header' ++ rest').version? = (header ++ rest).version? := by
  have hhead := (PlainLayer.Touched.header_keeps steady exchanges.whole ok).2
  have hsame : header'.version? = header.version? :=
    (Bytes.version?_of_head? hhead).trans exchanges.version
  have hsome : header.version? ≠ none := fun hnone =>
    exchanges.nonempty (Bytes.version?_eq_none.1 (exchanges.version.trans hnone))
  obtain ⟨v, hv⟩ := Option.ne_none_iff_exists'.1 hsome
  rw [Bytes.version?_append, Bytes.version?_append, hsame, hv, Option.some_or, Option.some_or]

end Dissector

namespace PlainLayer

/-- The layers with another header in one of them. -/
def exchanged (outer : List PlainLayer) (l : PlainLayer) (header : Bytes)
    (inner : List PlainLayer) : List PlainLayer :=
  outer ++ { l with header := header } :: inner

/-- What does not depend on headers is the same with another one. -/
theorem map_exchanged {α : Type} {f : PlainLayer → α} {outer inner : List PlainLayer}
    {l : PlainLayer} {header : Bytes} (ignores : f { l with header := header } = f l) :
    (exchanged outer l header inner).map f = (outer ++ l :: inner).map f := by
  rw [exchanged, List.map_append, List.map_cons, ignores, List.map_append, List.map_cons]

/-- The protocols are the same too. -/
theorem known_exchanged {known : Dissector → Prop} {outer inner : List PlainLayer} {l : PlainLayer}
    (header : Bytes) (h : ∀ m ∈ outer ++ l :: inner, known m.dissector) :
    ∀ m ∈ exchanged outer l header inner, known m.dissector := by
  intro m hm
  have hdissector := List.mem_map_of_mem (f := PlainLayer.dissector) hm
  rw [map_exchanged rfl] at hdissector
  obtain ⟨m', hm', hsame⟩ := List.mem_map.1 hdissector
  exact hsame ▸ h m' hm'

/-- A layer of the list with another header. -/
theorem getElem?_exchanged {outer inner : List PlainLayer} {l m : PlainLayer} {i : Nat}
    (header : Bytes) (found : (outer ++ l :: inner)[i]? = some m) :
    (exchanged outer l header inner)[i]?
      = some { m with header := if i = outer.length then header else m.header } := by
  unfold exchanged
  rcases Nat.lt_trichotomy i outer.length with hbefore | rfl | hbehind
  · rw [List.getElem?_append_left hbefore] at found ⊢
    rw [found, if_neg (Nat.ne_of_lt hbefore)]
  · rw [List.getElem?_append_right (Nat.le_refl _), Nat.sub_self] at found ⊢
    obtain rfl := Option.some.inj found
    rw [if_pos rfl]
    rfl
  · obtain ⟨k, rfl⟩ := Nat.exists_eq_add_of_lt hbehind
    have hdepth : outer.length + k + 1 - outer.length = k + 1 := by omega
    rw [List.getElem?_append_right (by omega), hdepth, List.getElem?_cons_succ] at found ⊢
    rw [found, if_neg (by omega)]

/-- Layers stay in place around a whole header that leads to what is inside. -/
theorem InPlace.exchanged {outer inner : List PlainLayer} {l : PlainLayer} {header : Bytes}
    (lawful : ∀ m ∈ outer, m.dissector.Lawful) (place : InPlace (outer ++ l :: inner))
    (whole : l.dissector.Whole header)
    (leads : ∀ child, inner.head? = some child → ∀ o, child.origin = some o →
      l.dissector.Leads header child.header o) :
    InPlace (PlainLayer.exchanged outer l header inner) := by
  induction outer with
  | nil => exact ⟨whole, leads, place.2.2⟩
  | cons first outer ih =>
    obtain ⟨hwhole, hleads, hplace⟩ := place
    refine ⟨hwhole, ?_, ih (fun m hm => lawful m (List.mem_cons_of_mem _ hm)) hplace⟩
    -- what a header leads to does not depend on the header inside
    intro child hchild o ho
    cases outer with
    | nil =>
      obtain rfl := Option.some.inj hchild
      exact (lawful first List.mem_cons_self).leads_payload (hleads l rfl o ho)
    | cons second outer => exact hleads child hchild o ho

end PlainLayer

namespace Registry

variable {r : Registry} {d : Dissector} {origin : Option Discriminant} {room : Nat}
  {bytes header header₁ header' payload padding : Bytes} {cx : Context} {found : PlainBranch}
  {failure : Option Error}

/-! ## §3. Layers that keep their payload. -/

/-- Whether a payload stays bytes depends on what the header says of it. -/
theorem Rests.of_same (isSealed : d.sealed header' = d.sealed header)
    (next : d.next header' payload = d.next header payload)
    (h : Rests r room d header payload failure) : Rests r room d header' payload failure := by
  obtain ⟨hfront, hback⟩ := bytesOf_behind header payload
  obtain ⟨hfront', hback'⟩ := bytesOf_behind header' payload
  have hsealed : d.sealed (Span.bytesOf ⟨0, header'.length⟩ (header' ++ payload))
      = d.sealed (Span.bytesOf ⟨0, header.length⟩ (header ++ payload)) := by
    rw [hfront, hfront', isSealed]
  have hnext : d.next (Span.bytesOf ⟨0, header'.length⟩ (header' ++ payload))
        (Span.bytesOf ⟨header'.length, payload.length⟩ (header' ++ payload))
      = d.next (Span.bytesOf ⟨0, header.length⟩ (header ++ payload))
        (Span.bytesOf ⟨header.length, payload.length⟩ (header ++ payload)) := by
    rw [hfront, hfront', hback, hback', next]
  -- so the same is offered, at other places
  have hoffers : ∀ {o : Discriminant},
      Offers (header ++ payload) d ⟨0, header.length⟩ ⟨header.length, payload.length⟩ o →
        Offers (header' ++ payload) d ⟨0, header'.length⟩ ⟨header'.length, payload.length⟩ o :=
    fun offers => ⟨offers.nonempty, hsealed.trans offers.unsealed, hnext.trans offers.named⟩
  unfold Rests at h ⊢
  cases h with
  | empty none => exact .empty none
  | closed nonempty closed => exact .closed nonempty (hsealed.trans closed)
  | unnamed nonempty unsealed unnamed =>
    exact .unnamed nonempty (hsealed.trans unsealed) (hnext.trans unnamed)
  | full offers full => exact .full (hoffers offers) full
  | unknown offers deep kept => exact .unknown (hoffers offers) deep kept
  | refused offers deep refused => exact .refused (hoffers offers) deep refused
  | unreadable offers deep stands fails =>
    refine .unreadable (hoffers offers) deep stands ?_
    unfold HeaderFails at fails ⊢
    rw [hback']
    rw [hback] at fails
    exact fails

/-- A header that was brought up to date with as many bytes inside cuts them
off again. -/
theorem Parts.again (steady : d.Steady) (parts : Parts d bytes header payload padding)
    (ok : d.recompute header cx = .ok header') (length : cx.payload.length = payload.length) :
    Parts d (header' ++ (cx.payload ++ padding)) header' cx.payload padding where
  whole := rfl
  header_length :=
    steady.reads (parts.whole ▸ parts.header_length) ok (by simp only [List.length_append, length])
  payload_length := by
    obtain ⟨stated, hstated, hcut⟩ := parts.payload_length
    obtain ⟨stated', hstated', hcut'⟩ :=
      steady.measures parts.whole_header ok hstated (length.trans hcut)
    exact ⟨stated', length ▸ hstated', by rwa [← length] at hcut'⟩

/-- **The rules lead to the same layers again** when these were brought up to
date with the bytes inside them. -/
theorem Parses.again (h : Parses r room d origin bytes found) :
    ∀ {out : List PlainLayer}, PlainLayer.Touched found.body found.layers out →
      Parses r room d origin (PlainLayer.wire out found.body)
        ⟨out, found.body, found.failure⟩ := by
  -- on the rules; the layers inside keep the length and the first byte of the payload
  induction h with
  | @innermost room d origin bytes header payload padding failure parts rests =>
    intro out touched
    cases touched with
    | @cons _ header' _ inner' cx steady whole hpayload ok htouched =>
      cases htouched
      rw [PlainLayer.wire_nil, rawBytes_getD] at hpayload
      have hparts := parts.again steady ok (congrArg List.length hpayload)
      rw [hpayload] at hparts
      rw [PlainLayer.wire_cons, PlainLayer.wire_nil, rawBytes_getD]
      exact .innermost hparts
        (rests.of_same (steady.isSealed whole ok) (steady.next whole ok rfl))
  | @around room d child origin o bytes header payload padding inner parts offered stands deeper ih =>
    intro out touched
    cases touched with
    | @cons _ header' _ inner' cx steady whole hpayload ok htouched =>
      have hlength : (PlainLayer.wire inner' inner.body).length = payload.length := by
        rw [htouched.length_wire, deeper.wire_eq]
      have hhead : (PlainLayer.wire inner' inner.body).head? = payload.head? := by
        rw [htouched.head?_wire, deeper.wire_eq]
      have hparts := parts.again steady ok ((congrArg List.length hpayload).trans hlength)
      rw [hpayload] at hparts
      rw [PlainLayer.wire_cons]
      exact .around hparts (offered.again steady whole ok hhead) stands (ih htouched)

/-! ## §4. The layer with the new header, and those around it. -/

/-- The new header cuts off the payload that it was brought up to date with. -/
theorem Parts.exchanged (known : d ∈ Dissector.all)
    (parts : Parts d bytes header payload padding) (exchanges : d.Exchanges header header₁)
    (ok : d.recompute header₁ cx = .ok header')
    (roomy : padding = [] ∨ d.kind.Fits header₁.length cx.payload.length) :
    Parts d (header' ++ (cx.payload ++ padding)) header' cx.payload padding := by
  have steady := Dissector.steady_of_mem_all known
  have hlength := (PlainLayer.Touched.header_keeps steady exchanges.whole ok).1
  have hnonempty : header' ≠ [] := fun hnone =>
    exchanges.nonempty (List.eq_nil_of_length_eq_zero (by rw [← hlength, hnone]; rfl))
  obtain ⟨stated, hstated, hcut⟩ := parts.payload_length
  exact .of_whole known (steady.lawful.whole_recompute exchanges.whole ok).1 (by simp [hnonempty])
    (exchanges.cuts hstated hcut ok (roomy.imp_left fun hnone => by rw [hnone]; rfl))

/-- **The rules lead to the same layers** when one header was exchanged and all
headers were brought up to date. -/
theorem Parses.exchanged (uses : r.Uses (· ∈ Dissector.all))
    (h : Parses r room d origin bytes found) :
    d ∈ Dissector.all → ∀ {outer inner out : List PlainLayer} {l : PlainLayer} {header : Bytes},
      found.layers = outer ++ l :: inner → l.dissector.Exchanges l.header header →
      PlainLayer.Touched found.body (PlainLayer.exchanged outer l header inner) out →
      PlainLayer.Roomy found.body (PlainLayer.exchanged outer l header inner) →
        Parses r room d origin (PlainLayer.wire out found.body) ⟨out, found.body, found.failure⟩
          ∧ (PlainLayer.wire out found.body).version? = bytes.version? := by
  -- on the rules: around the new header only the version and the length count
  induction h with
  | @innermost room d origin bytes header₀ payload padding failure parts rests =>
    intro root outer inner out l header split exchanges touched roomy
    obtain ⟨rfl, hlast⟩ : outer = [] ∧ [⟨d, origin, header₀, padding⟩] = l :: inner := by
      cases outer with
      | nil => exact ⟨rfl, split⟩
      | cons first outer => cases outer <;> cases split
    obtain ⟨rfl, rfl⟩ := List.cons.inj hlast
    cases touched with
    | @cons _ header' _ inner' cx steady whole hpayload ok htouched =>
      cases htouched
      rw [PlainLayer.wire_nil, rawBytes_getD] at hpayload
      have hroomy := roomy.1
      rw [PlainLayer.wire_nil, rawBytes_getD, ← hpayload] at hroomy
      have hparts := parts.exchanged root exchanges ok hroomy
      rw [hpayload] at hparts
      rw [PlainLayer.wire_cons, PlainLayer.wire_nil, rawBytes_getD]
      refine ⟨.innermost hparts (rests.of_same
        ((steady.isSealed whole ok).trans exchanges.isSealed)
        ((steady.next whole ok rfl).trans (exchanges.next payload))), ?_⟩
      rw [parts.whole]
      exact exchanges.version_append steady ok _ _
  | @around room d child origin o bytes header₀ payload padding branch parts offered stands deeper ih =>
    intro root outer inner out l header split exchanges touched roomy
    cases outer with
    | nil =>
      -- the layer with the new header; what is inside stays
      obtain ⟨rfl, rfl⟩ := List.cons.inj split
      cases touched with
      | @cons _ header' _ inner' cx steady whole hpayload ok htouched =>
        have hhead : (PlainLayer.wire inner' branch.body).head? = payload.head? := by
          rw [htouched.head?_wire, deeper.wire_eq]
        have hroomy := roomy.1
        rw [← htouched.length_wire, ← hpayload] at hroomy
        have hparts := parts.exchanged root exchanges ok hroomy
        rw [hpayload] at hparts
        have hoffered : Offered d header payload o := ⟨offered.nonempty,
          exchanges.isSealed.trans offered.unsealed, (exchanges.next payload).trans offered.named⟩
        rw [PlainLayer.wire_cons]
        refine ⟨.around hparts (hoffered.again steady whole ok hhead) stands
          (deeper.again htouched), ?_⟩
        rw [parts.whole]
        exact exchanges.version_append steady ok _ _
    | cons first outer =>
      -- a layer around it, with another payload
      obtain ⟨rfl, hlayers⟩ := List.cons.inj split
      have hchild : child ∈ Dissector.all := uses _ (dissect_mem stands) _ rfl
      cases touched with
      | @cons _ header' _ inner' cx steady whole hpayload ok htouched =>
        obtain ⟨hdeeper, hversion⟩ := ih hchild hlayers exchanges htouched roomy.2
        have hfilled : PlainLayer.wire inner' branch.body ≠ [] := fun hnone =>
          offered.nonempty (Bytes.version?_eq_none.1
            (hversion.symm.trans (Bytes.version?_eq_none.2 hnone)))
        have hroomy := roomy.1
        rw [← htouched.length_wire] at hroomy
        have hparts := parts.replaced_of_offered root offered ok hpayload hfilled hroomy
        have hnext : d.next header' (PlainLayer.wire inner' branch.body) = .ok (some o) := by
          rw [Dissector.next_of_version root header' hversion, steady.next whole ok rfl]
          exact offered.named
        rw [PlainLayer.wire_cons]
        refine ⟨.around hparts ⟨hfilled, (steady.isSealed whole ok).trans offered.unsealed, hnext⟩
          stands hdeeper, ?_⟩
        have hhead := (PlainLayer.Touched.header_keeps steady whole ok).2
        rw [parts.whole, Bytes.version?_append, Bytes.version?_append, Bytes.version?_append,
          Bytes.version?_append, hversion, Bytes.version?_of_head? hhead]

/-- **The pass over layers with a header exchanged** brings their headers up to
date and does nothing else; it leaves layers that are found again, whose
checksums hold. -/
theorem Parses.around_exchanged (uses : r.Uses (· ∈ Dissector.all))
    (h : Parses r room d origin bytes found) (root : d ∈ Dissector.all)
    {outer inner out : List PlainLayer} {l : PlainLayer} {header : Bytes}
    (split : found.layers = outer ++ l :: inner) (exchanges : l.dissector.Exchanges l.header header)
    (roomy : PlainLayer.Roomy found.body (PlainLayer.exchanged outer l header inner))
    (ok : PlainLayer.recomputeAll .fill found.body none (PlainLayer.exchanged outer l header inner)
      = .ok out) :
    PlainLayer.Touched found.body (PlainLayer.exchanged outer l header inner) out
      ∧ Parses r room d origin (PlainLayer.wire out found.body) ⟨out, found.body, found.failure⟩
      ∧ PlainLayer.Verified found.body none out := by
  have hknown := h.known uses root
  have hplace := h.inPlace uses root
  rw [split] at hknown hplace
  have hknown' := PlainLayer.known_exchanged header hknown
  have hplace' : PlainLayer.InPlace (PlainLayer.exchanged outer l header inner) := by
    refine hplace.exchanged (fun m hm => Dissector.lawful_of_mem_all
      (hknown m (List.mem_append_left _ hm))) exchanges.whole fun child hchild o ho => ?_
    -- the new header says what the old one said
    cases inner with
    | nil => cases hchild
    | cons first rest =>
      obtain rfl : first = child := Option.some.inj hchild
      obtain ⟨hl, a, payload, ha, hnext, _⟩ := h.states uses root split
      obtain rfl : a = o := Option.some.inj (ha.symm.trans ho)
      exact (Dissector.lawful_of_mem_all hl).leads_payload
        (.inl ((exchanges.next payload).trans hnext))
  have touched := PlainLayer.touched_of_recomputeAll (fun _ => Dissector.steady_of_mem_all) hknown'
    hplace' ok
  exact ⟨touched, (h.exchanged uses root split exchanges touched roomy).1,
    PlainLayer.verified_of_recomputeAll hknown' touched.whole ok⟩

end Registry

/-! ## §5. Packets. -/

namespace Packet

/-- The header of a layer at some depth before all headers were brought up to
date: a new one in one of them. -/
def headerWith (p : Packet) (depth : Nat) (header : Bytes) (i : Nat) (l : Layer) : Bytes :=
  if i = depth then header else p.header l

/-- The packet with another header in one of its layers.  The layers, their
padding and what is inside the innermost are the same; so is every header but
for its lengths and checksums, and these are up to date, like the frame check
sequence. -/
structure Exchanged (p q : Packet) (depth : Nat) (header : Bytes) : Prop where
  kinds : q.layers.map (·.kind) = p.layers.map (·.kind)
  padding : q.layers.map q.padding = p.layers.map p.padding
  payload : q.payloadBytes (q.layers.length - 1) = p.payloadBytes (p.layers.length - 1)
  headers : ∀ {i : Nat} {l l' : Layer}, p.layers[i]? = some l → q.layers[i]? = some l' →
    (q.header l').length = (p.headerWith depth header i l).length
      ∧ (∀ j, ¬ l.kind.Derives (p.headerWith depth header i l) j →
        (q.header l')[j]? = (p.headerWith depth header i l)[j]?)
      ∧ l'.dissector.Lengths (p.headerWith depth header i l) (q.header l') (q.payloadBytes i)
  checksums : ∀ {i : Nat} {l : Layer}, q.layers[i]? = some l → q.layerChecksumValid i l
    = .ok (verdict l.kind (q.header l) ((q.parent? i).any (·.kind.isIp)))
  fcs : q.fcsValid = true

variable {p q : Packet} {depth : Nat} {c c' : Cursor} {header : Bytes}

/-- Checks that hold in the plain form hold in the packet. -/
theorem checksums_of_verified (laid : q.LaidOut)
    (verified : PlainLayer.Verified q.plain.body none q.plain.layers) {i : Nat} {l : Layer}
    (found : q.layers[i]? = some l) : q.layerChecksumValid i l
      = .ok (verdict l.kind (q.header l) ((q.parent? i).any (·.kind.isIp))) := by
  obtain ⟨lent, hlent, holds⟩ := verified.holds_at (getElem?_plain found)
  obtain ⟨hcheck, hisIp⟩ := layerChecksumValid_of_lent found hlent
  rw [← payloadBytes_eq laid found] at holds
  rw [hcheck, ← hisIp]
  exact holds.verdict

/-- The plain form of a packet in which a header was exchanged. -/
theorem plain_of_stored (opened : p.open? depth = some c) (stored : Cursor.Stored c c' header) :
    c'.close.plain = ⟨PlainLayer.exchanged (c.outer.map (Layer.plain p.arena))
      (c.focus.plain p.arena) header (c.inner.map (Layer.plain p.arena)), p.plain.body,
        p.plain.fcs⟩ := by
  obtain ⟨rfl, _, _⟩ := Cursor.close_of_open opened
  show (⟨(c'.outer ++ c'.focus :: c'.inner).map (Layer.plain c'.packet.arena),
    c'.packet.body.map (Region.bytes c'.packet.arena),
    c'.packet.fcs.map (Region.bytes c'.packet.arena)⟩ : PlainPacket) = _
  rw [List.map_append, List.map_cons, stored.outer, stored.focus, stored.inner, stored.body,
    stored.fcs]
  rfl

/-- Layers around a new header that were brought up to date. -/
theorem exchanged_of_recomputeAll {outer inner : List PlainLayer} {l : PlainLayer}
    (laid : p.LaidOut) (laid' : q.LaidOut) (split : p.plain.layers = outer ++ l :: inner)
    (body : q.plain.body = p.plain.body)
    (ok : PlainLayer.recomputeAll .fill q.plain.body none (PlainLayer.exchanged outer l header inner)
      = .ok q.plain.layers)
    (touched : PlainLayer.Touched q.plain.body (PlainLayer.exchanged outer l header inner)
      q.plain.layers)
    (verified : PlainLayer.Verified q.plain.body none q.plain.layers) (fcs : q.fcsValid = true) :
    p.Exchanged q outer.length header := by
  have filled : p.layers ≠ [] := by
    intro hnone
    have hlength := congrArg List.length split
    simp [plain, hnone] at hlength
  -- whatever is not a header is the same in both packets
  have hsame : ∀ {α : Type} {f : PlainLayer → α}, (∀ (m : PlainLayer) (header : Bytes),
      f { m with header := header } = f m) → q.plain.layers.map f = p.plain.layers.map f := by
    intro α f ignores
    rw [touched.map_eq ignores, PlainLayer.map_exchanged (ignores l header), split]
  have hkinds := hsame (f := PlainLayer.kind) fun _ _ => rfl
  have hpadding := hsame (f := PlainLayer.padding) fun _ _ => rfl
  simp only [plain, List.map_map] at hkinds hpadding
  refine ⟨hkinds, hpadding, ?_, fun {i m m'} before after => ?_,
    checksums_of_verified laid' verified, fcs⟩
  · have hcount := congrArg List.length hkinds
    simp only [List.length_map] at hcount
    have filled' : q.layers ≠ [] := by
      rw [← List.length_pos_iff, hcount]
      exact List.length_pos_iff.2 filled
    rw [innermost_payloadBytes laid' filled', innermost_payloadBytes laid filled, body]
  · have hbefore := getElem?_plain before
    have hafter := getElem?_plain after
    rw [split] at hbefore
    -- the layer before the pass, which may be the one with the new header
    have hmid := PlainLayer.getElem?_exchanged header hbefore
    have hlengths := congrArg (·[i]?) touched.length_headers
    simp only [List.getElem?_map, hmid, hafter, Option.map_some] at hlengths
    have renewed := PlainLayer.renewed_of_recomputeAll ok hmid hafter
    rw [← payloadBytes_eq laid' after] at renewed
    have hdissector : m'.dissector = m.dissector := congrArg Prod.fst renewed.shape
    refine ⟨Option.some.inj hlengths, (touched.keeps hmid hafter).2, ?_⟩
    rw [hdissector]
    exact ⟨Ipv4.lengths_of_renewed renewed, Ipv6.lengths_of_renewed renewed,
      Tcp.lengths_of_renewed renewed, Udp.lengths_of_renewed renewed⟩

end Packet

namespace Registry

/-- **Another header in a captured packet.**  One header of a packet that was
decoded completely is exchanged for another one that says the same of what is
inside.  If then every layer has no padding, or has room for its new payload in
its length field of sixteen bits, should it have one, the packet is serialized,
and decoded completely, into the same protocols with the same padding around
the same bytes. -/
theorem decodeFrom_exchanged {d : Dissector} {origin : Option Discriminant} {data : Bytes}
    {hasFcs : Bool} {p : Packet} {depth : Nat} {c c' : Cursor} {header : Bytes}
    (root : d ∈ Dissector.all) (h : standard.decodeFrom d origin data hasFcs = .ok (.complete p))
    (opened : p.open? depth = some c) (stored : Cursor.Stored c c' header)
    (laid : c'.close.LaidOut) (exchanges : c.focus.dissector.Exchanges c.header header)
    (each : ∀ {i : Nat} {l : Layer}, c'.close.layers[i]? = some l → c'.close.padding l = []
      ∨ l.kind.Fits (c'.close.header l).length (c'.close.payloadBytes i).length) :
    ∃ bytes s q, c'.close.serialize .fill = .ok (bytes, s)
      ∧ standard.decodeFrom d origin bytes hasFcs = .ok (.complete q)
      ∧ p.Exchanged q depth header ∧ q.checksumValid = .ok true := by
  obtain ⟨frame, tail, rfl, trails⟩ := frame_of_decodeFrom h rfl
  obtain ⟨found, hparses, hout, hplain, hlaid⟩ := decodeFrom_parses trails h rfl
  have hwhole : found.failure = none :=
    (found.error?_decoding p).symm.trans (congrArg Decoding.error? hout).symm
  have hsplit := Packet.plain_of_open opened
  have hmid := Packet.plain_of_stored opened stored
  rw [hplain] at hmid
  have hroomy := Packet.roomy_of_each laid each
  rw [hmid] at hroomy
  obtain ⟨rfl, _, rfl⟩ := Cursor.close_of_open opened
  have hlayers : found.layers = _ := (congrArg PlainPacket.layers hplain).symm.trans hsplit
  have hknown := hparses.known standard_uses root
  rw [hlayers] at hknown
  have htotal : ∀ m ∈ c'.close.layers, m.dissector.Total := by
    intro m hm
    have hmem : m.plain c'.close.arena ∈ c'.close.plain.layers := List.mem_map_of_mem hm
    rw [hmid] at hmem
    exact (Dissector.lawful_of_mem_all (PlainLayer.known_exchanged header hknown _ hmem)).total
  -- the pass, on plain bytes
  obtain ⟨q, s, hq, hserialize⟩ := Packet.serialize_of_stale laid rfl htotal .fill
  obtain ⟨hall, hbody⟩ := Packet.recomputeAll_of_recompute laid hq
  rw [hmid] at hall
  replace hbody : q.plain.body = found.body := by rw [hbody, hmid]
  obtain ⟨touched, hagain, verified⟩ :=
    hparses.around_exchanged standard_uses root hlayers exchanges hroomy hall
  -- what it leaves is decoded as it is
  rw [hwhole] at hagain
  rw [← hbody] at hagain touched verified hall
  obtain ⟨q', hdecode, hsame, laid', hvalid, _⟩ := decodeFrom_updated laid hq trails
    (by rw [hmid]) hagain
  rw [← hsame] at touched verified hall
  refine ⟨_, s, q', hserialize, hdecode, ?_, Packet.checksumValid_of_checks laid' verified.checks⟩
  have hexchanged := Packet.exchanged_of_recomputeAll hlaid laid' hsplit
    (by rw [hsame, hbody, hplain]) hall touched verified hvalid
  rwa [List.length_map] at hexchanged

end Registry

end PacketLayers
