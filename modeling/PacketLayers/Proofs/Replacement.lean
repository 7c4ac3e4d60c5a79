/-
  PacketLayers.Proofs.Replacement
  ────────────────────────────────
  **ANOTHER PAYLOAD, THE SAME PACKET AROUND IT.**

  The bytes inside the innermost layer of a captured packet are replaced by
  others, of any number.  Everything in front of them and behind them moves,
  and every length and checksum around them is computed anew; but decoding
  finds the same layers again, with the same padding, around the new bytes.
  The one thing to look out for is padding behind a payload that has become
  too long for the length field that keeps it apart.

    • `Parses.replaced` — the rules lead to the same layers around the new
      bytes;
    • `decodeFrom_replaced` — the same for packets, with lengths, checksums
      and the frame check sequence.
-/
import PacketLayers.Proofs.Assembly
import PacketLayers.Proofs.Parse
import PacketLayers.Proofs.Redecode
import PacketLayers.Proofs.Resizing
import PacketLayers.Proofs.Upfront
import PacketLayers.Proofs.Verdict

namespace PacketLayers

/-! ## §1. Protocols around bytes. -/

namespace Dissector

variable {d : Dissector}

theorem quiet_of_takesBytes (known : d ∈ all) (takes : d.kind.TakesBytes) : d.Quiet := by
  cases known using Dissector.all_cases with
  | tcp => exact Tcp.quiet
  | udp => exact Udp.quiet
  | icmpv4 => exact Icmpv4.quiet
  | icmpv6 => exact Icmpv6.quiet
  | igmp => exact Igmp.quiet
  | _ => exact takes.elim

theorem nonempty_of_takesBytes (known : d ∈ all) (takes : d.kind.TakesBytes) {h : Bytes}
    (whole : d.Whole h) : h ≠ [] := by
  cases known using Dissector.all_cases with
  | tcp => exact Tcp.legible.nonempty whole
  | udp => exact Udp.legible.nonempty whole
  | icmpv4 => exact Icmpv4.legible.nonempty whole
  | icmpv6 => exact Icmpv6.legible.nonempty whole
  | igmp => exact Igmp.legible.nonempty whole
  | _ => exact takes.elim

end Dissector

/-! ## §2. Bytes around bytes. -/

namespace PlainLayer

variable {body : Option Bytes} {layers out : List PlainLayer}

/-- Behind a header that is not empty nothing has a say in the first byte. -/
theorem wire_begins {l : PlainLayer} (mem : l ∈ layers) (nonempty : l.header ≠ []) :
    ∃ x, ∀ body, (wire layers body).head? = some x := by
  induction layers with
  | nil => cases mem
  | cons first inner ih =>
    cases hheader : first.header with
    | cons x rest =>
      refine ⟨x, fun body => ?_⟩
      rw [wire_cons, hheader]
      rfl
    | nil =>
      have hinner : l ∈ inner := by
        rcases List.mem_cons.1 mem with rfl | hinner
        · exact absurd hheader nonempty
        · exact hinner
      obtain ⟨x, hx⟩ := ih hinner
      refine ⟨x, fun body => ?_⟩
      rw [wire_cons, hheader, List.nil_append, List.head?_append, hx]
      rfl

/-- Layers are as long around one body as around another, but for the
bodies. -/
theorem length_wire_add (layers : List PlainLayer) (body body' : Option Bytes) :
    (wire layers body').length + (body.getD []).length
      = (wire layers body).length + (body'.getD []).length := by
  induction layers with
  | nil => rw [wire_nil, wire_nil, Nat.add_comm]
  | cons l inner ih =>
    rw [wire_cons, wire_cons]
    simp only [List.length_append]
    omega

/-- Every layer has no padding, or keeps it apart by a length field that has
room for its payload. -/
def Roomy (body : Option Bytes) : List PlainLayer → Prop
  | [] => True
  | l :: inner =>
    (l.padding = [] ∨ l.kind.Fits l.header.length (wire inner body).length) ∧ Roomy body inner

theorem roomy_of_each (each : ∀ {depth : Nat} {l : PlainLayer}, layers[depth]? = some l →
      l.padding = [] ∨ l.kind.Fits l.header.length (wire (layers.drop (depth + 1)) body).length) :
    Roomy body layers := by
  induction layers with
  | nil => trivial
  | cons l inner ih => exact ⟨@each 0 l rfl, ih fun {depth m} hm => @each (depth + 1) m hm⟩

namespace Touched

/-- What does not depend on headers stays. -/
theorem map_eq {α : Type} {f : PlainLayer → α} (h : Touched body layers out)
    (ignores : ∀ (l : PlainLayer) (header : Bytes), f { l with header := header } = f l) :
    out.map f = layers.map f := by
  induction h with
  | nil => rfl
  | cons _ _ _ _ _ ih => rw [List.map_cons, List.map_cons, ignores, ih]

theorem whole (h : Touched body layers out) : ∀ l ∈ layers, l.Whole := by
  induction h with
  | nil => exact fun _ hl => nomatch hl
  | cons _ whole _ _ _ ih =>
    intro l hl
    rcases List.mem_cons.1 hl with rfl | hl
    · exact whole
    · exact ih l hl

/-- No length changes. -/
theorem length_wire (h : Touched body layers out) (body' : Option Bytes) :
    (wire out body').length = (wire layers body').length := by
  induction h with
  | nil => rfl
  | cons steady whole _ ok _ ih =>
    have hheader := (header_keeps steady whole ok).1
    rw [wire_cons, wire_cons]
    simp only [List.length_append, ih, hheader]

end Touched

end PlainLayer

namespace Registry

variable {r : Registry} {d : Dissector} {origin : Option Discriminant} {room : Nat}
  {bytes header payload padding : Bytes} {found : PlainBranch} {body : Option Bytes}

/-! ## §3. The rules around new bytes. -/

/-- A header that was cut off is whole. -/
theorem Parts.whole_header (parts : Parts d bytes header payload padding) : d.Whole header :=
  ⟨payload ++ padding, parts.whole ▸ parts.header_length⟩

/-- A whole header is cut off whatever follows it; the rest is its measure. -/
theorem Parts.of_whole (known : d ∈ Dissector.all) (whole : d.Whole header)
    (filled : header ++ (payload ++ padding) ≠ [])
    (measured : ∃ stated, d.payloadLength header (payload.length + padding.length) = .ok stated
      ∧ payload.length = min stated (payload.length + padding.length)) :
    Parts d (header ++ (payload ++ padding)) header payload padding where
  whole := rfl
  header_length := by
    obtain ⟨_, hcut⟩ := whole
    exact (Dissector.upfront_of_mem_all known).reads hcut filled
  payload_length := measured

/-- A whole header that measures like another one cuts off a payload of the same
length. -/
theorem Parts.exchange (known : d ∈ Dissector.all) (parts : Parts d bytes header payload padding)
    {header' payload' : Bytes} (whole : d.Whole header')
    (measures : ∀ available, d.payloadLength header' available = d.payloadLength header available)
    (length : payload'.length = payload.length) (filled : header' ++ (payload' ++ padding) ≠ []) :
    Parts d (header' ++ (payload' ++ padding)) header' payload' padding :=
  .of_whole known whole filled (by
    rw [measures, length]
    exact parts.payload_length)

/-- **A header that was brought up to date** cuts off the payload that it was
brought up to date with, and leaves the padding that it left. -/
theorem Parts.replaced (known : d ∈ Dissector.all) (parts : Parts d bytes header payload padding)
    {header' : Bytes} {cx : Context} (ok : d.recompute header cx = .ok header')
    (filled : header' ++ (cx.payload ++ padding) ≠ [])
    (inside : d.kind.TakesBytes
      ∨ cx.payload ≠ [] ∧ ∃ payload o, d.next header payload = .ok (some o))
    (roomy : padding = [] ∨ d.kind.Fits header.length cx.payload.length) :
    Parts d (header' ++ (cx.payload ++ padding)) header' cx.payload padding := by
  obtain ⟨stated, hstated, hcut⟩ := parts.payload_length
  have whole := ((Dissector.lawful_of_mem_all known).whole_recompute parts.whole_header ok).1
  exact .of_whole known whole filled ((Dissector.resizes_of_mem_all known).cuts parts.whole_header
    ok hstated hcut inside (roomy.imp_left fun hnone => by rw [hnone]; rfl))

/-- Around another layer the padding stays as long as there are bytes inside. -/
theorem Parts.replaced_of_offered (known : d ∈ Dissector.all)
    (parts : Parts d bytes header payload padding) {o : Discriminant}
    (offered : Offered d header payload o) {header' payload' : Bytes} {cx : Context}
    (ok : d.recompute header cx = .ok header') (inside : cx.payload = payload')
    (filled : payload' ≠ []) (roomy : padding = [] ∨ d.kind.Fits header.length payload'.length) :
    Parts d (header' ++ (payload' ++ padding)) header' payload' padding := by
  subst inside
  exact parts.replaced known ok (by simp [filled]) (.inr ⟨filled, _, _, offered.named⟩) roomy

/-- Only the first byte of a payload has a say in what it is offered as. -/
theorem Offered.of_head? (known : d ∈ Dissector.all) {o : Discriminant} {payload' : Bytes}
    (offered : Offered d header payload o) (head : payload'.head? = payload.head?) :
    Offered d header payload' o where
  nonempty hnone := offered.nonempty
    (List.head?_eq_none_iff.1 (head.symm.trans (List.head?_eq_none_iff.2 hnone)))
  unsealed := offered.unsealed
  named := ((Dissector.upfront_of_mem_all known).next header head).trans offered.named

/-- A header that was brought up to date offers what it offered. -/
theorem Offered.again (steady : d.Steady) {o : Discriminant} {header' payload' : Bytes}
    {cx : Context} (whole : d.Whole header) (ok : d.recompute header cx = .ok header')
    (head : payload'.head? = payload.head?) (offered : Offered d header payload o) :
    Offered d header' payload' o where
  nonempty hnone := offered.nonempty
    (List.head?_eq_none_iff.1 (head.symm.trans (List.head?_eq_none_iff.2 hnone)))
  unsealed := (steady.isSealed whole ok).trans offered.unsealed
  named := (steady.next whole ok head).trans offered.named

/-- A protocol that says nothing about its payload leaves it as bytes. -/
theorem Rests.of_quiet (quiet : d.Quiet) (header payload : Bytes) :
    Rests r room d header payload none := by
  unfold Rests
  by_cases hempty : payload.length = 0
  · exact .empty hempty
  · exact .unnamed hempty (quiet.isSealed _) (quiet.next _ _)

/-- What holds of every layer that a known protocol cuts off holds of all that
are found. -/
theorem Parses.forall_layers {known : Dissector → Prop} {P : PlainLayer → Prop}
    (uses : r.Uses known)
    (cut : ∀ {d : Dissector} {origin : Option Discriminant} {bytes header payload padding : Bytes},
      known d → Parts d bytes header payload padding → P ⟨d, origin, header, padding⟩)
    (h : Parses r room d origin bytes found) : known d → ∀ l ∈ found.layers, P l := by
  -- on the rules: a layer inside another one is that of a protocol in the tables
  induction h with
  | innermost parts _ =>
    intro root l hl
    rw [List.mem_singleton.1 hl]
    exact cut root parts
  | around parts _ stands _ ih =>
    intro root l hl
    rcases List.mem_cons.1 hl with rfl | hl
    · exact cut root parts
    · exact ih (uses _ (dissect_mem stands) _ rfl) l hl

/-- Everything that is found is decoded by a known protocol. -/
theorem Parses.known {known : Dissector → Prop} (uses : r.Uses known)
    (h : Parses r room d origin bytes found) (root : known d) :
    ∀ l ∈ found.layers, known l.dissector :=
  h.forall_layers uses (fun root _ => root) root

/-- A layer inside another one is what the header around it says. -/
theorem Parses.states (uses : r.Uses (· ∈ Dissector.all))
    (h : Parses r room d origin bytes found) :
    d ∈ Dissector.all → ∀ {outer : List PlainLayer} {l child : PlainLayer}
      {inner : List PlainLayer}, found.layers = outer ++ l :: child :: inner →
      l.dissector ∈ Dissector.all
        ∧ ∃ a payload, child.origin = some a ∧ l.dissector.next l.header payload = .ok (some a)
          ∧ r.resolve a = .dissect child.dissector := by
  -- on the rules: whatever is inside was dispatched under a name
  induction h with
  | innermost =>
    intro _ outer l child inner split
    have hlength := congrArg List.length split
    simp at hlength
    omega
  | @around room d child' origin o bytes header payload padding branch parts offered stands deeper ih =>
    intro root outer l child inner split
    cases outer with
    | nil =>
      obtain ⟨rfl, hlayers⟩ := List.cons.inj split
      obtain ⟨_, _, _, _, _, hfirst⟩ := deeper.first
      obtain ⟨rfl, _⟩ := List.cons.inj (hlayers.symm.trans hfirst)
      exact ⟨root, o, payload, rfl, offered.named, stands⟩
    | cons first outer =>
      obtain ⟨rfl, hlayers⟩ := List.cons.inj split
      exact ih (uses _ (dissect_mem stands) _ rfl) hlayers

/-- Headers that are found are whole. -/
theorem Parses.whole (h : Parses r room d origin bytes found) : ∀ l ∈ found.layers, l.Whole :=
  @Parses.forall_layers r d origin room bytes found (fun _ => True) PlainLayer.Whole
    (fun _ _ _ _ => trivial) (fun _ parts => parts.whole_header) h trivial

/-- A layer around others is not the innermost one. -/
theorem Parses.getLast?_around (inside : Parses r room d origin bytes found) (l : PlainLayer) :
    (l :: found.layers).getLast? = found.layers.getLast? := by
  obtain ⟨_, _, _, _, _, hfirst⟩ := inside.first
  rw [hfirst]
  rfl

/-- **Around a protocol that takes bytes** there is a first byte, whatever is
taken. -/
theorem Parses.begins (uses : r.Uses (· ∈ Dissector.all))
    (h : Parses r room d origin bytes found) (root : d ∈ Dissector.all) {l : PlainLayer}
    (innermost : found.layers.getLast? = some l) (takes : l.kind.TakesBytes) :
    ∃ x, bytes.head? = some x ∧ ∀ body, (PlainLayer.wire found.layers body).head? = some x := by
  have hmem := List.mem_of_getLast? innermost
  have hnonempty : l.header ≠ [] :=
    Dissector.nonempty_of_takesBytes (h.known uses root l hmem) takes (h.whole l hmem)
  obtain ⟨x, hx⟩ := PlainLayer.wire_begins hmem hnonempty
  exact ⟨x, h.wire_eq ▸ hx found.body, hx⟩

/-- **The rules lead to the same layers around other bytes,** when all headers
were brought up to date with these. -/
theorem Parses.replaced (uses : r.Uses (· ∈ Dissector.all))
    (h : Parses r room d origin bytes found) :
    d ∈ Dissector.all → ∀ {l : PlainLayer}, found.layers.getLast? = some l → l.kind.TakesBytes →
      ∀ {out : List PlainLayer}, PlainLayer.Touched body found.layers out →
        PlainLayer.Roomy body found.layers →
          Parses r room d origin (PlainLayer.wire out body) ⟨out, rawBytes (body.getD []), none⟩ := by
  -- on the rules: the layers inside tell what a header was brought up to date with
  induction h with
  | @innermost room d origin bytes header payload padding failure parts _ =>
    intro root l last takes out touched roomy
    obtain rfl : (⟨d, origin, header, padding⟩ : PlainLayer) = l := Option.some.inj last
    cases touched with
    | @cons _ header' _ inner' cx steady whole hpayload ok htouched =>
      cases htouched
      have hnonempty : header' ≠ [] := Dissector.nonempty_of_takesBytes root takes
        (steady.lawful.whole_recompute whole ok).1
      have hroomy := roomy.1
      rw [← hpayload] at hroomy
      have hparts := parts.replaced root ok (by simp [hnonempty]) (.inl takes) hroomy
      rw [hpayload, PlainLayer.wire_nil] at hparts
      rw [PlainLayer.wire_cons, PlainLayer.wire_nil]
      exact .innermost hparts (.of_quiet (Dissector.quiet_of_takesBytes root takes) _ _)
  | @around room d child origin o bytes header payload padding inner parts offered stands inside ih =>
    intro root l last takes out touched roomy
    have hchild : child ∈ Dissector.all := uses _ (dissect_mem stands) _ rfl
    have hlast : inner.layers.getLast? = some l := (inside.getLast?_around _).symm.trans last
    cases touched with
    | @cons _ header' _ inner' cx steady whole hpayload ok htouched =>
      -- the payload begins as it did, with the same first header
      obtain ⟨x, hhead', hx⟩ := inside.begins uses hchild hlast takes
      have hhead : (PlainLayer.wire inner' body).head? = some x :=
        htouched.head?_wire.trans (hx body)
      have hoffered := offered.again steady whole ok (hhead.trans hhead'.symm)
      have hroomy := roomy.1
      rw [← htouched.length_wire] at hroomy
      rw [PlainLayer.wire_cons]
      exact .around (parts.replaced_of_offered root offered ok hpayload hoffered.nonempty hroomy)
        hoffered stands (ih hchild hlast takes htouched roomy.2)

/-- The layers that are found are in place. -/
theorem Parses.inPlace (uses : r.Uses (· ∈ Dissector.all))
    (h : Parses r room d origin bytes found) (root : d ∈ Dissector.all) :
    PlainLayer.InPlace found.layers := by
  have hwhole : Span.bytesOf ⟨0, bytes.length⟩ bytes = bytes := List.take_length
  obtain ⟨branch, hbranch, rfl⟩ := @Parses.dispatched _ _ _ _ _ _ h bytes ⟨0, bytes.length⟩
    (by simp [Span.stop]) hwhole
  exact (hbranch.inPlace uses (fun _ => Dissector.steady_of_mem_all) root).2

end Registry

/-! ## §4. Checksums. -/

/-- No answer of the check for a header that is up to date is that the checksum
is wrong. -/
theorem verdict_ne_false (kind : LayerKind) (header : Bytes) (insideIp : Bool) :
    verdict kind header insideIp ≠ some false := by
  unfold verdict
  split <;> simp

theorem PlainLayer.Verified.checks {body : Option Bytes} {layers : List PlainLayer} :
    ∀ {pseudo : Option PseudoHeader}, Verified body pseudo layers → Checks body pseudo layers := by
  induction layers with
  | nil => exact fun _ => trivial
  | cons l inner ih =>
    intro pseudo ⟨holds, lent, hlent, _, hinner⟩
    exact ⟨⟨_, holds.verdict, verdict_ne_false _ _ _⟩, lent, hlent, ih hinner⟩

/-- **The pass over layers around new bytes** brings their headers up to date
and does nothing else; it leaves layers that are found again, whose checksums
hold. -/
theorem Registry.Parses.around_bytes {r : Registry} (uses : r.Uses (· ∈ Dissector.all))
    {room : Nat} {d : Dissector} {origin : Option Discriminant} {bytes b : Bytes}
    {found : PlainBranch} (h : r.Parses room d origin bytes found) (root : d ∈ Dissector.all)
    {l : PlainLayer} (innermost : found.layers.getLast? = some l) (takes : l.kind.TakesBytes)
    (roomy : PlainLayer.Roomy (rawBytes b) found.layers) {out : List PlainLayer}
    (ok : PlainLayer.recomputeAll .fill (rawBytes b) none found.layers = .ok out) :
    PlainLayer.Touched (rawBytes b) found.layers out
      ∧ r.Parses room d origin (PlainLayer.wire out (rawBytes b)) ⟨out, rawBytes b, none⟩
      ∧ PlainLayer.Checks (rawBytes b) none out := by
  have hknown := h.known uses root
  have touched := PlainLayer.touched_of_recomputeAll (fun _ => Dissector.steady_of_mem_all) hknown
    (h.inPlace uses root) ok
  have hagain := h.replaced uses root innermost takes touched roomy
  rw [rawBytes_getD] at hagain
  exact ⟨touched, hagain, (PlainLayer.verified_of_recomputeAll hknown touched.whole ok).checks⟩

/-! ## §5. Packets. -/

namespace Packet

theorem getLast?_plain (p : Packet) :
    p.plain.layers.getLast? = p.layers.getLast?.map (Layer.plain p.arena) := List.getLast?_map

/-- Bytes are put into the innermost layer, and nothing else is another. -/
theorem push_ofBytes {p : Packet} (laid : p.LaidOut) (filled : p.layers ≠ []) (b : Bytes) :
    ∃ p', p.push (.ofBytes b) = .ok (p', .ok ()) ∧ p'.LaidOut ∧ p'.stale = true
      ∧ p'.plain = ⟨p.plain.layers, Registry.rawBytes b, p.plain.fcs⟩ := by
  obtain ⟨outer, last, hlayers⟩ : ∃ outer last, p.layers = outer ++ [last] :=
    ⟨_, _, (List.dropLast_append_getLast filled).symm⟩
  have hpush : p.push (.ofBytes b)
      = .ok ({ p with body := (Payload.ofBytes b).body, stale := true }, .ok ()) := by
    unfold push
    rw [openInnermost_eq hlayers, hlayers]
    rfl
  refine ⟨_, hpush, (push_pushed laid (Payload.spells_ofBytes b) hpush).laidOut, rfl, ?_⟩
  cases b <;> rfl

/-- Padding that is kept apart in a packet is in its plain form. -/
theorem roomy_of_each {p : Packet} (laid : p.LaidOut)
    (each : ∀ {depth : Nat} {l : Layer}, p.layers[depth]? = some l → p.padding l = []
      ∨ l.kind.Fits (p.header l).length (p.payloadBytes depth).length) :
    PlainLayer.Roomy p.plain.body p.plain.layers := by
  refine PlainLayer.roomy_of_each fun {depth m} found => ?_
  rw [plain, List.getElem?_map, Option.map_eq_some_iff] at found
  obtain ⟨l, hl, rfl⟩ := found
  have hroomy := each hl
  rw [payloadBytes_eq laid hl] at hroomy
  exact hroomy

theorem flatten_contents (p : Packet) :
    p.contents.flatten = PlainLayer.wire p.plain.layers p.plain.body ++ p.plain.fcs.getD [] := by
  rw [contents_plain, PlainPacket.pieces, List.flatten_append]
  cases p.plain.fcs <;> simp [PlainLayer.wire]

/-- A packet that was changed is brought up to date when it is serialized. -/
theorem serialize_of_stale {p : Packet} (laid : p.LaidOut) (stale : p.stale = true)
    (total : ∀ l ∈ p.layers, l.dissector.Total) (mode : ChecksumMode) :
    ∃ q s, p.recompute mode = .ok q ∧ p.serialize mode
      = .ok (PlainLayer.wire q.plain.layers q.plain.body ++ q.plain.fcs.getD [], s) := by
  obtain ⟨q, hq⟩ := recompute_succeeds laid total mode
  have hagrees := p.recompute_agrees laid mode
  rw [hq] at hagrees
  obtain ⟨_, _, fresh⟩ := hagrees.of_ok_left
  have hrefreshed : p.refreshed mode = .ok q := by
    rw [refreshed, if_pos stale, hq]
  refine ⟨q, q.settle, hq, ?_⟩
  rw [serialize_of_refreshed hrefreshed, (settle_spec fresh.laidOut).arena, flatten_contents]

/-- The same packet around other bytes: protocols and padding are the same,
and so is every header but for its lengths and checksums. -/
structure Replaces (p q : Packet) (b : Bytes) : Prop where
  kinds : q.layers.map (·.kind) = p.layers.map (·.kind)
  padding : q.layers.map q.padding = p.layers.map p.padding
  payload : q.payloadBytes (q.layers.length - 1) = b
  headers : ∀ {depth : Nat} {l l' : Layer}, p.layers[depth]? = some l → q.layers[depth]? = some l' →
    (q.header l').length = (p.header l).length
      ∧ ∀ i, ¬ l.kind.Derives (p.header l) i → (q.header l')[i]? = (p.header l)[i]?

/-- The payload of the innermost layer is the body. -/
theorem innermost_payloadBytes {p : Packet} (laid : p.LaidOut) (filled : p.layers ≠ []) :
    p.payloadBytes (p.layers.length - 1) = p.plain.body.getD [] := by
  have hpositive := List.length_pos_iff.2 filled
  have hlast : p.layers[p.layers.length - 1]? = some (p.layers.getLast filled) := by
    rw [List.getLast_eq_getElem, List.getElem?_eq_getElem]
  have hall : p.plain.layers.length ≤ p.layers.length - 1 + 1 := by
    show (p.layers.map (Layer.plain p.arena)).length ≤ _
    rw [List.length_map]
    omega
  rw [payloadBytes_eq laid hlast, List.drop_eq_nil_of_le hall, PlainLayer.wire_nil]

/-- Headers that were brought up to date with other bytes inside. -/
theorem replaces_of_touched {p q : Packet} {b : Bytes} (laid : q.LaidOut) (filled : p.layers ≠ [])
    (body : q.plain.body.getD [] = b)
    (touched : PlainLayer.Touched q.plain.body p.plain.layers q.plain.layers) : p.Replaces q b where
  kinds := by
    have hkinds : q.plain.layers.map (·.kind) = p.plain.layers.map (·.kind) :=
      touched.map_eq fun _ _ => rfl
    simp only [plain, List.map_map] at hkinds
    exact hkinds
  padding := by
    have hpadding : q.plain.layers.map (·.padding) = p.plain.layers.map (·.padding) :=
      touched.map_eq fun _ _ => rfl
    simp only [plain, List.map_map] at hpadding
    exact hpadding
  payload := by
    have hlength := congrArg List.length touched.length_headers
    simp only [plain, List.length_map] at hlength
    rw [innermost_payloadBytes laid, body]
    rw [← List.length_pos_iff, hlength]
    exact List.length_pos_iff.2 filled
  headers {depth l l'} before after := by
    -- the lengths of all headers at once, their bytes one by one
    refine ⟨?_, (touched.keeps (getElem?_plain before) (getElem?_plain after)).2⟩
    have hlengths := congrArg (·[depth]?) touched.length_headers
    simp only [List.getElem?_map, getElem?_plain before, getElem?_plain after,
      Option.map_some] at hlengths
    exact Option.some.inj hlengths

end Packet

namespace Registry

/-- A check sequence that was computed anew trails the frame like the old
one. -/
theorem trails_updated {p : PlainPacket} {tail : Bytes} {hasFcs : Bool} (trails : Trails tail hasFcs)
    (fcs : p.fcs = trailer tail hasFcs) :
    ∃ tail', Trails tail' hasFcs ∧ p.updateFcs.fcs = trailer tail' hasFcs := by
  unfold PlainPacket.updateFcs
  rw [fcs]
  cases hasFcs with
  | false => exact ⟨tail, trails, rfl⟩
  | true => exact ⟨_, by simp [Trails, Bytes.length_ofNat], rfl⟩

theorem trailer_getD {tail : Bytes} {hasFcs : Bool} (trails : Trails tail hasFcs) :
    (trailer tail hasFcs).getD [] = tail := by
  cases hasFcs with
  | false => exact (List.length_eq_zero_iff.1 trails).symm
  | true => rfl

/-- **A packet that was brought up to date** is decoded as it was left, if its
layers are found in its bytes; its check sequence holds, and is as long as the
old one. -/
theorem decodeFrom_updated {r : Registry} {d : Dissector} {origin : Option Discriminant}
    {p q : Packet} {tail : Bytes} {hasFcs : Bool} (laid : p.LaidOut)
    (ok : p.recompute .fill = .ok q) (trails : Trails tail hasFcs)
    (fcs : p.plain.fcs = trailer tail hasFcs)
    (found : r.Parses (maxDepth - 1) d origin (PlainLayer.wire q.plain.layers q.plain.body)
      ⟨q.plain.layers, q.plain.body, none⟩) :
    ∃ q', r.decodeFrom d origin
          (PlainLayer.wire q.plain.layers q.plain.body ++ q.plain.fcs.getD []) hasFcs
        = .ok (.complete q')
      ∧ q'.plain = q.plain ∧ q'.LaidOut ∧ q'.fcsValid = true
      ∧ (q.plain.fcs.getD []).length = tail.length := by
  obtain ⟨_, _, hsealed⟩ := PlainPacket.recompute_eq_ok.1 (Packet.recompute_plain laid ok)
  -- a new check sequence trails the frame, if there was one
  obtain ⟨tail', trails', hfcs⟩ :
      ∃ tail', Trails tail' hasFcs ∧ q.plain.fcs = trailer tail' hasFcs := by
    rw [hsealed]
    exact trails_updated trails fcs
  obtain ⟨q', hdecode, hplain, laid'⟩ := decodeFrom_of_parses found trails'
  have hsame : q'.plain = q.plain := by rw [hplain, ← hfcs]
  rw [hfcs, trailer_getD trails']
  refine ⟨q', hdecode, hsame, laid', Packet.fcsValid_of_updated laid' ?_, trails'.trans trails.symm⟩
  rw [hsame, hsealed]
  exact @PlainPacket.sealed_sealed _ .fill

/-- **Another payload, the same packet around it.**  Take any packet that was
decoded completely, by whatever protocol of the library it begins with, whose
innermost layer takes bytes.  Any bytes can be put into that layer.  If then
every layer has no padding, or has room for its new payload in its length field
of sixteen bits, should it have one, the packet is serialized, and decoded
completely, into the same protocols with the same padding around the new bytes.
Of the headers nothing but lengths and checksums is written over, all checksums
hold, and so does the frame check sequence.  The buffer is longer or shorter by
as much as the payload. -/
theorem decodeFrom_replaced {d : Dissector} {origin : Option Discriminant} {data : Bytes}
    {hasFcs : Bool} {p : Packet} {l : Layer} (root : d ∈ Dissector.all)
    (h : standard.decodeFrom d origin data hasFcs = .ok (.complete p))
    (innermost : p.layers.getLast? = some l) (takes : l.kind.TakesBytes) (b : Bytes) :
    ∃ p', p.push (.ofBytes b) = .ok (p', .ok ())
      ∧ ((∀ {depth : Nat} {m : Layer}, p'.layers[depth]? = some m → p'.padding m = []
            ∨ m.kind.Fits (p'.header m).length (p'.payloadBytes depth).length) →
        ∃ bytes s q, p'.serialize .fill = .ok (bytes, s)
          ∧ standard.decodeFrom d origin bytes hasFcs = .ok (.complete q) ∧ p.Replaces q b
          ∧ q.checksumValid = .ok true ∧ q.fcsValid = true
          ∧ bytes.length + (p.payloadBytes (p.layers.length - 1)).length
            = data.length + b.length) := by
  have filled : p.layers ≠ [] := by
    intro hnone
    rw [hnone] at innermost
    cases innermost
  obtain ⟨frame, tail, rfl, trails⟩ := frame_of_decodeFrom h rfl
  obtain ⟨found, hparses, _, hplain, laid⟩ := decodeFrom_parses trails h rfl
  have hknown := hparses.known standard_uses root
  obtain ⟨p', hpush, hlaid, hstale, hplain'⟩ := Packet.push_ofBytes laid filled b
  replace hplain' : p'.plain = ⟨found.layers, rawBytes b, trailer tail hasFcs⟩ := by
    rw [hplain', hplain]
  refine ⟨p', hpush, fun each => ?_⟩
  have hroomy := Packet.roomy_of_each hlaid each
  rw [hplain'] at hroomy
  have htotal : ∀ m ∈ p'.layers, m.dissector.Total := fun m hm => by
    have hmem : m.plain p'.arena ∈ p'.plain.layers := List.mem_map_of_mem hm
    rw [hplain'] at hmem
    exact (Dissector.lawful_of_mem_all (hknown _ hmem)).total
  have hlast : p.plain.layers.getLast? = some (l.plain p.arena) := by
    rw [p.getLast?_plain, innermost, Option.map_some]
  rw [hplain] at hlast
  -- the pass, on plain bytes
  obtain ⟨q, s, hq, hserialize⟩ := Packet.serialize_of_stale hlaid hstale htotal .fill
  obtain ⟨hall, hbody⟩ := Packet.recomputeAll_of_recompute hlaid hq
  rw [hplain'] at hall
  replace hbody : q.plain.body = rawBytes b := by rw [hbody, hplain']
  obtain ⟨touched, hagain, checks⟩ :=
    hparses.around_bytes standard_uses root hlast takes hroomy hall
  -- what it leaves is decoded as it is
  rw [← hbody] at hagain
  obtain ⟨q', hdecode, hsame, laid', hvalid, htails⟩ := decodeFrom_updated hlaid hq trails
    (by rw [hplain']) hagain
  refine ⟨_, s, q', hserialize, hdecode, ?_, ?_, hvalid, ?_⟩
  · refine Packet.replaces_of_touched laid' filled ?_ ?_
    · rw [hsame, hbody, rawBytes_getD]
    · rw [hsame, hbody, hplain]
      exact touched
  · refine Packet.checksumValid_of_checks laid' ?_
    rw [hsame, hbody]
    exact checks
  · -- headers and padding are as long as before, and so is the check sequence
    have hlength := PlainLayer.length_wire_add found.layers found.body (rawBytes b)
    rw [hparses.wire_eq, rawBytes_getD] at hlength
    have hbefore : p.plain.body = found.body := congrArg PlainPacket.body hplain
    rw [Packet.innermost_payloadBytes laid filled, hbefore, hbody, List.length_append,
      List.length_append, touched.length_wire, htails]
    omega

/-- Two bytes in UDP in IPv4 in Ethernet, with two bytes of padding and a
wrong frame check sequence. -/
def paddedDatagram : Bytes :=
  List.replicate 12 0 ++ [0x08, 0, 0x45, 0, 0, 30, 0, 0, 0, 0, 64, 17, 0, 0, 10, 0, 0, 1, 10, 0, 0, 2,
    0, 1, 0, 2, 0, 10, 0, 0, 1, 2, 9, 9, 4, 4, 4, 4]

/-- Three bytes take the place of the two. -/
theorem decodeFrom_replaced_padded :
    ∃ p p' bytes s q, standard.decodeFrom Ethernet.dissector none paddedDatagram true
        = .ok (.complete p)
      ∧ p.push (.ofBytes [5, 6, 7]) = .ok (p', .ok ()) ∧ p'.serialize .fill = .ok (bytes, s)
      ∧ standard.decodeFrom Ethernet.dissector none bytes true = .ok (.complete q)
      ∧ p.Replaces q [5, 6, 7] ∧ q.checksumValid = .ok true ∧ bytes.length = 51 := by
  obtain ⟨p, p₁, l, m₀, m₁, m₂, hp, hp₁, hl, htakes, hlength, hlayers, hfirst, hsecond, hthird⟩ :
      ∃ p p₁ l m₀ m₁ m₂, standard.decodeFrom Ethernet.dissector none paddedDatagram true
          = .ok (.complete p)
        ∧ p.push (.ofBytes [5, 6, 7]) = .ok (p₁, .ok ()) ∧ p.layers.getLast? = some l
        ∧ l.kind.TakesBytes ∧ (p.payloadBytes (p.layers.length - 1)).length = 2
        ∧ p₁.layers = [m₀, m₁, m₂] ∧ p₁.padding m₀ = []
        ∧ m₁.kind.Fits (p₁.header m₁).length (p₁.payloadBytes 1).length ∧ p₁.padding m₂ = [] :=
    ⟨_, _, _, _, _, _, rfl, rfl, rfl, trivial, rfl, rfl, rfl, (by decide : 20 + 11 ≤ 65535), rfl⟩
  have hroomy : ∀ {depth : Nat} {m : Layer}, p₁.layers[depth]? = some m → p₁.padding m = []
      ∨ m.kind.Fits (p₁.header m).length (p₁.payloadBytes depth).length := by
    intro depth m hm
    rw [hlayers] at hm
    match depth with
    | 0 => exact .inl (Option.some.inj hm ▸ hfirst)
    | 1 => exact .inr (Option.some.inj hm ▸ hsecond)
    | 2 => exact .inl (Option.some.inj hm ▸ hthird)
  obtain ⟨p', hp', hreplaced⟩ := decodeFrom_replaced (by simp [Dissector.all]) hp hl htakes [5, 6, 7]
  obtain ⟨rfl, _⟩ := Prod.mk.inj (Except.ok.inj (hp₁.symm.trans hp'))
  obtain ⟨bytes, s, q, hserialize, hdecode, hreplaces, hvalid, _, hbytes⟩ := hreplaced hroomy
  have hdata : paddedDatagram.length = 50 := rfl
  refine ⟨p, _, bytes, s, q, hp, hp', hserialize, hdecode, hreplaces, hvalid, ?_⟩
  rw [hlength, hdata] at hbytes
  exact Nat.add_right_cancel hbytes

end Registry

end PacketLayers
