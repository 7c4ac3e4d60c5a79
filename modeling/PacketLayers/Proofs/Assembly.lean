/-
  PacketLayers.Proofs.Assembly
  ────────────────────────────────
  **PACKETS THAT WERE BUILT ARE DECODED AGAIN.**

  A packet is built from contents: a header is written for each, the layers
  are pushed into one another, and bytes may be pushed last where the
  innermost protocol takes them.  Serialized, such a packet decodes into the
  same layers with the same headers and the same bytes inside, with no padding
  anywhere and no wrong checksum.

    • `HeaderContents.packet_ready` — a whole header is written for all contents;
    • `Packet.push_pushed` — what a push does to the bytes of a packet;
    • `Assembled.built` — building keeps the layers prepared;
    • `Assembled.decode_serialize` — the bytes decode into what was built.
-/
import PacketLayers.Proofs.Emission.Link
import PacketLayers.Proofs.Emission.Network
import PacketLayers.Proofs.Emission.Transport
import PacketLayers.Proofs.Stack

namespace PacketLayers

/-! ## §1. Contents. -/

/-- What a layer is built from. -/
inductive HeaderContents where
  | ethernet (r : Ethernet.Header)
  | vlan (r : Vlan.Header)
  | arp (r : Arp.Message)
  /-- The total length fits its field. -/
  | ipv4 (r : Ipv4.Header) (short : r.payloadLength ≤ 65515)
  | ipv6 (r : Ipv6.Header)
  | tcp (r : Tcp.Header)
  | udp (r : Udp.Header)
  | icmpv4 (r : Icmpv4.Message)
  | icmpv6 (r : Icmpv6.Message)
  | igmp (r : Igmp.Message)
  | gre (r : Gre.Header)
  | loopback (r : Loopback.Header)
  | snap (organization : Octets 3) (etherType : EtherType)
  /-- The body of the frame can be read. -/
  | wireless (r : Wireless.Header) (clear : r.flags.isProtected = false)

namespace HeaderContents

/-- The packet of one layer with the header written for the contents. -/
def packet : HeaderContents → Access Packet
  | ethernet r => Packet.ofContents r
  | vlan r => Packet.ofContents r
  | arp r => Packet.ofContents r
  | ipv4 r _ => Packet.ofContents r
  | ipv6 r => Packet.ofContents r
  | tcp r => Packet.ofContents r
  | udp r => Packet.ofContents r
  | icmpv4 r => Packet.ofContents r
  | icmpv6 r => Packet.ofContents r
  | igmp r => Packet.ofContents r
  | gre r => Packet.ofContents r
  | loopback r => .ok (.ofHeader Loopback.dissector r.toBytes)
  | snap organization etherType => Packet.ofContents (Llc.Header.snap organization etherType)
  | wireless r _ => Packet.ofContents r

/-- A layer with the header written for some contents can be built on. -/
theorem ready_of_emits {α : Type} [WireHeader α] (r : α) {d : Dissector} {fair : Bytes → Prop}
    (legible : d.Legible fair) (emits : d.Emits fair (WireHeader.toBytes r))
    (known : d ∈ Dissector.all) (same : WireHeader.dissector α = d) :
    ∃ d h, Packet.ofContents r = .ok (.ofHeader d h) ∧ PlainLayer.Ready ⟨d, none, h, []⟩ := by
  obtain ⟨h, hbytes, whole, hfair⟩ := emits
  refine ⟨d, h, ?_, known, ⟨fair, legible, whole, hfair⟩, rfl⟩
  rw [Packet.ofContents, hbytes, same]
  rfl

/-- **A header can be written for all contents**, and the layer can be built
on. -/
theorem packet_ready (c : HeaderContents) :
    ∃ d h, c.packet = .ok (.ofHeader d h) ∧ PlainLayer.Ready ⟨d, none, h, []⟩ := by
  cases c with
  | ethernet r =>
    exact ready_of_emits r Ethernet.legible (Ethernet.emits r) (by simp [Dissector.all]) rfl
  | vlan r => exact ready_of_emits r Vlan.legible (Vlan.emits r) (by simp [Dissector.all]) rfl
  | arp r => exact ready_of_emits r Arp.legible (Arp.emits r) (by simp [Dissector.all]) rfl
  | ipv4 r _ => exact ready_of_emits r Ipv4.legible (Ipv4.emits r) (by simp [Dissector.all]) rfl
  | ipv6 r => exact ready_of_emits r Ipv6.legible (Ipv6.emits r) (by simp [Dissector.all]) rfl
  | tcp r => exact ready_of_emits r Tcp.legible (Tcp.emits r) (by simp [Dissector.all]) rfl
  | udp r => exact ready_of_emits r Udp.legible (Udp.emits r) (by simp [Dissector.all]) rfl
  | icmpv4 r => exact ready_of_emits r Icmpv4.legible (Icmpv4.emits r) (by simp [Dissector.all]) rfl
  | icmpv6 r => exact ready_of_emits r Icmpv6.legible (Icmpv6.emits r) (by simp [Dissector.all]) rfl
  | igmp r => exact ready_of_emits r Igmp.legible (Igmp.emits r) (by simp [Dissector.all]) rfl
  | gre r => exact ready_of_emits r Gre.legible (Gre.emits r) (by simp [Dissector.all]) rfl
  | loopback r =>
    exact ⟨_, _, rfl, by simp [Dissector.all],
      ⟨_, Loopback.legible, Loopback.whole_toBytes r, trivial⟩, rfl⟩
  | snap organization etherType =>
    exact ready_of_emits (Llc.Header.snap organization etherType) Llc.legible
      (Llc.emits organization etherType) (by simp [Dissector.all]) rfl
  | wireless r clear =>
    exact ready_of_emits r Wireless.legible (Wireless.emits r clear) (by simp [Dissector.all]) rfl

end HeaderContents

/-! ## §2. Pushing, region by region. -/

/-- A payload that says the same over every arena. -/
structure Payload.Spells (payload : Payload) (layers : List PlainLayer) (body : Option Bytes) :
    Prop where
  apart : payload.Detached
  layers : ∀ arena, payload.layers.map (Layer.plain arena) = layers
  body : ∀ arena, payload.body.map (Region.bytes arena) = body

theorem Payload.spells_detach (arena : Bytes) (payload : Payload) :
    (payload.detach arena).Spells (payload.layers.map (Layer.plain arena))
      (payload.body.map (Region.bytes arena)) where
  apart := detached_detach _ _
  layers arena' := by
    show (payload.layers.map (Layer.detach arena)).map (Layer.plain arena') = _
    rw [List.map_map]
    rfl
  body arena' := by
    show (payload.body.map (Region.detach arena)).map (Region.bytes arena') = _
    rw [Option.map_map]
    rfl

theorem Packet.spells_toPayload (q : Packet) :
    q.toPayload.Spells q.plain.layers q.plain.body :=
  Payload.spells_detach q.arena ⟨q.layers, q.body⟩

theorem Payload.spells_ofBytes (b : Bytes) :
    (Payload.ofBytes b).Spells [] (if b.isEmpty then none else some b) where
  apart := detached_ofBytes b
  layers _ := rfl
  body arena := by
    unfold ofBytes
    by_cases hempty : b.isEmpty = true
    · rw [if_pos hempty, if_pos hempty]
      rfl
    · rw [if_neg hempty, if_neg hempty]
      rfl

namespace Cursor

variable {c c' : Cursor} {new : Bytes}

/-- What a write into the header does to the bytes of a packet. -/
structure Stored (c c' : Cursor) (new : Bytes) : Prop where
  outer : c'.outer.map (Layer.plain c'.packet.arena) = c.outer.map (Layer.plain c.packet.arena)
  focus : Layer.plain c'.packet.arena c'.focus
    = { Layer.plain c.packet.arena c.focus with header := new }
  inner : c'.inner.map (Layer.plain c'.packet.arena) = c.inner.map (Layer.plain c.packet.arena)
  body : c'.packet.body.map (Region.bytes c'.packet.arena)
    = c.packet.body.map (Region.bytes c.packet.arena)
  fcs : c'.packet.fcs.map (Region.bytes c'.packet.arena)
    = c.packet.fcs.map (Region.bytes c.packet.arena)

/-- **The header is stored,** and all other regions keep their bytes. -/
theorem storeHeader_stored (h : c.close.LaidOut) (ok : c.storeHeader new = .ok c') :
    Stored c c' new := by
  obtain ⟨arena, header, hregion, rfl⟩ := storeHeader_eq_ok ok
  obtain ⟨hbefore, hbehind⟩ := (laidOut_at_header h).contents_store_around hregion
  have hheader : header.bytes arena = new := Region.bytes_store (header_inside h) hregion
  have hfront : ∀ l ∈ c.outer, l.header.bytes arena = l.header.bytes c.packet.arena := fun l hl =>
    List.map_inj_left.1 hbefore _ (List.mem_map_of_mem hl)
  have hback : ∀ r, r ∈ c.within ++ c.focus.padding :: c.behind →
      r.bytes arena = r.bytes c.packet.arena := fun r hr => List.map_inj_left.1 hbehind r hr
  obtain ⟨hinner, hbody⟩ := Layer.plain_of_bytes_eq fun r hr =>
    hback r (List.mem_append_left _ hr)
  -- the paddings of the outer layers stand behind, their headers in front
  refine ⟨List.map_congr_left fun l hl => ?_, ?_, hinner, hbody, ?_⟩
  · have hpadding : l.padding ∈ c.behind :=
      List.mem_append_left _ (List.mem_reverse.2 (List.mem_map_of_mem hl))
    show Layer.plain arena l = _
    rw [Layer.plain, Layer.plain, hfront l hl,
      hback _ (List.mem_append_right _ (List.mem_cons_of_mem _ hpadding))]
  · have hpadding := hback c.focus.padding (List.mem_append_right _ List.mem_cons_self)
    show (⟨_, _, header.bytes arena, c.focus.padding.bytes arena⟩ : PlainLayer) = _
    rw [hheader, hpadding]
    rfl
  · cases hfcs : c.packet.fcs with
    | none => rfl
    | some t =>
      have hmem : t ∈ c.behind := List.mem_append_right _ (by rw [hfcs]; exact List.mem_singleton_self t)
      exact congrArg some (hback t (List.mem_append_right _ (List.mem_cons_of_mem _ hmem)))

/-- **A payload of layers takes the place of what was inside,** and the layer is
told what it is. -/
theorem plain_setPayload {payload : Payload} {child : PlainLayer} {inner : List PlainLayer}
    {body : Option Bytes} (h : c.close.LaidOut) (spells : payload.Spells (child :: inner) body)
    (ok : c.setPayload payload = .ok (.ok c')) :
    ∃ o header, c.focus.dissector.discriminantOf child.kind = some o
      ∧ c.focus.dissector.setNext c.header o = .ok header
      ∧ c'.close.plain = ⟨c.outer.map (Layer.plain c.packet.arena)
          ++ { Layer.plain c.packet.arena c.focus with header := header }
            :: { child with origin := some o } :: inner,
        body, c.packet.fcs.map (Region.bytes c.packet.arena)⟩ := by
  obtain ⟨hlayers, _⟩ | ⟨root, rest, o, new, c'', hlayers, hnamed, hnew, hstore, rfl⟩ :=
    setPayload_eq_ok ok
  · have hnone := spells.layers []
    rw [hlayers, List.map_nil] at hnone
    cases hnone
  · -- the layers that were put in have places of their own, so they are what they were
    have stored := storeHeader_stored h hstore
    have hspelled := spells.layers c''.packet.arena
    rw [hlayers, List.map_cons] at hspelled
    obtain ⟨rfl, rfl⟩ := List.cons.inj hspelled
    refine ⟨o, new, hnamed, hnew, ?_⟩
    show (⟨(c''.outer ++ c''.focus :: { root with origin := some o } :: rest).map
        (Layer.plain c''.packet.arena), payload.body.map (Region.bytes c''.packet.arena),
        c''.packet.fcs.map (Region.bytes c''.packet.arena)⟩ : PlainPacket) = _
    rw [List.map_append, List.map_cons, List.map_cons, stored.outer, stored.focus, spells.body,
      stored.fcs]
    rfl

end Cursor

namespace Packet

/-- The innermost layer stands behind all others. -/
theorem openInnermost_eq {p : Packet} {outer : List Layer} {last : Layer}
    (hlayers : p.layers = outer ++ [last]) :
    p.openInnermost? = some ⟨p, outer, last, []⟩ := by
  have hdepth : p.layers.length - 1 = outer.length := by
    rw [hlayers, List.length_append]
    rfl
  rw [openInnermost?, open?, hdepth, hlayers, List.drop_left, List.take_left]

/-- The innermost layer is opened and gets the payload. -/
theorem push_eq_ok {p p' : Packet} {payload : Payload} (ok : p.push payload = .ok (p', .ok ())) :
    ∃ c c', p.open? (p.layers.length - 1) = some c ∧ c.inner = []
      ∧ c.setPayload payload = .ok (.ok c') ∧ p' = c'.close := by
  unfold push openInnermost? at ok
  cases hopen : p.open? (p.layers.length - 1) with
  | none =>
    rw [hopen] at ok
    injection ok with ok
    cases ok
  | some c =>
    rw [hopen] at ok
    obtain ⟨out, hout, ok⟩ := bind_eq_ok.1 ok
    cases out with
    | error e =>
      injection ok with ok
      cases ok
    | ok c' =>
      injection ok with ok
      injection ok with ok
      obtain ⟨_, hsplit, hlength⟩ := Cursor.close_of_open hopen
      -- nothing is inside the last of the layers
      have hinner : c.inner = [] := by
        have htotal := congrArg List.length hsplit
        rw [List.length_append, List.length_cons] at htotal
        exact List.length_eq_zero_iff.1 (by omega)
      exact ⟨c, c', rfl, hinner, hout, ok.symm⟩

/-- What pushing does to the plain form: the innermost layer is told what is
inside it, and everything else stays. -/
structure Pushed (p p' : Packet) (layers : List PlainLayer) (body : Option Bytes) : Prop where
  laidOut : p'.LaidOut
  stale : p'.stale = true
  fcs : p'.fcs = p.fcs
  body : p'.plain.body = body
  layers : layers = [] ∧ p'.plain.layers = p.plain.layers
    ∨ ∃ outer focus child inner o header, layers = child :: inner
      ∧ p.plain.layers = outer ++ [focus] ∧ focus.dissector.discriminantOf child.kind = some o
      ∧ focus.dissector.setNext focus.header o = .ok header
      ∧ p'.plain.layers
        = outer ++ { focus with header := header } :: { child with origin := some o } :: inner

/-- The plain form around a layer that was opened. -/
theorem plain_of_open {p : Packet} {depth : Nat} {c : Cursor} (opened : p.open? depth = some c) :
    p.plain.layers = c.outer.map (Layer.plain p.arena)
      ++ Layer.plain p.arena c.focus :: c.inner.map (Layer.plain p.arena) := by
  obtain ⟨_, hsplit, _⟩ := Cursor.close_of_open opened
  show p.layers.map (Layer.plain p.arena) = _
  rw [← hsplit, List.map_append, List.map_cons]

/-- **What replacing the payload by layers does to the plain form:** the layer
is told what is inside it, and the layers around it stay. -/
theorem setPayload_plain {p : Packet} {depth : Nat} {c c' : Cursor} {payload : Payload}
    {child : PlainLayer} {inner : List PlainLayer} {body : Option Bytes} (laid : p.LaidOut)
    (opened : p.open? depth = some c) (spells : payload.Spells (child :: inner) body)
    (ok : c.setPayload payload = .ok (.ok c')) :
    ∃ o header, c.focus.dissector.discriminantOf child.kind = some o
      ∧ c.focus.dissector.setNext c.header o = .ok header
      ∧ c'.close.plain.layers = c.outer.map (Layer.plain p.arena)
        ++ { Layer.plain p.arena c.focus with header := header }
          :: { child with origin := some o } :: inner := by
  obtain ⟨o, header, hnamed, htold, hplain⟩ :=
    Cursor.plain_setPayload (Cursor.close_laidOut_of_open laid opened) spells ok
  obtain ⟨rfl, _, _⟩ := Cursor.close_of_open opened
  exact ⟨o, header, hnamed, htold, congrArg PlainPacket.layers hplain⟩

theorem push_pushed {p p' : Packet} {payload : Payload} {layers : List PlainLayer}
    {body : Option Bytes} (laid : p.LaidOut) (spells : payload.Spells layers body)
    (ok : p.push payload = .ok (p', .ok ())) : Pushed p p' layers body := by
  obtain ⟨c, c', hopen, hinner, hset, rfl⟩ := push_eq_ok ok
  have hplain := plain_of_open hopen
  rw [hinner, List.map_nil] at hplain
  obtain ⟨hpacket, _, _⟩ := Cursor.close_of_open hopen
  have hlaid := Cursor.setPayload_laidOut (Cursor.close_laidOut_of_open laid hopen) spells.apart hset
  obtain ⟨hbody, hfcs⟩ := Cursor.setPayload_frame hset
  refine ⟨hlaid, rfl, hfcs.trans (congrArg Packet.fcs hpacket), ?_, ?_⟩
  · show c'.packet.body.map _ = _
    rw [hbody]
    exact spells.body _
  · -- bytes are put inside as they are; layers are announced
    cases layers with
    | nil =>
      have hnone := List.map_eq_nil_iff.1 (spells.layers [])
      obtain ⟨_, rfl⟩ | ⟨_, _, _, _, _, hcons, _⟩ := Cursor.setPayload_eq_ok hset
      · refine .inl ⟨rfl, ?_⟩
        rw [hplain, ← hpacket]
        show (c.outer ++ c.focus :: []).map (Layer.plain c.packet.arena) = _
        rw [List.map_append, List.map_cons, List.map_nil]
      · rw [hnone] at hcons
        cases hcons
    | cons child inner =>
      obtain ⟨o, header, hnamed, hnew, hresult⟩ := setPayload_plain laid hopen spells hset
      refine .inr ⟨_, _, child, inner, o, header, rfl, hplain, hnamed, ?_, hresult⟩
      rw [← hpacket]
      exact hnew

end Packet

/-! ## §3. Packets that were built. -/

/-- Layers that were pushed into one another, in any order. -/
inductive Stacked : Packet → Prop where
  | layer (c : HeaderContents) {p : Packet} (ok : c.packet = .ok p) : Stacked p
  | push {p q p' : Packet} (outer : Stacked p) (inner : Stacked q)
      (ok : p.push q.toPayload = .ok (p', .ok ())) : Stacked p'

/-- Stacked layers, with bytes pushed last if the innermost protocol takes
them. -/
inductive Assembled : Packet → Prop where
  | stacked {p : Packet} (h : Stacked p) : Assembled p
  | filled {p p' : Packet} {l : Layer} (h : Stacked p) (innermost : p.layers.getLast? = some l)
      (takes : l.kind.TakesBytes) (b : Bytes) (ok : p.push (.ofBytes b) = .ok (p', .ok ())) :
      Assembled p'

/-- What building keeps: the layers are prepared for the body that the packet
has, and their derived fields are yet to be computed. -/
structure Packet.Built (inside : Option Bytes) (p : Packet) : Prop where
  laidOut : p.LaidOut
  stale : p.stale = true
  fcs : p.fcs = none
  body : p.plain.body = inside
  prepared : PlainLayer.Prepared inside p.plain.layers

namespace Packet

/-- A packet of one layer is built. -/
theorem built_ofHeader {d : Dissector} {h : Bytes} (ready : PlainLayer.Ready ⟨d, none, h, []⟩) :
    Built none (ofHeader d h) where
  laidOut := (@Coherent.of_header (fun _ => True) d trivial h).laidOut
  stale := rfl
  fcs := rfl
  body := rfl
  prepared := by
    have hplain : (ofHeader d h).plain.layers = [⟨d, none, h, []⟩] := by
      simp [ofHeader, plain, Layer.plain, Region.bytes, Region.empty, Span.bytesOf, Span.stop]
    rw [hplain]
    exact .innermost ready fun b hb => by cases hb

/-- A built packet that is pushed into another makes a built one. -/
theorem Built.push {p q p' : Packet} (outer : Built none p) (inner : Built none q)
    (ok : p.push q.toPayload = .ok (p', .ok ())) : Built none p' := by
  have pushed := push_pushed outer.laidOut q.spells_toPayload ok
  refine ⟨pushed.laidOut, pushed.stale, pushed.fcs.trans outer.fcs, pushed.body.trans inner.body, ?_⟩
  rcases pushed.layers with ⟨hnone, _⟩ | ⟨before, focus, child, rest, o, header, hlayers, hsplit,
    hnamed, htold, hresult⟩
  · have hprepared := inner.prepared
    rw [hnone] at hprepared
    cases hprepared
  · have hinside := inner.prepared
    rw [hlayers] at hinside
    have houter := outer.prepared
    rw [hsplit] at houter
    rw [hresult]
    exact (hinside.reroot (some o)).graft hnamed rfl htold houter

/-- Bytes that are pushed into a built packet that takes them make a built
one. -/
theorem Built.fill {p p' : Packet} (h : Built none p) {l : Layer}
    (innermost : p.layers.getLast? = some l) (takes : l.kind.TakesBytes) {b : Bytes}
    (ok : p.push (.ofBytes b) = .ok (p', .ok ())) :
    Built (if b.isEmpty then none else some b) p' := by
  have pushed := push_pushed h.laidOut (Payload.spells_ofBytes b) ok
  refine ⟨pushed.laidOut, pushed.stale, pushed.fcs.trans h.fcs, pushed.body, ?_⟩
  -- bytes, which need no name, and not a layer
  rcases pushed.layers with ⟨_, hsame⟩ | ⟨_, _, _, _, _, _, hcons, _⟩
  · rw [hsame]
    by_cases hempty : b.isEmpty = true
    · rw [if_pos hempty]
      exact h.prepared
    · rw [if_neg hempty]
      obtain ⟨outer, hsplit⟩ := List.getLast?_eq_some_iff.1 innermost
      have hplain : p.plain.layers
          = outer.map (Layer.plain p.arena) ++ [Layer.plain p.arena l] := by
        show p.layers.map (Layer.plain p.arena) = _
        rw [hsplit, List.map_append, List.map_cons, List.map_nil]
      have hprepared := h.prepared
      rw [hplain] at hprepared ⊢
      refine hprepared.fill ?_ takes
      intro hnil
      exact hempty (List.isEmpty_iff.2 hnil)
  · cases hcons

end Packet

theorem Stacked.built {p : Packet} (h : Stacked p) : p.Built none := by
  induction h with
  | layer c ok =>
    obtain ⟨d, header, hpacket, ready⟩ := c.packet_ready
    obtain rfl := Except.ok.inj (hpacket.symm.trans ok)
    exact Packet.built_ofHeader ready
  | push _ _ ok outer inner => exact outer.push inner ok

theorem Assembled.built {p : Packet} (h : Assembled p) : ∃ body, p.Built body := by
  cases h with
  | stacked h => exact ⟨none, h.built⟩
  | filled h innermost takes b ok => exact ⟨_, h.built.fill innermost takes ok⟩

/-! ## §4. Serialized and decoded. -/

namespace Packet

/-- A built packet is serialized, and what it is serialized to can be read. -/
theorem Built.serialize {body : Option Bytes} {p : Packet} (h : Built body p) :
    ∃ s, p.serialize .fill = .ok (PlainLayer.wire s.plain.layers body, s) ∧ s.LaidOut
      ∧ s.shapes = p.shapes ∧ s.plain.body = body
      ∧ PlainLayer.Reads .standard body s.plain.layers
      ∧ PlainLayer.Checks body none s.plain.layers := by
  have htotal : ∀ l ∈ p.layers, l.dissector.Total := by
    intro l hl
    have hknown := h.prepared.known (Layer.plain p.arena l) (List.mem_map_of_mem hl)
    exact (Dissector.lawful_of_mem_all hknown).total
  obtain ⟨q, hq⟩ := recompute_succeeds h.laidOut htotal .fill
  have hagrees := p.recompute_agrees h.laidOut .fill
  rw [hq] at hagrees
  obtain ⟨new, hnew, fresh⟩ := hagrees.of_ok_left
  obtain ⟨layers, hlayers, rfl⟩ := PlainPacket.recompute_eq_ok.1 hnew
  rw [h.body] at hlayers
  have settled := settle_spec fresh.laidOut
  -- the plain form of what is serialized
  have hplain : q.settle.plain = ⟨layers, body, none⟩ := by
    rw [settled.plain, fresh.plain, ← h.body]
    simp [PlainPacket.sealed, PlainPacket.updateFcs, plain, h.fcs]
  have harena : q.settle.arena = PlainLayer.wire layers body := by
    rw [settled.arena, contents_plain, ← settled.plain, hplain]
    simp [PlainPacket.pieces, PlainLayer.wire]
  have hrefreshed : p.refreshed .fill = .ok q := by
    rw [refreshed, if_pos h.stale, hq]
  have hserialize := serialize_of_refreshed hrefreshed
  rw [harena] at hserialize
  obtain ⟨reads, checks⟩ := h.prepared.recomputed hlayers
  refine ⟨q.settle, ?_, settled.laidOut, ?_, ?_, ?_, ?_⟩
  · rw [hserialize, hplain]
  · rw [shapes_plain, shapes_plain, hplain]
    exact PlainLayer.recomputeAll_shapes hlayers
  · rw [hplain]
  · rw [hplain]
    exact reads
  · rw [hplain]
    exact checks

/-- What is decoded is what was serialized: the same layers with the same
headers around the same bytes, without padding and without wrong checksums. -/
structure Recovered (p s q : Packet) : Prop where
  kinds : q.layers.map (·.kind) = p.layers.map (·.kind)
  headers : q.layers.map (fun l => (l.kind, q.header l)) = s.layers.map fun l => (l.kind, s.header l)
  body : q.body.map (·.bytes q.arena) = p.body.map (·.bytes p.arena)
  kept : s.body.map (·.bytes s.arena) = p.body.map (·.bytes p.arena)
  bare : ∀ l ∈ q.layers, q.padding l = []
  valid : q.checksumValid = .ok true

/-- Layers whose plain forms have the same parts have the same headers. -/
theorem headers_of_parts {s q : Packet}
    (same : q.plain.layers.map PlainLayer.parts = s.plain.layers.map PlainLayer.parts) :
    q.layers.map (fun l => (l.kind, q.header l))
      = s.layers.map fun l => (l.kind, s.header l) := by
  have hmap := congrArg (List.map fun t : Dissector × Bytes × Bytes => (t.1.kind, t.2.1)) same
  simp only [plain, List.map_map] at hmap
  exact hmap

/-- Nor is there padding if there is none in the other. -/
theorem bare_of_parts {s q : Packet}
    (same : q.plain.layers.map PlainLayer.parts = s.plain.layers.map PlainLayer.parts)
    (bare : ∀ l ∈ s.plain.layers, l.padding = []) : ∀ l ∈ q.layers, q.padding l = [] := by
  intro l hl
  have hparts : (Layer.plain q.arena l).parts ∈ s.plain.layers.map PlainLayer.parts := by
    rw [← same]
    exact List.mem_map_of_mem (List.mem_map_of_mem hl)
  obtain ⟨l', hl', hsame⟩ := List.mem_map.1 hparts
  have hpadding : l'.padding = q.padding l := congrArg (fun t => t.2.2) hsame
  rw [← hpadding, bare l' hl']

end Packet

/-- **Built packets are decoded again.**  Layers written for any contents are
pushed into one another, with any bytes inside if the innermost protocol takes
them.  As long as there are no more layers than the decoder goes into, the
packet is serialized, and the bytes decode into the layers that were
serialized. -/
theorem Assembled.decode_serialize {p : Packet} (h : Assembled p) (short : p.layers.length ≤ 32) :
    ∃ root bytes s q, p.layers.head? = some root ∧ p.serialize .fill = .ok (bytes, s)
      ∧ Registry.standard.decodeLayer root.dissector bytes false = .ok (.complete q)
      ∧ p.Recovered s q := by
  obtain ⟨body, built⟩ := h.built
  obtain ⟨s, hserialize, slaid, hshapes, hkept, reads, checks⟩ := built.serialize
  have hlength : s.plain.layers.length = p.layers.length := by
    have hlengths := congrArg List.length hshapes
    simpa [Packet.shapes, Packet.plain] using hlengths
  -- the outermost layer is of the protocol that it was built from
  obtain ⟨l, hl⟩ := reads.head?_eq_some
  have hheads := congrArg List.head? hshapes
  rw [Packet.shapes_plain, Packet.shapes, List.head?_map, List.head?_map, hl, Option.map_some,
    eq_comm, Option.map_eq_some_iff] at hheads
  obtain ⟨root, hroot, hshape⟩ := hheads
  have hdissector : l.dissector = root.dissector := (congrArg Prod.fst hshape).symm
  obtain ⟨q, hdecode, qlaid, hparts, hbody, _⟩ :=
    Registry.decodeLayer_of_reads reads hl (by rw [hlength]; exact short)
  rw [hdissector] at hdecode
  have hkinds : s.layers.map (·.kind) = p.layers.map (·.kind) := by
    have hmap := congrArg (List.map fun t : Shape => t.1.kind) hshapes
    simp only [Packet.shapes, List.map_map] at hmap
    exact hmap
  have hheaders := Packet.headers_of_parts hparts
  refine ⟨root, _, s, q, hroot, hserialize, hdecode, ?_, hheaders, ?_, ?_, ?_, ?_⟩
  · have hmap := congrArg (List.map Prod.fst) hheaders
    rw [List.map_map, List.map_map] at hmap
    exact hmap.trans hkinds
  · exact hbody.trans built.body.symm
  · exact hkept.trans built.body.symm
  · exact Packet.bare_of_parts hparts reads.bare
  · refine Packet.checksumValid_of_checks qlaid ?_
    rw [hbody]
    exact checks.of_parts hparts.symm

/-- Two bytes in UDP in IPv6. -/
theorem Assembled.decode_serialize_udp :
    ∃ p, Assembled p ∧ p.layers.map (·.kind) = [.ipv6, .udp]
      ∧ p.body.map (·.bytes p.arena) = some [0x68, 0x69] ∧ p.layers.length ≤ 32
      ∧ ∃ root bytes s q, p.layers.head? = some root ∧ p.serialize .fill = .ok (bytes, s)
        ∧ Registry.standard.decodeLayer root.dissector bytes false = .ok (.complete q)
        ∧ p.Recovered s q := by
  have outer : Stacked _ :=
    .layer (.ipv6 ⟨Ipv6Address.loopback, Ipv6Address.loopback, .ipv6NoNext, 0, 64⟩) rfl
  have inner : Stacked _ := .layer (.udp ⟨53, 4000⟩) rfl
  have stacked : Stacked _ := .push outer inner rfl
  have h : Assembled _ := .filled stacked rfl trivial [0x68, 0x69] rfl
  have short : 2 ≤ 32 := by decide
  exact ⟨_, h, rfl, rfl, short, h.decode_serialize short⟩

end PacketLayers
