/-
  PacketLayers.Proofs.Edit
  ────────────────────────────────
  **WHAT A CHANGE OF ONE LAYER DOES TO THE OTHERS.**

  A cursor sees the regions of its packet as those around the open layer, its
  header, what is inside it and its padding.  Each change replaces or drops
  some of them:

    • `storeHeader_contents`, `storeRawPayload_contents` — a write changes one
      region and no other;
    • `Edit.laidOut` — every change leaves the regions laid out;
    • `setPayload_laidOut` — so does a payload with bytes of its own.
-/
import PacketLayers.Packet.Options
import PacketLayers.Proofs.Plain
import PacketLayers.Theory.Result

namespace PacketLayers

/-! ## §1. The regions of a packet seen from an open layer. -/

/-- Every layer of a packet can be opened. -/
theorem Packet.open?_eq {p : Packet} {depth : Nat} {l : Layer} (found : p.layers[depth]? = some l) :
    p.open? depth = some ⟨p, p.layers.take depth, l, p.layers.drop (depth + 1)⟩ := by
  obtain ⟨inside, rfl⟩ := List.getElem?_eq_some_iff.1 found
  rw [open?, List.drop_eq_getElem_cons inside]

namespace Cursor

/-- The headers around the open layer. -/
def before (c : Cursor) : List Region := c.outer.map (·.header)

/-- The paddings around the open layer, and the frame check sequence. -/
def behind (c : Cursor) : List Region := (c.outer.map (·.padding)).reverse ++ c.packet.fcs.toList

/-- The regions inside the open layer. -/
def within (c : Cursor) : List Region := Layer.wireRegions c.inner c.packet.body

theorem length_before (c : Cursor) : c.before.length = c.outer.length := List.length_map _

/-- The regions of the packet around the header of the open layer. -/
theorem close_allRegions (c : Cursor) :
    c.close.allRegions
      = c.before ++ c.focus.header :: (c.within ++ c.focus.padding :: c.behind) := by
  simp [close, Packet.allRegions, Packet.wireRegions, Layer.wireRegions_append,
    Layer.wireRegions, before, behind, within]

/-- Opening a layer and closing it again changes no region. -/
theorem close_of_open {p : Packet} {depth : Nat} {c : Cursor} (opened : p.open? depth = some c) :
    c.packet = p ∧ c.outer ++ c.focus :: c.inner = p.layers
      ∧ c.outer.length = depth := by
  unfold Packet.open? at opened
  split at opened
  · cases opened
  · next focus inner hdrop =>
    injection opened with opened
    subst opened
    -- the layers in front of the depth, then the one there and those behind it
    refine ⟨rfl, ?_, ?_⟩
    · rw [← hdrop]
      exact List.take_append_drop depth p.layers
    · have hlength : (p.layers.drop depth).length = (focus :: inner).length := by rw [hdrop]
      rw [List.length_drop, List.length_cons] at hlength
      rw [List.length_take]
      omega

theorem close_regions_of_open {p : Packet} {depth : Nat} {c : Cursor}
    (opened : p.open? depth = some c) :
    c.close.allRegions = p.allRegions ∧ c.close.arena = p.arena := by
  obtain ⟨rfl, hlayers, _⟩ := close_of_open opened
  refine ⟨?_, rfl⟩
  rw [Packet.allRegions, Packet.allRegions, Packet.wireRegions, Packet.wireRegions, ← hlayers]
  rfl

theorem close_laidOut_of_open {p : Packet} {depth : Nat} {c : Cursor} (h : p.LaidOut)
    (opened : p.open? depth = some c) : c.close.LaidOut := by
  obtain ⟨hregions, harena⟩ := close_regions_of_open opened
  rw [Packet.LaidOut, hregions, harena]
  exact h

theorem close_contents_of_open {p : Packet} {depth : Nat} {c : Cursor}
    (opened : p.open? depth = some c) : c.close.contents = p.contents := by
  obtain ⟨hregions, harena⟩ := close_regions_of_open opened
  rw [Packet.contents, hregions, harena, Packet.contents]

variable {c c' : Cursor} {new : Bytes}

theorem laidOut_at_header (h : c.close.LaidOut) :
    Region.LaidOut c.packet.arena
      (c.before ++ c.focus.header :: (c.within ++ c.focus.padding :: c.behind)) := by
  rw [← close_allRegions]
  exact h

theorem header_inside (h : c.close.LaidOut) : c.focus.header.Inside c.packet.arena :=
  (laidOut_at_header h).inside_middle

/-! ## §2. Writes. -/

theorem storeHeader_eq_ok (ok : c.storeHeader new = .ok c') :
    ∃ arena header, c.focus.header.store c.packet.arena new = .ok (arena, header)
      ∧ c' = { c with
          packet := { c.packet with arena := arena }
          focus := { c.focus with header := header } } := by
  obtain ⟨⟨arena, header⟩, hstore, hc⟩ := bind_eq_ok.1 ok
  injection hc with hc
  exact ⟨arena, header, hstore, hc.symm⟩

theorem storeHeader_laidOut (h : c.close.LaidOut) (ok : c.storeHeader new = .ok c') :
    c'.close.LaidOut := by
  obtain ⟨arena, header, hstore, rfl⟩ := storeHeader_eq_ok ok
  rw [Packet.LaidOut, close_allRegions]
  exact (laidOut_at_header h).store hstore

/-- **A write into the header** of a layer changes no byte elsewhere. -/
theorem storeHeader_contents (h : c.close.LaidOut) (ok : c.storeHeader new = .ok c') :
    c'.close.contents = c.close.contents.set c.outer.length new := by
  obtain ⟨arena, header, hstore, rfl⟩ := storeHeader_eq_ok ok
  have hcontents := (laidOut_at_header h).contents_store_set hstore
  rw [length_before] at hcontents
  rw [Packet.contents, Packet.contents, close_allRegions, close_allRegions]
  exact hcontents

/-- A write into the header succeeds exactly with as many bytes as it has. -/
theorem storeHeader_succeeds (h : c.close.LaidOut) (fits : new.length = c.header.length) :
    ∃ c', c.storeHeader new = .ok c' := by
  obtain ⟨⟨arena, header⟩, hstore⟩ := Region.store_succeeds (header_inside h) fits
  exact ⟨_, bind_eq_ok.2 ⟨_, hstore, rfl⟩⟩

/-- Either there are layers inside or nothing, and nothing is written, or the
body is. -/
theorem storeRawPayload_eq_ok (ok : c.storeRawPayload new = .ok c') :
    c' = c ∨ ∃ body arena body', c.inner = [] ∧ c.packet.body = some body
      ∧ body.store c.packet.arena new = .ok (arena, body')
      ∧ c' = { c with packet := { c.packet with arena := arena, body := some body' } } := by
  unfold storeRawPayload at ok
  split at ok
  · next body hinner hbody =>
    obtain ⟨⟨arena, body'⟩, hstore, hc⟩ := bind_eq_ok.1 ok
    injection hc with hc
    exact .inr ⟨body, arena, body', hinner, hbody, hstore, hc.symm⟩
  · injection ok with ok
    exact .inl ok.symm

/-- The regions of a packet around its body. -/
theorem allRegions_at_body (c : Cursor) {body : Region} (hinner : c.inner = [])
    (hbody : c.packet.body = some body) :
    c.close.allRegions
      = (c.before ++ [c.focus.header]) ++ body :: (c.focus.padding :: c.behind) := by
  rw [close_allRegions, within, hinner, hbody]
  simp [Layer.wireRegions]

theorem storeRawPayload_laidOut (h : c.close.LaidOut) (ok : c.storeRawPayload new = .ok c') :
    c'.close.LaidOut := by
  obtain rfl | ⟨body, arena, body', hinner, hbody, hstore, rfl⟩ := storeRawPayload_eq_ok ok
  · exact h
  · rw [Packet.LaidOut, allRegions_at_body c hinner hbody] at h
    have hregions := allRegions_at_body
      { c with packet := { c.packet with arena := arena, body := some body' } } hinner rfl
    rw [Packet.LaidOut, hregions]
    exact h.store hstore

/-- A write into the body succeeds with as many bytes as it has. -/
theorem storeRawPayload_succeeds (h : c.close.LaidOut) {body : Region} (hinner : c.inner = [])
    (hbody : c.packet.body = some body)
    (fits : new.length = (body.bytes c.packet.arena).length) :
    ∃ c', c.storeRawPayload new = .ok c' := by
  rw [Packet.LaidOut, allRegions_at_body c hinner hbody] at h
  obtain ⟨⟨arena, body'⟩, hstore⟩ := Region.store_succeeds h.inside_middle fits
  simp only [storeRawPayload, hinner, hbody]
  exact ⟨_, bind_eq_ok.2 ⟨_, hstore, rfl⟩⟩

/-- **A write into the body** changes no byte elsewhere. -/
theorem storeRawPayload_contents (h : c.close.LaidOut) {body : Region} (hinner : c.inner = [])
    (hbody : c.packet.body = some body) (ok : c.storeRawPayload new = .ok c') :
    c'.close.contents = c.close.contents.set (c.outer.length + 1) new := by
  simp only [storeRawPayload, hinner, hbody] at ok
  obtain ⟨⟨arena, body'⟩, hstore, hc⟩ := bind_eq_ok.1 ok
  injection hc with hc
  subst hc
  have hregions := allRegions_at_body
    { c with packet := { c.packet with arena := arena, body := some body' } } hinner rfl
  rw [Packet.LaidOut, allRegions_at_body c hinner hbody] at h
  have hcontents := h.contents_store_set hstore
  rw [List.length_append, length_before, List.length_singleton] at hcontents
  rw [Packet.contents, Packet.contents, allRegions_at_body c hinner hbody, ← hcontents]
  rw [hinner] at hregions
  rw [hregions]
  rfl

/-! ## §3. Changes of one layer. -/

/-- One change of an open layer, apart from a new payload. -/
inductive Edit : Cursor → Cursor → Prop where
  /-- The layer is opened and left as it is. -/
  | touch (c : Cursor) : Edit c c
  | storeHeader {c c' : Cursor} (new : Bytes) (ok : c.storeHeader new = .ok c') : Edit c c'
  | resizeHeader (c : Cursor) (size : Nat) : Edit c (c.resizeHeader size)
  | storeRawPayload {c c' : Cursor} (new : Bytes) (ok : c.storeRawPayload new = .ok c') :
      Edit c c'
  | clearPadding (c : Cursor) : Edit c c.clearPadding
  | takePayload (c : Cursor) : Edit c c.takePayload.1
  | setTcpOptions {c c' : Cursor} (options : Bytes)
      (ok : c.setTcpOptions options = .ok (.ok c')) : Edit c c'
  | setIpv4Options {c c' : Cursor} (options : Bytes)
      (ok : c.setIpv4Options options = .ok (.ok c')) : Edit c c'

/-- A change of the fields of a header is a write of its bytes. -/
theorem Edit.of_modifyHeader? {format : HeaderFormat} {change : Bytes → Access Bytes}
    (ok : c.modifyHeader? format change = .ok (some c')) : Edit c c' := by
  unfold modifyHeader? at ok
  split at ok
  · obtain ⟨new, _, ok⟩ := bind_eq_ok.1 ok
    obtain ⟨c'', hstore, ok⟩ := bind_eq_ok.1 ok
    injection ok with ok
    injection ok with ok
    exact .storeHeader new (ok ▸ hstore)
  · cases ok

theorem resizeHeader_laidOut (h : c.close.LaidOut) (size : Nat) :
    (c.resizeHeader size).close.LaidOut := by
  -- a header of a new length has bytes of its own, one of the same length stays
  apply h.of_sublist (Nat.le_refl _)
  rw [close_allRegions, close_allRegions, Region.spans_append, Region.spans_append,
    Region.spans_cons, Region.spans_cons]
  refine List.Sublist.append_left (List.Sublist.append_right ?_ _) _
  show ((c.focus.header.resize c.packet.arena size).span?.toList).Sublist _
  unfold Region.resize
  split
  · exact List.Sublist.refl _
  · exact List.nil_sublist _

theorem clearPadding_laidOut (h : c.close.LaidOut) : c.clearPadding.close.LaidOut := by
  -- nothing but the padding is gone
  apply h.of_sublist (Nat.le_refl _)
  rw [close_allRegions, close_allRegions]
  simp only [Region.spans_append, Region.spans_cons]
  refine List.Sublist.append_left (List.Sublist.append_left (List.Sublist.append_left ?_ _) _) _
  exact List.Sublist.append_right (List.nil_sublist _) _

theorem takePayload_laidOut (h : c.close.LaidOut) : c.takePayload.1.close.LaidOut := by
  -- nothing but the regions inside are gone
  apply h.of_sublist (Nat.le_refl _)
  rw [close_allRegions, close_allRegions]
  simp only [Region.spans_append, Region.spans_cons]
  refine List.Sublist.append_left (List.Sublist.append_left ?_ _) _
  exact List.Sublist.append_right (List.nil_sublist _) _

/-- New options are a header of another length, and then a write into it. -/
theorem replaceOptions_eq_ok {kind : LayerKind} {fixed longest : Nat} {field : Field UInt8}
    {options : Bytes}
    (ok : c.replaceOptions kind fixed longest field options = .ok (.ok c')) :
    ∃ size new, (c.resizeHeader size).storeHeader new = .ok c' := by
  -- options of another protocol, or too many of them, are refused
  simp only [replaceOptions] at ok
  split at ok
  · injection ok with ok
    cases ok
  · split at ok
    · injection ok with ok
      cases ok
    · obtain ⟨h, _, ok⟩ := bind_eq_ok.1 ok
      obtain ⟨new, _, ok⟩ := bind_eq_ok.1 ok
      obtain ⟨c'', hstore, ok⟩ := bind_eq_ok.1 ok
      injection ok with ok
      injection ok with ok
      subst ok
      exact ⟨_, new, hstore⟩

/-- **Every change of a layer** leaves the regions laid out. -/
theorem Edit.laidOut (edit : Edit c c') (h : c.close.LaidOut) : c'.close.LaidOut := by
  cases edit with
  | touch => exact h
  | storeHeader new ok => exact storeHeader_laidOut h ok
  | resizeHeader size => exact resizeHeader_laidOut h size
  | storeRawPayload new ok => exact storeRawPayload_laidOut h ok
  | clearPadding => exact clearPadding_laidOut h
  | takePayload => exact takePayload_laidOut h
  | setTcpOptions options ok =>
    obtain ⟨size, new, hstore⟩ := replaceOptions_eq_ok ok
    exact storeHeader_laidOut (resizeHeader_laidOut h size) hstore
  | setIpv4Options options ok =>
    obtain ⟨size, new, hstore⟩ := replaceOptions_eq_ok ok
    exact storeHeader_laidOut (resizeHeader_laidOut h size) hstore

/-- A change leaves the layers around the open one alone, keeps its protocol,
and leaves the layers inside or drops them. -/
theorem Edit.structure (edit : Edit c c') :
    c'.outer = c.outer ∧ c'.focus.dissector = c.focus.dissector
      ∧ c'.focus.origin = c.focus.origin ∧ (c'.inner = c.inner ∨ c'.inner = []) := by
  -- the changes that go through a write of the header have this in common
  have stored : ∀ {c c' : Cursor} {new : Bytes}, c.storeHeader new = .ok c' →
      c'.outer = c.outer ∧ c'.focus.dissector = c.focus.dissector
        ∧ c'.focus.origin = c.focus.origin ∧ (c'.inner = c.inner ∨ c'.inner = []) := by
    intro c c' new ok
    obtain ⟨arena, header, _, rfl⟩ := storeHeader_eq_ok ok
    exact ⟨rfl, rfl, rfl, .inl rfl⟩
  cases edit with
  | touch => exact ⟨rfl, rfl, rfl, .inl rfl⟩
  | storeHeader new ok => exact stored ok
  | resizeHeader size => exact ⟨rfl, rfl, rfl, .inl rfl⟩
  | storeRawPayload new ok =>
    obtain rfl | ⟨_, _, _, _, _, _, rfl⟩ := storeRawPayload_eq_ok ok
    · exact ⟨rfl, rfl, rfl, .inl rfl⟩
    · exact ⟨rfl, rfl, rfl, .inl rfl⟩
  | clearPadding => exact ⟨rfl, rfl, rfl, .inl rfl⟩
  | takePayload => exact ⟨rfl, rfl, rfl, .inr rfl⟩
  | setTcpOptions options ok =>
    obtain ⟨size, new, hstore⟩ := replaceOptions_eq_ok ok
    have hresized := stored hstore
    exact hresized
  | setIpv4Options options ok =>
    obtain ⟨size, new, hstore⟩ := replaceOptions_eq_ok ok
    have hresized := stored hstore
    exact hresized

end Cursor

/-! ## §4. New payloads. -/

namespace Payload

/-- No region of the payload is part of an arena. -/
def Detached (p : Payload) : Prop := Region.spans (Layer.wireRegions p.layers p.body) = []

theorem detached_ofBytes (b : Bytes) : (ofBytes b).Detached := by
  unfold Detached ofBytes
  split <;> rfl

theorem detached_detach (arena : Bytes) (p : Payload) : (p.detach arena).Detached := by
  obtain ⟨layers, body⟩ := p
  unfold Detached detach
  -- each layer brings two regions with bytes of their own
  induction layers with
  | nil => cases body <;> rfl
  | cons l inner ih =>
    rw [List.map_cons, Layer.wireRegions]
    simp only [Layer.detach, Region.detach, Region.spans_owned, Region.spans_append]
    simp only at ih
    rw [ih]
    rfl

/-- A payload as a packet of its own shares nothing. -/
theorem laidOut_toPacket {p : Payload} (h : p.Detached) {q : Packet} (made : p.toPacket? = some q) :
    q.LaidOut := by
  obtain ⟨layers, body⟩ := p
  unfold toPacket? at made
  split at made
  · cases made
  · next root inner hlayers =>
    simp only at hlayers
    subst hlayers
    injection made with made
    subst made
    have hspans : Region.spans (Packet.allRegions
        ⟨[], { root with origin := none } :: inner, body, none, false⟩) = [] := by
      rw [Packet.allRegions]
      simpa [Packet.wireRegions, Layer.wireRegions, Detached] using h
    refine ⟨fun s hs => ?_, ?_⟩
    · rw [hspans] at hs
      exact absurd hs List.not_mem_nil
    · rw [hspans]
      exact List.Pairwise.nil

end Payload

namespace Cursor

/-- A payload takes the place of what was inside, and the layer announces
it. -/
theorem setPayload_eq_ok {c c' : Cursor} {payload : Payload}
    (ok : c.setPayload payload = .ok (.ok c')) :
    (payload.layers = [] ∧ c' = { c with
        inner := []
        packet := { c.packet with body := payload.body } })
      ∨ ∃ child rest announced new c'', payload.layers = child :: rest
        ∧ c.focus.dissector.discriminantOf child.kind = some announced
        ∧ c.focus.dissector.setNext c.header announced = .ok new
        ∧ c.storeHeader new = .ok c''
        ∧ c' = { c'' with
            inner := { child with origin := some announced } :: rest
            packet := { c''.packet with body := payload.body } } := by
  -- no layer to announce, or one whose name is written into the focus
  unfold setPayload at ok
  split at ok
  · next hlayers =>
    injection ok with ok
    injection ok with ok
    exact .inl ⟨hlayers, ok.symm⟩
  · next child rest hlayers =>
    split at ok
    · injection ok with ok
      cases ok
    · next announced hannounced =>
      obtain ⟨new, hnew, ok⟩ := bind_eq_ok.1 ok
      obtain ⟨c'', hstore, ok⟩ := bind_eq_ok.1 ok
      injection ok with ok
      injection ok with ok
      exact .inr ⟨child, rest, announced, new, c'', hlayers, hannounced, hnew, hstore, ok.symm⟩

/-- The payload's bytes take the place of what was there, and nothing behind
the layers changes. -/
theorem setPayload_frame {c c' : Cursor} {payload : Payload}
    (ok : c.setPayload payload = .ok (.ok c')) :
    c'.packet.body = payload.body ∧ c'.packet.fcs = c.packet.fcs := by
  obtain ⟨_, rfl⟩ | ⟨_, _, _, _, _, _, _, _, hstore, rfl⟩ := setPayload_eq_ok ok
  · exact ⟨rfl, rfl⟩
  · obtain ⟨_, _, _, rfl⟩ := storeHeader_eq_ok hstore
    exact ⟨rfl, rfl⟩

/-- A layer takes a payload whose protocol it can name. -/
theorem setPayload_succeeds {c : Cursor} (h : c.close.LaidOut) {payload : Payload} {child : Layer}
    {rest : List Layer} {o : Discriminant} {new : Bytes} (layers : payload.layers = child :: rest)
    (named : c.focus.dissector.discriminantOf child.kind = some o)
    (told : c.focus.dissector.setNext c.header o = .ok new)
    (length : new.length = c.header.length) : ∃ c', c.setPayload payload = .ok (.ok c') := by
  obtain ⟨c', hstore⟩ := storeHeader_succeeds h length
  unfold setPayload
  rw [layers]
  simp only [named, told, ok_bind, hstore]
  exact ⟨_, rfl⟩

/-- It refuses a payload whose protocol it cannot name. -/
theorem setPayload_unsupported {c : Cursor} {payload : Payload} {child : Layer} {rest : List Layer}
    (layers : payload.layers = child :: rest)
    (unnamed : c.focus.dissector.discriminantOf child.kind = none) :
    c.setPayload payload = .ok (.error .unsupported) := by
  unfold setPayload
  rw [layers]
  simp only [unnamed]
  rfl

/-- A payload that shares nothing can take the place of another. -/
theorem laidOut_of_detached {c : Cursor} (h : c.close.LaidOut) {inner : List Layer}
    {body : Option Region} (apart : Region.spans (Layer.wireRegions inner body) = []) :
    ({ c with inner := inner, packet := { c.packet with body := body } } : Cursor).close.LaidOut := by
  -- the regions inside share nothing, so no part that is shared is new
  apply h.of_sublist (Nat.le_refl _)
  rw [close_allRegions, close_allRegions]
  simp only [Region.spans_append, Region.spans_cons]
  refine List.Sublist.append_left (List.Sublist.append_left ?_ _) _
  refine List.Sublist.append_right ?_ _
  show (Region.spans (Layer.wireRegions inner body)).Sublist _
  rw [apart]
  exact List.nil_sublist _

/-- **A new payload** leaves the regions laid out. -/
theorem setPayload_laidOut {c c' : Cursor} {payload : Payload} (h : c.close.LaidOut)
    (apart : payload.Detached) (ok : c.setPayload payload = .ok (.ok c')) : c'.close.LaidOut := by
  -- plain bytes are not announced, layers are, by a write into the header
  obtain ⟨hlayers, rfl⟩ | ⟨child, rest, announced, new, c'', hlayers, _, _, hstore, rfl⟩ :=
    setPayload_eq_ok ok
  · refine laidOut_of_detached h ?_
    rw [Payload.Detached, hlayers] at apart
    exact apart
  · refine laidOut_of_detached (storeHeader_laidOut h hstore) ?_
    rw [Payload.Detached, hlayers] at apart
    exact apart

end Cursor

end PacketLayers
