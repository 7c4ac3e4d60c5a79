/-
  PacketLayers.Proofs.Reading
  ────────────────────────────────
  **LAYERS THAT SAY WHAT THEY ARE ARE FOUND AGAIN.**

  The bytes of layers are decoded into the same layers if each header says
  where it ends, claims all that is behind it, and names the layer inside it
  in the registry.  `Reads` collects this from the inside out; the decoder
  follows it from the outside in, and needs room for one layer after another.

    • `dispatched_of_reads` — the layers are found, and the body;
    • `checksumValid_of_checks` — no checksum of a packet is wrong if those of
      its plain form are not.
-/
import PacketLayers.Packet.Inspect
import PacketLayers.Proofs.Decode

namespace PacketLayers

/-! ## §1. What layers say about themselves. -/

namespace PlainLayer

/-- All of a layer but its origin: a protocol may be announced in more than
one way. -/
def parts (l : PlainLayer) : Dissector × Bytes × Bytes := (l.dissector, l.header, l.padding)

/-- The header says where it ends, and claims a payload with nothing behind
it. -/
structure Claims (l : PlainLayer) (payload : Bytes) : Prop where
  nonempty : l.header ≠ []
  ends : ∀ rest, l.dissector.headerLength (l.header ++ rest) = .ok l.header.length
  measures : ∃ n, l.dissector.payloadLength l.header payload.length = .ok n ∧ payload.length ≤ n
  bare : l.padding = []

/-- Layers whose headers say all that decoding has to know. -/
inductive Reads (r : Registry) (body : Option Bytes) : List PlainLayer → Prop where
  /-- A layer around the body, which stays bytes. -/
  | innermost {l : PlainLayer} (claims : l.Claims (body.getD []))
      (stays : ∀ b, body = some b → b ≠ [] ∧ l.dissector.sealed l.header = .ok false
        ∧ l.dissector.next l.header b = .ok none) : Reads r body [l]
  /-- A layer that names the one inside it. -/
  | around {l child : PlainLayer} {inner : List PlainLayer} {o : Discriminant}
      (claims : l.Claims (wire (child :: inner) body))
      (unsealed : l.dissector.sealed l.header = .ok false)
      (states : l.dissector.next l.header (wire (child :: inner) body) = .ok (some o))
      (stands : r.resolve o = .dissect child.dissector) (inside : Reads r body (child :: inner)) :
      Reads r body (l :: child :: inner)

/-- There is something to decode. -/
theorem Reads.wire_ne_nil {r : Registry} {body : Option Bytes} {layers : List PlainLayer}
    (h : Reads r body layers) : wire layers body ≠ [] := by
  cases h with
  | innermost claims _ =>
    rw [wire_cons]
    exact fun empty => claims.nonempty (List.append_eq_nil_iff.1 empty).1
  | around claims _ _ _ _ =>
    rw [wire_cons]
    exact fun empty => claims.nonempty (List.append_eq_nil_iff.1 empty).1

/-- There is an outermost layer. -/
theorem Reads.head?_eq_some {r : Registry} {body : Option Bytes} {layers : List PlainLayer}
    (h : Reads r body layers) : ∃ l, layers.head? = some l := by
  cases h with
  | innermost _ _ => exact ⟨_, rfl⟩
  | around _ _ _ _ _ => exact ⟨_, rfl⟩

/-- Nothing follows the layers. -/
theorem Reads.bare {r : Registry} {body : Option Bytes} {layers : List PlainLayer}
    (h : Reads r body layers) : ∀ l ∈ layers, l.padding = [] := by
  induction h with
  | innermost claims _ =>
    intro l hl
    rw [List.mem_singleton.1 hl]
    exact claims.bare
  | around claims _ _ _ _ ih =>
    intro l hl
    rcases List.mem_cons.1 hl with rfl | hl
    · exact claims.bare
    · exact ih l hl

end PlainLayer

/-! ## §2. Decoding finds them. -/

namespace Registry

variable {r : Registry} {arena : Bytes} {body : Option Bytes}

/-- The spans of a header and of what is behind it. -/
theorem bytesOf_split {span : Span} {header payload : Bytes} (inside : span.stop ≤ arena.length)
    (bytes : span.bytesOf arena = header ++ payload) :
    span.length = header.length + payload.length
      ∧ Span.bytesOf ⟨span.offset, header.length⟩ arena = header
      ∧ Span.bytesOf ⟨span.offset + header.length, payload.length⟩ arena = payload := by
  have hlength : span.length = header.length + payload.length := by
    have hbytes := Span.length_bytesOf inside
    rw [bytes, List.length_append] at hbytes
    exact hbytes.symm
  refine ⟨hlength, ?_⟩
  have hinside : Span.stop ⟨span.offset, header.length⟩ ≤ arena.length := by
    simp only [Span.stop] at inside ⊢
    omega
  have hsplit := Region.bytesOf_adjacent arena ⟨span.offset, header.length⟩ payload.length
  have hspan : (⟨span.offset, header.length + payload.length⟩ : Span) = span := by rw [← hlength]
  rw [hspan, bytes] at hsplit
  obtain ⟨hfirst, hrest⟩ := List.append_inj hsplit (Span.length_bytesOf hinside).symm
  exact ⟨hfirst.symm, hrest.symm⟩

/-- A layer that says what it is is cut as it is. -/
theorem cut_of_claims {l : PlainLayer} {payload : Bytes} (claims : l.Claims payload)
    {span : Span} (inside : span.stop ≤ arena.length)
    (bytes : span.bytesOf arena = l.header ++ payload) :
    Cut arena l.dissector span ⟨span.offset, l.header.length⟩
      ⟨span.offset + l.header.length, payload.length⟩
      ⟨span.offset + l.header.length + payload.length, 0⟩ := by
  obtain ⟨hlength, hheader, _⟩ := bytesOf_split inside bytes
  obtain ⟨n, hn, hle⟩ := claims.measures
  refine ⟨inside, rfl, rfl, rfl, ?_, ?_, n, ?_, (Nat.min_eq_right hle).symm⟩
  · simp only [Span.stop]
    omega
  · rw [bytes]
    exact claims.ends payload
  · rw [hheader]
    exact hn

/-- What decoding finds where layers are. -/
structure Found (arena : Bytes) (body : Option Bytes) (layers : List PlainLayer)
    (branch : Branch) : Prop where
  layers : (branch.layers.map (Layer.plain arena)).map PlainLayer.parts
    = layers.map PlainLayer.parts
  body : branch.body.map (Region.bytes arena) = body
  complete : branch.failure = none

/-- A layer is found around what is found inside it. -/
theorem Found.cons {l : PlainLayer} {inner : List PlainLayer} {branch : Branch} {span : Span}
    {payload : Bytes} (found : Found arena body inner branch) (bare : l.padding = [])
    (inside : span.stop ≤ arena.length) (bytes : span.bytesOf arena = l.header ++ payload)
    (origin : Option Discriminant) :
    Found arena body (l :: inner) { branch with
      layers := Cut.layer l.dissector origin ⟨span.offset, l.header.length⟩
        ⟨span.offset + l.header.length + payload.length, 0⟩ :: branch.layers } where
  layers := by
    obtain ⟨hlength, hheader, _⟩ := bytesOf_split inside bytes
    have hfirst : Span.stop ⟨span.offset, l.header.length⟩ ≤ arena.length := by
      simp only [Span.stop] at inside ⊢
      omega
    -- the padding is an empty part of the buffer
    have hlast : Span.stop ⟨span.offset + l.header.length + payload.length, 0⟩
        ≤ arena.length := by
      simp only [Span.stop] at inside ⊢
      omega
    rw [List.map_cons, List.map_cons, List.map_cons, found.layers, Cut.layer, Layer.plain,
      Region.bytes_shared hfirst, Region.bytes_shared hlast, hheader]
    simp only [PlainLayer.parts, bare]
    rfl
  body := found.body
  complete := found.complete

/-- The innermost layer is found around the body. -/
theorem dispatched_of_stays {l : PlainLayer} (claims : l.Claims (body.getD []))
    (stays : ∀ b, body = some b → b ≠ [] ∧ l.dissector.sealed l.header = .ok false
      ∧ l.dissector.next l.header b = .ok none)
    {span : Span} (inside : span.stop ≤ arena.length)
    (bytes : span.bytesOf arena = l.header ++ body.getD []) (room : Nat)
    (origin : Option Discriminant) :
    ∃ branch, Dispatched r arena room l.dissector origin span branch
      ∧ Found arena body [l] branch := by
  obtain ⟨hlength, hheader, hpayload⟩ := bytesOf_split inside bytes
  have cut := cut_of_claims claims inside bytes
  -- nothing inside is nothing offered; other bytes are not named
  cases hbody : body with
  | none =>
    subst hbody
    have found : Found arena none [] ⟨[], none, none⟩ := ⟨rfl, rfl, rfl⟩
    exact ⟨_, .innermost cut (.empty rfl), found.cons claims.bare inside bytes origin⟩
  | some b =>
    subst hbody
    obtain ⟨hne, hsealed, hnext⟩ := stays b rfl
    have hfull : b.length ≠ 0 := mt List.length_eq_zero_iff.1 hne
    have hraw : rawBody ⟨span.offset + l.header.length, b.length⟩
        = some (.shared ⟨span.offset + l.header.length, b.length⟩) := if_neg hfull
    have found : Found arena (some b) []
        ⟨[], rawBody ⟨span.offset + l.header.length, b.length⟩, none⟩ := by
      refine ⟨rfl, ?_, rfl⟩
      rw [hraw]
      exact congrArg some ((Region.bytes_shared (payload_inside cut)).trans hpayload)
    refine ⟨_, .innermost cut (.unnamed hfull ?_ ?_), found.cons claims.bare inside bytes origin⟩
    · rw [hheader]
      exact hsealed
    · rw [hheader]
      exact (congrArg (l.dissector.next l.header) hpayload).trans hnext

/-- **Layers that say what they are are found**, with room for as many. -/
theorem dispatched_of_reads {layers : List PlainLayer} (h : PlainLayer.Reads r body layers) :
    ∀ {room : Nat} {origin : Option Discriminant} {span : Span} {l : PlainLayer},
      layers.head? = some l → layers.length ≤ room + 1 → span.stop ≤ arena.length →
      span.bytesOf arena = PlainLayer.wire layers body →
      ∃ branch, Dispatched r arena room l.dissector origin span branch
        ∧ Found arena body layers branch := by
  induction h with
  | @innermost l claims stays =>
    intro room origin span l' hl _ inside bytes
    obtain rfl : l = l' := Option.some.inj hl
    rw [PlainLayer.wire_cons, PlainLayer.wire_nil, claims.bare, List.append_nil] at bytes
    exact dispatched_of_stays claims stays inside bytes room origin
  | @around l child inner o claims unsealed states stands inner_reads ih =>
    intro room origin span l' hl hroom inside bytes
    obtain rfl : l = l' := Option.some.inj hl
    rw [PlainLayer.wire_cons, claims.bare, List.append_nil] at bytes
    obtain ⟨_, hheader, hpayload⟩ := bytesOf_split inside bytes
    have cut := cut_of_claims claims inside bytes
    -- there is room for the layer inside
    obtain ⟨room, rfl⟩ : ∃ n, room = n + 1 := by
      cases room with
      | zero => simp at hroom
      | succ n => exact ⟨n, rfl⟩
    have hshort : (child :: inner).length ≤ room + 1 := by
      simp only [List.length_cons] at hroom ⊢
      omega
    obtain ⟨branch, hbranch, found⟩ := @ih room (some o) _ child rfl hshort (payload_inside cut)
      hpayload
    have offers : Offers arena l.dissector ⟨span.offset, l.header.length⟩
        ⟨span.offset + l.header.length, (PlainLayer.wire (child :: inner) body).length⟩ o := by
      refine ⟨mt List.length_eq_zero_iff.1 inner_reads.wire_ne_nil, ?_, ?_⟩
      · rw [hheader]
        exact unsealed
      · rw [hheader, hpayload]
        exact states
    exact ⟨_, .around cut offers stands hbranch, found.cons claims.bare inside bytes origin⟩

/-- A buffer of layers that say what they are is decoded into them. -/
theorem decodeLayer_of_reads {layers : List PlainLayer} (h : PlainLayer.Reads r body layers)
    {l : PlainLayer} (root : layers.head? = some l) (room : layers.length ≤ maxDepth) :
    ∃ p, r.decodeLayer l.dissector (PlainLayer.wire layers body) false = .ok (.complete p)
      ∧ p.LaidOut ∧ p.plain.layers.map PlainLayer.parts = layers.map PlainLayer.parts
      ∧ p.plain.body = body ∧ p.fcs = none := by
  have hbytes : Span.bytesOf ⟨0, (PlainLayer.wire layers body).length⟩
      (PlainLayer.wire layers body) = PlainLayer.wire layers body := List.take_length
  have hinside : Span.stop ⟨0, (PlainLayer.wire layers body).length⟩
      ≤ (PlainLayer.wire layers body).length := by
    simp [Span.stop]
  obtain ⟨branch, hbranch, found⟩ := @dispatched_of_reads r _ body layers h (maxDepth - 1) none _ l
    root room hinside hbytes
  have hdecode : r.decodeLayer l.dissector (PlainLayer.wire layers body) false
      = .ok (.complete ⟨PlainLayer.wire layers body, branch.layers, branch.body, none, false⟩) := by
    refine decodeFrom_eq_ok.2 (.inr ⟨_, none, branch, rfl, hbranch, ?_⟩)
    unfold Branch.decoding
    rw [found.complete]
  obtain ⟨_, _, htiles⟩ := tiles_of_decodeFrom hdecode rfl
  exact ⟨_, hdecode, htiles.laidOut (Nat.le_refl _), found.layers, found.body, rfl⟩

end Registry

/-! ## §3. Checksums of all layers. -/

namespace PlainLayer

/-- No checksum is wrong, with the pseudo headers that layers lend. -/
def Checks (body : Option Bytes) : Option PseudoHeader → List PlainLayer → Prop
  | _, [] => True
  | pseudo, l :: inner =>
    (∃ v, l.dissector.checksumValid l.header ⟨wire inner body, pseudo, .fill⟩ = .ok v
        ∧ v ≠ some false)
      ∧ ∃ lent, l.dissector.pseudoHeader l.header = .ok lent ∧ Checks body lent inner

/-- Layers with the same parts are the same on the wire. -/
theorem wire_of_parts {body : Option Bytes} {a b : List PlainLayer}
    (same : a.map parts = b.map parts) : wire a body = wire b body := by
  induction a generalizing b with
  | nil =>
    rw [List.map_nil, eq_comm, List.map_eq_nil_iff] at same
    rw [same]
  | cons l inner ih =>
    cases b with
    | nil => cases same
    | cons l' inner' =>
      injection same with hl hinner
      injection hl with _ hl
      injection hl with hheader hpadding
      rw [wire_cons, wire_cons, ih hinner, hheader, hpadding]

theorem Checks.of_parts {body : Option Bytes} {a b : List PlainLayer} :
    ∀ {pseudo : Option PseudoHeader}, a.map parts = b.map parts → Checks body pseudo a →
      Checks body pseudo b := by
  induction a generalizing b with
  | nil =>
    intro pseudo same _
    rw [List.map_nil, eq_comm, List.map_eq_nil_iff] at same
    rw [same]
    trivial
  | cons l inner ih =>
    intro pseudo same checks
    cases b with
    | nil => cases same
    | cons l' inner' =>
      injection same with hl hinner
      injection hl with hdissector hl
      injection hl with hheader _
      obtain ⟨hvalid, lent, hlent, hrest⟩ := checks
      rw [hdissector, hheader, wire_of_parts hinner] at hvalid
      rw [hdissector, hheader] at hlent
      exact ⟨hvalid, lent, hlent, ih hinner hrest⟩

end PlainLayer

namespace Packet

/-- The layer around those behind some layers. -/
theorem parent?_of_append {p : Packet} {outer rest : List Layer} {l : Layer}
    (split : p.layers = outer ++ l :: rest) : p.parent? (outer.length + 1) = some l := by
  show p.layers[outer.length]? = some l
  rw [split, List.getElem?_append_right (Nat.le_refl _), Nat.sub_self]
  rfl

/-- The payload of a layer is what its plain form has inside. -/
theorem payloadBytes_of_append {p : Packet} (laid : p.LaidOut) {outer rest : List Layer}
    {l : Layer} (split : p.layers = outer ++ l :: rest) :
    p.payloadBytes outer.length
      = PlainLayer.wire (rest.map (Layer.plain p.arena)) p.plain.body := by
  have hdrop : p.layers.drop (outer.length + 1) = rest := by
    rw [split, ← List.drop_drop, List.drop_left]
    rfl
  have hregions : p.allRegions
      = (outer.map (·.header) ++ [l.header]) ++ (Layer.wireRegions rest p.body
        ++ (l.padding :: ((outer.map (·.padding)).reverse ++ p.fcs.toList))) := by
    rw [allRegions, wireRegions, split, Layer.wireRegions_append]
    simp [Layer.wireRegions]
  have hinner := Region.LaidOut.left (Region.LaidOut.right laid hregions) rfl
  rw [payloadBytes, hdrop, hinner.joined_eq, Layer.concat_wireRegions]
  rfl

/-- **No checksum of a packet is wrong** if none of its plain form is. -/
theorem checksumValid_of_checks {p : Packet} (laid : p.LaidOut)
    (checks : PlainLayer.Checks p.plain.body none p.plain.layers) : p.checksumValid = .ok true := by
  -- the verdicts of the layers behind those that were passed already
  have hverdicts : ∀ (rest outer : List Layer) (pseudo : Option PseudoHeader),
      p.layers = outer ++ rest → p.lent (p.parent? outer.length) = .ok pseudo →
      PlainLayer.Checks p.plain.body pseudo (rest.map (Layer.plain p.arena)) →
      ∃ verdicts, ((List.range' outer.length rest.length).zip rest).mapM
          (fun entry => p.layerChecksumValid entry.1 entry.2) = .ok verdicts
        ∧ verdicts.all (· != some false) = true := by
    intro rest
    induction rest with
    | nil => exact fun outer pseudo _ _ _ => ⟨[], rfl, rfl⟩
    | cons l rest ih =>
      intro outer pseudo split hlent checks
      obtain ⟨⟨v, hv, hne⟩, lent, hlends, hrest⟩ := checks
      have hvalid : p.layerChecksumValid outer.length l = .ok v := by
        unfold layerChecksumValid
        rw [hlent, ok_bind, payloadBytes_of_append laid split]
        exact hv
      have hinner : p.lent (p.parent? (outer ++ [l]).length) = .ok lent := by
        rw [List.length_append, List.length_singleton, parent?_of_append split]
        exact hlends
      obtain ⟨verdicts, hmap, hall⟩ := ih (outer ++ [l]) lent (by simp [split]) hinner hrest
      rw [List.length_append, List.length_singleton] at hmap
      refine ⟨v :: verdicts, ?_, ?_⟩
      · rw [List.length_cons, List.range'_succ, List.zip_cons_cons, List.mapM_cons]
        simp only [hvalid, hmap, ok_bind]
        rfl
      · rw [List.all_cons, hall, Bool.and_true]
        exact bne_iff_ne.2 hne
  obtain ⟨verdicts, hmap, hall⟩ := hverdicts p.layers [] none rfl rfl checks
  show (p.indexed.mapM fun entry => p.layerChecksumValid entry.1 entry.2) >>= _ = _
  rw [indexed, List.range_eq_range', show (0 : Nat) = ([] : List Layer).length from rfl, hmap,
    ok_bind, hall]
  rfl

end Packet

end PacketLayers
