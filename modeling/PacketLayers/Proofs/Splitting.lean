/-
  PacketLayers.Proofs.Splitting
  ────────────────────────────────
  **SPLITTING A PACKET LOSES NOTHING.**

  The payload of a layer can be taken out of a packet.  What is taken has the
  layers, the body and the padding that were inside, with bytes of its own, so
  that they are read the same over any arena; what is left has the layers
  around, as they were, with nothing inside the last of them.

    • `Payload.Spells.concat_drop` — a payload read from one of its layers on;
    • `Payload.Spells.serialize_toPacket` — and as a packet of its own;
    • `Packet.Split` — what taking a payload leaves and gives;
    • `Reachable.takePayload_splits` — so it is for every layer.
-/
import PacketLayers.Proofs.Conversion
import PacketLayers.Proofs.Lengths

namespace PacketLayers

/-! ## §1. What a payload says. -/

namespace Payload

variable {payload : Payload} {layers : List PlainLayer} {body : Option Bytes}

/-- The bytes from one layer of a payload on, over any arena. -/
theorem Spells.concat_drop (spells : payload.Spells layers body) (arena : Bytes) (i : Nat) :
    Region.concat arena (Layer.wireRegions (payload.layers.drop i) payload.body)
      = PlainLayer.wire (layers.drop i) body := by
  rw [Layer.concat_wireRegions, List.map_drop, spells.layers, spells.body]

theorem Spells.toPacket_eq_none (spells : payload.Spells layers body) :
    payload.toPacket? = none ↔ layers = [] := by
  cases layers with
  | nil =>
    have hlayers := List.map_eq_nil_iff.1 (spells.layers [])
    simp only [toPacket?, hlayers]
  | cons root inner =>
    obtain ⟨q, hmade, _⟩ := spells.toPacket
    simp [hmade]

/-- **A payload as a packet** serializes to the bytes of the payload. -/
theorem Spells.serialize_toPacket (spells : payload.Spells layers body) {q : Packet}
    (made : payload.toPacket? = some q) (mode : ChecksumMode) :
    q.serialize mode = .ok (PlainLayer.wire layers body, q.settle) := by
  cases layers with
  | nil =>
    rw [spells.toPacket_eq_none.2 rfl] at made
    cases made
  | cons root inner =>
    obtain ⟨q', hmade, laid, fresh, hplain⟩ := spells.toPacket
    obtain rfl := Option.some.inj (hmade.symm.trans made)
    rw [Packet.serialize_of_fresh laid fresh, Packet.contents_plain, hplain, PlainPacket.pieces,
      PlainLayer.pieces_reroot]
    simp [PlainLayer.wire]

end Payload

/-! ## §2. Taking the payload of a layer. -/

/-- A packet was split behind the header of the layer at a depth, into a packet
that keeps what is around and a payload of what was inside. -/
structure Packet.Split (p : Packet) (depth : Nat) (rest : Packet) (taken : Payload) : Prop where
  /-- What was taken is read the same over any arena. -/
  layers : ∀ arena, taken.layers.map (Layer.plain arena) = p.plain.layers.drop (depth + 1)
  body : ∀ arena, taken.body.map (Region.bytes arena) = p.plain.body
  /-- All of it are the bytes inside the layer, and what is inside each of its
  layers are the bytes that were inside that. -/
  payloads : ∀ arena i, i ≤ taken.layers.length →
    Region.concat arena (Layer.wireRegions (taken.layers.drop i) taken.body)
      = p.payloadBytes (depth + i)
  /-- It makes a packet if there was a layer inside. -/
  alone : taken.toPacket? = none ↔ p.layers.length = depth + 1
  serializes : ∀ q, taken.toPacket? = some q → ∀ mode,
    q.serialize mode = .ok (p.payloadBytes depth, q.settle)
  /-- The layer and those around it are what they were. -/
  remains : rest.plain = ⟨p.plain.layers.take (depth + 1), none, p.plain.fcs⟩
  emptied : rest.payloadBytes depth = []

namespace Cursor

variable {p : Packet} {depth : Nat} {c : Cursor}

theorem layers_of_open (opened : p.open? depth = some c) :
    p.layers.take (depth + 1) = c.outer ++ [c.focus] ∧ p.layers.drop (depth + 1) = c.inner := by
  obtain ⟨_, hlayers, rfl⟩ := close_of_open opened
  have hsplit : p.layers = (c.outer ++ [c.focus]) ++ c.inner := by
    rw [← hlayers, List.append_assoc]
    rfl
  have hlength : (c.outer ++ [c.focus]).length = c.outer.length + 1 := by
    rw [List.length_append]
    rfl
  rw [hsplit, ← hlength]
  exact ⟨List.take_left, List.drop_left⟩

theorem spells_takePayload (opened : p.open? depth = some c) :
    c.takePayload.2.Spells (p.plain.layers.drop (depth + 1)) p.plain.body := by
  obtain ⟨_, hinner⟩ := layers_of_open opened
  obtain ⟨rfl, _, _⟩ := close_of_open opened
  show (Payload.detach _ _).Spells ((c.packet.layers.map _).drop (depth + 1)) _
  rw [← List.map_drop, hinner]
  exact Payload.spells_detach c.packet.arena ⟨c.inner, c.packet.body⟩

/-- **Taking a payload splits the packet.** -/
theorem takePayload_split (laid : p.LaidOut) (opened : p.open? depth = some c) :
    p.Split depth c.takePayload.1.close c.takePayload.2 := by
  have spells := spells_takePayload opened
  obtain ⟨houter, hinner⟩ := layers_of_open opened
  obtain ⟨hpacket, hlayers, hdepth⟩ := close_of_open opened
  have htotal : p.layers.length = depth + 1 + c.inner.length := by
    rw [← hlayers, List.length_append, List.length_cons, hdepth]
    omega
  have htaken : c.takePayload.2.layers.length = c.inner.length := List.length_map _
  -- payloads inside the cursor are what the layers that were taken spell
  have hpayload : ∀ i, i ≤ c.inner.length →
      p.payloadBytes (depth + i)
        = PlainLayer.wire ((p.plain.layers.drop (depth + 1)).drop i) p.plain.body := by
    intro i hi
    have hfound : p.layers[depth + i]? = some p.layers[depth + i] :=
      List.getElem?_eq_getElem (by omega)
    rw [Packet.payloadBytes_eq laid hfound, List.drop_drop, Nat.add_right_comm]
  refine ⟨spells.layers, spells.body, ?_, ?_, ?_, ?_, ?_⟩
  · intro arena i hi
    rw [spells.concat_drop, hpayload i (by rw [← htaken]; exact hi)]
  · rw [spells.toPacket_eq_none, List.drop_eq_nil_iff, Packet.plain, List.length_map]
    omega
  · intro q made mode
    rw [spells.serialize_toPacket made mode, ← Nat.add_zero depth, hpayload 0 (Nat.zero_le _)]
    rfl
  · subst hpacket
    show (⟨(c.outer ++ [c.focus]).map (Layer.plain c.packet.arena), none, _⟩ : PlainPacket) = _
    rw [← houter, List.map_take]
    rfl
  · have hrest : c.takePayload.1.close.layers.drop (depth + 1) = [] := by
      refine List.drop_eq_nil_of_le ?_
      show (c.outer ++ [c.focus]).length ≤ depth + 1
      rw [List.length_append, hdepth]
      exact Nat.le_refl _
    rw [Packet.payloadBytes, hrest]
    rfl

end Cursor

/-- **Splitting a packet loses nothing.**  Every layer of every packet that can
come about can be opened and its payload taken.  That has the layers, the
headers, the body and the paddings that were inside, whatever becomes of the
packet and its arena; one after the other they are the payload of the layer,
and so is what a packet made of them serializes to, in either mode.  The layer
and those around it are left as they were, and nothing is left inside. -/
theorem Reachable.takePayload_splits {known : Dissector → Prop} {p : Packet}
    (h : Reachable known p) {depth : Nat} {l : Layer} (found : p.layers[depth]? = some l) :
    ∃ c, p.open? depth = some c ∧ p.Split depth c.takePayload.1.close c.takePayload.2 :=
  have opened := Packet.open?_eq found
  ⟨_, opened, Cursor.takePayload_split h.coherent.laidOut opened⟩

/-- A datagram is taken out of the IPv4 packet that it was decoded in, and
serializes to itself; a byte of padding stays behind. -/
theorem Reachable.takePayload_splits_datagram :
    ∃ p c q, Registry.standard.decodeFrom Ipv4.dissector (some (.link .ipv4))
          ([0x45, 0, 0, 29, 0, 0, 0, 0, 64, 17, 0, 0, 10, 0, 0, 1, 10, 0, 0, 2]
            ++ [0, 1, 0, 2, 0, 9, 0, 0, 0x68] ++ [0xff]) false = .ok (.complete p)
      ∧ p.open? 0 = some c ∧ c.takePayload.2.toPacket? = some q
      ∧ q.serialize .fill = .ok ([0, 1, 0, 2, 0, 9, 0, 0, 0x68], q.settle)
      ∧ c.takePayload.1.close.payloadBytes 0 = [] ∧ c.focus.padding.bytes p.arena = [0xff] := by
  obtain ⟨p, l, hp, hl, hpayload, hpadding, hlength⟩ :
      ∃ p l, Registry.standard.decodeFrom Ipv4.dissector (some (.link .ipv4))
          ([0x45, 0, 0, 29, 0, 0, 0, 0, 64, 17, 0, 0, 10, 0, 0, 1, 10, 0, 0, 2]
            ++ [0, 1, 0, 2, 0, 9, 0, 0, 0x68] ++ [0xff]) false = .ok (.complete p)
        ∧ p.layers[0]? = some l ∧ p.payloadBytes 0 = [0, 1, 0, 2, 0, 9, 0, 0, 0x68]
        ∧ l.padding.bytes p.arena = [0xff] ∧ p.layers.length = 2 :=
    ⟨_, _, rfl, rfl, rfl, rfl, rfl⟩
  have hreach : Reachable (· ∈ Dissector.all) p :=
    .decoded Registry.standard_uses (by simp [Dissector.all]) hp rfl
  obtain ⟨c, hopen, split⟩ := Reachable.takePayload_splits hreach hl
  obtain ⟨q, hq⟩ := Option.ne_none_iff_exists'.1 fun none => by
    have hone := split.alone.1 none
    omega
  have hserialize := split.serializes q hq .fill
  rw [hpayload] at hserialize
  -- the layer that was opened is the one that was found
  obtain ⟨rfl, hlayers, hdepth⟩ := Cursor.close_of_open hopen
  have hfocus : c.focus = l := by
    rw [← hlayers, List.eq_nil_of_length_eq_zero hdepth] at hl
    exact Option.some.inj hl
  exact ⟨_, c, q, hp, hopen, hq, hserialize, split.emptied, hfocus ▸ hpadding⟩

end PacketLayers
