/-
  PacketLayers.Proofs.Padding
  ────────────────────────────────
  **PADDING OF A FRAME IS INERT.**

  An Ethernet frame with VLAN tags takes all the bytes there are, and leaves
  it to the IP or ARP packet inside to say where it ends.  If that does, and
  the bytes that it claims are there, whatever is appended to the frame is cut
  off behind it: nothing else is decoded, and no checksum covers it.

    • `StatesEnd`, `payloadLength_of_ends` — a header that says where the
      packet ends;
    • `Parses.padded` — the rules lead to the same layers, with more padding;
    • `Packet.Padded` — two packets that differ in the padding of one layer;
    • `decodeFrom_padded` — so do those decoded from a frame and a padded one.
-/
import PacketLayers.Proofs.Alias
import PacketLayers.Proofs.Corruption
import PacketLayers.Proofs.Locality
import PacketLayers.Proofs.Truncation

namespace PacketLayers

/-! ## §1. Headers that state where a packet ends. -/

/-- A header states where the payload ends, and so many bytes are available
behind it. -/
def LayerKind.StatesEnd : LayerKind → (header : Bytes) → (available : Nat) → Prop
  | .ipv4, header, available => header.length ≤ (Ipv4.Layout.totalLength.value header).toNat
      ∧ (Ipv4.Layout.totalLength.value header).toNat ≤ header.length + available
  | .ipv6, header, available => (Ipv6.Layout.payloadLength.value header).toNat ≠ 0
      ∧ (Ipv6.Layout.payloadLength.value header).toNat ≤ available
  | .arp, _, _ => True
  | _, _, _ => False

/-- Layers that take all there is, around an IP or ARP packet. -/
def LayerKind.IsFraming (kind : LayerKind) : Prop := kind = .ethernet ∨ kind = .vlan

namespace Dissector

variable {d : Dissector} {header payload : Bytes} {o : Discriminant} {available : Nat}

/-- Such a header states the same length whatever there is. -/
theorem payloadLength_of_ends (known : d ∈ all) (whole : d.Whole header)
    (ends : d.kind.StatesEnd header available) :
    ∃ stated, stated ≤ available ∧ ∀ n, d.payloadLength header n = .ok stated := by
  cases known using all_cases with
  | ipv4 =>
    obtain ⟨least, most⟩ := ends
    have accepted := Ipv4.sized.accepts_of_whole whole
    have hlong := (Ipv4.accepts_iff.1 accepted).1
    have hstated : (Ipv4.Layout.totalLength.value header).toNat ≠ 0 := by omega
    refine ⟨_, ?_, fun n => (Ipv4.payloadLength_eq accepted n).trans
      (congrArg Except.ok (if_neg hstated))⟩
    omega
  | ipv6 =>
    obtain ⟨stated, most⟩ := ends
    have accepted := Ipv6.sized.accepts_of_whole whole
    exact ⟨_, most, fun n => (Ipv6.payloadLength_eq (Ipv6.accepts_iff.1 accepted) n).trans
      (congrArg Except.ok (if_neg stated))⟩
  | arp => exact ⟨0, Nat.zero_le _, fun _ => rfl⟩
  | _ => exact ends.elim

/-- A frame around a layer takes all there is. -/
theorem payloadLength_of_framing (known : d ∈ all) (framing : d.kind.IsFraming)
    (named : d.next header payload = .ok (some o)) (available : Nat) :
    d.payloadLength header available = .ok available := by
  cases known using all_cases with
  | ethernet => exact Ethernet.payloadLength_of_next named available
  | vlan => rfl
  | _ => rcases framing with kind | kind <;> cases kind

/-- And has no checksum. -/
theorem checksumValid_of_framing (known : d ∈ all) (framing : d.kind.IsFraming) (header : Bytes)
    (cx : Context) : d.checksumValid header cx = .ok none := by
  cases known using all_cases with
  | ethernet => rfl
  | vlan => rfl
  | _ => rcases framing with kind | kind <;> cases kind

end Dissector

/-! ## §2. Padding in the plain form. -/

namespace PlainLayer

/-- The layer with more bytes of padding. -/
def pad (more : Bytes) (l : PlainLayer) : PlainLayer := { l with padding := l.padding ++ more }

/-- What is behind the layers is behind the padding of any of them that no
padding is around. -/
theorem wire_pad (more : Bytes) (body : Option Bytes) {layers : List PlainLayer} :
    ∀ {depth : Nat}, depth < layers.length → (∀ l ∈ layers.take depth, l.padding = []) →
      wire (layers.modify depth (pad more)) body = wire layers body ++ more := by
  induction layers with
  | nil => exact fun inside _ => absurd inside (Nat.not_lt_zero _)
  | cons first inner ih =>
    intro depth inside bare
    cases depth with
    | zero =>
      rw [List.modify_zero_cons, wire_cons, wire_cons, pad]
      simp only [List.append_assoc]
    | succ depth =>
      rw [List.take_succ_cons] at bare
      have hinner := ih (Nat.lt_of_succ_lt_succ inside)
        fun l hl => bare l (List.mem_cons_of_mem _ hl)
      rw [List.modify_succ_cons, wire_cons, wire_cons, hinner, bare first List.mem_cons_self]
      simp only [List.append_assoc, List.append_nil]

/-- The payloads of the layers around have more bytes, and no others. -/
theorem wire_drop_pad (more : Bytes) (body : Option Bytes) {layers : List PlainLayer} {depth : Nat}
    (inside : depth < layers.length) (bare : ∀ l ∈ layers.take depth, l.padding = []) (i : Nat) :
    wire ((layers.modify depth (pad more)).drop (i + 1)) body
      = if i < depth then wire (layers.drop (i + 1)) body ++ more
        else wire (layers.drop (i + 1)) body := by
  split
  · next outside =>
    rw [List.drop_modify_of_ge _ _ _ _ outside]
    refine wire_pad more body ?_ fun l hl => bare l ?_
    · rw [List.length_drop]
      omega
    · have hdepth : i + 1 + (depth - (i + 1)) = depth := by omega
      rw [List.take_drop, hdepth] at hl
      exact List.mem_of_mem_drop hl
  · next within => rw [List.drop_modify_of_lt _ _ _ _ (by omega)]

/-- Padding is lent to no layer. -/
theorem lentTo_pad (more : Bytes) (layers : List PlainLayer) (depth i : Nat) :
    lentTo (layers.modify depth (pad more)) i = lentTo layers i := by
  cases i with
  | zero => rfl
  | succ above =>
    simp only [lentTo, List.getElem?_modify]
    cases layers[above]? with
    | none => rfl
    | some l => by_cases hdepth : depth = above <;> simp [hdepth, pad]

end PlainLayer

namespace Registry

variable {r : Registry} {d : Dissector} {origin : Option Discriminant} {room : Nat}
  {bytes header payload padding : Bytes} {found : PlainBranch}

/-! ## §3. The rules. -/

/-- What follows a layer that states its end is padding. -/
theorem Parts.padded (known : d ∈ Dissector.all) (parts : Parts d bytes header payload padding)
    (ends : d.kind.StatesEnd header (payload.length + padding.length)) (more : Bytes) :
    Parts d (bytes ++ more) header payload (padding ++ more) where
  whole := by
    rw [parts.whole]
    simp only [List.append_assoc]
  header_length := parts.header_longer (Dissector.upfront_of_mem_all known) more
  payload_length := by
    obtain ⟨n, hn, hcut⟩ := parts.payload_length
    obtain ⟨stated, hmost, hstated⟩ := Dissector.payloadLength_of_ends known parts.whole_header ends
    obtain rfl : stated = n := Except.ok.inj ((hstated _).symm.trans hn)
    refine ⟨stated, hstated _, ?_⟩
    rw [List.length_append]
    omega

/-- What follows a layer that takes all there is belongs to its payload. -/
theorem Parts.extended (known : d ∈ Dissector.all) (parts : Parts d bytes header payload padding)
    (all : ∀ n, d.payloadLength header n = .ok n) (more : Bytes) :
    padding = [] ∧ Parts d (bytes ++ more) header (payload ++ more) padding := by
  obtain ⟨n, hn, hcut⟩ := parts.payload_length
  obtain rfl : payload.length + padding.length = n := Except.ok.inj ((all _).symm.trans hn)
  obtain rfl : padding = [] := List.length_eq_zero_iff.1 (by omega)
  refine ⟨rfl, ?_, parts.header_longer (Dissector.upfront_of_mem_all known) more, _, all _,
    (Nat.min_self _).symm⟩
  rw [parts.whole]
  simp only [List.append_assoc, List.append_nil]

/-- **The rules lead to the same layers** in a padded frame: all but one of them
have the padding that they had, and that one has what was appended behind it. -/
theorem Parses.padded (uses : r.Uses (· ∈ Dissector.all)) (more : Bytes)
    (h : Parses r room d origin bytes found) :
    d ∈ Dissector.all → ∀ {depth : Nat} {l : PlainLayer}, found.layers[depth]? = some l →
      (∀ m ∈ found.layers.take depth, m.kind.IsFraming) →
      l.kind.StatesEnd l.header
        ((PlainLayer.wire (found.layers.drop (depth + 1)) found.body).length + l.padding.length) →
      (∀ m ∈ found.layers.take depth, m.padding = [])
        ∧ Parses r room d origin (bytes ++ more)
          { found with layers := found.layers.modify depth (PlainLayer.pad more) } := by
  -- on the rules: around the layer all payloads get longer, inside it nothing does
  induction h with
  | @innermost room d origin bytes header payload padding failure parts rests =>
    intro root depth l hl framing ends
    cases depth with
    | zero =>
      obtain rfl := Option.some.inj hl
      rw [List.drop_succ_cons, List.drop_zero, PlainLayer.wire_nil, rawBytes_getD] at ends
      exact ⟨fun m hm => absurd hm List.not_mem_nil, .innermost (parts.padded root ends more) rests⟩
    | succ depth => cases hl
  | @around room d child origin o bytes header payload padding inner parts offered stands inside ih =>
    intro root depth l hl framing ends
    cases depth with
    | zero =>
      obtain rfl := Option.some.inj hl
      rw [List.drop_succ_cons, List.drop_zero, inside.wire_eq] at ends
      exact ⟨fun m hm => absurd hm List.not_mem_nil,
        .around (parts.padded root ends more) offered stands inside⟩
    | succ depth =>
      rw [List.take_succ_cons] at framing ⊢
      have hall := Dissector.payloadLength_of_framing root (framing _ List.mem_cons_self)
        offered.named
      obtain ⟨rfl, hparts⟩ := parts.extended root hall more
      obtain ⟨bare, hinside⟩ := ih (uses _ (dissect_mem stands) _ rfl) hl
        (fun m hm => framing m (List.mem_cons_of_mem _ hm)) ends
      refine ⟨List.forall_mem_cons.2 ⟨rfl, bare⟩, ?_⟩
      exact .around hparts
        (offered.longer (Dissector.upfront_of_mem_all root) (List.prefix_append payload more))
        stands hinside

end Registry

/-! ## §4. Packets. -/

/-- Two packets of the same layers with the same bytes, but for the padding of
the layer at a depth, which is longer in the second. -/
structure Packet.Padded (p q : Packet) (depth : Nat) (more : Bytes) : Prop where
  layers : q.plain.layers = p.plain.layers.modify depth (PlainLayer.pad more)
  body : q.plain.body = p.plain.body
  /-- What is inside the layer has not changed; for the layers around it, the
  padding is a part of their payload. -/
  payloads : ∀ i, i < p.layers.length → q.payloadBytes i
    = if i < depth then p.payloadBytes i ++ more else p.payloadBytes i
  checksums : ∀ {i : Nat} {l l' : Layer}, p.layers[i]? = some l → q.layers[i]? = some l' →
    q.layerChecksumValid i l' = p.layerChecksumValid i l

namespace Packet

variable {p q : Packet} {depth : Nat} {more : Bytes}

/-- More padding changes neither the protocol of a layer nor its header. -/
theorem header_of_padded
    (layers : q.plain.layers = p.plain.layers.modify depth (PlainLayer.pad more)) {i : Nat}
    {l l' : Layer} (before : p.layers[i]? = some l) (after : q.layers[i]? = some l') :
    l'.dissector = l.dissector ∧ q.header l' = p.header l := by
  have hplain := getElem?_plain after
  rw [layers, List.getElem?_modify, getElem?_plain before, Option.map_eq_map,
    Option.map_some] at hplain
  have hlayer := Option.some.inj hplain
  split at hlayer <;>
    exact ⟨(congrArg PlainLayer.dissector hlayer).symm, (congrArg PlainLayer.header hlayer).symm⟩

/-- Packets are alike that are alike in the plain form, if there are only
frames around the layer. -/
theorem padded_of_plain (laid : p.LaidOut) (laid' : q.LaidOut)
    (known : ∀ l ∈ p.plain.layers, l.dissector ∈ Dissector.all) (inside : depth < p.layers.length)
    (framing : ∀ m ∈ p.plain.layers.take depth, m.kind.IsFraming)
    (bare : ∀ m ∈ p.plain.layers.take depth, m.padding = [])
    (layers : q.plain.layers = p.plain.layers.modify depth (PlainLayer.pad more))
    (body : q.plain.body = p.plain.body) : p.Padded q depth more := by
  have hlength : p.plain.layers.length = p.layers.length := List.length_map _
  have hlength' : q.layers.length = p.layers.length := by
    have hcount := congrArg List.length layers
    rw [List.length_modify, hlength] at hcount
    exact (List.length_map _).symm.trans hcount
  have payloads : ∀ i, i < p.layers.length → q.payloadBytes i
      = if i < depth then p.payloadBytes i ++ more else p.payloadBytes i := by
    intro i hi
    rw [payloadBytes_eq laid (List.getElem?_eq_getElem hi),
      payloadBytes_eq laid' (List.getElem?_eq_getElem (hlength' ▸ hi)), layers, body]
    exact PlainLayer.wire_drop_pad more _ (hlength ▸ inside) bare i
  refine ⟨layers, body, payloads, fun {i l l'} before after => ?_⟩
  obtain ⟨hdissector, hheader⟩ := header_of_padded layers before after
  have hi := (List.getElem?_eq_some_iff.1 before).1
  unfold layerChecksumValid
  rw [lent_parent?, lent_parent?, layers, PlainLayer.lentTo_pad, hdissector, hheader, payloads i hi]
  split
  · next outside =>
    -- a frame around the layer, which has no checksum
    have hmem : l.plain p.arena ∈ p.plain.layers.take depth :=
      List.mem_take_iff_getElem.2 ⟨i, by omega, (List.getElem?_eq_some_iff.1 (getElem?_plain before)).2⟩
    have hnone : ∀ cx, l.dissector.checksumValid (p.header l) cx = .ok none :=
      Dissector.checksumValid_of_framing (known _ (List.mem_of_mem_take hmem)) (framing _ hmem) _
    simp only [hnone]
  · rfl

end Packet

namespace Registry

/-- **Padding of a frame is inert.**  Take any packet that is decoded from an
Ethernet frame, with or without a check sequence behind it, in which an IP or
ARP packet stands in the frame or in VLAN tags in the frame, and states its
end inside the frame.  Whatever is appended to the frame, it is decoded as
before into the same layers with the same headers around the same payload;
what was appended is the end of the padding of the IP or ARP packet, and no
check of any layer changes. -/
theorem decodeFrom_padded {r : Registry} (uses : r.Uses (· ∈ Dissector.all))
    {origin : Option Discriminant} {frame tail : Bytes} {hasFcs : Bool} {out : Decoding}
    {p : Packet} (trails : Trails tail hasFcs)
    (h : r.decodeFrom Ethernet.dissector origin (frame ++ tail) hasFcs = .ok out)
    (hp : out.packet? = some p) {depth : Nat} {l : Layer} (found : p.layers[depth]? = some l)
    (framing : ∀ m ∈ p.layers.take depth, m.kind.IsFraming)
    (ends : l.kind.StatesEnd (p.header l)
      ((p.payloadBytes depth).length + (p.padding l).length)) (more : Bytes) {tail' : Bytes}
    (trails' : Trails tail' hasFcs) :
    ∃ q, r.decodeFrom Ethernet.dissector origin (frame ++ more ++ tail') hasFcs
        = .ok (out.over q) ∧ p.Padded q depth more := by
  have root : Ethernet.dissector ∈ Dissector.all := by simp [Dissector.all]
  obtain ⟨branch, hparses, rfl, hplain, laid⟩ := decodeFrom_parses trails h hp
  have hlayers : p.plain.layers = branch.layers := congrArg PlainPacket.layers hplain
  have hbody : p.plain.body = branch.body := congrArg PlainPacket.body hplain
  have hframing : ∀ m ∈ p.plain.layers.take depth, m.kind.IsFraming := by
    intro m hm
    rw [Packet.plain, ← List.map_take] at hm
    obtain ⟨l, hl, rfl⟩ := List.mem_map.1 hm
    exact framing l hl
  have hfound := Packet.getElem?_plain found
  rw [Packet.payloadBytes_eq laid found, hlayers, hbody] at ends
  rw [hlayers] at hfound hframing
  obtain ⟨bare, hpadded⟩ := hparses.padded uses more root hfound hframing ends
  obtain ⟨q, hq, hqplain, laid'⟩ := decodeFrom_of_parses hpadded trails'
  refine ⟨q, ?_, ?_⟩
  · rw [hq, over_decoding]
    rfl
  · have hknown := hparses.known uses root
    rw [← hlayers] at hframing bare hknown
    refine Packet.padded_of_plain laid laid' hknown (List.getElem?_eq_some_iff.1 found).1 hframing
      bare ?_ ?_
    · rw [hqplain, hlayers]
    · rw [hqplain, hbody]

/-- A datagram in IPv4 in a VLAN tag, and a byte of padding behind it. -/
def taggedFrame : Bytes :=
  List.replicate 12 0 ++ [0x81, 0] ++ [0, 1, 8, 0]
    ++ [0x45, 0, 0, 29, 0, 0, 0, 0, 64, 17, 0, 0, 10, 0, 0, 1, 10, 0, 0, 2]
    ++ [0, 1, 0, 2, 0, 9, 0, 0, 0x68] ++ [9]

/-- Two more bytes are padding of IPv4. -/
theorem decodeFrom_padded_tagged :
    ∃ p q l, standard.decodeFrom Ethernet.dissector none (taggedFrame ++ []) false
        = .ok (.complete p)
      ∧ standard.decodeFrom Ethernet.dissector none (taggedFrame ++ [7, 7] ++ []) false
        = .ok (.complete q)
      ∧ q.layers[2]? = some l ∧ l.kind = .ipv4 ∧ q.padding l = [9, 7, 7]
      ∧ q.payloadBytes 2 = [0, 1, 0, 2, 0, 9, 0, 0, 0x68] := by
  obtain ⟨p, l₀, l₁, l, l₃, hp, hlayers, hkind₀, hkind₁, hkind, hheader, hpadding, hpayload⟩ :
      ∃ p l₀ l₁ l l₃, standard.decodeFrom Ethernet.dissector none (taggedFrame ++ []) false
          = .ok (.complete p)
        ∧ p.layers = [l₀, l₁, l, l₃] ∧ l₀.kind = .ethernet ∧ l₁.kind = .vlan ∧ l.kind = .ipv4
        ∧ p.header l = [0x45, 0, 0, 29, 0, 0, 0, 0, 64, 17, 0, 0, 10, 0, 0, 1, 10, 0, 0, 2]
        ∧ p.padding l = [9] ∧ p.payloadBytes 2 = [0, 1, 0, 2, 0, 9, 0, 0, 0x68] :=
    ⟨_, _, _, _, _, rfl, rfl, rfl, rfl, rfl, rfl, rfl, rfl⟩
  have hfound : p.layers[2]? = some l := by rw [hlayers]; rfl
  have hframing : ∀ m ∈ p.layers.take 2, m.kind.IsFraming := by
    rw [hlayers]
    exact List.forall_mem_cons.2 ⟨.inl hkind₀, List.forall_mem_singleton.2 (.inr hkind₁)⟩
  have hends : l.kind.StatesEnd (p.header l)
      ((p.payloadBytes 2).length + (p.padding l).length) := by
    rw [hkind, hheader, hpadding, hpayload]
    exact ⟨by decide, by decide⟩
  obtain ⟨q, hq, padded⟩ := decodeFrom_padded standard_uses trails_nil hp rfl hfound hframing hends
    [7, 7] trails_nil
  -- the layer of the longer frame, in the plain form first
  have hplain : q.plain.layers[2]? = some (PlainLayer.pad [7, 7] (l.plain p.arena)) := by
    rw [padded.layers, List.getElem?_modify, Packet.getElem?_plain hfound]
    rfl
  obtain ⟨m, hm, hsame⟩ := Packet.getElem?_of_plain hplain
  have hinside : 2 < p.layers.length := (List.getElem?_eq_some_iff.1 hfound).1
  refine ⟨p, q, m, hp, hq, hm, (congrArg PlainLayer.kind hsame).trans hkind, ?_, ?_⟩
  · show (m.plain q.arena).padding = _
    rw [hsame]
    exact congrArg (· ++ [7, 7]) hpadding
  · exact (padded.payloads 2 hinside).trans hpayload

end Registry

end PacketLayers
