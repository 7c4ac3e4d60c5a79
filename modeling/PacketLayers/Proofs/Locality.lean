/-
  PacketLayers.Proofs.Locality
  ────────────────────────────────
  **DECODING IS LOCAL.**

  What is found inside a layer is found in its payload, and nowhere else.
  Neither the headers around it, nor the padding behind it, nor a frame check
  sequence have a say, and how deep it lies matters only where decoding ran
  out of room.

    • `Parses.widen` — room that was enough is as good as more;
    • `Parses.nested` — the layers inside a layer are those of its payload;
    • `decode_local` — the two for packets, and the same buffer with and
      without a frame check sequence.
-/
import PacketLayers.Proofs.Lengths
import PacketLayers.Proofs.Parse
import PacketLayers.Proofs.Redecode

namespace PacketLayers

/-! ## §1. What a packet shows. -/

/-- What can be seen of one layer. -/
structure Shown where
  dissector : Dissector
  header : Bytes
  /-- Everything inside the layer, nested layers included. -/
  payload : Bytes
  padding : Bytes

/-- The layers of a packet, outermost first. -/
def Packet.shown (p : Packet) : List Shown :=
  p.indexed.map fun (depth, l) => ⟨l.dissector, p.header l, p.payloadBytes depth, p.padding l⟩

/-- What can be seen of an outcome: the error that decoding ended with, and
the layers that were decoded. -/
def Decoding.shown (out : Decoding) : Option Error × Option (List Shown) :=
  (out.error?, out.packet?.map Packet.shown)

namespace PlainLayer

/-- What can be seen of layers around a body. -/
def shown : List PlainLayer → Option Bytes → List Shown
  | [], _ => []
  | l :: inner, body => ⟨l.dissector, l.header, wire inner body, l.padding⟩ :: shown inner body

theorem shown_drop (layers : List PlainLayer) (body : Option Bytes) (n : Nat) :
    (shown layers body).drop n = shown (layers.drop n) body := by
  induction n generalizing layers with
  | zero => rfl
  | succ n ih =>
    cases layers with
    | nil => rfl
    | cons l inner => exact ih inner

theorem getElem?_shown {layers : List PlainLayer} {body : Option Bytes} {depth : Nat} :
    (shown layers body)[depth]? = layers[depth]?.map fun l =>
      ⟨l.dissector, l.header, wire (layers.drop (depth + 1)) body, l.padding⟩ := by
  induction layers generalizing depth with
  | nil => rfl
  | cons l inner ih =>
    cases depth with
    | zero => rfl
    | succ depth => exact ih

end PlainLayer

namespace Packet

variable {p : Packet}

theorem getElem?_indexed (p : Packet) (depth : Nat) :
    p.indexed[depth]? = p.layers[depth]?.map (depth, ·) := by
  unfold indexed
  by_cases hdepth : depth < p.layers.length
  · simp [hdepth, List.zip]
  · simp [hdepth]

/-- A packet shows what its plain form does. -/
theorem shown_plain (laid : p.LaidOut) : p.shown = PlainLayer.shown p.plain.layers p.plain.body := by
  refine List.ext_getElem? fun depth => ?_
  rw [shown, List.getElem?_map, getElem?_indexed, PlainLayer.getElem?_shown]
  cases found : p.layers[depth]? with
  | none => simp [plain, found]
  | some l =>
    rw [← payloadBytes_eq laid found]
    simp [plain, found, Layer.plain, header, padding]

end Packet

namespace Registry

variable {r : Registry} {d : Dissector} {origin : Option Discriminant} {bytes : Bytes}
  {found : PlainBranch} {room : Nat}

/-! ## §2. Room. -/

/-- A payload that stays bytes although there is room does so with more. -/
theorem Rests.widen {header payload : Bytes} {failure : Option Error} {room' : Nat}
    (h : Rests r room d header payload failure) (deep : 0 < room) (deep' : 0 < room') :
    Rests r room' d header payload failure := by
  unfold Rests at h ⊢
  cases h with
  | empty none => exact .empty none
  | closed nonempty closed => exact .closed nonempty closed
  | unnamed nonempty unsealed unnamed => exact .unnamed nonempty unsealed unnamed
  | full _ full => omega
  | unknown offers _ kept => exact .unknown offers deep' kept
  | refused offers _ refused => exact .refused offers deep' refused
  | unreadable offers _ stands fails => exact .unreadable offers deep' stands fails

/-- Room that was enough is as good as more. -/
theorem Parses.widen (h : Parses r room d origin bytes found) :
    ∀ {room' : Nat}, found.layers.length ≤ room → room ≤ room' →
      Parses r room' d origin bytes found := by
  induction h with
  | innermost parts rests =>
    intro room' few more
    exact .innermost parts (rests.widen few (Nat.lt_of_lt_of_le few more))
  | @around room _ _ _ _ _ _ _ _ _ parts offered stands _ ih =>
    intro room' few more
    obtain ⟨room', rfl⟩ : ∃ n, room' = n + 1 := ⟨room' - 1, by omega⟩
    exact .around parts offered stands
      (ih (Nat.le_of_succ_le_succ few) (Nat.le_of_succ_le_succ more))

/-! ## §3. Layers inside a layer. -/

/-- The name under which the first layer was announced has no say. -/
theorem Parses.renamed (h : Parses r room d origin bytes found) (origin' : Option Discriminant) :
    ∃ found', Parses r room d origin' bytes found'
      ∧ found'.body = found.body ∧ found'.failure = found.failure
      ∧ PlainLayer.shown found'.layers found'.body = PlainLayer.shown found.layers found.body := by
  cases h with
  | innermost parts rests => exact ⟨_, .innermost parts rests, rfl, rfl, rfl⟩
  | around parts offered stands inside =>
    exact ⟨_, .around parts offered stands inside, rfl, rfl, rfl⟩

/-- **The layers inside a layer** are those that the rules find in its
payload. -/
theorem Parses.nested (h : Parses r room d origin bytes found) :
    ∀ {depth : Nat} {l : PlainLayer}, found.layers[depth + 1]? = some l →
      Parses r (room - (depth + 1)) l.dissector l.origin
        (PlainLayer.wire (found.layers.drop (depth + 1)) found.body)
        { found with layers := found.layers.drop (depth + 1) } := by
  induction h with
  | innermost => intro depth l hl; cases hl
  | @around room _ _ _ _ _ _ payload _ inner _ _ _ inside ih =>
    intro depth l hl
    rw [Nat.add_sub_add_right]
    cases depth with
    | zero =>
      obtain ⟨_, _, _, _, _, hfirst⟩ := inside.first
      have hhead : inner.layers[0]? = some l := hl
      rw [hfirst] at hhead
      obtain rfl := Option.some.inj hhead
      have hwire : PlainLayer.wire inner.layers inner.body = payload := inside.wire_eq
      rw [← hwire] at inside
      exact inside
    | succ depth => exact ih hl

/-! ## §4. Packets. -/

/-- What is shown of a packet that was decoded. -/
theorem shown_of_plain {p : Packet} {tail : Option Bytes} (laid : p.LaidOut)
    (plain : p.plain = ⟨found.layers, found.body, tail⟩) :
    p.shown = PlainLayer.shown found.layers found.body := by
  rw [Packet.shown_plain laid, plain]

theorem over_decoding (p q : Packet) : (found.decoding p).over q = found.decoding q := by
  unfold PlainBranch.decoding
  cases found.failure <;> rfl

/-- **A frame shows the same** whatever trails it. -/
theorem decodeFrom_trailed {frame tail tail' : Bytes} {hasFcs hasFcs' : Bool} {out : Decoding}
    (trails : Trails tail hasFcs) (trails' : Trails tail' hasFcs')
    (h : r.decodeFrom d origin (frame ++ tail) hasFcs = .ok out) :
    ∃ out', r.decodeFrom d origin (frame ++ tail') hasFcs' = .ok out' ∧ out'.shown = out.shown := by
  cases hp : out.packet? with
  | none =>
    obtain ⟨e, rfl⟩ := Decoding.eq_refused hp
    exact ⟨_, (decodeFrom_refused trails').2 ((decodeFrom_refused trails).1 h), rfl⟩
  | some p =>
    obtain ⟨found, hparses, rfl, hplain, laid⟩ := decodeFrom_parses trails h hp
    obtain ⟨q, hq, hplain', laid'⟩ := decodeFrom_of_parses hparses trails'
    have hshown : q.shown = p.shown :=
      (shown_of_plain laid' hplain').trans (shown_of_plain laid hplain).symm
    refine ⟨_, hq, ?_⟩
    unfold Decoding.shown
    rw [PlainBranch.packet?_decoding, PlainBranch.packet?_decoding, PlainBranch.error?_decoding,
      PlainBranch.error?_decoding, Option.map_some, Option.map_some, hshown]

/-- The same for frames of some link type. -/
theorem decode_trailed {link : LinkType} {frame tail tail' : Bytes} {hasFcs hasFcs' : Bool}
    {out : Decoding} (trails : Trails tail hasFcs) (trails' : Trails tail' hasFcs')
    (h : r.decode link (frame ++ tail) hasFcs = .ok out) :
    ∃ out', r.decode link (frame ++ tail') hasFcs' = .ok out' ∧ out'.shown = out.shown := by
  unfold decode at h ⊢
  cases hlink : r.resolve (.link link) with
  | dissect d =>
    simp only [hlink] at h
    exact decodeFrom_trailed trails trails' h
  | keep =>
    simp only [hlink] at h
    exact ⟨out, h, rfl⟩
  | refuse =>
    simp only [hlink] at h
    exact ⟨out, h, rfl⟩

/-- **The payload of a layer**, decoded on its own, gives what decoding found
in it, as long as there was room. -/
theorem decodeLayer_payloadBytes {data : Bytes} {hasFcs : Bool} {out : Decoding} {p : Packet}
    (h : r.decodeFrom d origin data hasFcs = .ok out) (hp : out.packet? = some p)
    (few : p.layers.length < maxDepth) {depth : Nat} {l : Layer}
    (nested : p.layers[depth + 1]? = some l) :
    ∃ q, r.decodeLayer l.dissector (p.payloadBytes depth) false = .ok (out.over q)
      ∧ q.shown = p.shown.drop (depth + 1) := by
  obtain ⟨frame, tail, rfl, trails⟩ := frame_of_decodeFrom h hp
  obtain ⟨found, hparses, rfl, hplain, laid⟩ := decodeFrom_parses trails h hp
  have hlayers : p.layers.map (Layer.plain p.arena) = found.layers :=
    congrArg PlainPacket.layers hplain
  have hlength : found.layers.length = p.layers.length := by rw [← hlayers, List.length_map]
  have hnested : found.layers[depth + 1]? = some (l.plain p.arena) := by
    rw [← hlayers, List.getElem?_map, nested, Option.map_some]
  obtain ⟨outer, houter⟩ : ∃ outer, p.layers[depth]? = some outer := by
    have hdepth := (List.getElem?_eq_some_iff.1 nested).1
    exact ⟨_, List.getElem?_eq_getElem (Nat.lt_of_succ_lt hdepth)⟩
  have hpayload : p.payloadBytes depth
      = PlainLayer.wire (found.layers.drop (depth + 1)) found.body := by
    rw [Packet.payloadBytes_eq laid houter, hplain]
  -- fewer layers than there was room for, so all the room of a packet is as good
  have hwide : Parses r (maxDepth - 1) l.dissector l.origin (p.payloadBytes depth)
      { found with layers := found.layers.drop (depth + 1) } := by
    rw [hpayload]
    refine (hparses.nested hnested).widen ?_ (Nat.sub_le _ _)
    rw [List.length_drop, hlength]
    omega
  obtain ⟨found', hfound', hbody, hfailure, hshown⟩ := hwide.renamed none
  obtain ⟨q, hq, hqplain, hqlaid⟩ := decodeFrom_of_parses hfound' trails_nil
  rw [List.append_nil] at hq
  refine ⟨q, ?_, ?_⟩
  · rw [decodeLayer, hq, over_decoding, PlainBranch.decoding, PlainBranch.decoding, hfailure]
  · rw [shown_of_plain hqlaid hqplain, shown_of_plain laid hplain, hshown, PlainLayer.shown_drop]

/-- **Decoding is local.**  Where decoding did not run out of room, the payload
of each layer that holds another one, decoded on its own, has the same outcome
and shows the remaining layers.  And a frame has the same outcome, and shows
the same layers, with any frame check sequence behind it as without one. -/
theorem decode_local (r : Registry) :
    (∀ {d : Dissector} {origin : Option Discriminant} {data : Bytes} {hasFcs : Bool}
        {out : Decoding} {p : Packet}, r.decodeFrom d origin data hasFcs = .ok out →
      out.packet? = some p → p.layers.length < maxDepth →
      ∀ {depth : Nat} {l : Layer}, p.layers[depth + 1]? = some l →
        ∃ q, r.decodeLayer l.dissector (p.payloadBytes depth) false = .ok (out.over q)
          ∧ q.shown = p.shown.drop (depth + 1))
      ∧ ∀ {link : LinkType} {frame t : Bytes}, t.length = fcsLength →
        ∀ shown, (∃ out, r.decode link (frame ++ t) true = .ok out ∧ out.shown = shown)
          ↔ ∃ out, r.decode link frame false = .ok out ∧ out.shown = shown := by
  refine ⟨decodeLayer_payloadBytes, fun {link frame t} four shown => ?_⟩
  have hbare : frame ++ [] = frame := List.append_nil frame
  have hfcs : Trails t true := four
  constructor
  · rintro ⟨out, hout, rfl⟩
    obtain ⟨out', hout', hshown⟩ := decode_trailed hfcs trails_nil hout
    rw [hbare] at hout'
    exact ⟨out', hout', hshown⟩
  · rintro ⟨out, hout, rfl⟩
    rw [← hbare] at hout
    exact decode_trailed trails_nil hfcs hout

/-- An Ethernet frame with two bytes of padding, around an IPv4 packet that
ends inside its TCP header. -/
def paddedFrame : Bytes :=
  List.replicate 12 0 ++ [0x08, 0, 0x45, 0, 0, 23, 0, 0, 0, 0, 64, 6, 0, 0, 10, 0, 0, 1, 10, 0, 0, 2,
    1, 2, 3, 9, 9]

/-- The IPv4 packet of that frame stops in the same place on its own, and so
does the frame with four bytes behind it. -/
theorem decode_local_padded :
    ∃ p q out, standard.decodeFrom Ethernet.dissector none paddedFrame false
        = .ok (.stopped .truncated p)
      ∧ standard.decodeLayer Ipv4.dissector (p.payloadBytes 0) false = .ok (.stopped .truncated q)
      ∧ q.shown = p.shown.drop 1
      ∧ standard.decode .ethernet (paddedFrame ++ [4, 4, 4, 4]) true = .ok out
      ∧ out.error? = some .truncated := by
  obtain ⟨nested, trailed⟩ := decode_local standard
  obtain ⟨p, l, hp, few, hl, hl'⟩ : ∃ p l, standard.decodeFrom Ethernet.dissector none paddedFrame
      false = .ok (.stopped .truncated p) ∧ p.layers.length < maxDepth
        ∧ p.layers[1]? = some l ∧ l.dissector = Ipv4.dissector :=
    ⟨_, _, rfl, by decide, rfl, rfl⟩
  obtain ⟨q, hq, hshown⟩ := nested hp rfl few hl
  have hbare : ∃ out, standard.decode .ethernet paddedFrame false = .ok out
      ∧ out.shown.1 = some .truncated := ⟨_, rfl, rfl⟩
  obtain ⟨out, hout, herror⟩ := hbare
  obtain ⟨out', hout', hsame⟩ := (@trailed .ethernet paddedFrame [4, 4, 4, 4] rfl _).2 ⟨out, hout, rfl⟩
  rw [hl'] at hq
  exact ⟨p, q, out', hp, hq, hshown, hout', (congrArg Prod.fst hsame).trans herror⟩

end Registry

end PacketLayers
