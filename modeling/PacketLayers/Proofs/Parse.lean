/-
  PacketLayers.Proofs.Parse
  ────────────────────────────────
  **DECODING IS A MATTER OF BYTES.**

  The rules of decoding speak of spans of an arena.  Where the bytes of a span
  lie is no concern of theirs: the same rules are written here on plain bytes,
  and each of the two leads wherever the other one does.

    • `Dispatched.parses` and `Parses.dispatched` — the rules on spans and on
      bytes;
    • `decodeFrom_parses` and `decodeFrom_of_parses` — the same for whole
      buffers.
-/
import PacketLayers.Proofs.Reading

namespace PacketLayers

/-! ## §1. Layers found in some bytes. -/

/-- The layers found in some bytes, with bytes in place of regions. -/
structure PlainBranch where
  /-- The layers, outermost first. -/
  layers : List PlainLayer
  /-- The bytes inside the innermost layer. -/
  body : Option Bytes
  /-- Why a payload that should have been decoded stayed bytes. -/
  failure : Option Error

/-- A branch with the bytes of its regions. -/
def Branch.plain (arena : Bytes) (b : Branch) : PlainBranch :=
  ⟨b.layers.map (Layer.plain arena), b.body.map (Region.bytes arena), b.failure⟩

/-- What is answered for a packet made of the layers found. -/
def PlainBranch.decoding (b : PlainBranch) (p : Packet) : Decoding :=
  match b.failure with
  | none => .complete p
  | some e => .stopped e p

@[simp] theorem PlainBranch.packet?_decoding (b : PlainBranch) (p : Packet) :
    (b.decoding p).packet? = some p := by
  unfold decoding
  cases b.failure <;> rfl

@[simp] theorem PlainBranch.error?_decoding (b : PlainBranch) (p : Packet) :
    (b.decoding p).error? = b.failure := by
  unfold decoding
  cases b.failure <;> rfl

/-- Nothing was decoded only where decoding was refused. -/
theorem Decoding.eq_refused {out : Decoding} (nothing : out.packet? = none) :
    ∃ e, out = .refused e := by
  cases out with
  | complete => cases nothing
  | stopped => cases nothing
  | refused e => exact ⟨e, rfl⟩

namespace Registry

variable {r : Registry} {arena arena' : Bytes} {d child : Dissector} {origin : Option Discriminant}
  {span header payload padding header' payload' : Span} {branch : Branch} {room : Nat}

/-! ## §2. The rules on bytes. -/

/-- Bytes cut into header, payload and padding by the answers of a
dissector. -/
structure Parts (d : Dissector) (bytes header payload padding : Bytes) : Prop where
  /-- The three parts are all there is. -/
  whole : bytes = header ++ (payload ++ padding)
  header_length : d.headerLength bytes = .ok header.length
  payload_length : ∃ stated, d.payloadLength header (payload.length + padding.length) = .ok stated
    ∧ payload.length = min stated (payload.length + padding.length)

/-- A header offers the payload behind it under a name. -/
structure Offered (d : Dissector) (header payload : Bytes) (o : Discriminant) : Prop where
  nonempty : payload ≠ []
  unsealed : d.sealed header = .ok false
  named : d.next header payload = .ok (some o)

/-- A payload stays bytes directly behind its header, and so wherever the two
are. -/
def Rests (r : Registry) (room : Nat) (d : Dissector) (header payload : Bytes)
    (failure : Option Error) : Prop :=
  Stays r (header ++ payload) room d ⟨0, header.length⟩ ⟨header.length, payload.length⟩ failure

/-- A payload as the bytes inside a layer, if there are any. -/
def rawBytes (payload : Bytes) : Option Bytes := if payload = [] then none else some payload

/-- What the rules make of bytes, with room for some number of layers inside
the first. -/
inductive Parses (r : Registry) :
    (room : Nat) → Dissector → Option Discriminant → Bytes → PlainBranch → Prop where
  /-- A layer whose payload stays bytes. -/
  | innermost {room : Nat} {d : Dissector} {origin : Option Discriminant}
      {bytes header payload padding : Bytes} {failure : Option Error}
      (parts : Parts d bytes header payload padding) (rests : Rests r room d header payload failure) :
      Parses r room d origin bytes ⟨[⟨d, origin, header, padding⟩], rawBytes payload, failure⟩
  /-- A layer whose payload is another one. -/
  | around {room : Nat} {d child : Dissector} {origin : Option Discriminant} {o : Discriminant}
      {bytes header payload padding : Bytes} {inner : PlainBranch}
      (parts : Parts d bytes header payload padding) (offered : Offered d header payload o)
      (stands : r.resolve o = .dissect child) (inside : Parses r room child (some o) payload inner) :
      Parses r (room + 1) d origin bytes
        { inner with layers := ⟨d, origin, header, padding⟩ :: inner.layers }

/-- The first layer is that of the dissector that was asked. -/
theorem Parses.first {bytes : Bytes} {found : PlainBranch}
    (h : Parses r room d origin bytes found) :
    ∃ header payload padding inner, Parts d bytes header payload padding
      ∧ found.layers = ⟨d, origin, header, padding⟩ :: inner := by
  cases h with
  | innermost parts _ => exact ⟨_, _, _, _, parts, rfl⟩
  | around parts _ _ _ => exact ⟨_, _, _, _, parts, rfl⟩

theorem rawBytes_getD (payload : Bytes) : (rawBytes payload).getD [] = payload := by
  unfold rawBytes
  split
  · next hnone => exact hnone.symm
  · rfl

/-- The layers found in some bytes make up these bytes. -/
theorem Parses.wire_eq {bytes : Bytes} {found : PlainBranch}
    (h : Parses r room d origin bytes found) :
    PlainLayer.wire found.layers found.body = bytes := by
  induction h with
  | innermost parts _ =>
    rw [PlainLayer.wire_cons, PlainLayer.wire_nil, rawBytes_getD, parts.whole]
  | around parts _ _ _ ih => rw [PlainLayer.wire_cons, ih, parts.whole]

/-! ## §3. Cuts of spans and of bytes. -/

/-- A span that was cut, in bytes. -/
theorem parts_of_cut (cut : Cut arena d span header payload padding) :
    Parts d (span.bytesOf arena) (header.bytesOf arena) (payload.bytesOf arena)
      (padding.bytesOf arena) := by
  have hheader := cut.header_offset
  have hpayload := cut.body_offset
  have hpadding := cut.padding_offset
  have hstop := cut.padding_stop
  have hinside := cut.inside
  have hpaddingInside : padding.stop ≤ arena.length := by rw [hstop]; exact hinside
  -- three adjacent spans in place of one
  have hspan : span = ⟨header.offset, header.length + (payload.length + padding.length)⟩ := by
    cases span
    unfold Span.stop at *
    simp only at *
    congr 1 <;> omega
  have hrest : (⟨header.stop, payload.length + padding.length⟩ : Span)
      = ⟨payload.offset, payload.length + padding.length⟩ := by rw [hpayload]
  have hlast : (⟨payload.stop, padding.length⟩ : Span) = padding := by rw [← hpadding]
  have hpayloadLength := Span.length_bytesOf (payload_inside cut)
  have hpaddingLength := Span.length_bytesOf hpaddingInside
  obtain ⟨stated, hstated, hcut⟩ := cut.body_length
  refine ⟨?_, ?_, stated, ?_, ?_⟩
  · rw [hspan, Region.bytesOf_adjacent arena header, hrest, Region.bytesOf_adjacent arena payload,
      hlast]
  · rw [cut.header_length, Span.length_bytesOf (header_inside cut)]
  · rw [hpayloadLength, hpaddingLength]
    exact hstated
  · rw [hpayloadLength, hpaddingLength]
    exact hcut

/-- Bytes that were cut, in any span that holds them. -/
theorem cut_of_parts {bytes header payload padding : Bytes}
    (parts : Parts d bytes header payload padding) (inside : span.stop ≤ arena.length)
    (hbytes : span.bytesOf arena = bytes) :
    ∃ headerSpan payloadSpan paddingSpan,
      Cut arena d span headerSpan payloadSpan paddingSpan ∧ headerSpan.bytesOf arena = header
        ∧ payloadSpan.bytesOf arena = payload ∧ paddingSpan.bytesOf arena = padding
        ∧ paddingSpan.stop ≤ arena.length := by
  obtain ⟨stated, hstated, hcut⟩ := parts.payload_length
  have hwhole := hbytes.trans parts.whole
  -- the header is split off first, then the payload
  obtain ⟨hlength, hheader, hrest⟩ := bytesOf_split inside hwhole
  rw [List.length_append] at hlength hrest
  have hrestInside : Span.stop ⟨span.offset + header.length, payload.length + padding.length⟩
      ≤ arena.length := by
    simp only [Span.stop] at inside ⊢
    omega
  obtain ⟨_, hpayload, hpadding⟩ := bytesOf_split hrestInside hrest
  refine ⟨⟨span.offset, header.length⟩, ⟨span.offset + header.length, payload.length⟩,
    ⟨span.offset + header.length + payload.length, padding.length⟩,
    ⟨inside, rfl, rfl, rfl, ?_, ?_, stated, ?_, hcut⟩, hheader, hpayload, hpadding, ?_⟩
  · simp only [Span.stop]
    omega
  · rw [hbytes]
    exact parts.header_length
  · rw [hheader]
    exact hstated
  · simp only [Span.stop] at inside ⊢
    omega

/-! ## §4. What becomes of a payload. -/

/-- An offer is a matter of bytes. -/
theorem offered_iff {o : Discriminant} (inside : payload.stop ≤ arena.length) :
    Offered d (header.bytesOf arena) (payload.bytesOf arena) o
      ↔ Offers arena d header payload o := by
  have hempty : payload.bytesOf arena = [] ↔ payload.length = 0 := by
    rw [← List.length_eq_zero_iff, Span.length_bytesOf inside]
  exact ⟨fun h => ⟨mt hempty.2 h.nonempty, h.unsealed, h.named⟩,
    fun h => ⟨mt hempty.1 h.nonempty, h.unsealed, h.named⟩⟩

/-- So is why a header cannot be read. -/
theorem headerFails_iff {e : Error} (inside : span.stop ≤ arena.length) :
    HeaderFails arena d span e
      ↔ HeaderFails (span.bytesOf arena) d ⟨0, (span.bytesOf arena).length⟩ e := by
  have hself : Span.bytesOf ⟨0, (span.bytesOf arena).length⟩ (span.bytesOf arena)
      = span.bytesOf arena := List.take_length
  unfold HeaderFails
  rw [hself, Span.length_bytesOf inside]

section Elsewhere

variable (hheader : header'.bytesOf arena' = header.bytesOf arena)
  (hpayload : payload'.bytesOf arena' = payload.bytesOf arena)
  (hlength : payload'.length = payload.length)

include hheader hpayload hlength

theorem Offers.of_bytes {o : Discriminant} (h : Offers arena d header payload o) :
    Offers arena' d header' payload' o where
  nonempty := hlength ▸ h.nonempty
  unsealed := by rw [hheader]; exact h.unsealed
  named := by rw [hheader, hpayload]; exact h.named

/-- Whether a payload stays bytes is a matter of bytes too. -/
theorem Stays.of_bytes {failure : Option Error} (h : Stays r arena room d header payload failure) :
    Stays r arena' room d header' payload' failure := by
  have hoffers : ∀ {o : Discriminant}, Offers arena d header payload o →
      Offers arena' d header' payload' o := Offers.of_bytes hheader hpayload hlength
  cases h with
  | empty none => exact .empty (hlength.trans none)
  | closed nonempty closed => exact .closed (hlength ▸ nonempty) (by rw [hheader]; exact closed)
  | unnamed nonempty unsealed unnamed =>
    exact .unnamed (hlength ▸ nonempty) (by rw [hheader]; exact unsealed)
      (by rw [hheader, hpayload]; exact unnamed)
  | full offers full => exact .full (hoffers offers) full
  | unknown offers deep kept => exact .unknown (hoffers offers) deep kept
  | refused offers deep refused => exact .refused (hoffers offers) deep refused
  | unreadable offers deep stands fails =>
    refine .unreadable (hoffers offers) deep stands ?_
    unfold HeaderFails
    rw [hpayload, hlength]
    exact fails

end Elsewhere

/-- A header and its payload, one directly behind the other. -/
theorem bytesOf_behind (header payload : Bytes) :
    Span.bytesOf ⟨0, header.length⟩ (header ++ payload) = header
      ∧ Span.bytesOf ⟨header.length, payload.length⟩ (header ++ payload) = payload := by
  constructor
  · exact List.take_left
  · simp [Span.bytesOf]

/-- An offer of bytes is one wherever header and payload are. -/
theorem offered_behind {header payload : Bytes} {o : Discriminant} :
    Offered d header payload o
      ↔ Offers (header ++ payload) d ⟨0, header.length⟩ ⟨header.length, payload.length⟩ o := by
  obtain ⟨hfront, hback⟩ := bytesOf_behind header payload
  have hinside : Span.stop ⟨header.length, payload.length⟩ ≤ (header ++ payload).length := by
    simp [Span.stop]
  have hoffered := @offered_iff (header ++ payload) d ⟨0, header.length⟩ _ o hinside
  rwa [hfront, hback] at hoffered

theorem rests_iff {failure : Option Error} (hpayload : payload.stop ≤ arena.length) :
    Rests r room d (header.bytesOf arena) (payload.bytesOf arena) failure
      ↔ Stays r arena room d header payload failure := by
  obtain ⟨hfront, hback⟩ := bytesOf_behind (header.bytesOf arena) (payload.bytesOf arena)
  have hlength := Span.length_bytesOf hpayload
  exact ⟨fun h => Stays.of_bytes hfront.symm hback.symm hlength.symm h,
    fun h => Stays.of_bytes hfront hback hlength h⟩

/-! ## §5. The two ways to say the rules. -/

theorem plain_cut (cut : Cut arena d span header payload padding) (origin : Option Discriminant) :
    (Cut.layer d origin header padding).plain arena
      = ⟨d, origin, header.bytesOf arena, padding.bytesOf arena⟩ := by
  have hpadding : padding.stop ≤ arena.length := by rw [cut.padding_stop]; exact cut.inside
  rw [Cut.layer, Layer.plain, Region.bytes_shared (header_inside cut), Region.bytes_shared hpadding]

theorem plain_rawBody (inside : payload.stop ≤ arena.length) :
    (rawBody payload).map (Region.bytes arena) = rawBytes (payload.bytesOf arena) := by
  have hempty : payload.bytesOf arena = [] ↔ payload.length = 0 := by
    rw [← List.length_eq_zero_iff, Span.length_bytesOf inside]
  unfold rawBody rawBytes
  by_cases hnone : payload.length = 0
  · rw [if_pos hnone, if_pos (hempty.2 hnone)]
    rfl
  · rw [if_neg hnone, if_neg (mt hempty.1 hnone), Option.map_some, Region.bytes_shared inside]

/-- **What the rules find in a span** they find in its bytes. -/
theorem Dispatched.parses (h : Dispatched r arena room d origin span branch) :
    Parses r room d origin (span.bytesOf arena) (branch.plain arena) := by
  induction h with
  | @innermost room d origin span header payload padding failure cut stays =>
    have hrests := (rests_iff (payload_inside cut)).2 stays
    have hfound : Parses r room d origin (span.bytesOf arena) _ :=
      .innermost (parts_of_cut cut) hrests
    rw [← plain_cut cut origin, ← plain_rawBody (payload_inside cut)] at hfound
    exact hfound
  | @around room d child origin o span header payload padding inner cut offers stands _ ih =>
    have hoffered := (offered_iff (payload_inside cut)).2 offers
    have hfound : Parses r (room + 1) d origin (span.bytesOf arena) _ :=
      .around (parts_of_cut cut) hoffered stands ih
    rw [← plain_cut cut origin] at hfound
    exact hfound

/-- **What the rules find in bytes** they find wherever the bytes are. -/
theorem Parses.dispatched {bytes : Bytes} {found : PlainBranch}
    (h : Parses r room d origin bytes found) :
    ∀ {arena : Bytes} {span : Span}, span.stop ≤ arena.length → span.bytesOf arena = bytes →
      ∃ branch, Dispatched r arena room d origin span branch ∧ branch.plain arena = found := by
  induction h with
  | @innermost room d origin bytes header payload padding failure parts rests =>
    intro arena span inside hbytes
    obtain ⟨headerSpan, payloadSpan, paddingSpan, cut, rfl, rfl, rfl, _⟩ :=
      cut_of_parts parts inside hbytes
    refine ⟨_, .innermost cut ((rests_iff (payload_inside cut)).1 rests), ?_⟩
    rw [← plain_cut cut origin, ← plain_rawBody (payload_inside cut)]
    rfl
  | @around room d child origin o bytes header payload padding inner parts offered stands _ ih =>
    intro arena span inside hbytes
    obtain ⟨headerSpan, payloadSpan, paddingSpan, cut, rfl, rfl, rfl, _⟩ :=
      cut_of_parts parts inside hbytes
    obtain ⟨branch, found, rfl⟩ := ih (payload_inside cut) rfl
    refine ⟨_, .around cut ((offered_iff (payload_inside cut)).1 offered) stands found, ?_⟩
    rw [← plain_cut cut origin]
    rfl

/-! ## §6. Whole buffers. -/

/-- The bytes behind a frame are its check sequence, or none. -/
def Trails (tail : Bytes) (hasFcs : Bool) : Prop := tail.length = if hasFcs then fcsLength else 0

theorem trails_nil : Trails [] false := rfl

/-- The check sequence of a buffer, as bytes. -/
def trailer (tail : Bytes) (hasFcs : Bool) : Option Bytes := if hasFcs then some tail else none

/-- A frame and what trails it are cut apart. -/
theorem cutFcs_append {frame tail : Bytes} {hasFcs : Bool} (trails : Trails tail hasFcs) :
    ∃ fcs, cutFcs (frame ++ tail) hasFcs = .ok (⟨0, frame.length⟩, fcs)
      ∧ fcs.map (Region.bytes (frame ++ tail)) = trailer tail hasFcs := by
  -- no bytes behind the frame, or the four of the check sequence
  unfold Trails at trails
  cases hasFcs with
  | false =>
    obtain rfl := List.length_eq_zero_iff.1 trails
    exact ⟨none, by simp [cutFcs], rfl⟩
  | true =>
    simp only [if_true] at trails
    have hlong : ¬ (frame ++ tail).length < fcsLength := by
      rw [List.length_append]
      omega
    have hsize : (frame ++ tail).length - fcsLength = frame.length := by
      rw [List.length_append]
      omega
    refine ⟨some (.shared ⟨frame.length, fcsLength⟩), ?_, ?_⟩
    · simp only [cutFcs, if_true, if_neg hlong, hsize]
    · have hinside : Span.stop ⟨frame.length, fcsLength⟩ ≤ (frame ++ tail).length := by
        simp only [Span.stop, List.length_append]
        omega
      rw [Option.map_some, Region.bytes_shared hinside, ← trails, (bytesOf_behind frame tail).2]
      rfl

/-- A buffer that can be cut is a frame and what trails it. -/
theorem append_of_cutFcs {data : Bytes} {hasFcs : Bool} {frame : Span} {fcs : Option Region}
    (h : cutFcs data hasFcs = .ok (frame, fcs)) :
    ∃ tail, data = frame.bytesOf data ++ tail ∧ Trails tail hasFcs := by
  unfold cutFcs at h
  unfold Trails
  split at h
  · split at h
    · cases h
    · next hlong =>
      injection h with h
      injection h with hframe _
      subst hframe
      refine ⟨data.drop (data.length - fcsLength), (List.take_append_drop _ _).symm, ?_⟩
      rw [if_pos ‹_›, List.length_drop]
      omega
  · injection h with h
    injection h with hframe _
    subst hframe
    exact ⟨[], by simp [Span.bytesOf], by rw [if_neg ‹_›]; rfl⟩

/-- A buffer of which something was decoded is a frame and what trails it. -/
theorem frame_of_decodeFrom {data : Bytes} {hasFcs : Bool} {out : Decoding} {p : Packet}
    (h : r.decodeFrom d origin data hasFcs = .ok out) (hp : out.packet? = some p) :
    ∃ frame tail, data = frame ++ tail ∧ Trails tail hasFcs := by
  rcases decodeFrom_eq_ok.1 h with ⟨e, _, rfl⟩ | ⟨frame, fcs, branch, hcut, _, _⟩
  · cases hp
  · obtain ⟨tail, hdata, htail⟩ := append_of_cutFcs hcut
    exact ⟨_, tail, hdata, htail⟩

/-- **Nothing is decoded** exactly if the first header cannot be read in the
frame. -/
theorem decodeFrom_refused {frame tail : Bytes} {hasFcs : Bool} {e : Error}
    (trails : Trails tail hasFcs) :
    r.decodeFrom d origin (frame ++ tail) hasFcs = .ok (.refused e)
      ↔ HeaderFails frame d ⟨0, frame.length⟩ e := by
  obtain ⟨fcs, hcut, _⟩ := @cutFcs_append frame tail hasFcs trails
  have hinside : Span.stop ⟨0, frame.length⟩ ≤ (frame ++ tail).length := by
    simp only [Span.stop, List.length_append]
    omega
  have hbytes := @headerFails_iff (frame ++ tail) d ⟨0, frame.length⟩ e hinside
  rw [(bytesOf_behind frame tail).1] at hbytes
  rw [decodeFrom_eq_ok, ← hbytes]
  constructor
  · rintro (⟨e', herror | ⟨frame', fcs', hcut', hfails⟩, hout⟩ | ⟨_, _, branch, _, _, hout⟩)
    · cases hcut.symm.trans herror
    · obtain ⟨rfl, _⟩ := Prod.mk.inj (Except.ok.inj (hcut.symm.trans hcut'))
      injection hout with hout
      exact hout ▸ hfails
    · exact (branch.decoding_ne_refused _ _ _ hout.symm).elim
  · exact fun hfails => .inl ⟨e, .inr ⟨_, fcs, hcut, hfails⟩, rfl⟩

/-- **A packet that was decoded** has the layers that the rules find in the
frame. -/
theorem decodeFrom_parses {frame tail : Bytes} {hasFcs : Bool} {out : Decoding} {p : Packet}
    (trails : Trails tail hasFcs) (h : r.decodeFrom d origin (frame ++ tail) hasFcs = .ok out)
    (hp : out.packet? = some p) :
    ∃ found, Parses r (maxDepth - 1) d origin frame found ∧ out = found.decoding p
      ∧ p.plain = ⟨found.layers, found.body, trailer tail hasFcs⟩ ∧ p.LaidOut := by
  have laid : p.LaidOut := (tiles_of_decodeFrom h hp).2.2.laidOut (Nat.le_refl _)
  obtain ⟨fcs, hcut, hfcs⟩ := @cutFcs_append frame tail hasFcs trails
  rcases decodeFrom_eq_ok.1 h with ⟨e, _, rfl⟩ | ⟨span, fcs', branch, hcut', found, rfl⟩
  · cases hp
  · obtain ⟨rfl, rfl⟩ := Prod.mk.inj (Except.ok.inj (hcut.symm.trans hcut'))
    rw [Branch.packet?_decoding] at hp
    injection hp with hp
    subst hp
    have hparses := found.parses
    rw [(bytesOf_behind frame tail).1] at hparses
    refine ⟨_, hparses, ?_, ?_, laid⟩
    · unfold Branch.decoding PlainBranch.decoding
      show _ = match branch.failure with | none => _ | some e => _
      cases branch.failure <;> rfl
    · rw [Packet.plain, hfcs]
      rfl

/-- **A frame in which the rules find layers**, and what trails it, is decoded
into them. -/
theorem decodeFrom_of_parses {frame tail : Bytes} {hasFcs : Bool} {found : PlainBranch}
    (h : Parses r (maxDepth - 1) d origin frame found) (trails : Trails tail hasFcs) :
    ∃ p, r.decodeFrom d origin (frame ++ tail) hasFcs = .ok (found.decoding p)
      ∧ p.plain = ⟨found.layers, found.body, trailer tail hasFcs⟩ ∧ p.LaidOut := by
  obtain ⟨fcs, hcut, hfcs⟩ := @cutFcs_append frame tail hasFcs trails
  have hinside : Span.stop ⟨0, frame.length⟩ ≤ (frame ++ tail).length := by
    simp only [Span.stop, List.length_append]
    omega
  obtain ⟨branch, hbranch, rfl⟩ := h.dispatched hinside (bytesOf_behind frame tail).1
  have hdecode := decodeFrom_eq_ok.2 (.inr ⟨_, fcs, branch, hcut, hbranch, rfl⟩)
  have hpacket := branch.packet?_decoding (frame ++ tail) fcs
  refine ⟨⟨frame ++ tail, branch.layers, branch.body, fcs, false⟩, ?_, ?_, ?_⟩
  · rw [hdecode]
    unfold Branch.decoding PlainBranch.decoding
    show _ = Except.ok (match branch.failure with | none => _ | some e => _)
    cases branch.failure <;> rfl
  · rw [Packet.plain, hfcs]
    rfl
  · exact (tiles_of_decodeFrom hdecode hpacket).2.2.laidOut (Nat.le_refl _)

end Registry

end PacketLayers
