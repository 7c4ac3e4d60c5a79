/-
  PacketLayers.Proofs.Corruption
  ────────────────────────────────
  **A CHECKSUM FINDS A CHANGED PAYLOAD BYTE.**

  A byte counts once or 256 times in the sum of the words, so another one
  moves the sum by less than 65535, and not by zero: the folded sum is another
  one too.  No layer outside looks at the byte, so decoding finds the same
  layers again, around a payload that no longer fits its checksum:

    • `wordSum_set_ne`, `upperLayer_set_ne` — the sums;
    • `checksumValid_of_payload` — what the check of a protocol compares;
    • `Parses.rebodied` — the same layers around other bytes;
    • `decodeFrom_corrupted` — packets.
-/
import PacketLayers.Proofs.Replacement

namespace PacketLayers

/-! ## §1. One byte of a sum. -/

namespace Checksum

/-- A byte of the high half of a word counts 256 times, one of the low half
once. -/
theorem wordSum_set {b : Bytes} {i : Nat} (inside : i < b.length) (x : UInt8) :
    ∃ weight, (weight = 1 ∨ weight = 256)
      ∧ wordSum (b.set i x) + weight * b[i].toNat = wordSum b + weight * x.toNat := by
  -- two bytes at a time, as the sum takes them
  induction b using wordSum.induct generalizing i with
  | case1 hi lo rest ih =>
    cases i with
    | zero =>
      refine ⟨256, .inr rfl, ?_⟩
      simp only [List.set_cons_zero, List.getElem_cons_zero, wordSum]
      omega
    | succ i =>
      cases i with
      | zero =>
        refine ⟨1, .inl rfl, ?_⟩
        simp only [List.set_cons_succ, List.set_cons_zero, List.getElem_cons_succ,
          List.getElem_cons_zero, wordSum]
        omega
      | succ i =>
        obtain ⟨weight, hweight, hsum⟩ := @ih i (by simpa using inside)
        refine ⟨weight, hweight, ?_⟩
        simp only [List.set_cons_succ, List.getElem_cons_succ, wordSum]
        omega
  | case2 hi =>
    obtain rfl : i = 0 := by simpa using inside
    refine ⟨256, .inr rfl, ?_⟩
    simp only [List.set_cons_zero, List.getElem_cons_zero, wordSum]
    omega
  | case3 => exact absurd inside (Nat.not_lt_zero _)

/-- **Another byte is another sum,** also after folding. -/
theorem wordSum_set_ne {b : Bytes} {i : Nat} (inside : i < b.length) {x : UInt8}
    (differs : b[i] ≠ x) : wordSum (b.set i x) % 65535 ≠ wordSum b % 65535 := by
  obtain ⟨weight, hweight, hsum⟩ := wordSum_set inside x
  have hold := b[i].toNat_lt
  have hnew := x.toNat_lt
  have hdiffers : b[i].toNat ≠ x.toNat := fun hsame => differs (UInt8.toNat_inj.1 hsame)
  rcases hweight with rfl | rfl <;> omega

/-- **A payload with one byte changed does not fit a checksum** that the
payload fits. -/
theorem upperLayer_set_ne {pseudo : Option PseudoHeader} {protocol : IpProtocol}
    {header payload : Bytes} (short : payload.length ≤ 2 ^ 49)
    (holds : upperLayer pseudo protocol header payload = 0xffff) {i : Nat}
    (inside : i < payload.length) {x : UInt8} (differs : payload[i] ≠ x) :
    upperLayer pseudo protocol header (payload.set i x) ≠ 0xffff := by
  intro again
  rw [upperLayer_eq] at holds again
  rw [List.length_set] at again
  -- all parts of the sum but the last are the same
  have hbefore := (folds_combine (above pseudo protocol (header.length + payload.length))
    (data header) (data payload)).congruent
  have hafter := (folds_combine (above pseudo protocol (header.length + payload.length))
    (data header) (data (payload.set i x))).congruent
  rw [holds] at hbefore
  rw [again] at hafter
  have hold := (folds_data short).congruent
  have hnew := (folds_data (b := payload.set i x) (by rw [List.length_set]; exact short)).congruent
  have hne := wordSum_set_ne inside differs
  omega

end Checksum

/-! ## §2. What the check of a protocol compares. -/

namespace Dissector

variable {d : Dissector} {h : Bytes} {cx : Context} {v : Bool}

/-- **The check of a protocol that takes bytes** compares the sum of header and
payload with all ones, with or without a pseudo header.  If it has an answer
for one payload, and that is not for want of a checksum, it has one for every
other. -/
theorem checksumValid_of_payload (known : d ∈ all) (takes : d.kind.TakesBytes)
    (stated : d.kind = .udp → Udp.Layout.checksum.get h ≠ .ok 0)
    (valid : d.checksumValid h cx = .ok (some v)) :
    ∃ pseudo protocol, ∀ payload, d.checksumValid h { cx with payload := payload }
      = .ok (some (Checksum.upperLayer pseudo protocol h payload == 0xffff)) := by
  obtain ⟨covered, lent, mode⟩ := cx
  cases known using Dissector.all_cases with
  | tcp =>
    obtain ⟨accepted, asked⟩ := HeaderFormat.accepts_of_guarded valid
    cases lent with
    | none => cases asked
    | some pseudo =>
      exact ⟨some pseudo, .tcp, fun payload => HeaderFormat.guarded_of_accepts accepted _ _⟩
  | udp =>
    obtain ⟨accepted, asked⟩ := HeaderFormat.accepts_of_guarded valid
    cases lent with
    | none => cases asked
    | some pseudo =>
      refine ⟨some pseudo, .udp, fun payload => ?_⟩
      have hcovers : Udp.Layout.checksum.stop ≤ h.length := (Udp.accepts_iff.1 accepted).1
      have hfield := Field.get_eq_value hcovers
      -- a checksum of zero would be none at all
      have hpresent : Udp.Layout.checksum.value h ≠ 0 := fun hzero => by
        rw [hzero] at hfield
        exact stated rfl hfield
      have hverify : Udp.verifyChecksum pseudo payload h
          = .ok (Checksum.upperLayer (some pseudo) .udp h payload == 0xffff) := by
        unfold Udp.verifyChecksum
        rw [hfield, ok_bind]
        split
        · next hzero => exact absurd hzero hpresent
        · rfl
      refine (HeaderFormat.guarded_of_accepts accepted _ _).trans ?_
      simp only [hverify, ok_bind]
      rfl
  | icmpv4 =>
    have accepted := (HeaderFormat.accepts_of_guarded valid).1
    exact ⟨none, .icmp, fun payload => HeaderFormat.guarded_of_accepts accepted _ _⟩
  | icmpv6 =>
    obtain ⟨accepted, asked⟩ := HeaderFormat.accepts_of_guarded valid
    cases lent with
    | none => cases asked
    | some pseudo =>
      exact ⟨some pseudo, .icmpv6, fun payload => HeaderFormat.guarded_of_accepts accepted _ _⟩
  | igmp =>
    have accepted := (HeaderFormat.accepts_of_guarded valid).1
    exact ⟨none, .igmp, fun payload => HeaderFormat.guarded_of_accepts accepted _ _⟩
  | _ => exact takes.elim

end Dissector

/-! ## §3. The same layers around other bytes. -/

namespace PlainLayer

/-- The bytes inside layers stand behind all headers, and do not matter to what
is in front of them or behind. -/
theorem wire_split (layers : List PlainLayer) :
    ∃ front back, front.length = (layers.map (·.header.length)).sum
      ∧ ∀ body, wire layers body = front ++ (body.getD [] ++ back) := by
  induction layers with
  | nil => exact ⟨[], [], rfl, fun body => by simp⟩
  | cons l inner ih =>
    obtain ⟨front, back, hfront, hwire⟩ := ih
    refine ⟨l.header ++ front, back ++ l.padding, ?_, fun body => ?_⟩
    · rw [List.length_append, hfront, List.map_cons, List.sum_cons]
    · rw [wire_cons, hwire]
      simp only [List.append_assoc]

end PlainLayer

namespace Registry

variable {r : Registry} {d : Dissector} {origin : Option Discriminant} {room : Nat}
  {bytes header payload padding : Bytes} {found : PlainBranch} {b : Bytes}

/-- **The rules lead to the same layers around other bytes,** as many as there
were, if these are inside a protocol that takes bytes. -/
theorem Parses.rebodied (uses : r.Uses (· ∈ Dissector.all))
    (h : Parses r room d origin bytes found) :
    d ∈ Dissector.all → ∀ {l : PlainLayer}, found.layers.getLast? = some l → l.kind.TakesBytes →
      b.length = (found.body.getD []).length →
        Parses r room d origin (PlainLayer.wire found.layers (some b))
          ⟨found.layers, rawBytes b, none⟩ := by
  -- on the rules: no layer outside looks beyond the first byte of what is inside it
  induction h with
  | @innermost room d origin bytes header payload padding failure parts _ =>
    intro root l last takes length
    obtain rfl : (⟨d, origin, header, padding⟩ : PlainLayer) = l := Option.some.inj last
    have hnonempty : header ≠ [] :=
      Dissector.nonempty_of_takesBytes root takes parts.whole_header
    rw [rawBytes_getD] at length
    rw [PlainLayer.wire_cons, PlainLayer.wire_nil]
    exact .innermost (parts.exchange root parts.whole_header (fun _ => rfl) length
      (by simp [hnonempty]))
      (.of_quiet (Dissector.quiet_of_takesBytes root takes) _ _)
  | @around room d child origin o bytes header payload padding inner parts offered stands inside
      ih =>
    intro root l last takes length
    have hchild : child ∈ Dissector.all := uses _ (dissect_mem stands) _ rfl
    have hlast : inner.layers.getLast? = some l := (inside.getLast?_around _).symm.trans last
    have hinner := ih hchild hlast takes length
    -- the payload is as long as it was, and begins with the same byte
    obtain ⟨x, hhead', hx⟩ := inside.begins uses hchild hlast takes
    have hoffered := offered.of_head? root ((hx (some b)).trans hhead'.symm)
    have hlength : (PlainLayer.wire inner.layers (some b)).length = payload.length := by
      have hsame := PlainLayer.length_wire_add inner.layers inner.body (some b)
      rw [inside.wire_eq, Option.getD_some] at hsame
      have hbody : b.length = (inner.body.getD []).length := length
      omega
    have hparts := parts.exchange root parts.whole_header (fun _ => rfl) hlength
      (by simp [hoffered.nonempty])
    rw [PlainLayer.wire_cons]
    exact .around hparts hoffered stands hinner

end Registry

/-! ## §4. Packets. -/

namespace PlainLayer

/-- What the layer at a depth is lent by the one around it. -/
def lentTo (layers : List PlainLayer) : Nat → Access (Option PseudoHeader)
  | 0 => .ok none
  | above + 1 =>
    match layers[above]? with
    | none => .ok none
    | some l => l.dissector.pseudoHeader l.header

end PlainLayer

namespace PlainPacket

/-- Whether the checksum of the innermost layer holds. -/
def innermostValid (p : PlainPacket) (l : PlainLayer) : Access (Option Bool) := do
  let pseudo ← PlainLayer.lentTo p.layers (p.layers.length - 1)
  l.dissector.checksumValid l.header ⟨p.body.getD [], pseudo, .fill⟩

/-- **The checksum of the innermost layer fails** with one byte of its payload
changed. -/
theorem innermostValid_corrupted {p : PlainPacket} {l : PlainLayer}
    (known : l.dissector ∈ Dissector.all) (takes : l.kind.TakesBytes)
    (stated : l.kind = .udp → Udp.Layout.checksum.get l.header ≠ .ok 0)
    (holds : p.innermostValid l = .ok (some true)) {payload : Bytes}
    (body : p.body.getD [] = payload) (short : payload.length ≤ 2 ^ 49) {i : Nat}
    (inside : i < payload.length) {x : UInt8} (differs : payload[i] ≠ x) :
    { p with body := some (payload.set i x) }.innermostValid l = .ok (some false) := by
  obtain ⟨lent, hlent, hvalid⟩ := bind_eq_ok.1 holds
  obtain ⟨pseudo, protocol, hsum⟩ := Dissector.checksumValid_of_payload known takes stated hvalid
  have hbefore : Checksum.upperLayer pseudo protocol l.header payload = 0xffff := by
    have hanswer := (hsum payload).symm.trans (body ▸ hvalid)
    exact beq_iff_eq.1 (Option.some.inj (Except.ok.inj hanswer))
  have hafter := Checksum.upperLayer_set_ne short hbefore inside differs
  refine bind_eq_ok.2 ⟨lent, hlent, (hsum (payload.set i x)).trans ?_⟩
  rw [beq_false_of_ne hafter]

end PlainPacket

namespace Bytes

variable {front middle back : Bytes} {i : Nat} (inside : i < middle.length)

include inside

theorem getElem?_within : (front ++ (middle ++ back))[front.length + i]? = some middle[i] := by
  rw [List.getElem?_append_right (Nat.le_add_right _ _), Nat.add_sub_cancel_left,
    List.getElem?_append_left inside, List.getElem?_eq_getElem inside]

theorem set_within (x : UInt8) : (front ++ (middle ++ back)).set (front.length + i) x
    = front ++ (middle.set i x ++ back) := by
  rw [List.set_append_right _ _ (Nat.le_add_right _ _), Nat.add_sub_cancel_left,
    List.set_append_left _ _ inside]

end Bytes

namespace Packet

variable {p : Packet} {l : Layer}

/-- The number of bytes in front of what is inside the innermost layer. -/
def headersLength (p : Packet) : Nat := (p.plain.layers.map (·.header.length)).sum

/-- What a layer is lent is a matter of the plain form. -/
theorem lent_parent? (p : Packet) (depth : Nat) :
    p.lent (p.parent? depth) = PlainLayer.lentTo p.plain.layers depth := by
  cases depth with
  | zero => rfl
  | succ above =>
    show p.lent p.layers[above]? = match (p.layers.map (Layer.plain p.arena))[above]? with
      | none => _
      | some l => l.dissector.pseudoHeader l.header
    rw [List.getElem?_map]
    cases p.layers[above]? <;> rfl

/-- The innermost layer is checked over the plain packet. -/
theorem innermost_checksumValid (laid : p.LaidOut) (innermost : p.layers.getLast? = some l) :
    p.layerChecksumValid (p.layers.length - 1) l
      = p.plain.innermostValid (l.plain p.arena) := by
  have filled : p.layers ≠ [] := List.ne_nil_of_mem (List.mem_of_getLast? innermost)
  have hlength : p.plain.layers.length = p.layers.length := List.length_map _
  unfold layerChecksumValid PlainPacket.innermostValid
  rw [lent_parent?, hlength, innermost_payloadBytes laid filled]
  rfl

end Packet

namespace Registry

/-- **A checksum finds a changed payload byte.**  Take any packet that the
library decodes from a buffer, whatever protocol or link type the buffer begins
with, whose innermost layer is of a protocol that takes bytes and has a
checksum that holds; if that is UDP, its field is not zero, which would say that
there is no checksum.  Change any byte of the payload of that layer, in the
buffer.  Then the buffer is decoded to the same layers, with the same headers,
padding and frame check sequence, around the changed payload, and the checksum
does not hold.  The words are added in 64 bits, which have room for the words
of `2 ^ 49` bytes, and so of any buffer in memory. -/
theorem decodeFrom_corrupted {d : Dissector} {origin : Option Discriminant} {data : Bytes}
    {hasFcs : Bool} {out : Decoding} {p : Packet} {l : Layer} (root : d ∈ Dissector.all)
    (h : standard.decodeFrom d origin data hasFcs = .ok out) (hp : out.packet? = some p)
    (innermost : p.layers.getLast? = some l) (takes : l.kind.TakesBytes)
    (stated : l.kind = .udp → Udp.Layout.checksum.get (p.header l) ≠ .ok 0)
    (holds : p.layerChecksumValid (p.layers.length - 1) l = .ok (some true))
    (short : data.length ≤ 2 ^ 49) {i : Nat}
    (inside : i < (p.payloadBytes (p.layers.length - 1)).length) {x : UInt8}
    (differs : (p.payloadBytes (p.layers.length - 1))[i] ≠ x) :
    data[p.headersLength + i]? = some (p.payloadBytes (p.layers.length - 1))[i]
      ∧ ∃ q l', standard.decodeFrom d origin (data.set (p.headersLength + i) x) hasFcs
          = .ok (.complete q)
        ∧ q.plain = { p.plain with body := some ((p.payloadBytes (p.layers.length - 1)).set i x) }
        ∧ q.layers.getLast? = some l'
        ∧ q.layerChecksumValid (q.layers.length - 1) l' = .ok (some false) := by
  have filled : p.layers ≠ [] := List.ne_nil_of_mem (List.mem_of_getLast? innermost)
  obtain ⟨frame, tail, rfl, trails⟩ := frame_of_decodeFrom h hp
  obtain ⟨found, hparses, _, hplain, laid⟩ := decodeFrom_parses trails h hp
  have hbody : p.payloadBytes (p.layers.length - 1) = found.body.getD [] := by
    rw [Packet.innermost_payloadBytes laid filled, hplain]
  generalize p.payloadBytes (p.layers.length - 1) = payload at *
  have hlayers : found.layers = p.plain.layers := by rw [hplain]
  have hlast : found.layers.getLast? = some (l.plain p.arena) := by
    rw [hlayers, p.getLast?_plain, innermost, Option.map_some]
  have hknown := hparses.known standard_uses root _ (List.mem_of_getLast? hlast)
  -- the payload stands in the buffer behind all headers
  obtain ⟨front, back, hfront, hwire⟩ := PlainLayer.wire_split found.layers
  have hdata : frame ++ tail = front ++ (payload ++ (back ++ tail)) := by
    rw [← hparses.wire_eq, hwire, ← hbody, List.append_assoc, List.append_assoc]
  have hposition : p.headersLength = front.length := by
    rw [Packet.headersLength, hfront, hlayers]
  have hshort : payload.length ≤ 2 ^ 49 := by
    rw [hdata] at short
    simp only [List.length_append] at short
    omega
  have hset : (frame ++ tail).set (p.headersLength + i) x
      = PlainLayer.wire found.layers (some (payload.set i x)) ++ tail := by
    rw [hdata, hposition, Bytes.set_within inside, hwire, Option.getD_some, List.append_assoc,
      List.append_assoc]
  refine ⟨?_, ?_⟩
  · rw [hdata, hposition]
    exact Bytes.getElem?_within inside
  -- the same layers are found around the changed one
  have hagain := hparses.rebodied standard_uses root hlast takes
    (b := payload.set i x) (by rw [List.length_set, hbody])
  obtain ⟨q, hdecode, hplain', laid'⟩ := decodeFrom_of_parses hagain trails
  have hchanged : q.plain = { p.plain with body := some (payload.set i x) } := by
    have hraw : rawBytes (payload.set i x) = some (payload.set i x) := by
      refine if_neg fun hnone => ?_
      rw [← List.length_eq_zero_iff, List.length_set] at hnone
      omega
    rw [hplain', hplain, hraw]
  obtain ⟨l', hl', hsame⟩ :
      ∃ l', q.layers.getLast? = some l' ∧ l'.plain q.arena = l.plain p.arena := by
    have hlast' : q.plain.layers.getLast? = some (l.plain p.arena) := by
      rw [hchanged, ← hlayers, hlast]
    rwa [q.getLast?_plain, Option.map_eq_some_iff] at hlast'
  refine ⟨q, l', hset ▸ hdecode, hchanged, hl', ?_⟩
  rw [Packet.innermost_checksumValid laid' hl', hsame, hchanged]
  rw [Packet.innermost_checksumValid laid innermost] at holds
  exact PlainPacket.innermostValid_corrupted hknown takes stated holds
    (by rw [hplain, hbody]) hshort inside differs

/-- Three bytes in UDP in IPv4, with a checksum that holds. -/
def datagram : Bytes :=
  [0x45, 0, 0, 31, 0, 0, 0, 0, 64, 17, 0, 0, 10, 0, 0, 1, 10, 0, 0, 2,
    0, 1, 0, 2, 0, 11, 0xe7, 0xd0, 1, 2, 3]

/-- Another byte in the middle of the payload. -/
theorem decodeFrom_corrupted_datagram :
    ∃ p q l', standard.decodeFrom Ipv4.dissector none datagram false = .ok (.complete p)
      ∧ p.headersLength = 28
      ∧ standard.decodeFrom Ipv4.dissector none (datagram.set 29 9) false = .ok (.complete q)
      ∧ q.plain = { p.plain with body := some [1, 9, 3] }
      ∧ q.layers.getLast? = some l'
      ∧ q.layerChecksumValid (q.layers.length - 1) l' = .ok (some false) := by
  obtain ⟨p, l, hp, hl, htakes, hpresent, hholds, hfront, hpayload⟩ :
      ∃ p l, standard.decodeFrom Ipv4.dissector none datagram false = .ok (.complete p)
        ∧ p.layers.getLast? = some l ∧ l.kind.TakesBytes
        ∧ Udp.Layout.checksum.get (p.header l) = .ok 0xe7d0
        ∧ p.layerChecksumValid (p.layers.length - 1) l = .ok (some true)
        ∧ p.headersLength = 28 ∧ p.payloadBytes (p.layers.length - 1) = [1, 2, 3] :=
    ⟨_, _, rfl, rfl, trivial, rfl, rfl, rfl, rfl⟩
  obtain ⟨_, q, l', hq, hplain, hl', hbroken⟩ :=
    decodeFrom_corrupted (by simp [Dissector.all]) hp rfl hl htakes
      (fun _ hzero => by rw [hpresent] at hzero; exact absurd hzero (by decide)) hholds
      (by decide) (i := 1) (x := 9) (by rw [hpayload]; decide) (by simp [hpayload])
  rw [hfront] at hq
  rw [hpayload] at hplain
  exact ⟨p, q, l', hp, hfront, hq, hplain, hl', hbroken⟩

end Registry

end PacketLayers
