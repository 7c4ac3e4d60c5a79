/-
  PacketLayers.Proofs.Lengths
  ────────────────────────────────
  **LENGTH FIELDS SAY WHAT IS THERE.**

  Whatever a header said before, the pass over the layers first gives it the
  length that its own fields ask for, and then writes into it how long header
  and payload are.  IPv4, IPv6 and TCP do so for every header of the length
  they asked for.  UDP looks at the old length first: one that contradicts
  itself makes it leave the header alone, and stays.

    • `renewed_of_recomputeAll` — what the pass makes of each layer;
    • `lengths_of_renewed`, for each protocol — what its fields say then;
    • `Reachable.lengths_stated` — the two, for every reachable packet.
-/
import PacketLayers.Proofs.Idempotence
import PacketLayers.Proofs.Legible.Network
import PacketLayers.Proofs.Reading

namespace PacketLayers

/-! ## §1. The pass, seen from one layer. -/

namespace PlainLayer

/-- What the pass makes of a layer around a payload: its header announces the
layer inside, takes the length that its fields ask for, and is brought up to
date. -/
structure Renewed (mode : ChecksumMode) (payload : Bytes) (l l' : PlainLayer) : Prop where
  shape : l'.shape = l.shape
  padding : l'.padding = l.padding
  header : ∃ inside announced fitted pseudo,
    l.dissector.announce l.header inside = .ok announced
      ∧ l.dissector.fit announced = .ok fitted
      ∧ l.dissector.refresh fitted ⟨payload, pseudo, mode⟩ = .ok l'.header

variable {mode : ChecksumMode} {body : Option Bytes}

/-- **The pass renews every layer** around what it has made of the layers
inside. -/
theorem renewed_of_recomputeAll {layers : List PlainLayer} :
    ∀ {pseudo : Option PseudoHeader} {out : List PlainLayer},
      recomputeAll mode body pseudo layers = .ok out →
      ∀ {depth : Nat} {l l' : PlainLayer}, layers[depth]? = some l → out[depth]? = some l' →
        Renewed mode (wire (out.drop (depth + 1)) body) l l' := by
  induction layers with
  | nil => intro _ _ _ _ _ _ before _; cases before
  | cons first inner ih =>
    intro pseudo out ok depth l l' before after
    obtain ⟨_, _, _, inner', h₃, hannounce, hfit, _, hinner, hrefresh, rfl⟩ :=
      recomputeAll_cons_eq_ok ok
    cases depth with
    | zero =>
      obtain rfl : first = l := Option.some.inj before
      obtain rfl : { first with header := h₃ } = l' := Option.some.inj after
      exact ⟨rfl, rfl, _, _, _, _, hannounce, hfit, hrefresh⟩
    | succ depth => exact ih hinner before after

end PlainLayer

namespace Packet

variable {p q : Packet} {mode : ChecksumMode}

/-- The payload of a layer, by depth, is what the plain form has inside. -/
theorem payloadBytes_eq (laid : p.LaidOut) {depth : Nat} {l : Layer}
    (found : p.layers[depth]? = some l) :
    p.payloadBytes depth = PlainLayer.wire (p.plain.layers.drop (depth + 1)) p.plain.body := by
  obtain ⟨inside, rfl⟩ := List.getElem?_eq_some_iff.1 found
  have hsplit : p.layers = p.layers.take depth ++ p.layers[depth] :: p.layers.drop (depth + 1) := by
    rw [List.getElem_cons_drop, List.take_append_drop]
  have hdepth : (p.layers.take depth).length = depth := List.length_take_of_le (Nat.le_of_lt inside)
  have hpayload := payloadBytes_of_append laid hsplit
  rw [hdepth, List.map_drop] at hpayload
  exact hpayload

/-- Every layer of a packet that was brought up to date was renewed. -/
theorem renewed_of_recompute (laid : p.LaidOut) (ok : p.recompute mode = .ok q) {depth : Nat}
    {l l' : Layer} (before : p.layers[depth]? = some l) (after : q.layers[depth]? = some l') :
    PlainLayer.Renewed mode (q.payloadBytes depth) (l.plain p.arena) (l'.plain q.arena) := by
  have hagrees := recompute_agrees laid mode
  rw [ok] at hagrees
  obtain ⟨_, _, fresh⟩ := hagrees.of_ok_left
  obtain ⟨hall, hbody⟩ := recomputeAll_of_recompute laid ok
  rw [payloadBytes_eq fresh.laidOut after, hbody]
  exact PlainLayer.renewed_of_recomputeAll hall (getElem?_plain before) (getElem?_plain after)

end Packet

/-! ## §2. Fields that state a length. -/

/-- A field of a header can be read, and states a number of bytes. -/
def Field.States {α : Type} [Coded α] (f : Field α) (h : Bytes) (n : Nat) : Prop :=
  ∃ v, f.get h = .ok v ∧ Coded.toNat v = n

/-- A length as sixteen bits state it: one that they have no room for is
stated as zero. -/
def stated (n : Nat) : Nat := if 65535 < n then 0 else n

theorem toNat_stated (n : Nat) :
    (if 65535 < n then 0 else UInt16.ofNat n).toNat = stated n := by
  unfold stated
  split
  · rfl
  · rw [UInt16.toNat_ofNat']
    omega

theorem Field.states_of_value {α : Type} [Coded α] {f : Field α} {h : Bytes} {n : Nat}
    (covers : f.stop ≤ h.length) (value : Coded.toNat (f.value h) = n) : f.States h n :=
  ⟨_, Field.get_eq_value covers, value⟩

namespace Dissector

variable {d : Dissector} {h h' : Bytes}

/-- A header has the length that was asked for. -/
theorem length_of_fit {n : Nat} (required : d.requiredLength h = .ok (some n))
    (ok : d.fit h = .ok h') : h'.length = n := by
  rw [fit, required, ok_bind] at ok
  injection ok with ok
  rw [← ok, Bytes.length_resize]

end Dissector

/-! ## §3. What each protocol states. -/

namespace Ipv4

/-- The length that is asked for is a number of words that four bits can
count. -/
theorem requiredLength_shape (h : Bytes) :
    ∃ n, 5 ≤ n ∧ n ≤ 15 ∧ requiredLength h = n * 4 := by
  cases h with
  | nil => exact ⟨5, Nat.le_refl _, by decide, rfl⟩
  | cons x rest =>
    have hlow : (x &&& 0x0f).toNat ≤ 15 := by
      rw [UInt8.toNat_and]
      exact Nat.and_le_right
    exact ⟨_, Nat.le_max_right _ _, Nat.max_le.2 ⟨hlow, by decide⟩, rfl⟩

/-- **Both lengths of an IPv4 header** are those of the header and of the
packet. -/
theorem lengths_of_renewed {mode : ChecksumMode} {payload : Bytes} {l l' : PlainLayer}
    (renewed : l.Renewed mode payload l') (ipv4 : l.dissector = dissector) :
    Layout.headerLength.States l'.header l'.header.length
      ∧ Layout.totalLength.States l'.header (stated (l'.header.length + payload.length)) := by
  obtain ⟨_, announced, fitted, pseudo, _, hfit, hrefresh⟩ := renewed.header
  rw [ipv4] at hfit hrefresh
  obtain ⟨n, hleast, hmost, hasks⟩ := requiredLength_shape announced
  have hlength : fitted.length = n * 4 := by
    rw [← hasks]
    exact Dissector.length_of_fit rfl hfit
  have long : 20 ≤ fitted.length := by omega
  rw [Dissector.refresh_eq_ok lawful] at hrefresh
  rcases derives.cases hrefresh with ⟨_, hwork⟩ | ⟨short, _⟩
  · have hlength' := length_work long ⟨payload, pseudo, mode⟩
    rw [hwork, hlength']
    refine ⟨Field.states_of_value (covers_headerLength (hlength'.symm ▸ long)) ?_,
      Field.states_of_value (hlength'.symm ▸ Nat.le_trans (by decide) long) ?_⟩
    · -- a number of words, and few enough for four bits
      show (Layout.headerLength.value _).toNat = _
      rw [toNat_headerLength_work long]
      omega
    · rw [value_totalLength_work long]
      exact toNat_stated _
  · exact absurd long short

end Ipv4

namespace Ipv6

/-- **The payload length of an IPv6 header** is that of the payload. -/
theorem lengths_of_renewed {mode : ChecksumMode} {payload : Bytes} {l l' : PlainLayer}
    (renewed : l.Renewed mode payload l') (ipv6 : l.dissector = dissector) :
    Layout.payloadLength.States l'.header (stated payload.length) := by
  obtain ⟨_, announced, fitted, pseudo, _, hfit, hrefresh⟩ := renewed.header
  rw [ipv6] at hfit hrefresh
  have hlength : fitted.length = 40 := Dissector.length_of_fit rfl hfit
  have long : 40 ≤ fitted.length := by omega
  rw [Dissector.refresh_eq_ok lawful] at hrefresh
  rcases derives.cases hrefresh with ⟨_, hwork⟩ | ⟨short, _⟩
  · have hlength' := length_work long ⟨payload, pseudo, mode⟩
    rw [hwork]
    refine Field.states_of_value (covers_payloadLength (hlength'.symm ▸ long)) ?_
    have hvalue : Layout.payloadLength.value (work ⟨payload, pseudo, mode⟩ fitted)
        = lengthOf payload := Field.value_put_word Field.fits_word (covers_payloadLength long) _
    rw [hvalue]
    exact toNat_stated _
  · exact absurd long short

end Ipv6

namespace Tcp

/-- The length that is asked for is a number of words that four bits can
count. -/
theorem requiredLength_shape (h : Bytes) :
    ∃ n, 5 ≤ n ∧ n ≤ 15 ∧ requiredLength h = .ok (some (n * 4)) := by
  by_cases long : 20 ≤ h.length
  · obtain ⟨n, hn, hwords⟩ := Field.toNat_value_words_shape h 12 2 12
    refine ⟨max n 5, Nat.le_max_right _ _, by omega, ?_⟩
    rw [requiredLength_eq long, headerLength_eq, hwords]
    congr 2
    omega
  · exact ⟨5, Nat.le_refl _, by decide, if_pos (Nat.lt_of_not_le long)⟩

/-- **The header length of a TCP header** is that of the header. -/
theorem lengths_of_renewed {mode : ChecksumMode} {payload : Bytes} {l l' : PlainLayer}
    (renewed : l.Renewed mode payload l') (tcp : l.dissector = dissector) :
    Layout.headerLength.States l'.header l'.header.length := by
  obtain ⟨_, announced, fitted, pseudo, _, hfit, hrefresh⟩ := renewed.header
  rw [tcp] at hfit hrefresh
  obtain ⟨n, hleast, hmost, hasks⟩ := requiredLength_shape announced
  have hlength : fitted.length = n * 4 := Dissector.length_of_fit hasks hfit
  have long : 20 ≤ fitted.length := by omega
  rw [Dissector.refresh_eq_ok lawful] at hrefresh
  rcases derives.cases hrefresh with ⟨_, hwork⟩ | ⟨short, _⟩
  · have hlength' := length_work long ⟨payload, pseudo, mode⟩
    rw [hwork, hlength']
    refine Field.states_of_value (covers_headerLength (hlength'.symm ▸ long)) ?_
    show (Layout.headerLength.value _).toNat = _
    rw [toNat_headerLength_work long]
    omega
  · exact absurd long short

end Tcp

namespace Udp

/-- The length that a header states, cut or filled up to eight bytes. -/
def statedLength (h : Bytes) : Nat := (Layout.length.value (h.resize headerLength)).toNat

/-- The length field contradicts itself: it does not even cover the header,
and does not stand for a jumbogram. -/
def Contradicts (h : Bytes) : Prop := statedLength h ≠ 0 ∧ statedLength h < headerLength

instance (h : Bytes) : Decidable (Contradicts h) := inferInstanceAs (Decidable (_ ∧ _))

/-- A header that says nothing about its payload is not changed by
announcing. -/
theorem announce_eq {h h' : Bytes} {inside : Option PlainLayer}
    (ok : dissector.announce h inside = .ok h') : h' = h := by
  rcases Dissector.announce_cases lawful ok with ⟨_, hsame⟩ | ⟨_, o, _, _, ⟨_, hsame⟩ | ⟨_, hset⟩⟩
  · exact hsame
  · exact hsame
  · rw [quiet.setNext] at hset
    injection hset with hset
    exact hset.symm

/-- **The length of a UDP header** is that of header and payload, unless what
it stated before contradicts itself: then it stays. -/
theorem lengths_of_renewed {mode : ChecksumMode} {payload : Bytes} {l l' : PlainLayer}
    (renewed : l.Renewed mode payload l') (udp : l.dissector = dissector) :
    Layout.length.States l'.header
      (if Contradicts l.header then statedLength l.header
        else stated (headerLength + payload.length)) := by
  obtain ⟨_, announced, fitted, pseudo, hannounce, hfit, hrefresh⟩ := renewed.header
  rw [udp] at hannounce hfit hrefresh
  obtain rfl := announce_eq hannounce
  have hfitted : fitted = l.header.resize headerLength := by
    injection hfit with hfit
    exact hfit.symm
  have hlength : fitted.length = 8 := by rw [hfitted, Bytes.length_resize]; rfl
  have long : 8 ≤ fitted.length := by omega
  have hzero : Layout.length.value fitted = 0 ↔ (Layout.length.value fitted).toNat = 0 :=
    UInt16.toNat_inj.symm
  -- a header is refused exactly if its length contradicts the header itself
  have haccepts : format.accepts fitted = true ↔ ¬ Contradicts l.header := by
    have hheader : headerLength = 8 := rfl
    rw [accepts_iff, Contradicts, statedLength, ← hfitted, hheader, hzero]
    omega
  rw [Dissector.refresh_eq_ok lawful] at hrefresh
  rcases derives.cases hrefresh with ⟨accepted, hwork⟩ | ⟨refused, hsame⟩
  · rw [if_neg (haccepts.1 accepted), hwork]
    refine Field.states_of_value ?_ ?_
    · rw [length_work long]
      exact covers_length long
    · rw [value_length_work long]
      exact toNat_stated _
  · have hstays : Contradicts l.header := by
      by_contra sound
      exact refused (haccepts.2 sound)
    rw [if_pos hstays, hsame]
    refine Field.states_of_value (covers_length long) ?_
    rw [hfitted]
    rfl

end Udp

/-! ## §4. Packets. -/

/-- The length fields of a header with a payload, given what the header was
before, say what is there. -/
structure Dissector.Lengths (d : Dissector) (old h payload : Bytes) : Prop where
  ipv4 : d = Ipv4.dissector →
    Ipv4.Layout.headerLength.States h h.length
      ∧ Ipv4.Layout.totalLength.States h (stated (h.length + payload.length))
  ipv6 : d = Ipv6.dissector → Ipv6.Layout.payloadLength.States h (stated payload.length)
  tcp : d = Tcp.dissector → Tcp.Layout.headerLength.States h h.length
  /-- A length that contradicted itself is still there. -/
  udp : d = Udp.dissector →
    Udp.Layout.length.States h
      (if Udp.Contradicts old then Udp.statedLength old
        else stated (Udp.headerLength + payload.length))

/-- **Length fields say what is there.**  Of every packet that can come about
from dissectors that keep their promises, bringing it up to date succeeds in
either mode, and then every IPv4 header states its own length and that of
header and payload, every IPv6 header the length of its payload, every TCP
header its own length, and every UDP header the length of header and payload,
with zero for a length of more than sixteen bits; except that a UDP header
whose length was neither zero nor enough to cover the header keeps that
length. -/
theorem Reachable.lengths_stated {known : Dissector → Prop} {p : Packet} (h : Reachable known p)
    (total : ∀ d, known d → d.Total) (mode : ChecksumMode) :
    ∃ q, p.recompute mode = .ok q ∧ q.shapes = p.shapes
      ∧ ∀ {depth : Nat} {l l' : Layer}, p.layers[depth]? = some l → q.layers[depth]? = some l' →
        l'.dissector.Lengths (p.header l) (q.header l') (q.payloadBytes depth) := by
  have hcoherent := h.coherent
  obtain ⟨q, hq⟩ := Packet.recompute_succeeds hcoherent.laidOut
    (fun l hl => total _ (hcoherent.linked.known l.shape (List.mem_map_of_mem hl))) mode
  have hall := (Packet.recomputeAll_of_recompute hcoherent.laidOut hq).1
  refine ⟨q, hq, ?_, fun {depth l l'} before after => ?_⟩
  · rw [Packet.shapes_plain, Packet.shapes_plain]
    exact PlainLayer.recomputeAll_shapes hall
  · have renewed := Packet.renewed_of_recompute hcoherent.laidOut hq before after
    have hsame : l'.dissector = l.dissector := congrArg Prod.fst renewed.shape
    rw [hsame]
    exact ⟨Ipv4.lengths_of_renewed renewed, Ipv6.lengths_of_renewed renewed,
      Tcp.lengths_of_renewed renewed, Udp.lengths_of_renewed renewed⟩

/-- An IPv4 header of one byte that asks for six words gets them, and then
states as many. -/
theorem Reachable.lengths_stated_short :
    Reachable (· ∈ Dissector.all) (Packet.ofHeader Ipv4.dissector [0x46])
      ∧ ∃ q l, (Packet.ofHeader Ipv4.dissector [0x46]).recompute .fill = .ok q
        ∧ q.layers[0]? = some l ∧ Ipv4.Layout.headerLength.States (q.header l) 24
        ∧ Ipv4.Layout.totalLength.States (q.header l) 24 := by
  have hreach : Reachable (· ∈ Dissector.all) (Packet.ofHeader Ipv4.dissector [0x46]) :=
    @Reachable.ofHeader (· ∈ Dissector.all) _ (by simp [Dissector.all]) _
  obtain ⟨q, hq, _, hlengths⟩ := Reachable.lengths_stated hreach
    (fun _ hd => (Dissector.lawful_of_mem_all hd).total) .fill
  obtain rfl := Except.ok.inj (hq.symm.trans rfl)
  exact ⟨hreach, _, _, hq, rfl, (@hlengths 0 _ _ rfl rfl).ipv4 rfl⟩

/-- A UDP header that states a length of one byte keeps it, with no payload
and eight bytes of its own. -/
theorem Reachable.lengths_stated_contradicted :
    Reachable (· ∈ Dissector.all) (Packet.ofHeader Udp.dissector [0, 0, 0, 0, 0, 1, 0, 0])
      ∧ ∃ q l, (Packet.ofHeader Udp.dissector [0, 0, 0, 0, 0, 1, 0, 0]).recompute .fill = .ok q
        ∧ q.layers[0]? = some l ∧ l.dissector = Udp.dissector ∧ q.payloadBytes 0 = []
        ∧ Udp.Layout.length.get (q.header l) = .ok 1 :=
  ⟨@Reachable.ofHeader (· ∈ Dissector.all) _ (by simp [Dissector.all]) _,
    _, _, rfl, rfl, rfl, rfl, rfl⟩

end PacketLayers
