/-
  PacketLayers.Proofs.Announcement
  ────────────────────────────────
  **WHAT IS PUT INTO A LAYER IS ANNOUNCED BY IT.**

  A layer that gets a payload of other layers writes into its header what they
  are, and the header is what decoding goes by.  Whether the layer takes the
  payload is decided by its protocol alone; the header may still have no place
  for the name, and then takes the payload without a word.  Of the protocols
  here that happens to one, LLC without SNAP:

    • `not_leadsTo` — what a protocol cannot name, none of its headers leads to;
    • `leadsTo_of_leads` — a whole header leads to what it was told;
    • `Told.announced` — the pass keeps that, whatever else it changes;
    • `Reachable.setPayload_announces` — the three, for any layer of any packet.
-/
import PacketLayers.Proofs.Assembly
import PacketLayers.Proofs.Redecode
import PacketLayers.Proofs.Trimming

namespace PacketLayers

/-! ## §1. What a protocol can name. -/

/-- The header leads to a payload that the library decodes with a dissector. -/
def Dissector.LeadsTo (d : Dissector) (h payload : Bytes) (child : Dissector) : Prop :=
  ∃ o, d.next h payload = .ok (some o) ∧ Registry.standard.resolve o = .dissect child

/-- The number space in which a protocol names its payload. -/
def LayerKind.namesIn : LayerKind → Option NumberSpace
  | ethernet | vlan | llc | gre => some .etherType
  | ipv4 | ipv6 => some .ip
  | loopback => some .loopbackFamily
  | rawIp => some .ipVersion
  | wireless => some .wireless
  | _ => none

theorem Ethernet.space_of_next {h : Bytes} {o : Discriminant} (named : next h = .ok (some o)) :
    o.space = .etherType := by
  rw [next_eq (HeaderFormat.accepts_of_guarded named).1] at named
  split at named
  · cases named
  · cases named
    rfl

theorem Vlan.space_of_next {h : Bytes} {o : Discriminant} (named : next h = .ok (some o)) :
    o.space = .etherType := by
  rw [next_eq (HeaderFormat.accepts_of_guarded named).1] at named
  cases named
  rfl

theorem Llc.space_of_next {h : Bytes} {o : Discriminant} (named : next h = .ok (some o)) :
    o.space = .etherType := by
  obtain ⟨t, _, ht⟩ := bind_eq_ok.1 (HeaderFormat.accepts_of_guarded named).2
  cases t with
  | none => cases ht
  | some t =>
    cases ht
    rfl

theorem Gre.space_of_next {h : Bytes} {o : Discriminant} (named : next h = .ok (some o)) :
    o.space = .etherType := by
  rw [next_eq (HeaderFormat.accepts_of_guarded named).1] at named
  cases named
  rfl

theorem Ipv4.space_of_next {h : Bytes} {o : Discriminant} (named : next h = .ok (some o)) :
    o.space = .ip := by
  rw [next_eq (HeaderFormat.accepts_of_guarded named).1] at named
  cases named
  rfl

theorem Ipv6.space_of_next {h : Bytes} {o : Discriminant} (named : next h = .ok (some o)) :
    o.space = .ip := by
  rw [next_eq (accepts_iff.1 (HeaderFormat.accepts_of_guarded named).1)] at named
  cases named
  rfl

theorem Loopback.space_of_next {h : Bytes} {o : Discriminant} (named : next h = some o) :
    o.space = .loopbackFamily := by
  unfold next at named
  split at named
  · cases named
    rfl
  · cases named

theorem RawIp.space_of_next {payload : Bytes} {o : Discriminant} (named : next payload = some o) :
    o.space = .ipVersion := by
  cases payload with
  | nil => cases named
  | cons x rest =>
    cases named
    rfl

theorem Wireless.space_of_next {h : Bytes} {o : Discriminant} (named : next h = .ok (some o)) :
    o.space = .wireless := by
  obtain ⟨type, _, named⟩ := bind_eq_ok.1 (HeaderFormat.accepts_of_guarded named).2
  obtain ⟨subtype, _, named⟩ := bind_eq_ok.1 named
  split at named
  · obtain ⟨value, _, named⟩ := bind_eq_ok.1 named
    cases named
    rfl
  · cases named

namespace Dissector

variable {d child : Dissector} {h payload : Bytes} {o : Discriminant}

/-- Every header names its payload in the number space of its protocol. -/
theorem space_of_next (known : d ∈ all) (named : d.next h payload = .ok (some o)) :
    d.kind.namesIn = some o.space := by
  cases known using Dissector.all_cases with
  | ethernet => exact congrArg some (Ethernet.space_of_next named).symm
  | vlan => exact congrArg some (Vlan.space_of_next named).symm
  | arp | tcp | udp | icmpv4 | icmpv6 | igmp => cases named
  | ipv4 => exact congrArg some (Ipv4.space_of_next named).symm
  | ipv6 => exact congrArg some (Ipv6.space_of_next named).symm
  | gre => exact congrArg some (Gre.space_of_next named).symm
  | loopback => exact congrArg some (Loopback.space_of_next (Except.ok.inj named)).symm
  | rawIp => exact congrArg some (RawIp.space_of_next (Except.ok.inj named)).symm
  | wireless => exact congrArg some (Wireless.space_of_next named).symm
  | llc => exact congrArg some (Llc.space_of_next named).symm

/-- A protocol can announce every protocol that its number space has a name
for. -/
theorem announces_space : ∀ d ∈ all, ∀ entry ∈ Registry.standardDissectors,
    d.kind.namesIn = some entry.1.space → (d.discriminantOf entry.2.kind).isSome = true := by
  decide

/-- **What a protocol cannot announce,** none of its headers leads to. -/
theorem not_leadsTo (known : d ∈ all) (unnamed : d.discriminantOf child.kind = none) :
    ¬ d.LeadsTo h payload child := by
  rintro ⟨o, hnext, hstands⟩
  have hentry := Registry.mem_standardDissectors (Registry.dissect_mem hstands)
  have hsome := announces_space d known _ hentry (space_of_next known hnext)
  rw [unnamed] at hsome
  cases hsome

end Dissector

/-! ## §2. What a header was told. -/

/-- The header has no place for a name: it is one of LLC, and no SNAP
header. -/
def Dissector.Nameless (d : Dissector) (h : Bytes) : Prop :=
  d.kind = .llc ∧ Llc.isSnap h = .ok false

/-- The first four bits, where IP packets carry their version. -/
def Bytes.version? : Bytes → Option UInt8
  | [] => none
  | x :: _ => some (x >>> 4)

/-- An IP header carries the version of its protocol. -/
def LayerKind.CarriesVersion (kind : LayerKind) (h : Bytes) : Prop :=
  match kind with
  | .ipv4 => h.version? = some 4
  | .ipv6 => h.version? = some 6
  | _ => True

theorem Bytes.version?_of_head? {h h' : Bytes} (same : h'.head? = h.head?) :
    h'.version? = h.version? := by
  cases h with
  | nil => rw [List.head?_eq_none_iff.1 same]
  | cons x rest =>
    obtain ⟨rest', rfl⟩ := List.head?_eq_some_iff.1 same
    rfl

namespace Llc

theorem nameless_iff {h : Bytes} (long : 3 ≤ h.length) :
    dissector.Nameless h ↔ snap h = false := by
  rw [Dissector.Nameless, isSnap_eq long]
  constructor
  · rintro ⟨_, plain⟩
    exact Except.ok.inj plain
  · intro plain
    exact ⟨rfl, congrArg Except.ok plain⟩

theorem snap_resize {h : Bytes} {n : Nat} (long : 3 ≤ h.length) (room : 3 ≤ n) :
    snap (h.resize n) = snap h := by
  have hstop : ∀ {f : Field UInt8}, f.stop ≤ 3 → f.value (h.resize n) = f.value h := fun hf =>
    Field.value_resize (Nat.le_trans hf long) (Nat.le_trans hf room)
  rw [snap, snap, hstop (by decide), hstop (by decide), hstop (by decide)]

/-- The bytes that make a SNAP header one are kept by the pass. -/
theorem snap_told {h h' h'' : Bytes} {o : Discriminant} (long : 3 ≤ h.length)
    (told : dissector.setNext h o = .ok h') (fitted : dissector.fit h' = .ok h'')
    (whole : dissector.Whole h'') : snap h'' = snap h := by
  obtain ⟨_, hset, hlength⟩ := total.setNext h o
  obtain rfl : h' = _ := Except.ok.inj (told.symm.trans hset)
  have hsnap : snap h' = snap h := names.preserves (P := fun b => snap b = snap h)
    (fun t guard same => (snap_put guard.1 t).trans same) rfl told
  have hfit : h'.resize ((headerLength? h').getD snapLength) = h'' := Except.ok.inj fitted
  have hroom := three_le_of_whole whole
  rw [← hfit, Bytes.length_resize] at hroom
  rw [← hfit, snap_resize (by omega) hroom, hsnap]

end Llc

/-- Raw IP is led by the version that the payload carries. -/
theorem RawIp.leadsTo {h payload : Bytes} {child : Dissector} {o : Discriminant}
    (known : child ∈ Dissector.all) (named : dissector.discriminantOf child.kind = some o)
    (version : child.kind.CarriesVersion payload) : dissector.LeadsTo h payload child := by
  have hfirst : ∀ v : UInt8, payload.version? = some v →
      dissector.next h payload = .ok (some (.ipVersion v)) := by
    intro v hv
    cases payload with
    | nil => cases hv
    | cons x rest =>
      cases hv
      rfl
  -- only the two versions of IP are announced
  cases known using Dissector.all_cases with
  | ipv4 => cases named; exact ⟨_, hfirst 4 version, rfl⟩
  | ipv6 => cases named; exact ⟨_, hfirst 6 version, rfl⟩
  | _ => cases named

namespace Dissector

variable {d child : Dissector} {h h' payload : Bytes} {o : Discriminant}

/-- **A whole header leads to what it was told is inside,** if it has a place
for the name. -/
theorem leadsTo_of_leads (known : d ∈ all) (inside : child ∈ all)
    (named : d.discriminantOf child.kind = some o) (whole : d.Whole h) (leads : d.Leads h payload o)
    (version : child.kind.CarriesVersion payload) (speaks : ¬ d.Nameless h) :
    d.LeadsTo h payload child := by
  cases known using Dissector.all_cases with
  | ethernet => exact Ethernet.legible.states whole trivial inside named leads
  | vlan => exact Vlan.legible.states whole trivial inside named leads
  | arp | tcp | udp | icmpv4 | icmpv6 | igmp => cases named
  | ipv4 => exact Ipv4.states whole inside named leads
  | ipv6 => exact Ipv6.legible.states whole trivial inside named leads
  | gre => exact Gre.legible.states whole trivial inside named leads
  | loopback => exact Loopback.legible.states whole trivial inside named leads
  | rawIp => exact RawIp.leadsTo inside named version
  | wireless => exact Wireless.states whole inside named leads
  | llc =>
    have hsnap : Llc.snap h = true := by
      rw [Llc.nameless_iff (Llc.three_le_of_whole whole), Bool.not_eq_false] at speaks
      exact speaks
    exact Llc.legible.states whole hsnap inside named leads

theorem llc_of_kind (known : d ∈ all) (kind : d.kind = .llc) : d = Llc.dissector := by
  cases known using Dissector.all_cases with
  | llc => rfl
  | _ => cases kind

/-- A header without a place for names says nothing. -/
theorem next_of_nameless (known : d ∈ all) (whole : d.Whole h) (nameless : d.Nameless h) :
    d.next h payload = .ok none := by
  obtain rfl := llc_of_kind known nameless.1
  show Llc.next h = _
  unfold Llc.next Llc.etherType? Llc.snapField?
  rw [HeaderFormat.guarded_of_accepts (Llc.sized.accepts_of_whole whole), nameless.2]
  rfl

/-- The pass makes no place for a name, and takes none away. -/
theorem nameless_of_pass {h₁ h₂ : Bytes} {cx : Context} (known : d ∈ all) (accepts : d.Accepts h)
    (told : d.setNext h o = .ok h₁) (fitted : d.fit h₁ = .ok h₂) (whole : d.Whole h₂)
    (ok : d.recompute h₂ cx = .ok h') : d.Nameless h' ↔ d.Nameless h := by
  by_cases kind : d.kind = .llc
  · obtain rfl := llc_of_kind known kind
    obtain ⟨w, rest, rfl, hw⟩ := Llc.trims.parts accepts
    have long : 3 ≤ (w ++ rest).length := by
      rw [List.length_append]
      exact Nat.le_add_right_of_le (Llc.three_le_of_whole hw)
    obtain rfl : h₂ = h' := Except.ok.inj ok
    rw [Llc.nameless_iff (Llc.three_le_of_whole whole), Llc.nameless_iff long,
      Llc.snap_told long told fitted whole]
  · exact iff_of_false (fun nameless => kind nameless.1) fun nameless => kind nameless.1

/-- An IP header that is brought up to date keeps its version. -/
theorem carriesVersion_of_pass {h₁ h₂ : Bytes} {inside : Option PlainLayer} {cx : Context}
    (known : d ∈ all) (accepts : d.Accepts h) (version : d.kind.CarriesVersion h)
    (announced : d.announce h inside = .ok h₁) (fitted : d.fit h₁ = .ok h₂)
    (ok : d.recompute h₂ cx = .ok h') : d.kind.CarriesVersion h' := by
  have keeps : d.Trims → (∀ {w : Bytes}, d.Whole w → w ≠ []) →
      (∀ {h h' : Bytes} {o : Discriminant}, d.setNext h o = .ok h' → h'.head? = h.head?) →
      h'.head? = h.head? := by
    intro trims nonempty behind
    have law := lawful_of_mem_all known
    have whole := trims.whole_fitted law accepts announced fitted
    rw [(PlainLayer.Touched.header_keeps (steady_of_mem_all known) whole ok).2]
    exact trims.head?_fitted law nonempty behind accepts announced fitted
  cases known using Dissector.all_cases with
  | ipv4 =>
    have hfirst := keeps Ipv4.trims (Ipv4.sized.nonempty (by decide)) (Ipv4.names.head? (by decide))
    exact (Bytes.version?_of_head? hfirst).trans version
  | ipv6 =>
    have hfirst := keeps Ipv6.trims (Ipv6.sized.nonempty (by decide)) (Ipv6.names.head? (by decide))
    exact (Bytes.version?_of_head? hfirst).trans version
  | _ => trivial

end Dissector

/-! ## §3. The pass over a layer and the one inside it. -/

namespace PlainLayer

variable {mode : ChecksumMode} {body : Option Bytes}

/-- The pass over some layers ends with a pass over the inner ones. -/
theorem recomputeAll_append {outer inner : List PlainLayer} :
    ∀ {pseudo : Option PseudoHeader} {out : List PlainLayer},
      recomputeAll mode body pseudo (outer ++ inner) = .ok out →
        ∃ lent outer' inner', recomputeAll mode body lent inner = .ok inner'
          ∧ out = outer' ++ inner' ∧ outer'.length = outer.length := by
  induction outer with
  | nil =>
    intro pseudo out ok
    exact ⟨pseudo, [], out, ok, rfl, rfl⟩
  | cons l outer ih =>
    intro pseudo out ok
    obtain ⟨_, _, _, rest, h, _, _, _, hinner, _, rfl⟩ := recomputeAll_cons_eq_ok ok
    obtain ⟨lent, outer', inner', hinner', rfl, hlength⟩ := ih hinner
    exact ⟨lent, { l with header := h } :: outer', inner', hinner', rfl, congrArg (· + 1) hlength⟩

/-- A layer was told what is inside it; both headers were accepted before. -/
structure Told (h : Bytes) (o : Discriminant) (l child : PlainLayer) : Prop where
  known : l.dissector ∈ Dissector.all
  inside : child.dissector ∈ Dissector.all
  named : l.dissector.discriminantOf child.kind = some o
  origin : child.origin = some o
  accepts : l.dissector.Accepts h
  told : l.dissector.setNext h o = .ok l.header
  /-- What is inside is accepted too, and is what it says. -/
  whole : child.dissector.Accepts child.header
  version : child.kind.CarriesVersion child.header

variable {l child : PlainLayer} {h : Bytes} {o : Discriminant}

/-- What the pass does to a header that was told what is inside it: the header
becomes whole, and still leads there. -/
theorem Told.passed (told : Told h o l child) {h₁ h₂ h₃ payload : Bytes} {cx : Context}
    (announced : l.dissector.announce l.header (some child) = .ok h₁)
    (fitted : l.dissector.fit h₁ = .ok h₂) (ok : l.dissector.recompute h₂ cx = .ok h₃) :
    l.dissector.Whole h₃ ∧ l.dissector.Leads h₃ payload o
      ∧ (l.dissector.Nameless h₃ ↔ l.dissector.Nameless h) := by
  have law := Dissector.lawful_of_mem_all told.known
  have trims := Dissector.trims_of_named told.known told.named
  -- to be announced a second time changes nothing
  obtain rfl := announced_of_told law (law.setNext_again told.told) told.origin announced
  obtain ⟨w, rest, hparts, whole⟩ := trims.parts told.accepts
  have htold := told.told
  rw [hparts] at htold
  obtain ⟨h'', hfit, whole'', hset⟩ := trims.tells whole htold
  obtain rfl : h'' = h₂ := Except.ok.inj (hfit.symm.trans fitted)
  obtain ⟨whole₃, _⟩ := law.whole_recompute whole'' ok
  exact ⟨whole₃, law.recompute_leads (.inr ⟨_, told.named⟩) ok (.inr hset),
    Dissector.nameless_of_pass told.known told.accepts told.told fitted whole'' ok⟩

/-- **A layer that was told what is inside it announces it after the pass,**
if its header has a place for that. -/
theorem Told.announced {pseudo : Option PseudoHeader} {outer inner out : List PlainLayer}
    (told : Told h o l child)
    (ok : recomputeAll mode body pseudo (outer ++ l :: child :: inner) = .ok out) :
    ∃ l' child', out[outer.length]? = some l' ∧ out[outer.length + 1]? = some child'
      ∧ l'.dissector = l.dissector ∧ child'.dissector = child.dissector
      ∧ (¬ l.dissector.Nameless h →
          l'.dissector.LeadsTo l'.header child'.header child'.dissector)
      ∧ (l.dissector.Nameless h → l'.dissector.next l'.header child'.header = .ok none) := by
  obtain ⟨_, outer', _, hpass, rfl, hlength⟩ := recomputeAll_append ok
  obtain ⟨h₁, h₂, _, _, h₃, hannounce, hfit, _, hinner, hrefresh, rfl⟩ :=
    recomputeAll_cons_eq_ok hpass
  obtain ⟨c₁, c₂, _, inner', c₃, hinside, hfitInside, _, _, hrefreshInside, rfl⟩ :=
    recomputeAll_cons_eq_ok hinner
  have hwork := (Dissector.refresh_eq_ok (Dissector.lawful_of_mem_all told.known)).1 hrefresh
  have hworkInside :=
    (Dissector.refresh_eq_ok (Dissector.lawful_of_mem_all told.inside)).1 hrefreshInside
  obtain ⟨whole, leads, hnameless⟩ := told.passed hannounce hfit hwork
  -- the layer inside is brought up to date as well, but keeps its version
  have hversion := Dissector.carriesVersion_of_pass told.inside told.whole told.version hinside
    hfitInside hworkInside
  refine ⟨{ l with header := h₃ }, { child with header := c₃ }, ?_, ?_, rfl, rfl, fun speaks => ?_,
    fun nameless => ?_⟩
  · rw [← hlength, List.getElem?_append_right (Nat.le_refl _), Nat.sub_self]
    rfl
  · rw [← hlength, List.getElem?_append_right (Nat.le_add_right _ _), Nat.add_sub_cancel_left]
    rfl
  · exact Dissector.leadsTo_of_leads told.known told.inside told.named whole leads hversion
      fun silent => speaks (hnameless.1 silent)
  · exact Dissector.next_of_nameless told.known whole (hnameless.2 nameless)

end PlainLayer

/-! ## §4. Packets. -/

namespace Packet

variable {p q : Packet} {depth : Nat} {c c' : Cursor} {root : Layer} {o : Discriminant}

/-- A layer that was opened is of a known protocol. -/
theorem focus_known {known : Dissector → Prop} (h : p.Coherent known)
    (opened : p.open? depth = some c) : known c.focus.dissector := by
  obtain ⟨_, hsplit, _⟩ := Cursor.close_of_open opened
  refine h.linked.known c.focus.shape (List.mem_map_of_mem ?_)
  rw [← hsplit]
  exact List.mem_append_right _ List.mem_cons_self

/-- A layer that takes another packet was told of its outermost layer, and the
layers around it stay. -/
theorem told_of_setPayload (hp : p.Coherent (· ∈ Dissector.all))
    (hq : q.Coherent (· ∈ Dissector.all)) (opened : p.open? depth = some c)
    (rooted : q.layers.head? = some root) (accepts : c.focus.dissector.Accepts c.header)
    (inside : root.dissector.Accepts (q.header root))
    (version : root.kind.CarriesVersion (q.header root))
    (ok : c.setPayload q.toPayload = .ok (.ok c')) :
    ∃ outer l child inner o, c'.close.plain.layers = outer ++ l :: child :: inner
      ∧ outer.length = depth ∧ l.dissector = c.focus.dissector ∧ child.dissector = root.dissector
      ∧ PlainLayer.Told c.header o l child := by
  obtain ⟨hpacket, _, hdepth⟩ := Cursor.close_of_open opened
  obtain ⟨rest, hlayers⟩ := List.head?_eq_some_iff.1 rooted
  have hroot : root.dissector ∈ Dissector.all :=
    hq.linked.known root.shape (List.mem_map_of_mem (hlayers ▸ List.mem_cons_self))
  have spells := q.spells_toPayload
  rw [show q.plain.layers = (root :: rest).map (Layer.plain q.arena) from congrArg _ hlayers,
    List.map_cons] at spells
  obtain ⟨o, header, hnamed, htold, hplain⟩ := setPayload_plain hp.laidOut opened spells ok
  refine ⟨_, _, _, _, o, hplain, ?_, rfl, rfl, focus_known hp opened, hroot, hnamed, rfl, accepts,
    htold, inside, version⟩
  rw [List.length_map, hdepth]

end Packet

/-- **What is put into a layer is announced by it.**  A layer of any packet is
given another packet; both headers are accepted by their own dissectors, and
an IP header inside carries its version.  Either the layer refuses the packet,
because no header of its protocol leads to the outermost layer of that packet;
or it takes the packet, and when derived fields are brought up to date, which
succeeds in either mode, its header leads to that layer.  The exception is a
header of LLC that is no SNAP header: it takes the packet and then names
nothing. -/
theorem Reachable.setPayload_announces {p q : Packet} (hp : Reachable (· ∈ Dissector.all) p)
    (hq : Reachable (· ∈ Dissector.all) q) {depth : Nat} {c : Cursor} {root : Layer}
    (opened : p.open? depth = some c) (rooted : q.layers.head? = some root)
    (accepts : c.focus.dissector.Accepts c.header)
    (inside : root.dissector.Accepts (q.header root))
    (version : root.kind.CarriesVersion (q.header root)) :
    (c.setPayload q.toPayload = .ok (.error .unsupported)
        ∧ ∀ h payload, ¬ c.focus.dissector.LeadsTo h payload root.dissector)
      ∨ ∃ c', c.setPayload q.toPayload = .ok (.ok c') ∧ ∀ mode, ∃ s l child,
          c'.close.recompute mode = .ok s
            ∧ s.layers[depth]? = some l ∧ s.layers[depth + 1]? = some child
            ∧ l.dissector = c.focus.dissector ∧ child.dissector = root.dissector
            ∧ (¬ c.focus.dissector.Nameless c.header →
                l.dissector.LeadsTo (s.header l) (s.header child) child.dissector)
            ∧ (c.focus.dissector.Nameless c.header →
                l.dissector.next (s.header l) (s.header child) = .ok none) := by
  have hknown := Packet.focus_known hp.coherent opened
  obtain ⟨rest, hlayers⟩ := List.head?_eq_some_iff.1 rooted
  have hpayload : q.toPayload.layers = root.detach q.arena :: rest.map (Layer.detach q.arena) := by
    show q.layers.map (Layer.detach q.arena) = _
    rw [hlayers, List.map_cons]
  -- whether the payload is taken is decided by its protocol
  cases hnamed : c.focus.dissector.discriminantOf root.kind with
  | none =>
    exact .inl ⟨Cursor.setPayload_unsupported hpayload hnamed,
      fun _ _ => Dissector.not_leadsTo hknown hnamed⟩
  | some o =>
    obtain ⟨new, hnew, hlength⟩ := (Dissector.lawful_of_mem_all hknown).total.setNext c.header o
    obtain ⟨c', hset⟩ := Cursor.setPayload_succeeds
      (Cursor.close_laidOut_of_open hp.coherent.laidOut opened) hpayload hnamed hnew hlength
    refine .inr ⟨c', hset, fun mode => ?_⟩
    have hcoherent := (Reachable.attached hp hq .whole opened hset).coherent
    obtain ⟨s, hs⟩ := Packet.recompute_succeeds hcoherent.laidOut (fun l hl =>
      (Dissector.lawful_of_mem_all
        (hcoherent.linked.known l.shape (List.mem_map_of_mem hl))).total) mode
    obtain ⟨hall, _⟩ := Packet.recomputeAll_of_recompute hcoherent.laidOut hs
    -- the pass comes to the layer and the one inside it
    obtain ⟨outer, l, child, inner, o', hplain, rfl, hl, hchild, told⟩ :=
      Packet.told_of_setPayload hp.coherent hq.coherent opened rooted accepts inside version hset
    rw [hplain] at hall
    obtain ⟨l', child', hfirst, hsecond, hl', hchild', leads, silent⟩ := told.announced hall
    obtain ⟨m, hm, rfl⟩ := Packet.getElem?_of_plain hfirst
    obtain ⟨n, hn, rfl⟩ := Packet.getElem?_of_plain hsecond
    rw [hl] at leads silent hl'
    exact ⟨s, m, n, hs, hm, hn, hl', hchild'.trans hchild, leads, silent⟩

/-- A request to send is given an LLC layer, and is the header of a data frame
from then on. -/
theorem Reachable.setPayload_announces_wireless :
    Reachable (· ∈ Dissector.all)
        (Packet.ofHeader Wireless.dissector (0xb4 :: List.replicate 15 0))
      ∧ ∃ c c' s l child,
        (Packet.ofHeader Wireless.dissector (0xb4 :: List.replicate 15 0)).open? 0 = some c
          ∧ c.setPayload (Packet.ofHeader Llc.dissector [0xaa, 0xaa, 3, 0, 0, 0, 8, 0]).toPayload
            = .ok (.ok c')
          ∧ c'.close.recompute .fill = .ok s ∧ s.layers[0]? = some l ∧ s.layers[1]? = some child
          ∧ l.dissector.LeadsTo (s.header l) (s.header child) Llc.dissector := by
  have outer : Reachable (· ∈ Dissector.all)
      (Packet.ofHeader Wireless.dissector (0xb4 :: List.replicate 15 0)) :=
    @Reachable.ofHeader (· ∈ Dissector.all) _ (by simp [Dissector.all]) _
  have inner : Reachable (· ∈ Dissector.all)
      (Packet.ofHeader Llc.dissector [0xaa, 0xaa, 3, 0, 0, 0, 8, 0]) :=
    @Reachable.ofHeader (· ∈ Dissector.all) _ (by simp [Dissector.all]) _
  have opened : (Packet.ofHeader Wireless.dissector (0xb4 :: List.replicate 15 0)).open? 0
      = some ⟨_, [], _, []⟩ := rfl
  refine ⟨outer, ?_⟩
  rcases Reachable.setPayload_announces outer inner opened rfl (.inl ⟨16, rfl⟩) (.inl ⟨8, rfl⟩)
    trivial with ⟨hrefused, _⟩ | ⟨c', hset, hpass⟩
  · cases hrefused
  · obtain ⟨s, l, child, hs, hl, hchild, _, hllc, leads, _⟩ := hpass .fill
    have hleads := leads fun nameless => absurd nameless.1 (by decide)
    rw [hllc] at hleads
    exact ⟨_, c', s, l, child, opened, hset, hs, hl, hchild, hleads⟩

/-- A header of LLC that is no SNAP header takes an IPv4 layer, and then leads
nowhere. -/
theorem Reachable.setPayload_announces_nothing :
    Reachable (· ∈ Dissector.all) (Packet.ofHeader Llc.dissector [0, 0, 3])
      ∧ Reachable (· ∈ Dissector.all)
        (Packet.ofHeader Ipv4.dissector Ipv4.dissector.defaultHeader)
      ∧ Llc.dissector.Accepts [0, 0, 3] ∧ Ipv4.dissector.Accepts Ipv4.dissector.defaultHeader
      ∧ LayerKind.ipv4.CarriesVersion Ipv4.dissector.defaultHeader
      ∧ ∃ c c' s l child, (Packet.ofHeader Llc.dissector [0, 0, 3]).open? 0 = some c
        ∧ c.header = [0, 0, 3]
        ∧ c.setPayload (Packet.ofHeader Ipv4.dissector Ipv4.dissector.defaultHeader).toPayload
          = .ok (.ok c')
        ∧ c'.close.recompute .fill = .ok s ∧ s.layers[0]? = some l ∧ s.layers[1]? = some child
        ∧ l.dissector = Llc.dissector ∧ child.dissector = Ipv4.dissector
        ∧ l.dissector.next (s.header l) (s.header child) = .ok none :=
  ⟨@Reachable.ofHeader (· ∈ Dissector.all) _ (by simp [Dissector.all]) _,
    @Reachable.ofHeader (· ∈ Dissector.all) _ (by simp [Dissector.all]) _,
    .inl ⟨3, rfl⟩, .inl ⟨20, rfl⟩, rfl, _, _, _, _, _, rfl, rfl, rfl, rfl, rfl, rfl, rfl, rfl, rfl⟩

end PacketLayers
