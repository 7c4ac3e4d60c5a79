/-
  PacketLayers.Proofs.Trimming
  ────────────────────────────────
  **ACCEPTED HEADERS BECOME WHOLE ONES.**

  A header that was made from bytes may have more of them than its protocol
  asks for, and a wireless header may need another length for what it
  announces.  The pass over the layers puts both right: a header that its
  dissector accepts is cut to a whole one, with or without being told first
  what is inside it, and a name that it was told stays.

    • `Dissector.Accepts`, `Dissector.Trims` — accepted headers, and the promise;
    • `Trims.head?_fitted` — the first byte stays meanwhile, if names are
      written behind it;
    • `trims_of_named` — the protocols that announce payloads trim.
-/
import PacketLayers.Proofs.Idempotence
import PacketLayers.Proofs.Legible.Link
import PacketLayers.Proofs.Legible.Network

namespace PacketLayers

/-! ## §1. Accepted headers. -/

namespace Dissector

/-- The dissector accepts the header; raw IP, which has none, accepts the empty
one. -/
def Accepts (d : Dissector) (h : Bytes) : Prop :=
  (∃ n, d.headerLength h = .ok n) ∨ d.kind = .rawIp ∧ h = []

/-- How accepted headers get the length of whole ones. -/
structure Trims (d : Dissector) : Prop where
  /-- An accepted header begins with a whole one. -/
  parts : ∀ {h : Bytes}, d.Accepts h → ∃ w rest, h = w ++ rest ∧ d.Whole w
  /-- Bytes behind a whole header are cut off. -/
  fits : ∀ {w : Bytes}, d.Whole w → ∀ rest, d.fit (w ++ rest) = .ok w
  /-- So they are when it was told what is inside, and what it was told is
  still there. -/
  tells : ∀ {w rest h' : Bytes} {o : Discriminant}, d.Whole w → d.setNext (w ++ rest) o = .ok h' →
    ∃ h'', d.fit h' = .ok h'' ∧ d.Whole h'' ∧ d.setNext h'' o = .ok h''

variable {d : Dissector} {h h' w rest : Bytes} {o : Discriminant}

section Sized

variable {f : HeaderFormat} {size : Bytes → Nat} {least : Nat} (s : d.Sized f size least)

include s

/-- A header that says how long it is begins with a whole one. -/
theorem Sized.parts (filled : d.kind ≠ .rawIp) (accepts : d.Accepts h) :
    ∃ w rest, h = w ++ rest ∧ d.Whole w := by
  obtain ⟨n, hn⟩ := accepts.resolve_right fun raw => filled raw.1
  obtain ⟨accepted, hsize⟩ := s.headerLength_eq_ok.1 hn
  have hle : n ≤ h.length := hsize ▸ (s.accepts.1 accepted).2
  refine ⟨h.take n, h.drop n, (List.take_append_drop n h).symm, h.drop n, ?_⟩
  rw [List.take_append_drop, hn, List.length_take_of_le hle]

theorem Sized.accepts_append (whole : d.Whole w) (rest : Bytes) : f.accepts (w ++ rest) = true :=
  (s.headerLength_eq_ok.1 (s.reads whole rest)).1

end Sized

/-- A protocol that writes the name into one field of a whole header. -/
theorem Trims.of_names {α : Type} {guard : Bytes → Prop} {field : Field α}
    {name : α → Discriminant} (n : d.Names guard field name)
    (parts : ∀ {h : Bytes}, d.Accepts h → ∃ w rest, h = w ++ rest ∧ d.Whole w)
    (fits : ∀ {w : Bytes}, d.Whole w → ∀ rest, d.fit (w ++ rest) = .ok w)
    (stays : ∀ {h : Bytes} (v : α), guard h → d.Whole h → d.Whole (field.put v h))
    (guards : ∀ {w : Bytes}, d.Whole w → ∀ rest, guard (w ++ rest) ↔ guard w) : d.Trims where
  parts := parts
  fits := fits
  tells {w rest h' o} whole ok := by
    rcases n.cases (w ++ rest) o with ⟨v, rfl, hguard, hset⟩ | ⟨hrefuses, hset⟩
    · -- the name is written in front of what is cut off
      have hg := (guards whole rest).1 hguard
      rw [hset, Field.put_append (n.covers hg)] at ok
      injection ok with ok
      subst ok
      exact ⟨_, fits (stays v hg whole) rest, stays v hg whole, n.again (n.writes v hg)⟩
    · rw [hset] at ok
      injection ok with ok
      subst ok
      refine ⟨w, fits whole rest, whole, ?_⟩
      rcases n.cases w o with ⟨v, hv, hg, _⟩ | ⟨_, hsame⟩
      · exact absurd ((guards whole rest).2 hg) (hrefuses v hv)
      · exact hsame

/-- The pass cuts an accepted header to a whole one. -/
theorem Trims.whole_fitted {h₁ h₂ : Bytes} {inside : Option PlainLayer} (trims : d.Trims)
    (law : d.Lawful) (accepts : d.Accepts h) (announced : d.announce h inside = .ok h₁)
    (fitted : d.fit h₁ = .ok h₂) : d.Whole h₂ := by
  obtain ⟨w, rest, rfl, whole⟩ := trims.parts accepts
  -- what is left as it is has the whole header in front
  have hkept : h₁ = w ++ rest → d.Whole h₂ := by
    rintro rfl
    rw [← Except.ok.inj ((trims.fits whole rest).symm.trans fitted)]
    exact whole
  rcases announce_cases law announced with ⟨_, hsame⟩ | ⟨_, o, _, _, ⟨_, hsame⟩ | ⟨_, hset⟩⟩
  · exact hkept hsame
  · exact hkept hsame
  · obtain ⟨h'', hfit, whole'', _⟩ := trims.tells whole hset
    rw [← Except.ok.inj (hfit.symm.trans fitted)]
    exact whole''

/-! ## §2. The first byte. -/

/-- A name behind the first byte leaves it. -/
theorem Names.head? {α : Type} {guard : Bytes → Prop} {field : Field α} {name : α → Discriminant}
    (n : d.Names guard field name) (behind : 1 ≤ field.first) (ok : d.setNext h o = .ok h') :
    h'.head? = h.head? :=
  n.preserves (P := fun b => b.head? = h.head?)
    (fun {_} v hg same => (Field.head?_put (n.covers hg) v behind).trans same) rfl ok

/-- So does another length, if there are bytes before and after. -/
theorem head?_of_fit (before : h ≠ []) (after : h' ≠ []) (ok : d.fit h = .ok h') :
    h'.head? = h.head? := by
  unfold fit at ok
  obtain ⟨size, _, ok⟩ := bind_eq_ok.1 ok
  cases size with
  | none =>
    injection ok with ok
    rw [ok]
  | some size =>
    injection ok with ok
    have hsize : size ≠ 0 := by
      rintro rfl
      rw [← ok] at after
      exact after (List.eq_nil_of_length_eq_zero (Bytes.length_resize h 0))
    cases h with
    | nil => exact absurd rfl before
    | cons x rest =>
      obtain ⟨n, rfl⟩ := Nat.exists_eq_succ_of_ne_zero hsize
      rw [← ok]
      rfl

/-- The pass keeps the first byte of an accepted header if names are written
behind it. -/
theorem Trims.head?_fitted {h₁ h₂ : Bytes} {inside : Option PlainLayer} (trims : d.Trims)
    (law : d.Lawful) (nonempty : ∀ {w : Bytes}, d.Whole w → w ≠ [])
    (behind : ∀ {h h' : Bytes} {o : Discriminant}, d.setNext h o = .ok h' → h'.head? = h.head?)
    (accepts : d.Accepts h) (announced : d.announce h inside = .ok h₁)
    (fitted : d.fit h₁ = .ok h₂) : h₂.head? = h.head? := by
  have hfirst : h₁.head? = h.head? := by
    rcases announce_cases law announced with ⟨_, hsame⟩ | ⟨_, o, _, _, ⟨_, hsame⟩ | ⟨_, hset⟩⟩
    · rw [hsame]
    · rw [hsame]
    · exact behind hset
  -- there is a first byte before and after
  have hbefore : h₁ ≠ [] := by
    rintro rfl
    obtain ⟨w, rest, rfl, whole⟩ := trims.parts accepts
    exact nonempty whole (List.append_eq_nil_iff.1 (List.head?_eq_none_iff.1 hfirst.symm)).1
  have hafter := nonempty (trims.whole_fitted law accepts announced fitted)
  rw [head?_of_fit hbefore hafter fitted, hfirst]

end Dissector

/-! ## §3. The protocols that announce payloads. -/

theorem Ethernet.trims : Ethernet.dissector.Trims :=
  .of_names names (sized.parts (by decide))
    (fun whole _ => Dissector.fit_append (by rw [whole_iff.1 whole]; rfl))
    whole_put_etherType
    fun whole rest => iff_of_true (sized.accepts_append whole rest) (sized.accepts_of_whole whole)

theorem Vlan.trims : Vlan.dissector.Trims :=
  .of_names names (sized.parts (by decide))
    (fun whole _ => Dissector.fit_append (by rw [whole_iff.1 whole]; rfl))
    whole_put_etherType
    fun whole rest => iff_of_true (sized.accepts_append whole rest) (sized.accepts_of_whole whole)

namespace Loopback

theorem parts {h : Bytes} (accepts : dissector.Accepts h) :
    ∃ w rest, h = w ++ rest ∧ dissector.Whole w := by
  obtain ⟨n, hn⟩ := accepts.resolve_right fun raw => LayerKind.noConfusion raw.1
  have long : 4 ≤ h.length := by
    by_contra short
    have hn : (Header.parse h).map (fun _ => headerLength) = .ok n := hn
    rw [parse_eq, if_neg short] at hn
    cases hn
  exact ⟨h.take 4, h.drop 4, (List.take_append_drop 4 h).symm,
    whole_iff.2 (List.length_take_of_le long)⟩

theorem trims : dissector.Trims :=
  .of_names names parts (fun whole _ => Dissector.fit_append (by rw [whole_iff.1 whole]; rfl))
    whole_put_family
    fun {w} whole rest => by
      have hlength := whole_iff.1 whole
      exact iff_of_true (by rw [List.length_append]; omega) (by omega)

end Loopback

namespace Llc

theorem snap_append {h : Bytes} (long : 3 ≤ h.length) (rest : Bytes) :
    snap (h ++ rest) = snap h := by
  have hdsap : Layout.dsap.stop ≤ h.length := Nat.le_trans (by decide) long
  have hssap : Layout.ssap.stop ≤ h.length := Nat.le_trans (by decide) long
  have hcontrol : Layout.control.stop ≤ h.length := long
  rw [snap, snap, Field.value_append hdsap, Field.value_append hssap, Field.value_append hcontrol]

theorem three_le_of_whole {h : Bytes} (whole : dissector.Whole h) : 3 ≤ h.length :=
  headerLength?_ge (whole_iff.1 whole)

/-- Room for the type behind a header that is none is no room in it. -/
theorem trims : dissector.Trims :=
  .of_names names (sized.parts (by decide))
    (fun {w} whole rest => Dissector.fit_append (by
      show Except.ok (some ((headerLength? (w ++ rest)).getD snapLength)) = _
      rw [headerLength?_append (three_le_of_whole whole), whole_iff.1 whole]
      rfl))
    whole_put_etherType
    fun {w} whole rest => by
      rw [snap_append (three_le_of_whole whole), List.length_append]
      constructor
      · rintro ⟨_, isSnap⟩
        exact ⟨(length_of_snap whole isSnap).ge, isSnap⟩
      · rintro ⟨long, isSnap⟩
        exact ⟨by omega, isSnap⟩

end Llc

/-- A wireless header that announces another payload may take up bytes that
were behind it. -/
theorem Wireless.trims : Wireless.dissector.Trims where
  parts := sized.parts (by decide)
  fits {w} whole rest := Dissector.fit_append (by
    have hten := ten_le_of_whole whole
    show Except.ok (some ((headerLength? (w ++ rest)).getD 24)) = _
    rw [headerLength?_append (by omega), whole_iff.1 whole]
    rfl)
  tells {w rest h' o} whole ok := fitted_setNext
    (by rw [List.length_append]; exact Nat.le_add_right_of_le (ten_le_of_whole whole)) ok

/-- Raw IP is told nothing, and has no header to keep. -/
theorem RawIp.trims : RawIp.dissector.Trims where
  parts {h} _ := ⟨[], h, rfl, whole_iff.2 rfl⟩
  fits {w} whole rest := by
    obtain rfl := whole_iff.1 whole
    exact Dissector.fit_append rfl
  tells {w rest h' o} whole ok := by
    injection ok with ok
    subst ok
    have hfit : dissector.fit ([] ++ (w ++ rest)) = .ok [] := Dissector.fit_append rfl
    exact ⟨[], hfit, whole_iff.2 rfl, rfl⟩

theorem Ipv6.trims : Ipv6.dissector.Trims :=
  .of_names names (sized.parts (by decide))
    (fun whole _ => Dissector.fit_append (by rw [whole_iff.1 whole]; rfl))
    whole_put_nextHeader
    fun {w} whole rest => by
      have hcovers : Layout.nextHeader.stop ≤ w.length := by rw [whole_iff.1 whole]; decide
      exact iff_of_true (by rw [List.length_append]; omega) hcovers

namespace Ipv4

theorem requiredLength_append {h : Bytes} (nonempty : h ≠ []) (rest : Bytes) :
    requiredLength (h ++ rest) = requiredLength h := by
  cases h with
  | nil => exact absurd rfl nonempty
  | cons x rest => rfl

theorem trims : dissector.Trims :=
  .of_names names (sized.parts (by decide))
    (fun {w} whole rest => by
      have hrequired : requiredLength w = w.length := requiredLength_of_whole whole
      refine Dissector.fit_append (congrArg (fun n => Except.ok (some n)) ?_)
      rw [requiredLength_append (sized.nonempty (by decide) whole), hrequired])
    whole_put_protocol
    fun {w} whole rest => by
      have hcovers : Layout.protocol.stop ≤ w.length :=
        Nat.le_trans (by decide) (whole_iff.1 whole).1
      exact iff_of_true (by rw [List.length_append]; omega) hcovers

end Ipv4

theorem Gre.trims : Gre.dissector.Trims :=
  .of_names names (sized.parts (by decide))
    (fun {w} whole rest => by
      obtain ⟨long, hlength⟩ := whole_iff.1 whole
      have hflags : Layout.flags.stop ≤ w.length := Nat.le_trans (by decide) long
      refine Dissector.fit_append (congrArg (fun n => Except.ok (some n)) ?_)
      rw [headerLength?_eq (by rw [List.length_append]; omega), Option.getD_some,
        Field.value_append hflags, hlength])
    whole_put_protocol
    fun whole rest => iff_of_true (sized.accepts_append whole rest) (sized.accepts_of_whole whole)

/-! ## §4. All of them. -/

/-- Every protocol that announces payloads trims its headers. -/
theorem Dissector.trims_of_named {d : Dissector} (known : d ∈ all) {kind : LayerKind}
    {o : Discriminant} (named : d.discriminantOf kind = some o) : d.Trims := by
  cases known using Dissector.all_cases with
  | ethernet => exact Ethernet.trims
  | vlan => exact Vlan.trims
  | arp | tcp | udp | icmpv4 | icmpv6 | igmp => cases named
  | ipv4 => exact Ipv4.trims
  | ipv6 => exact Ipv6.trims
  | gre => exact Gre.trims
  | loopback => exact Loopback.trims
  | rawIp => exact RawIp.trims
  | wireless => exact Wireless.trims
  | llc => exact Llc.trims

end PacketLayers
