/-
  PacketLayers.Proofs.Stack
  ────────────────────────────────
  **STACKED LAYERS ARE BROUGHT UP TO DATE AS THEY ARE READ.**

  A stack is prepared from the inside out: each header was written whole and
  then told what is inside it.  Stacks are put into each other at the
  innermost layer.  One pass over a prepared stack gives every header the
  length that it states, lengths that claim the payload, and checksums that
  hold; so what is left can be decoded.
-/
import PacketLayers.Proofs.Idempotence
import PacketLayers.Proofs.Legible
import PacketLayers.Proofs.Reading

namespace PacketLayers.PlainLayer

/-! ## §1. Prepared layers. -/

/-- A layer of a known protocol whose header was written whole, and that
nothing follows. -/
structure Ready (l : PlainLayer) : Prop where
  known : l.dissector ∈ Dissector.all
  header : ∃ fair, l.dissector.Legible fair ∧ l.dissector.Whole l.header ∧ fair l.header
  bare : l.padding = []

/-- Layers that were stacked around a body. -/
inductive Prepared (body : Option Bytes) : List PlainLayer → Prop where
  /-- Bytes are taken by some protocols only. -/
  | innermost {l : PlainLayer} (ready : l.Ready)
      (takes : ∀ b, body = some b → b ≠ [] ∧ l.kind.TakesBytes) : Prepared body [l]
  /-- A layer whose header was told the one inside it. -/
  | around {l child : PlainLayer} {inner : List PlainLayer} {o : Discriminant} {written : Bytes}
      (ready : Ready { l with header := written })
      (named : l.dissector.discriminantOf child.kind = some o) (origin : child.origin = some o)
      (told : l.dissector.setNext written o = .ok l.header)
      (inside : Prepared body (child :: inner)) : Prepared body (l :: child :: inner)

variable {body : Option Bytes} {l focus child : PlainLayer} {inner outer : List PlainLayer}
  {o : Discriminant}

/-- Nothing depends on how the outermost layer is announced. -/
theorem Prepared.reroot (h : Prepared body (l :: inner)) (origin : Option Discriminant) :
    Prepared body ({ l with origin := origin } :: inner) := by
  cases h with
  | innermost ready takes => exact .innermost ⟨ready.known, ready.header, ready.bare⟩ takes
  | around ready named hchild told inside =>
    exact .around ⟨ready.known, ready.header, ready.bare⟩ named hchild told inside

/-- What is inside the outer layers of a stack may be replaced, as long as it
begins with a layer of the same protocol that is announced in the same way. -/
theorem Prepared.replace {body' : Option Bytes} {l' : PlainLayer} {inner' : List PlainLayer}
    (same : l'.shape = l.shape)
    (new : Prepared body (l :: inner) → Prepared body' (l' :: inner')) :
    Prepared body (outer ++ l :: inner) → Prepared body' (outer ++ l' :: inner') := by
  -- induction on the outer layers, each of which looks at the layer inside it only by its shape
  induction outer with
  | nil => exact new
  | cons first rest ih =>
    intro h
    cases rest with
    | nil =>
      have hkind : l'.kind = l.kind := congrArg (fun s : Shape => s.1.kind) same
      have horigin : l'.origin = l.origin := congrArg Prod.snd same
      cases h with
      | around ready named origin told inside =>
        exact .around ready (hkind ▸ named) (horigin.trans origin) told (ih inside)
    | cons second rest =>
      cases h with
      | around ready named origin told inside => exact .around ready named origin told (ih inside)

/-- One stack is put into the innermost layer of another. -/
theorem Prepared.graft {header : Bytes} (inside : Prepared body (child :: inner))
    (named : focus.dissector.discriminantOf child.kind = some o) (origin : child.origin = some o)
    (told : focus.dissector.setNext focus.header o = .ok header)
    (h : Prepared none (outer ++ [focus])) :
    Prepared body (outer ++ { focus with header := header } :: child :: inner) := by
  -- the bodies differ, so the outer layers are kept and not the whole stack
  refine Prepared.replace (l := focus) rfl (fun h => ?_) h
  cases h with
  | innermost ready _ => exact .around ready named origin told inside

/-- Bytes are put into the innermost layer. -/
theorem Prepared.fill {b : Bytes} (nonempty : b ≠ []) (takes : focus.kind.TakesBytes)
    (h : Prepared none (outer ++ [focus])) : Prepared (some b) (outer ++ [focus]) := by
  refine h.replace rfl fun h => ?_
  cases h with
  | innermost ready _ =>
    refine .innermost ready fun b' hb => ?_
    obtain rfl : b = b' := Option.some.inj hb
    exact ⟨nonempty, takes⟩

theorem Prepared.known {layers : List PlainLayer} (h : Prepared body layers) :
    ∀ l ∈ layers, l.dissector ∈ Dissector.all := by
  induction h with
  | innermost ready _ =>
    intro l hl
    rw [List.mem_singleton.1 hl]
    exact ready.known
  | around ready _ _ _ _ ih =>
    intro l hl
    rcases List.mem_cons.1 hl with rfl | hl
    · exact ready.known
    · exact ih l hl

/-! ## §2. One pass. -/

/-- A whole header that was brought up to date claims its payload, and its
checksum holds. -/
theorem claims_of_recompute {fair : Bytes → Prop} (legible : l.dissector.Legible fair)
    {h h' : Bytes} {cx : Context} (whole : l.dissector.Whole h) (hfair : fair h)
    (bare : l.padding = []) (ok : l.dissector.recompute h cx = .ok h')
    (carries : l.dissector.Carries h' cx.payload) :
    Claims { l with header := h' } cx.payload := by
  obtain ⟨whole', _⟩ := legible.lawful.whole_recompute whole ok
  exact ⟨legible.nonempty whole', legible.reads whole', legible.measures whole hfair ok carries,
    bare⟩

/-- A header that was told what is inside it has nothing to announce. -/
theorem announced_of_told (law : l.dissector.Lawful) {h h' : Bytes}
    (told : l.dissector.setNext h o = .ok h) (origin : child.origin = some o)
    (ok : l.dissector.announce h (some child) = .ok h') : h' = h := by
  rcases Dissector.announce_cases law ok with
    ⟨_, hsame⟩ | ⟨child', o', hchild, horigin, ⟨_, hsame⟩ | ⟨_, hset⟩⟩
  · exact hsame
  · exact hsame
  · obtain rfl : child = child' := Option.some.inj hchild
    obtain rfl : o = o' := Option.some.inj (origin.symm.trans horigin)
    exact Except.ok.inj (hset.symm.trans told)

/-- **One pass over a prepared stack leaves layers that can be read**, whose
checksums hold. -/
theorem Prepared.recomputed {layers : List PlainLayer} (h : Prepared body layers) :
    ∀ {pseudo : Option PseudoHeader} {out : List PlainLayer},
      recomputeAll .fill body pseudo layers = .ok out →
        Reads .standard body out ∧ Checks body pseudo out := by
  induction h with
  | @innermost l ready takes =>
    intro pseudo out ok
    obtain ⟨fair, legible, whole, hfair⟩ := ready.header
    obtain ⟨h₁, h₂, lent, inner', h₃, hannounce, hfit, hlent, hinner, hrefresh, rfl⟩ :=
      recomputeAll_cons_eq_ok ok
    injection hannounce with hannounce
    injection hinner with hinner
    subst hannounce hinner
    rw [legible.lawful.whole_fits whole] at hfit
    injection hfit with hfit
    subst hfit
    have hwork := (Dissector.refresh_eq_ok legible.lawful).1 hrefresh
    obtain ⟨whole', hlends⟩ := legible.lawful.whole_recompute whole hwork
    have hfair' := legible.fair_recompute whole hfair hwork
    have hcarries : l.dissector.Carries h₃ (wire [] body) := by
      rw [wire_nil]
      cases hbody : body with
      | none => exact .inl rfl
      | some b => exact .inr (.inr (takes b hbody).2)
    have hclaims := claims_of_recompute legible whole hfair ready.bare hwork hcarries
    rw [wire_nil] at hclaims
    refine ⟨.innermost hclaims fun b hb => ?_, legible.checks whole hfair rfl hwork,
      lent, hlends.trans hlent, trivial⟩
    exact ⟨(takes b hb).1, legible.unsealed whole' hfair', legible.stays (takes b hb).2⟩
  | @around l child inner o written ready named origin told inside ih =>
    intro pseudo out ok
    obtain ⟨fair, legible, whole, hfair⟩ := ready.header
    obtain ⟨h₁, h₂, lent, inner', h₃, hannounce, hfit, hlent, hinner, hrefresh, rfl⟩ :=
      recomputeAll_cons_eq_ok ok
    have hagain := legible.lawful.setNext_again told
    -- the header was told already what is inside it, and takes the length for that
    obtain rfl := announced_of_told legible.lawful hagain origin hannounce
    obtain ⟨fitted, hfitted, wholeFitted, hfix⟩ := legible.lawful.whole_setNext whole told
    obtain rfl : fitted = h₂ := Except.ok.inj (hfitted.symm.trans hfit)
    have hfair₂ := legible.fair_setNext whole hfair told hfitted
    have hwork := (Dissector.refresh_eq_ok legible.lawful).1 hrefresh
    obtain ⟨whole', hlends⟩ := legible.lawful.whole_recompute wholeFitted hwork
    have hfair' := legible.fair_recompute wholeFitted hfair₂ hwork
    obtain ⟨hreads, hchecks⟩ := ih hinner
    -- the layer inside has the dissector that was announced
    have hshapes := recomputeAll_shapes hinner
    cases inner' with
    | nil => cases hshapes
    | cons child' rest =>
      have hshape : child'.shape = child.shape := (List.cons.inj hshapes).1
      have hdissector : child'.dissector = child.dissector := congrArg Prod.fst hshape
      have hleads : l.dissector.Leads h₃ (wire (child' :: rest) body) o :=
        legible.lawful.recompute_leads (.inr ⟨_, named⟩) hwork (.inr hfix)
      obtain ⟨o', hstates, hstands⟩ := legible.states whole' hfair'
        (inside.known child List.mem_cons_self) named hleads
      have hclaims := claims_of_recompute legible wholeFitted hfair₂ ready.bare hwork
        (.inr (.inl ⟨o', hstates⟩))
      refine ⟨.around hclaims (legible.unsealed whole' hfair') hstates (hdissector ▸ hstands) hreads,
        legible.checks wholeFitted hfair₂ rfl hwork, lent, hlends.trans hlent, hchecks⟩

end PacketLayers.PlainLayer
