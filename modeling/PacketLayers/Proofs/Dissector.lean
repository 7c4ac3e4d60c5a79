/-
  PacketLayers.Proofs.Dissector
  ────────────────────────────────
  **WHAT THE ENGINE MAY EXPECT OF A PROTOCOL.**

  A dissector is a bundle of functions, and the pass that brings a packet up
  to date asks several of them about the same header.  `Lawful` says how the
  answers hang together:

    • a header that was brought up to date stays as it is when that is done
      again, and so does a discriminant that was written;
    • bringing a header up to date does not change what it announces;
    • a *whole* header, one that decoding could have cut off, stays whole.
-/
import PacketLayers.Proofs.Field
import PacketLayers.Proofs.Reachable

namespace PacketLayers

/-! ## §1. Header formats. -/

namespace HeaderFormat

variable {f : HeaderFormat} {h : Bytes} {α : Type}

theorem accepts_iff : f.accepts h = true ↔ f.check h = .ok () := by
  unfold accepts
  cases f.check h <;> simp

theorem guarded_of_accepts (accepted : f.accepts h = true) (otherwise : α) (ask : Access α) :
    f.guarded h otherwise ask = ask := if_pos accepted

theorem guarded_of_refused (refused : ¬ f.accepts h = true) (otherwise : α) (ask : Access α) :
    f.guarded h otherwise ask = .ok otherwise := if_neg refused

/-- An answer that is not given to refused headers is one to an accepted
header. -/
theorem accepts_of_answer {otherwise a : α} {ask : Access α}
    (answered : f.guarded h otherwise ask = .ok a) (differs : otherwise ≠ a) :
    f.accepts h = true ∧ ask = .ok a := by
  by_cases accepted : f.accepts h = true
  · rw [guarded_of_accepts accepted] at answered
    exact ⟨accepted, answered⟩
  · rw [guarded_of_refused accepted] at answered
    exact absurd (Except.ok.inj answered) differs

/-- What a guarded question finds is found in a header that is accepted. -/
theorem accepts_of_guarded {ask : Access (Option α)} {a : α}
    (found : f.guarded h none ask = .ok (some a)) : f.accepts h = true ∧ ask = .ok (some a) :=
  accepts_of_answer found (Option.some_ne_none a).symm

/-- A guarded question has an answer if it has one wherever the guard holds. -/
theorem guarded_succeeds {otherwise : α} {ask : Access α}
    (answers : f.accepts h = true → ∃ a, ask = .ok a) :
    ∃ a, f.guarded h otherwise ask = .ok a := by
  by_cases accepted : f.accepts h = true
  · rw [guarded_of_accepts accepted]
    exact answers accepted
  · exact ⟨otherwise, guarded_of_refused accepted _ _⟩

/-- A reading succeeds on what is accepted, if its question has an answer. -/
theorem reading_eq_ok {ask : Access α} {a : α} :
    f.reading h ask = .ok a ↔ f.accepts h = true ∧ ask = .ok a := by
  unfold accepts reading
  cases f.check h with
  | error e => simp
  | ok _ => cases ask <;> simp

theorem accepts_fixed {kind : LayerKind} {size : Nat} :
    (fixed kind size).accepts h = true ↔ size ≤ h.length := by
  rw [accepts_iff, fixed]
  by_cases short : h.length < size
  · simp only [if_pos short, reduceCtorEq, false_iff]
    omega
  · simp only [if_neg short, true_iff]
    omega

/-- A format whose first bytes say a length, which has to hold them. -/
theorem accepts_checked {size least : Nat}
    (check : f.check h = if h.length < least then .error .truncated
      else if size < least then .error .malformed
      else if h.length < size then .error .truncated else .ok ()) :
    f.accepts h = true ↔ least ≤ h.length ∧ least ≤ size ∧ size ≤ h.length := by
  rw [accepts_iff, check]
  split
  · simp only [reduceCtorEq, false_iff]
    omega
  · split
    · simp only [reduceCtorEq, false_iff]
      omega
    · split
      · simp only [reduceCtorEq, false_iff]
        omega
      · simp only [true_iff]
        omega

/-- A format whose first bytes say the length, if they are there. -/
theorem accepts_stated {size? : Bytes → Option Nat}
    (check : f.check h = match size? h with
      | none => .error .truncated
      | some n => if h.length < n then .error .truncated else .ok ()) :
    f.accepts h = true ↔ ∃ n, size? h = some n ∧ n ≤ h.length := by
  rw [accepts_iff, check]
  cases size? h with
  | none => simp
  | some n =>
    simp only [Option.some.injEq, exists_eq_left']
    by_cases short : h.length < n
    · simp only [if_pos short, reduceCtorEq, false_iff]
      omega
    · simp only [if_neg short, true_iff]
      omega

theorem fixedLength_eq_ok {size n : Nat} :
    f.fixedLength size h = .ok n ↔ f.accepts h = true ∧ n = size := by
  rw [accepts_iff, fixedLength, map_eq_ok]
  constructor
  · rintro ⟨_, hcheck, rfl⟩
    exact ⟨hcheck, rfl⟩
  · rintro ⟨hcheck, rfl⟩
    exact ⟨(), hcheck, rfl⟩

/-- A guarded write changes the headers that the format accepts. -/
theorem guarded_set_eq {field : Field α} (law : field.Lawful)
    (covers : f.accepts h = true → field.stop ≤ h.length) (v : α) :
    f.guarded h h (field.set v h) = .ok (if f.accepts h = true then field.put v h else h) := by
  by_cases accepted : f.accepts h = true
  · rw [guarded_of_accepts accepted, Field.set_eq_put law (covers accepted), if_pos accepted]
  · rw [guarded_of_refused accepted, if_neg accepted]

end HeaderFormat

/-! ## §2. Lawful dissectors. -/

namespace Dissector

/-- The header is one that decoding could have cut off the front of some
bytes. -/
def Whole (d : Dissector) (h : Bytes) : Prop := ∃ rest, d.headerLength (h ++ rest) = .ok h.length

/-- The header leads to a payload that is announced by a discriminant: it
states it, or states as much of it as it can. -/
def Leads (d : Dissector) (h payload : Bytes) (o : Discriminant) : Prop :=
  d.next h payload = .ok (some o) ∨ d.setNext h o = .ok h

/-- How the answers of a dissector hang together. -/
structure Lawful (d : Dissector) : Prop where
  total : d.Total
  setNext_again : ∀ {h h' : Bytes} {o : Discriminant}, d.setNext h o = .ok h' →
    d.setNext h' o = .ok h'
  recompute_again : ∀ {h h' : Bytes} {cx : Context}, d.recompute h cx = .ok h' →
    d.recompute h' cx = .ok h'
  recompute_leads : ∀ {h h' payload : Bytes} {cx : Context} {o : Discriminant}, d.Announces o →
    d.recompute h cx = .ok h' → d.Leads h payload o → d.Leads h' payload o
  /-- What a header leads to does not depend on the payload, as far as it
  matters. -/
  leads_payload : ∀ {h payload payload' : Bytes} {o : Discriminant}, d.Leads h payload o →
    d.Leads h payload' o
  /-- A whole header has the length that its fields ask for. -/
  whole_fits : ∀ {h : Bytes}, d.Whole h → d.fit h = .ok h
  /-- A whole header is whole again when it has announced a payload. -/
  whole_setNext : ∀ {h h' : Bytes} {o : Discriminant}, d.Whole h → d.setNext h o = .ok h' →
    ∃ h'', d.fit h' = .ok h'' ∧ d.Whole h'' ∧ d.setNext h'' o = .ok h''
  /-- A whole header stays whole, and lends what it lent. -/
  whole_recompute : ∀ {h h' : Bytes} {cx : Context}, d.Whole h → d.recompute h cx = .ok h' →
    d.Whole h' ∧ d.pseudoHeader h' = d.pseudoHeader h

/-- A header gets the length that is asked for. -/
theorem fit_eq_resize {d : Dissector} {h : Bytes} {n : Nat}
    (required : d.requiredLength h = .ok (some n)) : d.fit h = .ok (h.resize n) := by
  unfold fit
  rw [required]
  rfl

/-- Of a header that asks for the length of its first part that part is left. -/
theorem fit_append {d : Dissector} {w rest : Bytes}
    (required : d.requiredLength (w ++ rest) = .ok (some w.length)) : d.fit (w ++ rest) = .ok w := by
  have hshort : w.length - (w ++ rest).length = 0 := by
    rw [List.length_append]
    omega
  rw [fit_eq_resize required, Bytes.resize, List.take_left, hshort, List.replicate_zero,
    List.append_nil]

/-- A header of the length that is asked for is left as it is. -/
theorem fit_of_required {d : Dissector} {h : Bytes}
    (required : d.requiredLength h = .ok (some h.length)) : d.fit h = .ok h := by
  have hfit := @fit_append d h [] (by rw [List.append_nil, required])
  rwa [List.append_nil] at hfit

/-! ## §3. Names of payloads. -/

/-- The dissector announces payloads in one field, of the headers for which a
guard holds; what the field cannot say is not written. -/
structure Names {α : Type} (d : Dissector) (guard : Bytes → Prop) (field : Field α)
    (name : α → Discriminant) : Prop where
  law : field.Lawful
  covers : ∀ {h : Bytes}, guard h → field.stop ≤ h.length
  stable : ∀ {h : Bytes} (v : α), guard h → guard (field.put v h)
  writes : ∀ {h : Bytes} (v : α), guard h → d.setNext h (name v) = .ok (field.put v h)
  refuses : ∀ {h : Bytes} (v : α), ¬ guard h → d.setNext h (name v) = .ok h
  ignores : ∀ (h : Bytes) {o : Discriminant}, (∀ v, o ≠ name v) → d.setNext h o = .ok h

namespace Names

variable {α : Type} {d : Dissector} {guard : Bytes → Prop} {field : Field α}
  {name : α → Discriminant}

/-- A name that is written into the headers that a format accepts. -/
theorem of_guarded {format : HeaderFormat} (law : field.Lawful)
    (covers : ∀ {h : Bytes}, format.accepts h = true → field.stop ≤ h.length)
    (stable : ∀ {h : Bytes} (v : α), format.accepts h = true → format.accepts (field.put v h) = true)
    (writes : ∀ (h : Bytes) (v : α), d.setNext h (name v) = format.guarded h h (field.set v h))
    (ignores : ∀ (h : Bytes) {o : Discriminant}, (∀ v, o ≠ name v) → d.setNext h o = .ok h) :
    d.Names (format.accepts · = true) field name where
  law := law
  covers := covers
  stable := stable
  writes v accepted := by
    rw [writes, HeaderFormat.guarded_set_eq law covers, if_pos accepted]
  refuses v refused := (writes _ v).trans (HeaderFormat.guarded_of_refused refused _ _)
  ignores := ignores

/-- A name that is written into every header with room for it. -/
theorem of_room (law : field.Lawful)
    (writes : ∀ (h : Bytes) (v : α),
      d.setNext h (name v) = if field.stop ≤ h.length then field.set v h else .ok h)
    (ignores : ∀ (h : Bytes) {o : Discriminant}, (∀ v, o ≠ name v) → d.setNext h o = .ok h) :
    d.Names (field.stop ≤ ·.length) field name where
  law := law
  covers covers := covers
  stable v covers := (Field.length_put law covers v).symm ▸ covers
  writes v covers := by rw [writes, if_pos covers, Field.set_eq_put law covers]
  refuses v short := (writes _ v).trans (if_neg short)
  ignores := ignores

/-- What `setNext` does: it writes the name, or leaves the header alone. -/
theorem cases (n : d.Names guard field name) (h : Bytes) (o : Discriminant) :
    (∃ v, o = name v ∧ guard h ∧ d.setNext h o = .ok (field.put v h))
      ∨ ((∀ v, o = name v → ¬ guard h) ∧ d.setNext h o = .ok h) := by
  -- another kind of name, a header that cannot hold it, or a write
  by_cases named : ∃ v, o = name v
  · obtain ⟨v, rfl⟩ := named
    by_cases hg : guard h
    · exact .inl ⟨v, rfl, hg, n.writes v hg⟩
    · exact .inr ⟨fun _ _ => hg, n.refuses v hg⟩
  · exact .inr ⟨fun v hv => absurd ⟨v, hv⟩ named, n.ignores h fun v hv => named ⟨v, hv⟩⟩

theorem succeeds (n : d.Names guard field name) (h : Bytes) (o : Discriminant) :
    ∃ h', d.setNext h o = .ok h' ∧ h'.length = h.length := by
  rcases n.cases h o with ⟨v, _, hg, hset⟩ | ⟨_, hset⟩
  · exact ⟨_, hset, Field.length_put n.law (n.covers hg) v⟩
  · exact ⟨h, hset, rfl⟩

/-- A name that was written is there. -/
theorem again (n : d.Names guard field name) {h h' : Bytes} {o : Discriminant}
    (ok : d.setNext h o = .ok h') : d.setNext h' o = .ok h' := by
  rcases n.cases h o with ⟨v, rfl, hg, hset⟩ | ⟨_, hset⟩
  · rw [hset] at ok
    injection ok with ok
    subst ok
    rw [n.writes v (n.stable v hg), Field.put_put n.law (n.covers hg)]
  · rw [hset] at ok
    injection ok with ok
    rw [← ok]
    exact hset

end Names

/-! ## §4. Derived fields. -/

/-- The dissector brings headers up to date if a guard holds for them, and
leaves the others alone. -/
structure Derives (d : Dissector) (guard : Bytes → Prop) (work : Context → Bytes → Bytes) :
    Prop where
  works : ∀ {h : Bytes} (cx : Context), guard h → d.recompute h cx = .ok (work cx h)
  refuses : ∀ {h : Bytes} (cx : Context), ¬ guard h → d.recompute h cx = .ok h
  length : ∀ {h : Bytes} (cx : Context), guard h → (work cx h).length = h.length
  stable : ∀ {h : Bytes} (cx : Context), guard h → guard (work cx h)
  again : ∀ {h : Bytes} (cx : Context), guard h → work cx (work cx h) = work cx h

namespace Derives

variable {d : Dissector} {guard : Bytes → Prop} {work : Context → Bytes → Bytes}

/-- What `recompute` does: it works on the header, or leaves it alone. -/
theorem cases (r : d.Derives guard work) {h h' : Bytes} {cx : Context}
    (ok : d.recompute h cx = .ok h') : guard h ∧ h' = work cx h ∨ ¬ guard h ∧ h' = h := by
  by_cases hg : guard h
  · rw [r.works cx hg] at ok
    injection ok with ok
    exact .inl ⟨hg, ok.symm⟩
  · rw [r.refuses cx hg] at ok
    injection ok with ok
    exact .inr ⟨hg, ok.symm⟩

theorem succeeds (r : d.Derives guard work) (h : Bytes) (cx : Context) :
    ∃ h', d.recompute h cx = .ok h' ∧ h'.length = h.length := by
  by_cases hg : guard h
  · exact ⟨_, r.works cx hg, r.length cx hg⟩
  · exact ⟨h, r.refuses cx hg, rfl⟩

theorem recompute_again (r : d.Derives guard work) {h h' : Bytes} {cx : Context}
    (ok : d.recompute h cx = .ok h') : d.recompute h' cx = .ok h' := by
  rcases r.cases ok with ⟨hg, rfl⟩ | ⟨hg, rfl⟩
  · rw [r.works cx (r.stable cx hg), r.again cx hg]
  · exact ok

end Derives

/-- A name is there in every header with the same window. -/
theorem Names.setNext_of_window {α : Type} {d : Dissector} {guard : Bytes → Prop} {field : Field α}
    {name : α → Discriminant} (n : d.Names guard field name) {h h' : Bytes} {o : Discriminant}
    (keeps : guard h' ↔ guard h) (window : guard h → field.window h' = field.window h)
    (ok : d.setNext h o = .ok h) : d.setNext h' o = .ok h' := by
  -- what is not a name of this kind, or finds no room, is ignored in both headers
  by_cases named : ∃ v, o = name v
  · obtain ⟨v, rfl⟩ := named
    by_cases hg : guard h
    · have hg' := keeps.2 hg
      have hholds := (n.writes v hg).symm.trans ok
      injection hholds with hholds
      have hholds' := Field.Holds.of_window n.law (n.covers hg) (n.covers hg') (window hg) hholds
      rw [n.writes v hg']
      exact congrArg Except.ok hholds'
    · exact n.refuses v fun hg' => hg (keeps.1 hg')
  · exact n.ignores h' fun v hv => named ⟨v, hv⟩

/-- A header that names its payload in a field leads where one with the same
window led. -/
theorem Names.leads_of_window {α : Type} {d : Dissector} {guard : Bytes → Prop} {field : Field α}
    {name : α → Discriminant} (n : d.Names guard field name) {h h' payload : Bytes}
    {o : Discriminant} (keeps : guard h' ↔ guard h) (window : field.window h' = field.window h)
    (reads : d.next h payload = .ok (some (name (field.value h))))
    (reads' : d.next h' payload = .ok (some (name (field.value h'))))
    (leads : d.Leads h payload o) : d.Leads h' payload o := by
  -- the name is read from the header, or was there before it was written
  rcases leads with hnext | hset
  · have hsame : field.value h' = field.value h := by rw [Field.value_eq, Field.value_eq, window]
    exact .inl (by rw [reads', hsame, ← reads, hnext])
  · exact .inr (n.setNext_of_window keeps (fun _ => window) hset)

/-! ## §5. Dissectors of little to say. -/

/-- A dissector that derives nothing and lends nothing. -/
theorem Lawful.of_nothing_derived {d : Dissector} (total : d.Total)
    (derives : ∀ h cx, d.recompute h cx = .ok h)
    (setNext_again : ∀ {h h' : Bytes} {o : Discriminant}, d.setNext h o = .ok h' →
      d.setNext h' o = .ok h')
    (leads_payload : ∀ {h payload payload' : Bytes} {o : Discriminant}, d.Leads h payload o →
      d.Leads h payload' o)
    (whole_fits : ∀ {h : Bytes}, d.Whole h → d.fit h = .ok h)
    (whole_setNext : ∀ {h h' : Bytes} {o : Discriminant}, d.Whole h → d.setNext h o = .ok h' →
      ∃ h'', d.fit h' = .ok h'' ∧ d.Whole h'' ∧ d.setNext h'' o = .ok h'') : d.Lawful where
  total := total
  setNext_again := setNext_again
  recompute_again := fun _ => derives _ _
  recompute_leads := by
    intro h h' payload cx o _ ok leads
    rw [derives] at ok
    injection ok with ok
    subst ok
    exact leads
  leads_payload := leads_payload
  whole_fits := whole_fits
  whole_setNext := whole_setNext
  whole_recompute := by
    intro h h' cx whole ok
    rw [derives] at ok
    injection ok with ok
    subst ok
    exact ⟨whole, rfl⟩

/-- A dissector that says nothing about its payload. -/
structure Quiet (d : Dissector) : Prop where
  next : ∀ h payload, d.next h payload = .ok none
  isSealed : ∀ h, d.sealed h = .ok false
  setNext : ∀ h o, d.setNext h o = .ok h
  pseudoHeader : ∀ h, d.pseudoHeader h = .ok none

/-- What is left to ask of a quiet dissector. -/
theorem Lawful.of_quiet {d : Dissector} {guard : Bytes → Prop} {work : Context → Bytes → Bytes}
    (quiet : d.Quiet) (r : d.Derives guard work)
    (payloadLength : ∀ h available, ∃ n, d.payloadLength h available = .ok n)
    (requiredLength : ∀ h, ∃ n, d.requiredLength h = .ok n)
    (checksumValid : ∀ h cx, ∃ v, d.checksumValid h cx = .ok v)
    (whole_fits : ∀ {h : Bytes}, d.Whole h → d.fit h = .ok h)
    (whole_work : ∀ {h : Bytes} (cx : Context), guard h → d.Whole h → d.Whole (work cx h)) :
    d.Lawful where
  total := {
    payloadLength := payloadLength
    next := fun h payload => ⟨none, quiet.next h payload⟩
    isSealed := fun h => ⟨false, quiet.isSealed h⟩
    setNext := fun h o => ⟨h, quiet.setNext h o, rfl⟩
    pseudoHeader := fun h => ⟨none, quiet.pseudoHeader h⟩
    requiredLength := requiredLength
    recompute := r.succeeds
    checksumValid := checksumValid }
  setNext_again := fun _ => quiet.setNext _ _
  recompute_again := r.recompute_again
  recompute_leads := fun _ _ _ => .inr (quiet.setNext _ _)
  leads_payload := fun _ => .inr (quiet.setNext _ _)
  whole_fits := whole_fits
  whole_setNext := by
    intro h h' o whole ok
    rw [quiet.setNext] at ok
    injection ok with ok
    subst ok
    exact ⟨h, whole_fits whole, whole, quiet.setNext _ _⟩
  whole_recompute := by
    intro h h' cx whole ok
    rw [quiet.pseudoHeader, quiet.pseudoHeader]
    rcases r.cases ok with ⟨hg, rfl⟩ | ⟨_, rfl⟩
    · exact ⟨whole_work cx hg whole, rfl⟩
    · exact ⟨whole, rfl⟩

/-- What holds of a header still does when a payload is named, if the field can
be written under it. -/
theorem Names.preserves {α : Type} {d : Dissector} {guard : Bytes → Prop} {field : Field α}
    {name : α → Discriminant} (n : d.Names guard field name) {P : Bytes → Prop}
    (stays : ∀ {h : Bytes} (v : α), guard h → P h → P (field.put v h)) {h h' : Bytes}
    {o : Discriminant} (holds : P h) (ok : d.setNext h o = .ok h') : P h' := by
  -- either the field is written or nothing is
  rcases n.cases h o with ⟨v, _, hg, hset⟩ | ⟨_, hset⟩
  · rw [hset] at ok
    injection ok with ok
    rw [← ok]
    exact stays v hg holds
  · rw [hset] at ok
    injection ok with ok
    rw [← ok]
    exact holds

/-- Where the length alone makes a header whole, one that is told a name stays
whole. -/
theorem Names.whole_put {α : Type} {d : Dissector} {guard : Bytes → Prop} {field : Field α}
    {name : α → Discriminant} (n : d.Names guard field name) {size : Nat}
    (whole_iff : ∀ {h : Bytes}, d.Whole h ↔ h.length = size) {h : Bytes} (v : α) (holds : guard h)
    (whole : d.Whole h) : d.Whole (field.put v h) :=
  whole_iff.2 ((Field.length_put n.law (n.covers holds) v).trans (whole_iff.1 whole))

/-- A header that stays whole when it names a payload has its length
already. -/
theorem Names.whole_setNext {α : Type} {d : Dissector} {guard : Bytes → Prop} {field : Field α}
    {name : α → Discriminant} (n : d.Names guard field name)
    (whole_fits : ∀ {h : Bytes}, d.Whole h → d.fit h = .ok h)
    (stays : ∀ {h : Bytes} (v : α), guard h → d.Whole h → d.Whole (field.put v h))
    {h h' : Bytes} {o : Discriminant} (whole : d.Whole h) (ok : d.setNext h o = .ok h') :
    ∃ h'', d.fit h' = .ok h'' ∧ d.Whole h'' ∧ d.setNext h'' o = .ok h'' := by
  have hwhole := n.preserves stays whole ok
  exact ⟨h', whole_fits hwhole, hwhole, n.again ok⟩

/-! ## §6. Headers that say how long they are. -/

/-- A header says in its first bytes how long it is, at least some length, and
is accepted if there are that many bytes. -/
structure Sized (d : Dissector) (f : HeaderFormat) (size : Bytes → Nat) (least : Nat) : Prop where
  accepts : ∀ {h : Bytes}, f.accepts h = true ↔ least ≤ size h ∧ size h ≤ h.length
  length : ∀ h : Bytes, d.headerLength h = (f.check h).map fun _ => size h
  /-- The first bytes decide. -/
  append : ∀ {h : Bytes}, least ≤ h.length → ∀ rest, size (h ++ rest) = size h

namespace Sized

variable {d : Dissector} {f : HeaderFormat} {size : Bytes → Nat} {least : Nat}
  (s : d.Sized f size least) {h : Bytes}

include s

theorem headerLength_eq_ok {n : Nat} :
    d.headerLength h = .ok n ↔ f.accepts h = true ∧ n = size h := by
  rw [s.length, map_eq_ok, HeaderFormat.accepts_iff]
  constructor
  · rintro ⟨_, hcheck, rfl⟩
    exact ⟨hcheck, rfl⟩
  · rintro ⟨hcheck, rfl⟩
    exact ⟨(), hcheck, rfl⟩

/-- A whole header is as long as it says. -/
theorem whole_iff : d.Whole h ↔ least ≤ h.length ∧ size h = h.length := by
  constructor
  · rintro ⟨rest, hrest⟩
    obtain ⟨accepted, hlength⟩ := s.headerLength_eq_ok.1 hrest
    obtain ⟨hleast, _⟩ := s.accepts.1 accepted
    rw [← hlength] at hleast
    rw [s.append hleast] at hlength
    exact ⟨hleast, hlength.symm⟩
  · rintro ⟨long, hlength⟩
    refine ⟨[], s.headerLength_eq_ok.2 ?_⟩
    rw [List.append_nil, s.accepts]
    omega

theorem accepts_of_whole (whole : d.Whole h) : f.accepts h = true := by
  obtain ⟨long, hlength⟩ := s.whole_iff.1 whole
  rw [s.accepts]
  omega

/-- Where a whole header ends does not depend on what is behind it. -/
theorem reads (whole : d.Whole h) (rest : Bytes) : d.headerLength (h ++ rest) = .ok h.length := by
  obtain ⟨long, hlength⟩ := s.whole_iff.1 whole
  rw [s.headerLength_eq_ok, s.accepts, s.append long, hlength, List.length_append]
  omega

theorem nonempty (some_byte : 0 < least) (whole : d.Whole h) : h ≠ [] :=
  List.ne_nil_of_length_pos (Nat.lt_of_lt_of_le some_byte (s.whole_iff.1 whole).1)

end Sized

/-- Bytes that are too few to say a length are refused. -/
theorem Sized.of_stated {d : Dissector} {f : HeaderFormat} {size? : Bytes → Option Nat}
    {least : Nat} (positive : 0 < least)
    (accepts : ∀ {h : Bytes}, f.accepts h = true ↔ ∃ n, size? h = some n ∧ n ≤ h.length)
    (length : ∀ h : Bytes, d.headerLength h = f.check h >>= fun _ => .ok ((size? h).getD 0))
    (long : ∀ {h : Bytes} {n : Nat}, size? h = some n → least ≤ n)
    (append : ∀ {h : Bytes}, least ≤ h.length → ∀ rest, size? (h ++ rest) = size? h) :
    d.Sized f (fun h => (size? h).getD 0) least where
  accepts {h} := by
    rw [accepts]
    cases hasks : size? h with
    | none => simp [Nat.ne_of_gt positive]
    | some n => simp [long hasks]
  length h := by
    rw [length]
    cases f.check h <;> rfl
  append {h} hlong rest := by rw [append hlong]

/-- A whole header says its own length. -/
theorem Sized.whole_iff_stated {d : Dissector} {f : HeaderFormat} {size? : Bytes → Option Nat}
    {least : Nat} (s : d.Sized f (fun h => (size? h).getD 0) least) (positive : 0 < least)
    (long : ∀ {h : Bytes} {n : Nat}, size? h = some n → least ≤ n) {h : Bytes} :
    d.Whole h ↔ size? h = some h.length := by
  rw [s.whole_iff]
  cases hasks : size? h with
  | none =>
    simp only [Option.getD_none, reduceCtorEq, iff_false]
    omega
  | some n =>
    have hn := long hasks
    simp only [Option.getD_some, Option.some.injEq]
    omega

/-- A header of a fixed format always says the same. -/
theorem sized_fixed {d : Dissector} {kind : LayerKind} {size : Nat}
    (length : d.headerLength = (HeaderFormat.fixed kind size).fixedLength size) :
    d.Sized (.fixed kind size) (fun _ => size) size where
  accepts := HeaderFormat.accepts_fixed.trans (and_iff_right (Nat.le_refl size)).symm
  length h := congrFun length h
  append _ _ := rfl

/-- A whole header of a fixed format is as long as the format says. -/
theorem whole_fixed {d : Dissector} {kind : LayerKind} {size : Nat}
    (length : d.headerLength = (HeaderFormat.fixed kind size).fixedLength size) {h : Bytes} :
    d.Whole h ↔ h.length = size := by
  rw [(sized_fixed length).whole_iff]
  omega

end Dissector

end PacketLayers
