/-
  PacketLayers.Proofs.Registration
  ────────────────────────────────
  **THE LAST CALL ABOUT A DISCRIMINANT DECIDES.**

  A registry is built up by calls, in any order and as often as one likes: a
  discriminant is registered, or marked as not implemented, or all of its
  number space has to be known.  What becomes of a payload is decided by the
  last call that names its discriminant, and where no call does, by whether
  one names the number space.

    • `Tables` — a registry that is kept as three tables, which every call has
      to keep consistent;
    • `Tables.holds_after` — after any calls it holds what the log of the calls
      says;
    • `Registry.lookup_of_lastAbout`, `lookup_of_untold` — what the log says;
    • `Registry.fate_of_announced` — what the decoder makes of a payload;
    • `Registry.obeys_calls` — put together, for every run of calls on a new
      registry or that of the library.
-/
import PacketLayers.Proofs.Dispatch
import Std.Data.HashMap
import Std.Data.HashSet

namespace PacketLayers

/-! ## §1. Calls. -/

namespace Registry

/-- A call that changes a registry. -/
inductive Call where
  | register (o : Discriminant) (d : Dissector)
  | markUnimplemented (o : Discriminant)
  | requireKnown (space : NumberSpace)

namespace Call

/-- The discriminant that a call names. -/
def about? : Call → Option Discriminant
  | register o _ => some o
  | markUnimplemented o => some o
  | requireKnown _ => none

/-- Whether a call names a discriminant or its number space. -/
def concerns (o : Discriminant) : Call → Bool
  | register o' _ => o' = o
  | markUnimplemented o' => o' = o
  | requireKnown space => space = o.space

end Call

/-- The registry after a call. -/
def apply (r : Registry) : Call → Registry
  | .register o d => r.register o d
  | .markUnimplemented o => r.markUnimplemented o
  | .requireKnown space => r.requireKnown space

/-- The registry after some calls. -/
def after (r : Registry) (calls : List Call) : Registry := calls.foldl apply r

/-- The last of the calls that name a discriminant. -/
def LastAbout (calls : List Call) (o : Discriminant) (c : Call) : Prop :=
  ∃ before later, calls = before ++ c :: later ∧ c.about? = some o
    ∧ ∀ c' ∈ later, c'.about? ≠ some o

/-- No call names the discriminant. -/
def Untold (calls : List Call) (o : Discriminant) : Prop := ∀ c ∈ calls, c.about? ≠ some o

/-- The calls that make the registry of the library. -/
def standardCalls : List Call :=
  standardDissectors.map (fun entry => .register entry.1 entry.2)
    ++ [.requireKnown .link, .requireKnown .loopbackFamily, .requireKnown .ipVersion]

variable {r r' : Registry} {calls : List Call} {o : Discriminant} {c : Call}

theorem after_append (r : Registry) (before later : List Call) :
    r.after (before ++ later) = (r.after before).after later :=
  List.foldl_append

theorem standard_eq_after : standard = empty.after standardCalls := by
  unfold standardCalls
  rw [after_append]
  unfold after
  rw [List.foldl_map]
  rfl

/-- A discriminant is named, and then for the last time, or it is not. -/
theorem lastAbout_or_untold (calls : List Call) (o : Discriminant) :
    (∃ c, LastAbout calls o c) ∨ Untold calls o := by
  -- from the last call backwards
  induction calls using List.reverseRecOn with
  | nil => exact .inr fun c listed => absurd listed List.not_mem_nil
  | append_singleton calls c ih =>
    by_cases named : c.about? = some o
    · exact .inl ⟨c, calls, [], rfl, named, fun c' listed => absurd listed List.not_mem_nil⟩
    rcases ih with ⟨last, before, later, rfl, hlast, hlater⟩ | untold
    · refine .inl ⟨last, before, later ++ [c], by simp, hlast, fun c' listed => ?_⟩
      rcases List.mem_append.1 listed with listed | listed
      · exact hlater c' listed
      · exact List.mem_singleton.1 listed ▸ named
    · refine .inr fun c' listed => ?_
      rcases List.mem_append.1 listed with listed | listed
      · exact untold c' listed
      · exact List.mem_singleton.1 listed ▸ named

/-! ## §2. What the log of the calls says. -/

/-- The instruction in front is found under its own discriminant only. -/
theorem lookup_told (told : List (Discriminant × Instruction)) (o o' : Discriminant)
    (i : Instruction) : ((o', i) :: told).lookup o = if o' = o then some i else told.lookup o := by
  by_cases same : o' = o
  · rw [if_pos same, same, List.lookup_cons_self]
  · rw [if_neg same, List.lookup_cons, beq_false_of_ne (Ne.symm same)]

/-- A call that names another discriminant leaves the instruction alone. -/
theorem lookup_apply_of_ne (other : c.about? ≠ some o) :
    (r.apply c).instructions.lookup o = r.instructions.lookup o := by
  cases c with
  | register o' d => exact (lookup_told _ o o' _).trans (if_neg fun same => other (congrArg some same))
  | markUnimplemented o' =>
    exact (lookup_told _ o o' _).trans (if_neg fun same => other (congrArg some same))
  | requireKnown space => rfl

/-- So do any number of them. -/
theorem lookup_of_untold (untold : Untold calls o) :
    (r.after calls).instructions.lookup o = r.instructions.lookup o := by
  induction calls generalizing r with
  | nil => rfl
  | cons c rest ih =>
    have hrest := ih (r := r.apply c) fun c' listed => untold c' (List.mem_cons_of_mem c listed)
    exact hrest.trans (lookup_apply_of_ne (untold c List.mem_cons_self))

/-- **The last call that names a discriminant** leaves its instruction. -/
theorem lookup_of_lastAbout (last : LastAbout calls o c) :
    (r.after calls).instructions.lookup o = match c with
      | .register _ d => some (.dissect d)
      | .markUnimplemented _ => some .refuse
      | .requireKnown _ => none := by
  obtain ⟨before, later, rfl, named, untold⟩ := last
  have hlater : (r.after (before ++ c :: later)).instructions.lookup o
      = ((r.after before).apply c).instructions.lookup o := by
    rw [after_append]
    exact lookup_of_untold (r := (r.after before).apply c) untold
  rw [hlater]
  cases c with
  | register o' d =>
    obtain rfl := Option.some.inj named
    exact List.lookup_cons_self
  | markUnimplemented o' =>
    obtain rfl := Option.some.inj named
    exact List.lookup_cons_self
  | requireKnown space => cases named

/-- What one kind of call brings about, and none undoes, holds after some calls
if it held before them or one of them is that call. -/
theorem holds_after_iff {P : Registry → Prop} {bringer : Call}
    (step : ∀ r c, P (r.apply c) ↔ bringer = c ∨ P r) :
    P (r.after calls) ↔ bringer ∈ calls ∨ P r := by
  induction calls generalizing r with
  | nil => exact (or_iff_right List.not_mem_nil).symm
  | cons c rest ih =>
    calc P ((r.apply c).after rest)
      _ ↔ bringer ∈ rest ∨ P (r.apply c) := ih
      _ ↔ bringer ∈ rest ∨ bringer = c ∨ P r := by rw [step]
      _ ↔ bringer ∈ c :: rest ∨ P r := by rw [List.mem_cons, or_left_comm, or_assoc]

/-- The number spaces that have to be known are those that were named. -/
theorem mem_strict_after {space : NumberSpace} :
    space ∈ (r.after calls).strict ↔ .requireKnown space ∈ calls ∨ space ∈ r.strict := by
  refine holds_after_iff (P := fun r => space ∈ r.strict) fun r c => ?_
  cases c <;> simp [apply, register, markUnimplemented, requireKnown]

/-- What payloads are decoded by was registered. -/
theorem dissect_mem_after {d : Dissector} :
    (o, .dissect d) ∈ (r.after calls).instructions
      ↔ .register o d ∈ calls ∨ (o, .dissect d) ∈ r.instructions := by
  refine holds_after_iff (P := fun r => (o, Instruction.dissect d) ∈ r.instructions) fun r c => ?_
  cases c <;> simp [apply, register, markUnimplemented, requireKnown]

/-- Dissectors that answer were registered. -/
theorem answers_after (answers : ∀ o d, .register o d ∈ calls → d.Answers) :
    (empty.after calls).Uses Dissector.Answers := by
  rintro ⟨o, instruction⟩ listed d rfl
  rcases dissect_mem_after.1 listed with called | before
  · exact answers o d called
  · exact absurd before List.not_mem_nil

/-! ## §3. Other calls do not matter. -/

/-- Two registries that treat a discriminant alike. -/
structure Alike (o : Discriminant) (r r' : Registry) : Prop where
  instruction : r.instructions.lookup o = r'.instructions.lookup o
  strict : o.space ∈ r.strict ↔ o.space ∈ r'.strict

theorem Alike.lookup? (alike : Alike o r r') : r.lookup? o = r'.lookup? o := by
  unfold Registry.lookup?
  rw [alike.instruction]

theorem Alike.resolve (alike : Alike o r r') : r.resolve o = r'.resolve o := by
  unfold Registry.resolve
  simp only [alike.instruction, List.contains_iff_mem, alike.strict]

/-- A call treats alike what was alike. -/
theorem Alike.apply (alike : Alike o r r') (c : Call) : Alike o (r.apply c) (r'.apply c) := by
  obtain ⟨instruction, strict⟩ := alike
  cases c with
  | register o' d =>
    exact ⟨by simp only [Registry.apply, register, List.lookup_cons, instruction], strict⟩
  | markUnimplemented o' =>
    exact ⟨by simp only [Registry.apply, markUnimplemented, List.lookup_cons, instruction], strict⟩
  | requireKnown space =>
    exact ⟨instruction, by simp only [Registry.apply, requireKnown, List.mem_cons, strict]⟩

/-- A call about something else changes nothing. -/
theorem alike_apply (elsewhere : c.concerns o = false) : Alike o (r.apply c) r := by
  cases c with
  | register o' d =>
    have hne : o' ≠ o := of_decide_eq_false elsewhere
    exact ⟨lookup_apply_of_ne fun same => hne (Option.some.inj same), .rfl⟩
  | markUnimplemented o' =>
    have hne : o' ≠ o := of_decide_eq_false elsewhere
    exact ⟨lookup_apply_of_ne fun same => hne (Option.some.inj same), .rfl⟩
  | requireKnown space =>
    have hne : o.space ≠ space := fun same => of_decide_eq_false elsewhere same.symm
    exact ⟨rfl, (List.mem_cons.trans (or_iff_right hne))⟩

/-- **Only the calls about a discriminant count,** in their order. -/
theorem Alike.after_filter (alike : Alike o r r') (calls : List Call) :
    Alike o (r.after calls) (r'.after (calls.filter (·.concerns o))) := by
  induction calls generalizing r r' with
  | nil => exact alike
  | cons c rest ih =>
    cases hconcerns : c.concerns o with
    | true =>
      rw [List.filter_cons_of_pos hconcerns]
      exact ih (alike.apply c)
    | false =>
      rw [List.filter_cons_of_neg (by simp [hconcerns])]
      have hstep := alike_apply (r := r) hconcerns
      exact ih ⟨hstep.instruction.trans alike.instruction, hstep.strict.trans alike.strict⟩

/-- Calls that differ in others only are alike. -/
theorem alike_of_filter {calls' : List Call}
    (same : calls.filter (·.concerns o) = calls'.filter (·.concerns o)) :
    Alike o (empty.after calls) (empty.after calls') := by
  have refl : Alike o empty empty := ⟨rfl, .rfl⟩
  have here := refl.after_filter calls
  have there := refl.after_filter calls'
  rw [← same] at there
  exact ⟨here.instruction.trans there.instruction.symm, here.strict.trans there.strict.symm⟩

end Registry

/-! ## §4. Three tables. -/


/-- A registry that is kept as three tables in place of a log. -/
structure Tables where
  /-- The dissectors of the registered discriminants. -/
  dissectors : Std.HashMap Discriminant Dissector
  /-- The discriminants that are marked as not implemented. -/
  unimplemented : Std.HashSet Discriminant
  /-- The number spaces in which every discriminant has to be known. -/
  strict : Std.HashSet NumberSpace

namespace Tables

open Registry (Call)

def empty : Tables := ⟨∅, ∅, ∅⟩

/-- A call: registering takes the mark away, and marking the dissector. -/
def apply (t : Tables) : Call → Tables
  | .register o d =>
    { t with dissectors := t.dissectors.insert o d, unimplemented := t.unimplemented.erase o }
  | .markUnimplemented o =>
    { t with dissectors := t.dissectors.erase o, unimplemented := t.unimplemented.insert o }
  | .requireKnown space => { t with strict := t.strict.insert space }

def after (t : Tables) (calls : List Call) : Tables := calls.foldl apply t

/-- The dissector that a discriminant stands for. -/
def lookup? (t : Tables) (o : Discriminant) : Option Dissector := t.dissectors[o]?

/-- What becomes of payloads announced by a discriminant: the first table that
knows it decides. -/
def resolve (t : Tables) (o : Discriminant) : Verdict :=
  match t.lookup? o with
  | some d => .dissect d
  | none => if t.unimplemented.contains o || t.strict.contains o.space then .refuse else .keep

/-- The tables hold what a log says. -/
structure Holds (t : Tables) (r : Registry) : Prop where
  dissectors : ∀ o, t.dissectors[o]? = r.lookup? o
  unimplemented : ∀ o, o ∈ t.unimplemented ↔ r.instructions.lookup o = some .refuse
  strict : ∀ space, space ∈ t.strict ↔ space ∈ r.strict

variable {t : Tables} {r : Registry}

theorem holds_empty : Holds empty .empty where
  dissectors _ := Std.HashMap.getElem?_empty
  unimplemented _ := iff_of_false Std.HashSet.not_mem_empty (fun told => nomatch told)
  strict _ := iff_of_false Std.HashSet.not_mem_empty List.not_mem_nil

/-- **Every call keeps the tables consistent.** -/
theorem Holds.apply (holds : Holds t r) (c : Call) : Holds (t.apply c) (r.apply c) := by
  obtain ⟨dissectors, unimplemented, strict⟩ := holds
  -- a call about one name leaves what the tables say of the others
  cases c with
  | register o d =>
    refine ⟨fun o' => ?_, fun o' => ?_, strict⟩
    · simp only [Tables.apply, Std.HashMap.getElem?_insert, dissectors, beq_iff_eq,
        Registry.apply, Registry.register, Registry.lookup?, Registry.lookup_told]
      by_cases same : o = o' <;> simp [same]
    · simp only [Tables.apply, Std.HashSet.mem_erase, unimplemented, beq_eq_false_iff_ne,
        Registry.apply, Registry.register, Registry.lookup_told]
      by_cases same : o = o' <;> simp [same]
  | markUnimplemented o =>
    refine ⟨fun o' => ?_, fun o' => ?_, strict⟩
    · simp only [Tables.apply, Std.HashMap.getElem?_erase, dissectors, beq_iff_eq,
        Registry.apply, Registry.markUnimplemented, Registry.lookup?, Registry.lookup_told]
      by_cases same : o = o' <;> simp [same]
    · simp only [Tables.apply, Std.HashSet.mem_insert, unimplemented, beq_iff_eq,
        Registry.apply, Registry.markUnimplemented, Registry.lookup_told]
      by_cases same : o = o' <;> simp [same]
  | requireKnown space =>
    refine ⟨dissectors, unimplemented, fun space' => ?_⟩
    simp only [Tables.apply, Std.HashSet.mem_insert, strict, beq_iff_eq,
      Registry.apply, Registry.requireKnown, List.mem_cons]
    rw [@eq_comm _ space]

/-- **After any calls the tables hold what the log of the calls says.** -/
theorem holds_after (holds : Holds t r) (calls : List Call) :
    Holds (t.after calls) (r.after calls) := by
  induction calls generalizing t r with
  | nil => exact holds
  | cons c rest ih => exact ih (holds.apply c)

/-- So both decide alike. -/
theorem Holds.resolve (holds : Holds t r) (o : Discriminant) : t.resolve o = r.resolve o := by
  have hdissector := holds.dissectors o
  have hmark := holds.unimplemented o
  have hstrict := holds.strict o.space
  unfold Tables.resolve Tables.lookup? Registry.resolve
  rw [hdissector]
  unfold Registry.lookup?
  cases hlog : r.instructions.lookup o with
  | none => simp_all
  | some instruction => cases instruction <;> simp_all

end Tables

/-! ## §5. What becomes of a payload. -/

namespace Registry

variable {r : Registry} {calls : List Call} {o : Discriminant} {child : Dissector}
  {out : Decoding} {p : Packet} {depth : Nat} {l : Layer} {failure : Option Error}

/-- The layer at a depth of a decoded buffer announces its payload by a
discriminant, and there is room for another layer. -/
structure Announced (r : Registry) (out : Decoding) (p : Packet) (depth : Nat) (l : Layer)
    (o : Discriminant) : Prop where
  decoded : ∃ d origin data hasFcs, r.decodeFrom d origin data hasFcs = .ok out
  packet : out.packet? = some p
  layer : p.layers[depth]? = some l
  deep : depth + 1 < maxDepth
  /-- The payload is not empty, and not sealed. -/
  offers : Offers p.arena l.dissector l.headerSpan l.payloadSpan o

/-- The payload of the layer at a depth stays bytes, and nothing follows it. -/
structure StaysRaw (out : Decoding) (p : Packet) (depth : Nat) (l : Layer)
    (failure : Option Error) : Prop where
  innermost : p.layers[depth + 1]? = none
  body : p.body = some (.shared l.payloadSpan)
  error : out.error? = failure

/-- A dissector is given the payload of the layer at a depth: it becomes a layer
if its header can be read, and otherwise decoding fails as the dissector
does. -/
inductive Given (out : Decoding) (p : Packet) (depth : Nat) (l : Layer) (o : Discriminant)
    (child : Dissector) : Prop where
  | decoded (m : Layer) (inside : p.layers[depth + 1]? = some m) (dissector : m.dissector = child)
      (origin : m.origin = some o)
      (cut : Cut p.arena child l.payloadSpan m.headerSpan m.payloadSpan m.paddingSpan)
  | failed (e : Error) (fails : HeaderFails p.arena child l.payloadSpan e)
      (raw : StaysRaw out p depth l (some e))

/-- A header can be read or it cannot. -/
theorem fits_or_fails (arena : Bytes) (d : Dissector) (span : Span) :
    HeaderFits arena d span ∨ ∃ e, HeaderFails arena d span e := by
  cases hlength : d.headerLength (span.bytesOf arena) with
  | error e => exact .inr ⟨e, .inl hlength⟩
  | ok size =>
    by_cases room : size ≤ span.length
    · exact .inl ⟨size, hlength, room⟩
    · exact .inr ⟨.truncated, .inr ⟨rfl, size, hlength, Nat.lt_of_not_le room⟩⟩

/-- The rules for a layer that announces its payload. -/
theorem Announced.follows (announced : r.Announced out p depth l o) :
    ∃ frame, ∀ depth' l', p.layers[depth']? = some l' →
      r.Follows p.arena frame (maxDepth - 1) ⟨p.layers, p.body, out.error?⟩ depth' l' := by
  obtain ⟨d, origin, data, hasFcs, decoded⟩ := announced.decoded
  obtain ⟨frame, _, harena, _, _, follows, _⟩ :=
    ((decodeFrom_follows r d origin data hasFcs).2 out decoded).2 p announced.packet
  exact ⟨frame, harena.symm ▸ follows⟩

/-- Where nothing follows, the payload stays bytes. -/
theorem Announced.staysRaw (announced : r.Announced out p depth l o)
    (innermost : p.layers[depth + 1]? = none)
    (error : ∀ e, failure = some e ↔ r.FailsIn p.arena (maxDepth - 1) depth l e) :
    StaysRaw out p depth l failure := by
  obtain ⟨frame, follows⟩ := announced.follows
  have here := follows depth l announced.layer
  refine ⟨innermost, ?_, Option.ext fun e => ?_⟩
  · have hbody : p.body = rawBody l.payloadSpan := here.body innermost
    rw [hbody, rawBody, if_neg announced.offers.nonempty]
  · exact (here.failure innermost e).trans (error e).symm

/-- A payload whose discriminant stands for no dissector stays bytes. -/
theorem Announced.staysRaw_of_unregistered (announced : r.Announced out p depth l o)
    (unregistered : r.lookup? o = none)
    (error : ∀ e, failure = some e ↔ r.Refuses o ∧ e = .notImplemented) :
    StaysRaw out p depth l failure := by
  obtain ⟨frame, follows⟩ := announced.follows
  have room : depth < maxDepth - 1 := Nat.lt_sub_of_add_lt announced.deep
  refine announced.staysRaw ?_ fun e => (error e).trans ⟨fun refused => ?_, ?_⟩
  · cases hinside : p.layers[depth + 1]? with
    | none => rfl
    | some m =>
      obtain ⟨o', _, nests⟩ := (follows depth l announced.layer).sound m hinside
      obtain rfl := announced.offers.unique nests.offers
      cases unregistered.symm.trans nests.stands
  · exact ⟨o, announced.offers, room, .inl refused⟩
  · rintro ⟨o', offers, _, refused | ⟨child, stands, _⟩⟩
    · obtain rfl := announced.offers.unique offers
      exact refused
    · obtain rfl := announced.offers.unique offers
      cases unregistered.symm.trans stands

/-- A payload whose discriminant stands for a dissector is given to it. -/
theorem Announced.given (announced : r.Announced out p depth l o)
    (registered : r.lookup? o = some child) : Given out p depth l o child := by
  obtain ⟨frame, follows⟩ := announced.follows
  have here := follows depth l announced.layer
  have room : depth < maxDepth - 1 := Nat.lt_sub_of_add_lt announced.deep
  -- the registered dissector can read the payload, and so did, or it cannot
  rcases fits_or_fails p.arena child l.payloadSpan with fits | ⟨e, fails⟩
  · obtain ⟨m, inside, hchild, horigin⟩ :=
      here.complete o child ⟨announced.offers, room, registered, fits⟩
    have hcut := (follows (depth + 1) m inside).cut
    have hspan : spanAt frame p.layers (depth + 1) = l.payloadSpan := by
      simp only [spanAt, announced.layer, Option.map_some, Option.getD_some]
    rw [hchild] at hcut
    exact .decoded m inside hchild horigin (hspan ▸ hcut)
  · -- no other dissector could have been asked
    have only : ∀ {o' child'}, Offers p.arena l.dissector l.headerSpan l.payloadSpan o' →
        r.lookup? o' = some child' → child' = child := by
      intro o' child' offers stands
      obtain rfl := announced.offers.unique offers
      exact Option.some.inj (stands.symm.trans registered)
    refine .failed e fails (announced.staysRaw ?_ fun e' => ⟨fun he => ?_, ?_⟩)
    · cases hinside : p.layers[depth + 1]? with
      | none => rfl
      | some m =>
        obtain ⟨o', _, nests⟩ := here.sound m hinside
        have hfits := nests.fits
        rw [only nests.offers nests.stands] at hfits
        exact absurd fails hfits.not_fails
    · exact Option.some.inj he ▸ ⟨o, announced.offers, room, .inr ⟨child, registered, fails⟩⟩
    · rintro ⟨o', offers, _, ⟨refused, _⟩ | ⟨child', stands, fails'⟩⟩
      · obtain rfl := announced.offers.unique offers
        have hrefuse := resolve_eq_refuse.2 refused
        cases (resolve_eq_dissect.2 registered).symm.trans hrefuse
      · rw [only offers stands] at fails'
        exact congrArg some (fails.unique fails')

/-! ## §6. Registries obey the calls that made them. -/

/-- **What calls say, holds of the registry they make.** -/
structure Obeys (r : Registry) (calls : List Call) : Prop where
  /-- The log decides as three tables do. -/
  tables : ∀ o, (Tables.empty.after calls).lookup? o = r.lookup? o
    ∧ (Tables.empty.after calls).resolve o = r.resolve o
  /-- Some call is the last that names a discriminant, or none names it. -/
  decided : ∀ o, (∃ d, LastAbout calls o (.register o d)) ∨ LastAbout calls o (.markUnimplemented o)
    ∨ Untold calls o
  /-- A discriminant that was registered last stands for its dissector, and all
  payloads announced by it are given to that. -/
  registered : ∀ o d, LastAbout calls o (.register o d) → r.lookup? o = some d
    ∧ ∀ out p depth l, r.Announced out p depth l o → Given out p depth l o d
  /-- One that was marked last, or that should be known, stands for none, and
  the payloads announced by it fail decoding. -/
  refused : ∀ o, LastAbout calls o (.markUnimplemented o)
      ∨ Untold calls o ∧ .requireKnown o.space ∈ calls →
    r.lookup? o = none ∧ ∀ out p depth l, r.Announced out p depth l o →
      StaysRaw out p depth l (some .notImplemented)
  /-- Any other stands for none, and the payloads announced by it stay bytes. -/
  unknown : ∀ o, Untold calls o → .requireKnown o.space ∉ calls →
    r.lookup? o = none ∧ ∀ out p depth l, r.Announced out p depth l o → StaysRaw out p depth l none
  /-- Calls about something else do not matter. -/
  others : ∀ o calls', calls.filter (·.concerns o) = calls'.filter (·.concerns o) →
    r.lookup? o = (empty.after calls').lookup? o ∧ r.resolve o = (empty.after calls').resolve o
  /-- Buffers are decoded to some result, if the dissectors answer. -/
  answers : (∀ o d, .register o d ∈ calls → d.Answers) → ∀ root : Dissector, root.Answers →
    ∀ origin data hasFcs, ∃ out, r.decodeFrom root origin data hasFcs = .ok out

/-- The call that is the last to name a discriminant names it. -/
theorem LastAbout.cases {c : Call} (last : LastAbout calls o c) :
    (∃ d, c = .register o d) ∨ c = .markUnimplemented o := by
  obtain ⟨_, _, _, named, _⟩ := last
  cases c with
  | register o' d => exact .inl ⟨d, congrArg (Call.register · d) (Option.some.inj named)⟩
  | markUnimplemented o' => exact .inr (congrArg Call.markUnimplemented (Option.some.inj named))
  | requireKnown space => cases named

theorem obeys_after (calls : List Call) : Obeys (empty.after calls) calls where
  tables o := by
    have holds := Tables.holds_after Tables.holds_empty calls
    exact ⟨holds.dissectors o, holds.resolve o⟩
  decided o := by
    -- the last call about a name decides, if there was one
    rcases lastAbout_or_untold calls o with ⟨c, last⟩ | untold
    · rcases last.cases with ⟨d, rfl⟩ | rfl
      · exact .inl ⟨d, last⟩
      · exact .inr (.inl last)
    · exact .inr (.inr untold)
  registered o d last := by
    have hlookup : (empty.after calls).lookup? o = some d := by
      simp only [lookup?, lookup_of_lastAbout last]
    exact ⟨hlookup, fun out p depth l announced => announced.given hlookup⟩
  refused o told := by
    have hrefuses : (empty.after calls).Refuses o := by
      rcases told with last | ⟨untold, strict⟩
      · exact .inl (lookup_of_lastAbout last)
      · exact .inr ⟨lookup_of_untold untold, mem_strict_after.2 (.inl strict)⟩
    have hlookup : (empty.after calls).lookup? o = none := by
      rcases hrefuses with hmarked | ⟨hnone, _⟩
      · simp only [lookup?, hmarked]
      · simp only [lookup?, hnone]
    refine ⟨hlookup, fun out p depth l announced => announced.staysRaw_of_unregistered hlookup ?_⟩
    exact fun e => by simp only [hrefuses, true_and, Option.some.injEq, eq_comm]
  unknown o untold lax := by
    have hnone : (empty.after calls).instructions.lookup o = none := lookup_of_untold untold
    have hlookup : (empty.after calls).lookup? o = none := by simp only [lookup?, hnone]
    have hkept : ¬ (empty.after calls).Refuses o := by
      rintro (marked | ⟨_, strict⟩)
      · cases hnone.symm.trans marked
      · exact (mem_strict_after.1 strict).elim lax List.not_mem_nil
    refine ⟨hlookup, fun out p depth l announced => announced.staysRaw_of_unregistered hlookup ?_⟩
    exact fun e => by simp only [hkept, false_and, reduceCtorEq]
  others o calls' same := ⟨(alike_of_filter same).lookup?, (alike_of_filter same).resolve⟩
  answers answers root answersRoot origin data hasFcs :=
    decodeFrom_succeeds answersRoot (answers_after answers) origin data hasFcs

/-- **A registry obeys the last call about a discriminant.**  It does so after
any calls on a new registry, and after any calls on that of the library, whose
own registrations count as earlier calls. -/
theorem obeys_calls (calls : List Call) : Obeys (empty.after calls) calls
    ∧ Obeys (standard.after calls) (standardCalls ++ calls) := by
  refine ⟨obeys_after calls, ?_⟩
  rw [standard_eq_after, ← after_append]
  exact obeys_after (standardCalls ++ calls)

/-- A protocol that was marked first is decoded once it is registered, and one of
the library is refused once it is marked. -/
theorem obeys_calls_remarked :
    ∃ r, r = standard.after [.markUnimplemented (.ip (.unknown 253)),
        .register (.ip (.unknown 253)) Udp.dissector, .markUnimplemented (.ip .tcp)]
      ∧ r.lookup? (.ip (.unknown 253)) = some Udp.dissector ∧ r.lookup? (.ip .tcp) = none
      ∧ ∃ out p l, r.Announced out p 0 l (.ip .tcp)
        ∧ StaysRaw out p 0 l (some .notImplemented) := by
  obtain ⟨_, obeys⟩ := obeys_calls [.markUnimplemented (.ip (.unknown 253)),
    .register (.ip (.unknown 253)) Udp.dissector, .markUnimplemented (.ip .tcp)]
  obtain ⟨hregistered, _⟩ := obeys.registered (.ip (.unknown 253)) Udp.dissector
    ⟨standardCalls ++ [.markUnimplemented (.ip (.unknown 253))], [.markUnimplemented (.ip .tcp)],
      by simp, rfl, by simp [Call.about?]⟩
  obtain ⟨hmarked, stays⟩ := obeys.refused (.ip .tcp)
    (.inl ⟨standardCalls ++ [.markUnimplemented (.ip (.unknown 253)),
      .register (.ip (.unknown 253)) Udp.dissector], [], by simp, rfl, by simp⟩)
  have announced : (standard.after [.markUnimplemented (.ip (.unknown 253)),
      .register (.ip (.unknown 253)) Udp.dissector, .markUnimplemented (.ip .tcp)]).Announced _ _ 0 _
      (.ip .tcp) :=
    ⟨⟨Ipv4.dissector, none, [0x45, 0, 0, 21, 0, 0, 0, 0, 64, 6] ++ List.replicate 11 0, false, rfl⟩,
      rfl, rfl, by decide, ⟨by decide, rfl, rfl⟩⟩
  exact ⟨_, rfl, hregistered, hmarked, _, _, _, announced, stays _ _ _ _ announced⟩

/-- A number is no name: a dissector registered for it does not take the place of
IPv4. -/
example : (standard.after [.register (.etherType (.unknown 0x0800)) Udp.dissector]).lookup?
    (.etherType .ipv4) = some Ipv4.dissector := rfl

end Registry

end PacketLayers
