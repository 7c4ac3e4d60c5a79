/-
  PacketLayers.Proofs.Recompute
  ────────────────────────────────
  **BRINGING A PACKET UP TO DATE IS A MATTER OF ITS BYTES.**

  The pass over all layers reads and writes regions.  The same pass on plain
  bytes is written here, and the two agree: both fail alike, or the packet
  that results is the plain packet that results, with its regions still laid
  out and nothing around them changed.

    • `recomputeAll_agrees` — the pass over layers;
    • `Packet.recompute_agrees` — the whole packet;
    • `Packet.recompute_succeeds` — dissectors that keep their promises never
      make it fail.
-/
import PacketLayers.Proofs.Serialize

namespace PacketLayers

/-! ## §1. The pass on plain bytes. -/

/-- New bytes in the place of as many old ones. -/
def Bytes.exchange (old new : Bytes) : Access Bytes :=
  if new.length ≠ old.length then .error .lengthMismatch else .ok new

namespace Dissector

/-- The header, with the layer inside announced unless it leads there
already. -/
def announce (d : Dissector) (header : Bytes) (inside : Option PlainLayer) : Access Bytes :=
  match inside with
  | none => .ok header
  | some child =>
    match child.origin with
    | none => .ok header
    | some origin => do
      if (← d.next header child.header) = some origin then return header
      else header.exchange (← d.setNext header origin)

/-- The header at the length that its fields ask for. -/
def fit (d : Dissector) (header : Bytes) : Access Bytes := do
  match ← d.requiredLength header with
  | none => return header
  | some size => return header.resize size

/-- The header with derived fields up to date. -/
def refresh (d : Dissector) (header : Bytes) (cx : Context) : Access Bytes := do
  header.exchange (← d.recompute header cx)

end Dissector

namespace PlainLayer

/-- Bring layers up to date, from the outermost in and from the innermost
out. -/
def recomputeAll (mode : ChecksumMode) (body : Option Bytes) :
    Option PseudoHeader → List PlainLayer → Access (List PlainLayer)
  | _, [] => .ok []
  | pseudo, l :: inner => do
    let header ← l.dissector.announce l.header inner.head?
    let header ← l.dissector.fit header
    let lent ← l.dissector.pseudoHeader header
    let inner ← recomputeAll mode body lent inner
    let header ← l.dissector.refresh header ⟨wire inner body, pseudo, mode⟩
    return { l with header := header } :: inner

end PlainLayer

namespace PlainPacket

/-- The frame check sequence that the layers call for, if there is one. -/
def updateFcs (p : PlainPacket) : PlainPacket :=
  { p with fcs := p.fcs.map fun _ =>
      (Bytes.ofNat fcsLength (Crc32.crc32 (PlainLayer.wire p.layers p.body)).toNat).reverse }

/-- Bring the packet up to date. -/
def recompute (p : PlainPacket) (mode : ChecksumMode) : Access PlainPacket := do
  let layers ← PlainLayer.recomputeAll mode p.body none p.layers
  match mode with
  | .fill => return { p with layers := layers }.updateFcs
  | .keep => return { p with layers := layers }

end PlainPacket

/-! ## §2. One header. -/

namespace Layer

/-- A layer with a new header in the place of its own: it holds the new bytes,
and no region elsewhere has changed. -/
structure Reheaded (arena : Bytes) (l : Layer) (out : Bytes × Layer) (new : Bytes) : Prop where
  same : ∃ header, out.2 = { l with header := header }
  bytes : out.2.header.bytes out.1 = new
  laidOut : ∀ front back : List Region, Region.LaidOut arena (front ++ l.header :: back) →
    Region.LaidOut out.1 (front ++ out.2.header :: back)
  around : ∀ front back : List Region, Region.LaidOut arena (front ++ l.header :: back) →
    ∀ r, r ∈ front ∨ r ∈ back → r.bytes out.1 = r.bytes arena

variable {arena : Bytes} {l : Layer}

theorem Reheaded.refl (arena : Bytes) (l : Layer) :
    Reheaded arena l (arena, l) (l.header.bytes arena) :=
  ⟨⟨l.header, rfl⟩, rfl, fun _ _ h => h, fun _ _ _ _ _ => rfl⟩

/-- Nothing but the header is new. -/
theorem Reheaded.shape_eq {out : Bytes × Layer} {new : Bytes} (h : Reheaded arena l out new) :
    out.2.dissector = l.dissector ∧ out.2.origin = l.origin ∧ out.2.padding = l.padding := by
  obtain ⟨header, hsame⟩ := h.same
  rw [hsame]
  exact ⟨rfl, rfl, rfl⟩

/-- A write into the header is an exchange of bytes. -/
theorem store_agrees (inside : l.header.Inside arena) (new : Bytes) :
    Agrees (Reheaded arena l)
      (l.header.store arena new >>= fun (arena, header) => .ok (arena, { l with header := header }))
      ((l.header.bytes arena).exchange new) := by
  unfold Bytes.exchange
  by_cases hfits : new.length = (l.header.bytes arena).length
  · obtain ⟨⟨arena', header⟩, hout⟩ := Region.store_succeeds inside hfits
    rw [if_neg (by omega), hout]
    refine .ok ⟨⟨header, rfl⟩, Region.bytes_store inside hout, fun _ _ h => h.store hout, ?_⟩
    intro front back h r hr
    obtain ⟨hfront, hback⟩ := h.contents_store_around hout
    rcases hr with hr | hr
    · exact List.map_inj_left.1 hfront r hr
    · exact List.map_inj_left.1 hback r hr
  · have hstore : l.header.store arena new = .error .lengthMismatch := by
      unfold Region.store
      rw [if_pos hfits]
    rw [if_pos hfits, hstore]
    exact .error _

theorem announce_agrees (inside : l.header.Inside arena) (child : Option Layer) :
    Agrees (Reheaded arena l) (l.announce arena child)
      (l.dissector.announce (l.header.bytes arena) (child.map (plain arena))) := by
  cases child with
  | none => exact .ok (Reheaded.refl arena l)
  | some child =>
    cases horigin : child.origin with
    | none =>
      simp only [announce, Dissector.announce, Option.map_some, plain, horigin]
      exact .ok (Reheaded.refl arena l)
    | some origin =>
      simp only [announce, Dissector.announce, Option.map_some, plain, horigin]
      refine (Agrees.refl _).bind fun stated stated' hstated => ?_
      subst hstated
      split
      · exact .ok (Reheaded.refl arena l)
      · refine (Agrees.refl _).bind fun new new' hnew => ?_
        subst hnew
        exact store_agrees inside new

theorem fit_agrees (inside : l.header.Inside arena) :
    Agrees (fun out new => Reheaded arena l (arena, out) new) (l.fit arena)
      (l.dissector.fit (l.header.bytes arena)) := by
  unfold fit Dissector.fit
  refine (Agrees.refl _).bind fun size size' hsize => ?_
  subst hsize
  cases size with
  | none => exact .ok (Reheaded.refl arena l)
  | some size =>
    refine .ok ⟨⟨_, rfl⟩, Region.bytes_resize inside size, fun front back h => ?_,
      fun _ _ _ _ _ => rfl⟩
    -- a header of another length no longer shares the arena
    apply h.of_sublist (Nat.le_refl _)
    simp only [Region.spans_append, Region.spans_cons]
    refine List.Sublist.append_left (List.Sublist.append_right ?_ _) _
    unfold Region.resize
    split
    · exact List.Sublist.refl _
    · exact List.nil_sublist _

theorem recompute_agrees (inside : l.header.Inside arena) (cx : Context) :
    Agrees (Reheaded arena l) (l.recompute arena cx)
      (l.dissector.refresh (l.header.bytes arena) cx) := by
  unfold recompute Dissector.refresh
  refine (Agrees.refl _).bind fun new new' hnew => ?_
  subst hnew
  exact store_agrees inside new

end Layer

/-! ## §3. All layers. -/

namespace Layer

/-- The regions of a layer seen from its header. -/
theorem regions_at_header (front : List Region) (l : Layer) (inner : List Layer)
    (body : Option Region) (back : List Region) :
    front ++ wireRegions (l :: inner) body ++ back
      = front ++ l.header :: (wireRegions inner body ++ l.padding :: back) := by
  simp [wireRegions]

/-- Layers that were brought up to date: they have become the plain layers,
still laid out, and no region around or inside them has changed. -/
structure Refreshed (arena : Bytes) (body : Option Region) (layers : List Layer)
    (out : Bytes × List Layer) (new : List PlainLayer) : Prop where
  plain : out.2.map (Layer.plain out.1) = new
  laidOut : ∀ front back : List Region,
    Region.LaidOut arena (front ++ wireRegions layers body ++ back) →
      Region.LaidOut out.1 (front ++ wireRegions out.2 body ++ back)
  around : ∀ front back : List Region,
    Region.LaidOut arena (front ++ wireRegions layers body ++ back) →
      ∀ r, (r ∈ front ∨ r ∈ back) ∨ r ∈ body.toList → r.bytes out.1 = r.bytes arena

theorem Refreshed.body_eq {arena : Bytes} {body : Option Region} {layers : List Layer}
    {out : Bytes × List Layer} {new : List PlainLayer} (h : Refreshed arena body layers out new)
    (laid : Region.LaidOut arena (wireRegions layers body)) :
    body.map (Region.bytes out.1) = body.map (Region.bytes arena) := by
  cases body with
  | none => rfl
  | some b =>
    exact congrArg some (h.around [] [] (by simpa using laid) b (.inr List.mem_cons_self))

/-- The body lies inside all layers. -/
theorem mem_wireRegions_of_body {body : Option Region} {r : Region} (hr : r ∈ body.toList)
    (layers : List Layer) : r ∈ wireRegions layers body := by
  induction layers with
  | nil => exact hr
  | cons l inner ih => exact List.mem_cons_of_mem _ (List.mem_append_left _ ih)

namespace Refreshed

/-! The three header steps of a layer and the pass inside it, put together. -/

section Cons

variable {arena arena₁ arena₂ arena₃ : Bytes} {body : Option Region} {l l₁ l₂ l₃ : Layer}
  {inner inner' : List Layer} {h₁ h₂ h₃ : Bytes} {new : List PlainLayer} {front back : List Region}
  (announced : Reheaded arena l (arena₁, l₁) h₁) (fitted : Reheaded arena₁ l₁ (arena₁, l₂) h₂)
  (inside : Refreshed arena₁ body inner (arena₂, inner') new)
  (finished : Reheaded arena₂ l₂ (arena₃, l₃) h₃)

include announced fitted inside finished

/-- The regions stay laid out from step to step. -/
theorem laidOut_steps (h : Region.LaidOut arena (front ++ wireRegions (l :: inner) body ++ back)) :
    Region.LaidOut arena (front ++ l.header :: (wireRegions inner body ++ l.padding :: back))
      ∧ Region.LaidOut arena₁
        ((front ++ [l₂.header]) ++ wireRegions inner body ++ (l.padding :: back))
      ∧ Region.LaidOut arena₂
        (front ++ l₂.header :: (wireRegions inner' body ++ l.padding :: back))
      ∧ Region.LaidOut arena₃
        (front ++ l₃.header :: (wireRegions inner' body ++ l.padding :: back)) := by
  rw [regions_at_header] at h
  have hfit := fitted.laidOut _ _ (announced.laidOut _ _ h)
  have hmiddle : front ++ l₂.header :: (wireRegions inner body ++ l.padding :: back)
      = (front ++ [l₂.header]) ++ wireRegions inner body ++ (l.padding :: back) := by simp
  have hfinish := inside.laidOut _ _ (hmiddle ▸ hfit)
  have hback : (front ++ [l₂.header]) ++ wireRegions inner' body ++ (l.padding :: back)
      = front ++ l₂.header :: (wireRegions inner' body ++ l.padding :: back) := by simp
  rw [hback] at hfinish
  exact ⟨h, hmiddle ▸ hfit, hfinish, finished.laidOut _ _ hfinish⟩

/-- What is around the layer keeps its bytes, and so does its padding. -/
theorem around_steps (h : Region.LaidOut arena (front ++ wireRegions (l :: inner) body ++ back))
    {r : Region} (hr : r ∈ front ∨ r ∈ l.padding :: back) : r.bytes arena₃ = r.bytes arena := by
  obtain ⟨hlaid, hlaid₁, hlaid₂, _⟩ := laidOut_steps announced fitted inside finished h
  have hside : ∀ layers : List Layer, r ∈ front ∨ r ∈ wireRegions layers body ++ l.padding :: back :=
    fun _ => hr.imp_right (List.mem_append_right _)
  have hmiddle : (r ∈ front ++ [l₂.header] ∨ r ∈ l.padding :: back) ∨ r ∈ body.toList :=
    .inl (hr.imp_left (List.mem_append_left _))
  rw [finished.around _ _ hlaid₂ r (hside _), inside.around _ _ hlaid₁ r hmiddle,
    announced.around _ _ hlaid r (hside _)]

/-- The body lies behind every header, and keeps its bytes. -/
theorem body_steps (h : Region.LaidOut arena (front ++ wireRegions (l :: inner) body ++ back))
    {r : Region} (hr : r ∈ body.toList) : r.bytes arena₃ = r.bytes arena := by
  obtain ⟨hlaid, hlaid₁, hlaid₂, _⟩ := laidOut_steps announced fitted inside finished h
  have hbehind : ∀ layers : List Layer, r ∈ wireRegions layers body ++ l.padding :: back :=
    fun layers => List.mem_append_left _ (mem_wireRegions_of_body hr layers)
  rw [finished.around _ _ hlaid₂ r (.inr (hbehind _)), inside.around _ _ hlaid₁ r (.inr hr),
    announced.around _ _ hlaid r (.inr (hbehind _))]

theorem cons (laid : Region.LaidOut arena (wireRegions (l :: inner) body)) :
    Refreshed arena body (l :: inner) (arena₃, l₃ :: inner')
      (⟨l.dissector, l.origin, h₃, l.padding.bytes arena⟩ :: new) := by
  obtain ⟨hd₁, ho₁, hp₁⟩ := announced.shape_eq
  obtain ⟨hd₂, ho₂, hp₂⟩ := fitted.shape_eq
  obtain ⟨hd₃, ho₃, hp₃⟩ := finished.shape_eq
  simp only at hd₁ ho₁ hp₁ hd₂ ho₂ hp₂ hd₃ ho₃ hp₃
  have hpadding : l₃.padding = l.padding := by rw [hp₃, hp₂, hp₁]
  -- the plain form, the regions in place, and the bytes around them
  refine ⟨?_, fun front back h => ?_, fun front back h r hr => ?_⟩
  · have laid' : Region.LaidOut arena ([] ++ wireRegions (l :: inner) body ++ []) := by
      simpa using laid
    obtain ⟨_, _, hlaid₂, _⟩ := laidOut_steps announced fitted inside finished laid'
    have hinner : inner'.map (Layer.plain arena₃) = inner'.map (Layer.plain arena₂) :=
      (plain_of_bytes_eq fun r hr =>
        finished.around _ _ hlaid₂ r (.inr (List.mem_append_left _ hr))).1
    have hpad := around_steps announced fitted inside finished laid' (.inr List.mem_cons_self)
    have hheader : l₃.header.bytes arena₃ = h₃ := finished.bytes
    rw [List.map_cons, hinner, inside.plain, Layer.plain, hpadding, hpad, hheader, hd₃, hd₂, hd₁,
      ho₃, ho₂, ho₁]
  · obtain ⟨_, _, _, hdone⟩ := laidOut_steps announced fitted inside finished h
    rw [regions_at_header, hpadding]
    exact hdone
  · rcases hr with hr | hr
    · exact around_steps announced fitted inside finished h
        (hr.imp_right (List.mem_cons_of_mem _))
    · exact body_steps announced fitted inside finished h hr

end Cons

end Refreshed

/-- **Bringing layers up to date** reads and writes nothing but their bytes. -/
theorem recomputeAll_agrees (mode : ChecksumMode) (body : Option Region) (layers : List Layer) :
    ∀ {arena : Bytes} (pseudo : Option PseudoHeader),
      Region.LaidOut arena (wireRegions layers body) →
        Agrees (Refreshed arena body layers) (recomputeAll mode body arena pseudo layers)
          (PlainLayer.recomputeAll mode (body.map (Region.bytes arena)) pseudo
            (layers.map (plain arena))) := by
  -- on the layers; every step happens in the buffer that the one before it left
  induction layers with
  | nil =>
    intro arena pseudo _
    exact .ok ⟨rfl, fun _ _ h => h, fun _ _ _ _ _ => rfl⟩
  | cons l inner ih =>
    intro arena pseudo laid
    have hchild : (inner.map (plain arena)).head? = inner.head?.map (plain arena) :=
      List.head?_map
    rw [recomputeAll, List.map_cons, PlainLayer.recomputeAll, hchild]
    have hheader : l.header.Inside arena := laid.inside_of_mem List.mem_cons_self
    refine (announce_agrees hheader inner.head?).bind fun ⟨arena₁, l₁⟩ h₁ announced => ?_
    have laid₁ := announced.laidOut [] _ laid
    have hheader₁ : l₁.header.Inside arena₁ := laid₁.inside_of_mem List.mem_cons_self
    have hfit := fit_agrees hheader₁
    have hbytes₁ : l₁.header.bytes arena₁ = h₁ := announced.bytes
    have hd₁ : l₁.dissector = l.dissector := announced.shape_eq.1
    rw [hbytes₁, hd₁] at hfit
    refine hfit.bind fun l₂ h₂ fitted => ?_
    have laid₂ := fitted.laidOut [] _ laid₁
    have hbytes₂ : l₂.header.bytes arena₁ = h₂ := fitted.bytes
    have hd₂ : l₂.dissector = l.dissector := fitted.shape_eq.1.trans hd₁
    simp only [hbytes₂, hd₂]
    refine (Agrees.refl _).bind fun lent lent' hlent => ?_
    subst hlent
    -- nothing inside has seen that this header was written
    have hsame := plain_of_bytes_eq fun r (hr : r ∈ wireRegions inner body) =>
      announced.around [] _ laid r (.inr (List.mem_append_left _ hr))
    have laidInner : Region.LaidOut arena₁ (wireRegions inner body) :=
      Region.LaidOut.left (laid₂.right (List.singleton_append.symm)) rfl
    have hinner := ih lent laidInner
    rw [hsame.1, hsame.2] at hinner
    refine hinner.bind fun ⟨arena₂, inner'⟩ new inside => ?_
    have laid₂' : Region.LaidOut arena₁
        ([l₂.header] ++ wireRegions inner body ++ [l.padding]) := by simpa using laid₂
    have laid₃ := inside.laidOut _ _ laid₂'
    -- nor has this header seen what was written inside
    have hbytes₃ : l₂.header.bytes arena₂ = h₂ := by
      rw [inside.around _ _ laid₂' l₂.header (.inl (.inl List.mem_cons_self)), hbytes₂]
    have hbody := inside.body_eq laidInner
    have hpayload : Region.joined arena₂ (wireRegions inner' body)
        = PlainLayer.wire new (body.map (Region.bytes arena)) := by
      have laidDone : Region.LaidOut arena₂ (wireRegions inner' body) :=
        Region.LaidOut.right (Region.LaidOut.left laid₃ rfl) rfl
      rw [laidDone.joined_eq, concat_wireRegions, inside.plain, hbody, hsame.2]
    have hheader₃ : l₂.header.Inside arena₂ := laid₃.inside_of_mem (by simp)
    have hfinish := recompute_agrees hheader₃ ⟨Region.joined arena₂ (wireRegions inner' body),
      pseudo, mode⟩
    rw [hbytes₃, hd₂, hpayload] at hfinish
    simp only [hpayload]
    refine hfinish.bind fun ⟨arena₃, l₃⟩ h₃ finished => ?_
    exact .ok (Refreshed.cons announced fitted inside finished laid)

end Layer

/-! ## §4. Packets. -/

namespace Packet

/-- The frame check sequence can always be stored. -/
theorem updateFcs_spec {p : Packet} (h : p.LaidOut) :
    ∃ q, p.updateFcs = .ok q ∧ q.LaidOut ∧ q.plain = p.plain.updateFcs
      ∧ q.stale = p.stale := by
  obtain ⟨arena, layers, body, fcs, stale⟩ := p
  cases fcs with
  | none => exact ⟨_, rfl, h, rfl, rfl⟩
  | some r =>
    have hinside : r.Inside arena := h.inside_of_mem (by simp [allRegions])
    -- the sequence keeps its place, or has one of its own outside the buffer
    have laid : Region.LaidOut arena
        (Layer.wireRegions layers body ++ r.resize arena fcsLength :: []) := by
      apply h.of_sublist (Nat.le_refl _)
      simp only [allRegions, Option.toList_some, Region.spans_append, Region.spans_cons]
      refine List.Sublist.append_left (List.Sublist.append_right ?_ _) _
      unfold Region.resize
      split
      · exact List.Sublist.refl _
      · exact List.nil_sublist _
    have hlength : ((r.resize arena fcsLength).bytes arena).length = fcsLength := by
      rw [Region.length_bytes laid.inside_middle, Region.length_resize]
    have hnew : ∀ crc : UInt32,
        (Bytes.ofNat fcsLength crc.toNat).reverse.length
          = ((r.resize arena fcsLength).bytes arena).length := by
      intro crc
      rw [List.length_reverse, Bytes.length_ofNat, hlength]
    obtain ⟨⟨arena', r'⟩, hout⟩ := Region.store_succeeds laid.inside_middle
      (hnew (Packet.mk arena layers body (some r) stale).computedFcs)
    obtain ⟨haround, _⟩ := laid.contents_store_around hout
    have hsame := Layer.plain_of_bytes_eq fun r hr => List.map_inj_left.1 haround r hr
    refine ⟨⟨arena', layers, body, some r', stale⟩, ?_, laid.store hout, ?_, rfl⟩
    · exact bind_eq_ok.2 ⟨_, hout, rfl⟩
    · have hframe := LaidOut.frameBytes h
      simp only [plain, Option.map_some] at hframe ⊢
      simp only [PlainPacket.updateFcs, Option.map_some, hsame.1, hsame.2,
        Region.bytes_store laid.inside_middle hout, computedFcs, hframe]

/-- A packet that has become some plain packet, and is up to date. -/
structure Fresh (q : Packet) (new : PlainPacket) : Prop where
  laidOut : q.LaidOut
  plain : q.plain = new
  stale : q.stale = false

/-- **Bringing a packet up to date** reads and writes nothing but its bytes. -/
theorem recompute_agrees {p : Packet} (h : p.LaidOut) (mode : ChecksumMode) :
    Agrees Fresh (p.recompute mode) (p.plain.recompute mode) := by
  have laid : Region.LaidOut p.arena (Layer.wireRegions p.layers p.body) :=
    Region.LaidOut.left h rfl
  unfold recompute PlainPacket.recompute
  refine (Layer.recomputeAll_agrees mode p.body p.layers none laid).bind
    fun ⟨arena, layers⟩ new done => ?_
  have laid' : LaidOut { p with arena := arena, layers := layers } := by
    have hout := done.laidOut [] p.fcs.toList h
    simpa [LaidOut, allRegions, wireRegions] using hout
  -- the sequence stands behind the layers, so bringing them up to date leaves it
  have hplain : Packet.plain { p with arena := arena, layers := layers }
      = { p.plain with layers := new } := by
    have hbody := done.body_eq laid
    have hfcs : p.fcs.map (Region.bytes arena) = p.fcs.map (Region.bytes p.arena) := by
      cases hr : p.fcs with
      | none => rfl
      | some r =>
        refine congrArg some (done.around [] p.fcs.toList h r ?_)
        exact .inl (.inr (by simp [hr]))
    simp only [plain, done.plain, hbody, hfcs]
  cases mode with
  | keep =>
    refine .ok ⟨?_, ?_, rfl⟩
    · exact laid'
    · exact hplain
  | fill =>
    obtain ⟨q, hq, hlaid, hbytes, _⟩ := updateFcs_spec laid'
    simp only [hq, ok_bind]
    refine .ok ⟨hlaid, ?_, rfl⟩
    show q.plain = _
    rw [hbytes, hplain]

end Packet

/-! ## §5. Dissectors that keep their promises. -/

/-- A dissector that answers every question, and writes headers of the length
they had. -/
structure Dissector.Total (d : Dissector) : Prop where
  payloadLength : ∀ h available, ∃ n, d.payloadLength h available = .ok n
  next : ∀ h payload, ∃ o, d.next h payload = .ok o
  isSealed : ∀ h, ∃ b, d.sealed h = .ok b
  setNext : ∀ h o, ∃ h', d.setNext h o = .ok h' ∧ h'.length = h.length
  pseudoHeader : ∀ h, ∃ pseudo, d.pseudoHeader h = .ok pseudo
  requiredLength : ∀ h, ∃ n, d.requiredLength h = .ok n
  recompute : ∀ h cx, ∃ h', d.recompute h cx = .ok h' ∧ h'.length = h.length
  checksumValid : ∀ h cx, ∃ v, d.checksumValid h cx = .ok v

theorem Bytes.exchange_eq_ok {old new : Bytes} (h : new.length = old.length) :
    old.exchange new = .ok new := by
  unfold exchange
  rw [if_neg (by omega)]

namespace Dissector.Total

variable {d : Dissector}

theorem announce_succeeds (t : d.Total) (h : Bytes) (inside : Option PlainLayer) :
    ∃ h', d.announce h inside = .ok h' ∧ h'.length = h.length := by
  unfold announce
  split
  · exact ⟨h, rfl, rfl⟩
  · next child =>
    split
    · exact ⟨h, rfl, rfl⟩
    · next origin _ =>
      obtain ⟨stated, hstated⟩ := t.next h child.header
      obtain ⟨h', hset, hlength⟩ := t.setNext h origin
      rw [hstated, ok_bind]
      split
      · exact ⟨h, rfl, rfl⟩
      · exact ⟨h', by rw [hset, ok_bind, Bytes.exchange_eq_ok hlength], hlength⟩

theorem length_announce (t : d.Total) {h h' : Bytes} {inside : Option PlainLayer}
    (ok : d.announce h inside = .ok h') : h'.length = h.length := by
  obtain ⟨new, hnew, hlength⟩ := t.announce_succeeds h inside
  obtain rfl : h' = new := Except.ok.inj (ok.symm.trans hnew)
  exact hlength

theorem length_recompute (t : d.Total) {h h' : Bytes} {cx : Context}
    (ok : d.recompute h cx = .ok h') : h'.length = h.length := by
  obtain ⟨new, hnew, hlength⟩ := t.recompute h cx
  obtain rfl : h' = new := Except.ok.inj (ok.symm.trans hnew)
  exact hlength

theorem fit_succeeds (t : d.Total) (h : Bytes) : ∃ h', d.fit h = .ok h' := by
  obtain ⟨size, hsize⟩ := t.requiredLength h
  unfold fit
  rw [hsize, ok_bind]
  split
  · exact ⟨_, rfl⟩
  · exact ⟨_, rfl⟩

theorem refresh_succeeds (t : d.Total) (h : Bytes) (cx : Context) :
    ∃ h', d.refresh h cx = .ok h' ∧ h'.length = h.length := by
  obtain ⟨h', hok, hlength⟩ := t.recompute h cx
  exact ⟨h', by rw [refresh, hok, ok_bind, Bytes.exchange_eq_ok hlength], hlength⟩

end Dissector.Total

theorem PlainLayer.recomputeAll_succeeds {layers : List PlainLayer}
    (total : ∀ l ∈ layers, l.dissector.Total) (mode : ChecksumMode) (body : Option Bytes) :
    ∀ pseudo, ∃ out, recomputeAll mode body pseudo layers = .ok out := by
  induction layers with
  | nil => exact fun _ => ⟨_, rfl⟩
  | cons l inner ih =>
    intro pseudo
    have t := total l List.mem_cons_self
    obtain ⟨h₁, hannounce, _⟩ := t.announce_succeeds l.header inner.head?
    obtain ⟨h₂, hfit⟩ := t.fit_succeeds h₁
    obtain ⟨lent, hlent⟩ := t.pseudoHeader h₂
    obtain ⟨inner', hinner⟩ := ih (fun m hm => total m (List.mem_cons_of_mem l hm)) lent
    obtain ⟨h₃, hrefresh, _⟩ := t.refresh_succeeds h₂ ⟨wire inner' body, pseudo, mode⟩
    refine ⟨{ l with header := h₃ } :: inner', ?_⟩
    rw [recomputeAll, hannounce, ok_bind, hfit, ok_bind, hlent, ok_bind, hinner, ok_bind,
      hrefresh, ok_bind]
    rfl

/-- **Nothing fails** as long as dissectors keep their promises. -/
theorem Packet.recompute_succeeds {p : Packet} (h : p.LaidOut)
    (total : ∀ l ∈ p.layers, l.dissector.Total) (mode : ChecksumMode) :
    ∃ q, p.recompute mode = .ok q := by
  have htotal : ∀ l ∈ p.plain.layers, l.dissector.Total := by
    intro l hl
    obtain ⟨m, hm, rfl⟩ := List.mem_map.1 hl
    exact total m hm
  obtain ⟨layers, hlayers⟩ := PlainLayer.recomputeAll_succeeds htotal mode p.plain.body none
  have hplain : ∃ new, p.plain.recompute mode = .ok new := by
    unfold PlainPacket.recompute
    rw [hlayers, ok_bind]
    cases mode <;> exact ⟨_, rfl⟩
  obtain ⟨new, hnew⟩ := hplain
  have hagrees := p.recompute_agrees h mode
  rw [hnew] at hagrees
  obtain ⟨q, hq, _⟩ := hagrees.of_ok_right
  exact ⟨q, hq⟩

end PacketLayers
