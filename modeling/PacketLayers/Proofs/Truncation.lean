/-
  PacketLayers.Proofs.Truncation
  ────────────────────────────────
  **A CAPTURE THAT WAS CUT SHORT LOSES LAYERS, AND NEVER CHANGES THEM.**

  Where a buffer ends decides how far decoding gets.  It does not decide what
  is found on the way: every layer found in the first bytes of a buffer is
  found in all of it, of the same protocol and with the same header.

    • `Parts.longer` — one cut, with fewer and with more bytes to cut;
    • `Parses.truncated` — the layers found in fewer bytes;
    • `decode_take` — the same for captured buffers.
-/
import PacketLayers.Proofs.Dispatch
import PacketLayers.Proofs.Parse
import PacketLayers.Proofs.Upfront

namespace PacketLayers

/-! ## §1. Headers. -/

/-- The protocols and headers of layers. -/
def PlainLayer.headers (layers : List PlainLayer) : List (LayerKind × Bytes) :=
  layers.map fun l => (l.kind, l.header)

/-- The protocols and headers of the layers that were decoded; none if not
even the outermost one was. -/
def Decoding.headers (out : Decoding) : List (LayerKind × Bytes) :=
  match out.packet? with
  | some p => p.layers.map fun l => (l.kind, p.header l)
  | none => []

theorem Packet.headers_plain (p : Packet) :
    PlainLayer.headers p.plain.layers = p.layers.map fun l => (l.kind, p.header l) := by
  rw [PlainLayer.headers, plain, List.map_map]
  rfl

namespace Registry

variable {r : Registry} {d : Dissector} {origin : Option Discriminant} {room : Nat}
  {bytes header payload padding bytes' header' payload' padding' : Bytes}
  {found found' : PlainBranch}

/-! ## §2. One layer. -/

/-- A header that ends inside some bytes ends there in more of them. -/
theorem Parts.header_longer (upfront : d.Upfront) (parts : Parts d bytes header payload padding)
    (rest : Bytes) : d.headerLength (bytes ++ rest) = .ok header.length := by
  have hcut := parts.header_length
  cases rest with
  | nil => rw [List.append_nil, hcut]
  | cons x rest =>
    rw [parts.whole] at hcut ⊢
    rw [List.append_assoc]
    exact upfront.reads hcut (by simp)

/-- **Of more bytes the same header is cut,** and the payload begins with what
was cut of fewer. -/
theorem Parts.longer (upfront : d.Upfront) (parts : Parts d bytes header payload padding)
    (parts' : Parts d bytes' header' payload' padding') (longer : bytes <+: bytes') :
    header' = header ∧ payload <+: payload' := by
  obtain ⟨rest, rfl⟩ := longer
  have hlength : header'.length = header.length :=
    Except.ok.inj (parts'.header_length.symm.trans (parts.header_longer upfront rest))
  have hsplit : header' ++ (payload' ++ padding') = header ++ (payload ++ (padding ++ rest)) := by
    rw [← parts'.whole, parts.whole]
    simp only [List.append_assoc]
  obtain ⟨rfl, hbehind⟩ := List.append_inj hsplit hlength
  refine ⟨rfl, ?_⟩
  -- the header states the same length, or takes all there is, both times
  obtain ⟨stated, hstated⟩ := upfront.measures header'
  obtain ⟨n, hn, hcut⟩ := parts.payload_length
  obtain ⟨n', hn', hcut'⟩ := parts'.payload_length
  rw [hstated] at hn hn'
  injection hn with hn
  injection hn' with hn'
  have hbytes := congrArg List.length hbehind
  simp only [List.length_append] at hbytes
  have hle : payload.length ≤ payload'.length := by
    cases stated with
    | none =>
      rw [Option.getD_none] at hn hn'
      omega
    | some s =>
      rw [Option.getD_some] at hn hn'
      omega
  refine List.prefix_of_prefix_length_le ?_ (List.prefix_append payload' padding') hle
  rw [hbehind]
  exact List.prefix_append _ _

/-- A header that can be read can be read in more bytes. -/
theorem Parses.fits_longer (upfront : d.Upfront) (h : Parses r room d origin bytes found)
    (longer : bytes <+: bytes') {e : Error} :
    ¬ HeaderFails bytes' d ⟨0, bytes'.length⟩ e := by
  obtain ⟨header, payload, padding, _, parts, _⟩ := h.first
  obtain ⟨rest, rfl⟩ := longer
  have hfits : HeaderFits (bytes ++ rest) d ⟨0, (bytes ++ rest).length⟩ := by
    refine ⟨header.length, ?_, ?_⟩
    · have hself : Span.bytesOf ⟨0, (bytes ++ rest).length⟩ (bytes ++ rest) = bytes ++ rest :=
        List.take_length
      rw [hself]
      exact parts.header_longer upfront rest
    · rw [parts.whole]
      simp only [List.length_append]
      omega
  exact hfits.not_fails

/-- An offer of the first bytes of a payload is one of all of them. -/
theorem Offered.longer (upfront : d.Upfront) {o : Discriminant}
    (offered : Offered d header payload o) (longer : payload <+: payload') :
    Offered d header payload' o := by
  obtain ⟨rest, rfl⟩ := longer
  refine ⟨by simp [offered.nonempty], offered.unsealed, ?_⟩
  rw [upfront.next header (List.head?_append_of_ne_nil _ offered.nonempty)]
  exact offered.named

/-! ## §3. Layers in layers. -/

/-- A payload that is offered to a dissector that can read it does not stay
bytes. -/
theorem Rests.not_offered {o : Discriminant} {child : Dissector} {failure : Option Error}
    (rests : Rests r (room + 1) d header payload failure) (offered : Offered d header payload o)
    (stands : r.resolve o = .dissect child)
    (fits : ∀ e, ¬ HeaderFails payload child ⟨0, payload.length⟩ e) : False := by
  have hinside : Span.stop ⟨header.length, payload.length⟩ ≤ (header ++ payload).length := by
    simp [Span.stop]
  rw [offered_behind] at offered
  unfold Rests at rests
  -- each reason to stay bytes says that something is not so
  cases rests with
  | empty none => exact offered.nonempty none
  | closed _ closed => cases offered.unsealed.symm.trans closed
  | unnamed _ _ unnamed => cases offered.named.symm.trans unnamed
  | full _ full => cases full
  | unknown offers _ kept =>
    obtain rfl := offers.unique offered
    cases stands.symm.trans kept
  | refused offers _ refused =>
    obtain rfl := offers.unique offered
    cases stands.symm.trans refused
  | unreadable offers _ stands' fails =>
    obtain rfl := offers.unique offered
    obtain rfl := Verdict.dissect.inj (stands.symm.trans stands')
    rw [headerFails_iff hinside, (bytesOf_behind header payload).2] at fails
    exact fits _ fails

/-- **The layers found in the first bytes** are found in all of them. -/
theorem Parses.truncated {known : Dissector → Prop} (uses : r.Uses known)
    (upfront : ∀ d, known d → d.Upfront) (h : Parses r room d origin bytes found) :
    known d → ∀ {bytes' : Bytes} {found' : PlainBranch}, bytes <+: bytes' →
      Parses r room d origin bytes' found' →
        PlainLayer.headers found.layers <+: PlainLayer.headers found'.layers := by
  -- on the rules for fewer bytes, in step with those for more
  induction h with
  | @innermost room d origin bytes header payload padding failure parts _ =>
    intro root bytes' found' longer h'
    obtain ⟨header', _, padding', inner, parts', hlayers⟩ := h'.first
    obtain ⟨rfl, _⟩ := parts.longer (upfront d root) parts' longer
    rw [hlayers]
    exact List.prefix_append [(d.kind, header')] (PlainLayer.headers inner)
  | @around room d child origin o bytes header payload padding inner parts offered stands inside ih =>
    intro root bytes' found' longer h'
    have hchild : known child := uses _ (dissect_mem stands) _ rfl
    cases h' with
    | innermost parts' rests =>
      obtain ⟨rfl, hpayload⟩ := parts.longer (upfront d root) parts' longer
      exact (rests.not_offered (offered.longer (upfront d root) hpayload) stands fun _ =>
        inside.fits_longer (upfront child hchild) hpayload).elim
    | around parts' offered' stands' inside' =>
      obtain ⟨rfl, hpayload⟩ := parts.longer (upfront d root) parts' longer
      have hname := (offered.longer (upfront d root) hpayload).named.symm.trans offered'.named
      obtain rfl := Option.some.inj (Except.ok.inj hname)
      obtain rfl := Verdict.dissect.inj (stands.symm.trans stands')
      exact (List.prefix_cons_inj _).2 (ih hchild hpayload inside')

/-! ## §4. Captured buffers. -/

/-- The headers of a packet that was decoded. -/
theorem headers_decoding {p : Packet} {tail : Option Bytes}
    (plain : p.plain = ⟨found.layers, found.body, tail⟩) :
    (found.decoding p).headers = PlainLayer.headers found.layers := by
  have hheaders := p.headers_plain
  rw [plain] at hheaders
  unfold Decoding.headers
  rw [PlainBranch.packet?_decoding, hheaders]

/-- What is decoded of the first bytes of a buffer. -/
theorem decodeFrom_take {known : Dissector → Prop} (uses : r.Uses known)
    (upfront : ∀ d, known d → d.Upfront) (root : known d) {data : Bytes} {n : Nat}
    {out short : Decoding} (h : r.decodeFrom d origin data false = .ok out)
    (h' : r.decodeFrom d origin (data.take n) false = .ok short) :
    short.headers <+: out.headers := by
  have longer : data.take n <+: data := List.take_prefix n data
  rw [← List.append_nil data] at h
  rw [← List.append_nil (data.take n)] at h'
  -- if the short buffer gives a packet, so does the longer one
  cases hp : short.packet? with
  | none =>
    rw [show short.headers = [] by unfold Decoding.headers; rw [hp]]
    exact List.nil_prefix
  | some p =>
    obtain ⟨found, hparses, rfl, hplain, _⟩ := decodeFrom_parses trails_nil h' hp
    cases hq : out.packet? with
    | none =>
      obtain ⟨e, rfl⟩ := Decoding.eq_refused hq
      exact (hparses.fits_longer (upfront d root) longer
        ((decodeFrom_refused trails_nil).1 h)).elim
    | some q =>
      obtain ⟨found', hparses', rfl, hplain', _⟩ := decodeFrom_parses trails_nil h hq
      rw [headers_decoding hplain, headers_decoding hplain']
      exact hparses.truncated uses upfront root longer hparses'

/-- **A capture that was cut short** is decoded to the first of the layers that
all of it is decoded to, with the same headers. -/
theorem decode_take (link : LinkType) (data : Bytes) (n : Nat) :
    ∃ out short, standard.decode link data false = .ok out
      ∧ standard.decode link (data.take n) false = .ok short
      ∧ short.headers <+: out.headers := by
  obtain ⟨out, hout⟩ := decode_succeeds standard_uses link data false
  obtain ⟨short, hshort⟩ := decode_succeeds standard_uses link (data.take n) false
  refine ⟨out, short, hout, hshort, ?_⟩
  unfold decode at hout hshort
  split at hout
  · next d hd =>
    simp only [hd] at hshort
    exact decodeFrom_take standard_uses (fun _ => Dissector.upfront_of_mem_all)
      (standard_uses _ (dissect_mem hd) d rfl) hout hshort
  · -- nothing is decoded of a link type that is not known
    next hunknown =>
    have hrefused : short = .refused .notImplemented := by
      split at hshort
      · next d hd => exact (hunknown d hd).elim
      · injection hshort with hshort
        exact hshort.symm
    rw [hrefused]
    exact List.nil_prefix

end Registry

end PacketLayers
