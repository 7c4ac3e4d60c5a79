/-
  PacketLayers.Proofs.Options
  ────────────────────────────────
  **OTHER OPTIONS, THE SAME PACKET AROUND THEM.**

  IPv4 and TCP headers end in options, and state their own length in words of
  four bytes.  Other options are put behind the fixed part of the header, filled
  up with zeros to whole words, and the new length is written; nothing of the
  old options is left.  What the header says of its payload is in the fixed
  part, so the packet is decoded as before.

    • `Cursor.replaceOptions_stored` — the header that is written, byte by byte;
    • `Ipv4.exchanges`, `Tcp.exchanges` — it can be exchanged for the old one;
    • `decodeFrom_options` — captured packets, for any options.
-/
import PacketLayers.Proofs.Exchange
import PacketLayers.Proofs.Refusal

namespace PacketLayers

open PacketLayers.Cursor

/-! ## §1. Headers with other options. -/

namespace Cursor

theorem wholeWords_le {size : Nat} : wholeWords size ≤ 40 ↔ size ≤ 40 := by
  unfold wholeWords
  omega

theorem wholeWords_mod (size : Nat) : wholeWords size % 4 = 0 := by
  unfold wholeWords
  omega

end Cursor

namespace Bytes

/-- A header with other options behind its fixed part, in whole words, and with
the length that it then has. -/
def withOptions (headerLength : Field UInt8) (fixed : Nat) (h options : Bytes) : Bytes :=
  headerLength.put (UInt8.ofNat (fixed + wholeWords options.length)) (h.take fixed)
    ++ options.resize (wholeWords options.length)

variable {headerLength : Field UInt8} {fixed : Nat} {options h : Bytes}
  (law : headerLength.Lawful) (covers : headerLength.stop ≤ fixed) (long : fixed ≤ h.length)

include covers long

theorem covers_take : headerLength.stop ≤ (h.take fixed).length := by
  rw [List.length_take]
  omega

include law

theorem length_withOptions :
    (withOptions headerLength fixed h options).length = fixed + wholeWords options.length := by
  rw [withOptions, List.length_append, Field.length_put law (covers_take covers long),
    length_resize, List.length_take, Nat.min_eq_left long]

/-- Other fields of the fixed part keep their value. -/
theorem value_withOptions {α : Type} {f : Field α} (apart : f.Apart headerLength)
    (inside : f.stop ≤ fixed) :
    f.value (withOptions headerLength fixed h options) = f.value h := by
  have hfixed : f.stop ≤ (h.take fixed).length := by
    rw [List.length_take]
    omega
  rw [withOptions, Field.value_append, Field.value_put_of_apart law (covers_take covers long) apart,
    Field.value_take inside]
  rw [Field.length_put law (covers_take covers long)]
  exact hfixed

/-- New options are written into a header that was given room for them. -/
theorem replace_withOptions :
    (headerLength.put (UInt8.ofNat (fixed + wholeWords options.length))
        (h.resize (fixed + wholeWords options.length))).replace fixed (wholeWords options.length)
        (options.resize (wholeWords options.length))
      = .ok (withOptions headerLength fixed h options) := by
  obtain ⟨padded, hpadded⟩ : ∃ padded, wholeWords options.length = padded := ⟨_, rfl⟩
  rw [withOptions, hpadded]
  -- the fixed part, and room behind it
  obtain ⟨back, hback, hroom⟩ : ∃ back, h.resize (fixed + padded) = h.take fixed ++ back
      ∧ back.length = padded := by
    have hfront : (h.resize (fixed + padded)).take fixed = h.take fixed := by
      rw [resize, List.take_append_of_le_length (by rw [List.length_take]; omega), List.take_take,
        Nat.min_eq_left (Nat.le_add_right _ _)]
    refine ⟨(h.resize (fixed + padded)).drop fixed, ?_, ?_⟩
    · rw [← hfront, List.take_append_drop]
    · rw [List.length_drop, length_resize, Nat.add_sub_cancel_left]
  have hput : (headerLength.put (UInt8.ofNat (fixed + padded)) (h.take fixed)).length = fixed := by
    rw [Field.length_put law (covers_take covers long), List.length_take, Nat.min_eq_left long]
  rw [hback, Field.put_append (covers_take covers long)]
  have hlength : (headerLength.put (UInt8.ofNat (fixed + padded)) (h.take fixed) ++ back).length
      = fixed + padded := by rw [List.length_append, hput, hroom]
  rw [replace, if_pos (Nat.le_of_eq hlength.symm), if_pos (length_resize _ _), overwrite,
    length_resize, if_pos (Nat.le_of_eq hlength.symm), List.take_left' hput,
    List.drop_eq_nil_of_le (Nat.le_of_eq hlength), List.append_nil]

end Bytes

namespace Cursor

variable {c : Cursor} {kind : LayerKind} {fixed longest : Nat} {field : Field UInt8}
  {options : Bytes}

/-- **Options that are too long** are refused. -/
theorem replaceOptions_refused (protocol : c.focus.kind = kind)
    (many : longest < fixed + wholeWords options.length) :
    c.replaceOptions kind fixed longest field options = .ok (.error .malformed) := by
  simp only [replaceOptions]
  rw [if_neg (not_not_intro protocol), if_pos many]
  rfl

/-- **All other options** are put behind the fixed part of the header. -/
theorem replaceOptions_stored (laid : c.close.LaidOut) (protocol : c.focus.kind = kind)
    (few : fixed + wholeWords options.length ≤ longest) (law : field.Lawful)
    (covers : field.stop ≤ fixed) (long : fixed ≤ c.header.length) :
    ∃ c', c.replaceOptions kind fixed longest field options = .ok (.ok c')
      ∧ c'.close.LaidOut ∧ Stored c c' (c.header.withOptions field fixed options) := by
  have hresized := resizeHeader_laidOut laid (fixed + wholeWords options.length)
  have hheader : (c.resizeHeader (fixed + wholeWords options.length)).header
      = c.header.resize (fixed + wholeWords options.length) :=
    Region.bytes_resize (header_inside laid) _
  have hcovers : field.stop ≤ (c.header.resize (fixed + wholeWords options.length)).length := by
    rw [Bytes.length_resize]
    omega
  -- the header was given its new length before, so it can be stored
  obtain ⟨c', hstore⟩ := storeHeader_succeeds hresized
    (show (c.header.withOptions field fixed options).length = _ by
      rw [hheader, Bytes.length_resize, Bytes.length_withOptions law covers long])
  have hstored := storeHeader_stored hresized hstore
  refine ⟨c', ?_, storeHeader_laidOut hresized hstore,
    ⟨hstored.outer, hstored.focus, hstored.inner, hstored.body, hstored.fcs⟩⟩
  simp only [replaceOptions]
  rw [if_neg (not_not_intro protocol), if_neg (Nat.not_lt.2 few), hheader,
    Field.set_eq_put law hcovers, ok_bind, Bytes.replace_withOptions law covers long, ok_bind,
    hstore]
  rfl

end Cursor

/-! ## §2. Headers that can be exchanged. -/

section Optioned

variable {h options : Bytes}

/-- The length that is written for options is that of the header. -/
theorem withOptions_states {first size low : Nat} (room : low + 4 ≤ 8 * size)
    (covers : (Field.words first size low).stop ≤ 20) (long : 20 ≤ h.length)
    (few : options.length ≤ 40) :
    20 ≤ (h.withOptions (Field.words first size low) 20 options).length
      ∧ ((Field.words first size low).value
          (h.withOptions (Field.words first size low) 20 options)).toNat
        = (h.withOptions (Field.words first size low) 20 options).length := by
  have hfew := wholeWords_le.2 few
  have hwords := wholeWords_mod options.length
  have hcovers := Bytes.covers_take covers long
  have hput := Field.length_put (Field.lawful_words room) hcovers
    (UInt8.ofNat (20 + wholeWords options.length))
  rw [Bytes.length_withOptions (Field.lawful_words room) covers long, Bytes.withOptions,
    Field.value_append (hput.symm ▸ hcovers), Field.toNat_value_put_words room hcovers]
  omega

namespace Ipv4

theorem of_kind {d : Dissector} (known : d ∈ Dissector.all) (kind : d.kind = .ipv4) :
    d = dissector := by
  cases known using Dissector.all_cases with
  | ipv4 => rfl
  | _ => cases kind

/-- The first four bits are the version. -/
theorem version?_eq (filled : h ≠ []) : h.version? = some (Layout.version.value h) := by
  cases h with
  | nil => exact absurd rfl filled
  | cons x rest =>
    refine congrArg some (UInt8.toNat_inj.1 ?_)
    have hsmall := x.toNat_lt
    show (x >>> 4).toNat = (UInt8.ofNat (Field.bitsOf (Bytes.toNat [x]) 4 4)).toNat
    rw [Field.bitsOf_eq, Bytes.toNat_cons, Bytes.toNat_ofNat_byte, UInt8.toNat_shiftRight]
    show x.toNat >>> 4 = (x.toNat * 256 ^ 0 + 0) / 2 ^ 4 % 2 ^ 4 % 256
    rw [Nat.shiftRight_eq_div_pow]
    omega

/-- **An IPv4 header with other options** can be exchanged for the old one. -/
theorem exchanges (whole : dissector.Whole h) (few : options.length ≤ 40) :
    dissector.Exchanges h (h.withOptions Layout.headerLength minHeaderLength options) := by
  have long : minHeaderLength ≤ h.length := (whole_iff.1 whole).1
  have hwhole : dissector.Whole (h.withOptions Layout.headerLength minHeaderLength options) :=
    whole_iff.2 (withOptions_states (by decide) (by decide) long few)
  have hlong : minHeaderLength ≤ (h.withOptions Layout.headerLength minHeaderLength options).length :=
    (whole_iff.1 hwhole).1
  have accepted := sized.accepts_of_whole whole
  have accepted' := sized.accepts_of_whole hwhole
  have hvalue : ∀ {α : Type} {f : Field α}, f.Apart Layout.headerLength →
      f.stop ≤ minHeaderLength →
        f.value (h.withOptions Layout.headerLength minHeaderLength options) = f.value h :=
    Bytes.value_withOptions lawful_headerLength (by decide) long
  have hnonempty : ∀ {b : Bytes}, minHeaderLength ≤ b.length → b ≠ [] := fun hb =>
    List.ne_nil_of_length_pos (Nat.lt_of_lt_of_le (by decide) hb)
  refine ⟨hwhole, hnonempty hlong, ?_, fun payload => ?_, ?_,
    fun _ _ ok fits => cuts hwhole ok fits⟩
  · have hcovers : ∀ {b : Bytes}, minHeaderLength ≤ b.length →
        Layout.fragmentOffset.stop ≤ b.length := fun hb => Nat.le_trans (by decide) hb
    show isSealed _ = isSealed _
    unfold isSealed
    rw [HeaderFormat.guarded_of_accepts accepted, HeaderFormat.guarded_of_accepts accepted',
      Field.get_eq_value (hcovers long), Field.get_eq_value (hcovers hlong),
      hvalue (by decide) (by decide)]
  · show next _ = next _
    rw [next_eq accepted, next_eq accepted', hvalue (by decide) (by decide)]
  · -- the version shares its byte with the header length
    have hcovers : Layout.headerLength.stop ≤ (h.take minHeaderLength).length :=
      Bytes.covers_take (by decide) long
    have hput := Field.length_put lawful_headerLength hcovers
      (UInt8.ofNat (minHeaderLength + wholeWords options.length))
    have hversion : Layout.version.value
        (h.withOptions Layout.headerLength minHeaderLength options) = Layout.version.value h := by
      rw [Bytes.withOptions, Field.value_append (hput.symm ▸ hcovers)]
      exact (Field.value_put_bits_of_apart (by decide) hcovers (by decide) _).trans
        (Field.value_take (by decide))
    rw [version?_eq (hnonempty long), version?_eq (hnonempty hlong), hversion]

end Ipv4

namespace Tcp

theorem of_kind {d : Dissector} (known : d ∈ Dissector.all) (kind : d.kind = .tcp) :
    d = dissector := by
  cases known using Dissector.all_cases with
  | tcp => rfl
  | _ => cases kind

/-- **A TCP header with other options** can be exchanged for the old one. -/
theorem exchanges (whole : dissector.Whole h) (few : options.length ≤ 40) :
    dissector.Exchanges h (h.withOptions Layout.headerLength minHeaderLength options) := by
  have long : minHeaderLength ≤ h.length := (whole_iff.1 whole).1
  have hwhole : dissector.Whole (h.withOptions Layout.headerLength minHeaderLength options) :=
    whole_iff.2 (withOptions_states (by decide) (by decide) long few)
  have hnonempty : h.withOptions Layout.headerLength minHeaderLength options ≠ [] :=
    List.ne_nil_of_length_pos (Nat.lt_of_lt_of_le (by decide) (whole_iff.1 hwhole).1)
  refine ⟨hwhole, hnonempty, rfl, fun _ => rfl, Bytes.version?_of_head? ?_, ?_⟩
  · -- the header length is further back than the version
    have hcovers : Layout.headerLength.stop ≤ (h.take minHeaderLength).length :=
      Bytes.covers_take (by decide) long
    have hfilled : Layout.headerLength.put (UInt8.ofNat (minHeaderLength
        + wholeWords options.length)) (h.take minHeaderLength) ≠ [] := by
      refine List.ne_nil_of_length_pos ?_
      rw [Field.length_put lawful_headerLength hcovers]
      exact Nat.lt_of_lt_of_le (by decide) hcovers
    rw [Bytes.withOptions, List.head?_append_of_ne_nil _ hfilled,
      Field.head?_put hcovers _ (by decide), List.head?_take, if_neg (by decide)]
  · -- all there is was taken, so there is no padding
    intro h' cx old padding stated states cut _ _
    obtain rfl : old + padding = stated := Except.ok.inj states
    obtain rfl : padding = 0 := by omega
    exact ⟨_, rfl, by omega⟩

end Tcp

end Optioned

/-! ## §3. Captured packets. -/

/-- The outermost layer of a protocol is opened, if there is one. -/
theorem Packet.openKind?_of_mem {p : Packet} {kind : LayerKind}
    (there : ∃ l ∈ p.layers, l.kind = kind) :
    ∃ c, p.openKind? kind = some c ∧ p.open? c.outer.length = some c ∧ c.focus.kind = kind
      ∧ ∀ m ∈ c.outer, m.kind ≠ kind := by
  obtain ⟨depth, hdepth⟩ : ∃ depth, p.depthOf? kind = some depth := by
    refine Option.ne_none_iff_exists'.1 fun hnone => ?_
    obtain ⟨l, hl, hkind⟩ := there
    have hother := List.findIdx?_eq_none_iff.1 hnone l hl
    simp [hkind] at hother
  obtain ⟨inside, hkind, hfirst⟩ := List.findIdx?_eq_some_iff_getElem.1 hdepth
  have hopen := open?_eq (List.getElem?_eq_getElem inside)
  obtain ⟨_, _, hlength⟩ := Cursor.close_of_open hopen
  -- the first layer of the kind is the one that is opened
  refine ⟨⟨p, p.layers.take depth, p.layers[depth], p.layers.drop (depth + 1)⟩, ?_, ?_,
    eq_of_beq hkind, fun m hm => ?_⟩
  · rw [openKind?, hdepth]
    exact hopen
  · rw [hlength]
    exact hopen
  · obtain ⟨i, hi, rfl⟩ := List.getElem_of_mem hm
    have hbefore : i < depth := hlength ▸ hi
    have hother := hfirst i hbefore
    rw [List.getElem_take]
    exact fun hsame => hother (beq_iff_eq.2 hsame)

namespace Registry

/-- What becomes of a captured packet when options are put into an opened layer.
More than forty bytes are refused, and the packet stays as it is, but for the
mark that it was changed.  All others are taken, and if then every layer has no
padding, or has room for its new payload in its length field of sixteen bits,
should it have one, the packet is serialized, and decoded completely, with the
options in that header. -/
structure TakesOptions (d : Dissector) (origin : Option Discriminant) (hasFcs : Bool) (p : Packet)
    (c : Cursor) (headerLength : Field UInt8) (options : Bytes)
    (out : Access (Except Error Cursor)) : Prop where
  refused : 40 < options.length →
    out = .ok (.error .malformed) ∧ c.close = { p with stale := true }
  taken : options.length ≤ 40 → ∃ c', out = .ok (.ok c')
    ∧ ((∀ {i : Nat} {l : Layer}, c'.close.layers[i]? = some l → c'.close.padding l = []
          ∨ l.kind.Fits (c'.close.header l).length (c'.close.payloadBytes i).length) →
      ∃ bytes s q, c'.close.serialize .fill = .ok (bytes, s)
        ∧ standard.decodeFrom d origin bytes hasFcs = .ok (.complete q)
        ∧ p.Exchanged q c.outer.length ((p.header c.focus).withOptions headerLength 20 options)
        ∧ q.checksumValid = .ok true)

section Captured

variable {d : Dissector} {origin : Option Discriminant} {data : Bytes} {hasFcs : Bool} {p : Packet}
  {depth : Nat} {c : Cursor} (root : d ∈ Dissector.all)
  (h : standard.decodeFrom d origin data hasFcs = .ok (.complete p))

include root h

/-- An opened layer of a captured packet has a whole header of a protocol of the
library. -/
theorem whole_of_open (opened : p.open? depth = some c) :
    c.focus.dissector ∈ Dissector.all ∧ c.focus.dissector.Whole c.header := by
  obtain ⟨frame, tail, rfl, trails⟩ := frame_of_decodeFrom h rfl
  obtain ⟨found, hparses, _, hplain, _⟩ := decodeFrom_parses trails h rfl
  have hsplit := Packet.plain_of_open opened
  rw [hplain] at hsplit
  obtain ⟨rfl, _, _⟩ := Cursor.close_of_open opened
  have hmem : c.focus.plain c.packet.arena ∈ found.layers := by
    rw [show found.layers = _ from hsplit]
    exact List.mem_append_right _ List.mem_cons_self
  exact ⟨hparses.known standard_uses root _ hmem, hparses.whole _ hmem⟩

/-- **Options in an opened layer,** behind a fixed part of twenty bytes. -/
theorem takesOptions_of_open (opened : p.open? depth = some c) {kind : LayerKind}
    {field : Field UInt8} {options : Bytes} (protocol : c.focus.kind = kind) (law : field.Lawful)
    (covers : field.stop ≤ 20) (long : 20 ≤ c.header.length)
    (exchanges : options.length ≤ 40 →
      c.focus.dissector.Exchanges c.header (c.header.withOptions field 20 options)) :
    TakesOptions d origin hasFcs p c field options (c.replaceOptions kind 20 60 field options) := by
  have hlaid : p.LaidOut := (tiles_of_decodeFrom h rfl).2.2.laidOut (Nat.le_refl _)
  have hclose := Cursor.close_laidOut_of_open hlaid opened
  have hheader : p.header c.focus = c.header := by rw [← (Cursor.close_of_open opened).1]; rfl
  refine ⟨fun many => ⟨?_, Cursor.close_eq_of_open opened⟩, fun few => ?_⟩
  · refine replaceOptions_refused protocol ?_
    have hmany : ¬ wholeWords options.length ≤ 40 := mt wholeWords_le.1 (Nat.not_le.2 many)
    omega
  · have hroom : 20 + wholeWords options.length ≤ 60 := Nat.add_le_add_left (wholeWords_le.2 few) 20
    obtain ⟨c', hset, hlaid', hstored⟩ := replaceOptions_stored hclose protocol hroom law covers long
    refine ⟨c', hset, fun each => ?_⟩
    rw [hheader, (Cursor.close_of_open opened).2.2]
    exact decodeFrom_exchanged root h opened hstored hlaid' (exchanges few) each

/-- **Other options, the same packet around them.**  Take any packet that was
decoded completely, by whatever protocol of the library it begins with, that
has a TCP layer, or one of IPv4, and any bytes as the options of the outermost
such layer.  More than forty are refused.  All others are put behind the first
twenty bytes of the header, filled up with zeros to whole words, and the packet
is decoded as before, with this header in place of the old one, and with all
lengths and checksums up to date. -/
theorem decodeFrom_options (options : Bytes) :
    ((∃ l ∈ p.layers, l.kind = .tcp) → ∃ c, p.openKind? .tcp = some c
        ∧ (∀ m ∈ c.outer, m.kind ≠ .tcp)
        ∧ TakesOptions d origin hasFcs p c Tcp.Layout.headerLength options
          (c.setTcpOptions options))
      ∧ ((∃ l ∈ p.layers, l.kind = .ipv4) → ∃ c, p.openKind? .ipv4 = some c
        ∧ (∀ m ∈ c.outer, m.kind ≠ .ipv4)
        ∧ TakesOptions d origin hasFcs p c Ipv4.Layout.headerLength options
          (c.setIpv4Options options)) := by
  constructor
  · intro there
    obtain ⟨c, hkind, hopen, protocol, outermost⟩ := Packet.openKind?_of_mem there
    obtain ⟨known, whole⟩ := whole_of_open root h hopen
    have htcp := Tcp.of_kind known protocol
    rw [htcp] at whole
    refine ⟨c, hkind, outermost, takesOptions_of_open root h hopen protocol Tcp.lawful_headerLength
      (by decide) (Tcp.whole_iff.1 whole).1 fun few => ?_⟩
    rw [htcp]
    exact Tcp.exchanges whole few
  · intro there
    obtain ⟨c, hkind, hopen, protocol, outermost⟩ := Packet.openKind?_of_mem there
    obtain ⟨known, whole⟩ := whole_of_open root h hopen
    have hipv4 := Ipv4.of_kind known protocol
    rw [hipv4] at whole
    refine ⟨c, hkind, outermost, takesOptions_of_open root h hopen protocol
      Ipv4.lawful_headerLength (by decide) (Ipv4.whole_iff.1 whole).1 fun few => ?_⟩
    rw [hipv4]
    exact Ipv4.exchanges whole few

end Captured

/-- Two bytes in TCP in IPv4 in Ethernet, with four bytes of options in either
header, one byte of padding and a wrong frame check sequence. -/
def optionedSegment : Bytes :=
  List.replicate 12 0 ++ [0x08, 0, 0x46, 0, 0, 50, 0, 0, 0, 0, 64, 6, 0, 0, 10, 0, 0, 1, 10, 0, 0, 2,
    1, 1, 1, 0, 0, 1, 0, 2, 0, 0, 0, 0, 0, 0, 0, 0, 0x60, 2, 0, 0, 0, 0, 0, 0, 2, 4, 5, 180, 7, 7, 9,
    4, 4, 4, 4]

/-- Five bytes take the place of the four in the TCP header; forty-one are too
many for that of IPv4. -/
theorem decodeFrom_options_segment :
    ∃ p c c₁ c' bytes s q, standard.decodeFrom Ethernet.dissector none optionedSegment true
        = .ok (.complete p)
      ∧ p.openKind? .tcp = some c ∧ c.setTcpOptions [3, 3, 7, 1, 1] = .ok (.ok c')
      ∧ c'.close.serialize .fill = .ok (bytes, s)
      ∧ standard.decodeFrom Ethernet.dissector none bytes true = .ok (.complete q)
      ∧ p.Exchanged q 2 (([0, 1, 0, 2] ++ List.replicate 8 0 ++ [0x70, 2, 0, 0, 0, 0, 0, 0])
        ++ [3, 3, 7, 1, 1, 0, 0, 0])
      ∧ q.checksumValid = .ok true ∧ p.openKind? .ipv4 = some c₁
      ∧ c₁.setIpv4Options (List.replicate 41 1) = .ok (.error .malformed) := by
  obtain ⟨p, c, c', l₀, l₁, l₂, m₀, m₁, m₂, hp, hlayers, htcp, hipv4, hc, hset, hlayers', houter,
      hheader, hfirst, hsecond, hthird⟩ :
      ∃ p c c' l₀ l₁ l₂ m₀ m₁ m₂,
        standard.decodeFrom Ethernet.dissector none optionedSegment true = .ok (.complete p)
          ∧ p.layers = [l₀, l₁, l₂] ∧ l₂.kind = .tcp ∧ l₁.kind = .ipv4
          ∧ p.openKind? .tcp = some c ∧ c.setTcpOptions [3, 3, 7, 1, 1] = .ok (.ok c')
          ∧ c'.close.layers = [m₀, m₁, m₂] ∧ c.outer.length = 2
          ∧ (p.header c.focus).withOptions Tcp.Layout.headerLength 20 [3, 3, 7, 1, 1]
            = ([0, 1, 0, 2] ++ List.replicate 8 0 ++ [0x70, 2, 0, 0, 0, 0, 0, 0])
              ++ [3, 3, 7, 1, 1, 0, 0, 0]
          ∧ c'.close.padding m₀ = []
          ∧ m₁.kind.Fits (c'.close.header m₁).length (c'.close.payloadBytes 1).length
          ∧ c'.close.padding m₂ = [] :=
    ⟨_, _, _, _, _, _, _, _, _, rfl, rfl, rfl, rfl, rfl, rfl, rfl, rfl, rfl, rfl,
      (by decide : 24 + 30 ≤ 65535), rfl⟩
  have hroomy : ∀ {i : Nat} {l : Layer}, c'.close.layers[i]? = some l → c'.close.padding l = []
      ∨ l.kind.Fits (c'.close.header l).length (c'.close.payloadBytes i).length := by
    intro i l hl
    rw [hlayers'] at hl
    match i with
    | 0 => exact .inl (Option.some.inj hl ▸ hfirst)
    | 1 => exact .inr (Option.some.inj hl ▸ hsecond)
    | 2 => exact .inl (Option.some.inj hl ▸ hthird)
  have hroot : Ethernet.dissector ∈ Dissector.all := by simp [Dissector.all]
  obtain ⟨c₂, hopen, _, takes⟩ :=
    (decodeFrom_options hroot hp [3, 3, 7, 1, 1]).1 ⟨l₂, by simp [hlayers], htcp⟩
  obtain rfl : c = c₂ := Option.some.inj (hc.symm.trans hopen)
  obtain ⟨c₂', hset', hagain⟩ := takes.taken (by decide)
  obtain rfl : c' = c₂' := Except.ok.inj (Except.ok.inj (hset.symm.trans hset'))
  obtain ⟨bytes, s, q, hserialize, hdecode, hexchanged, hvalid⟩ := hagain hroomy
  rw [houter, hheader] at hexchanged
  obtain ⟨c₁, hopen₁, _, takes₁⟩ :=
    (decodeFrom_options hroot hp (List.replicate 41 1)).2 ⟨l₁, by simp [hlayers], hipv4⟩
  exact ⟨p, c, c₁, c', bytes, s, q, hp, hc, hset, hserialize, hdecode, hexchanged, hvalid, hopen₁,
    (takes₁.refused (by decide)).1⟩

end Registry

end PacketLayers
