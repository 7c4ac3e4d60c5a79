/-
  PacketLayers.Proofs.Emission
  ────────────────────────────────
  **HEADERS WRITTEN FOR VALUES ARE WHOLE.**

  A header is written field by field over zeros.  No write leaves the header,
  none changes its length, and what the first bytes say about the length is
  not written over later: `Writes` carries the length and the first bytes
  through the chain.  In the end the header has the length that it states.
-/
import PacketLayers.Proofs.Dissector

namespace PacketLayers

/-! ## §1. Chains of writes. -/

/-- A header of `n` bytes that begins with some bytes is written. -/
def Writes (n : Nat) (front : Bytes) (x : Access Bytes) : Prop :=
  ∃ h, x = .ok h ∧ h.length = n ∧ front <+: h

namespace Writes

variable {n : Nat} {front front' : Bytes} {x : Access Bytes}

theorem zeros (n : Nat) : Writes n [] (.ok (List.replicate n 0)) :=
  ⟨_, rfl, List.length_replicate, List.nil_prefix⟩

/-- A write behind the first bytes. -/
theorem set (w : Writes n front x) {α : Type} {f : Field α} (law : f.Lawful) (covers : f.stop ≤ n)
    (order : front.length ≤ f.first) (v : α) : Writes n front (x >>= f.set v) := by
  obtain ⟨h, hx, hlength, hfront⟩ := w
  have hcovers : f.stop ≤ h.length := hlength ▸ covers
  refine ⟨f.put v h, ?_, ?_, ?_⟩
  · rw [hx, ok_bind, Field.set_eq_put law hcovers]
  · rw [Field.length_put law hcovers, hlength]
  · rw [List.prefix_iff_eq_take] at hfront ⊢
    rw [Field.take_put hcovers v order]
    exact hfront

/-- The first write, of a byte at the start. -/
theorem first (w : Writes n [] x) (room : 1 ≤ n) (v : UInt8) :
    Writes n [v] (x >>= (Field.word UInt8 0 1).set v) := by
  obtain ⟨h, hx, hlength, _⟩ := w
  have law := Field.lawful_word UInt8 0 1
  have hcovers : (Field.word UInt8 0 1).stop ≤ h.length := hlength ▸ room
  refine ⟨(Field.word UInt8 0 1).put v h, ?_, ?_, ?_⟩
  · rw [hx, ok_bind, Field.set_eq_put law hcovers]
  · rw [Field.length_put law hcovers, hlength]
  · have hbyte : Bytes.ofNat 1 v.toNat = [v] := congrArg (· :: []) UInt8.ofNat_toNat
    rw [← hbyte]
    exact ⟨_, rfl⟩

/-- Any further step that keeps the length. -/
theorem bind (w : Writes n front x) {f : Bytes → Access Bytes}
    (next : ∀ h, h.length = n → front <+: h → Writes n front' (f h)) : Writes n front' (x >>= f) := by
  obtain ⟨h, hx, hlength, hfront⟩ := w
  rw [hx]
  exact next h hlength hfront

/-- The first bytes are what they are. -/
theorem value_eq {α : Type} {f : Field α} {h : Bytes} (starts : front <+: h)
    (covers : f.stop ≤ front.length) : f.value h = f.value front := by
  obtain ⟨rest, rfl⟩ := starts
  exact Field.value_append covers rest

end Writes

/-- A header is written that can be built on: it is whole, and has some
property besides. -/
def Dissector.Emits (d : Dissector) (fair : Bytes → Prop) (x : Access Bytes) : Prop :=
  ∃ h, x = .ok h ∧ d.Whole h ∧ fair h

/-- Headers of a fixed length are whole if they have that length. -/
theorem Dissector.emits_of_writes {d : Dissector} {n : Nat} {front : Bytes} {x : Access Bytes}
    {fair : Bytes → Prop} (w : Writes n front x)
    (whole : ∀ h, h.length = n → front <+: h → d.Whole h ∧ fair h) : d.Emits fair x := by
  obtain ⟨h, hx, hlength, hfront⟩ := w
  exact ⟨h, hx, whole h hlength hfront⟩

end PacketLayers
