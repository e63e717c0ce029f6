import Mathlib
import SchemaCodec.Proofs.Wire.Record

/-!
# Proofs.Wire.Decomposition — a payload is made of records in one way only

- `PrefixFree`: a form that tells from its bytes where it ends.

Numerals end at their first byte without a mark, and every value either has a fixed size, is
counted, or ends at a key. So all of them are prefix-free, records are too, and the records of a
payload are determined by its bytes (`Record.concat_injective`).
-/

namespace SchemaCodec

/-- A form that tells from its bytes where it ends: whatever follows can be cut off. -/
def PrefixFree {α : Type} (bytes : α → List UInt8) : Prop :=
  ∀ ⦃a b : α⦄ ⦃s s' : List UInt8⦄, bytes a ++ s = bytes b ++ s' → a = b ∧ s = s'

theorem Numeral.ext_of_bytes {n n' : Numeral} (h : n.bytes = n'.bytes) : n = n' := by
  rcases List.append_inj' h rfl with ⟨hmarked, hlast⟩
  cases n
  cases n'
  cases hmarked
  cases hlast
  rfl

theorem Numeral.prefixFree : PrefixFree Numeral.bytes := by
  intro n n' s s' h
  have hread := Varint.decode?_numeral n s
  rw [h, Varint.decode?_numeral] at hread
  obtain rfl : s' = s := (Prod.mk.inj (Option.some.inj hread)).2
  exact ⟨Numeral.ext_of_bytes (List.append_cancel_right h), rfl⟩

theorem FlatValue.prefixFree (w : WireType) : PrefixFree (FlatValue.bytes (w := w)) := by
  intro v v' s s' h
  cases v with
  | varint n =>
    cases v' with
    | varint n' =>
      rcases Numeral.prefixFree h with ⟨rfl, rfl⟩
      exact ⟨rfl, rfl⟩
  | fixed64 bytes hlen =>
    cases v' with
    | fixed64 bytes' hlen' =>
      rcases List.append_inj h (hlen.trans hlen'.symm) with ⟨hbytes, rfl⟩
      cases hbytes
      exact ⟨rfl, rfl⟩
  | lengthDelimited count payload hlen =>
    cases v' with
    | lengthDelimited count' payload' hlen' =>
      -- The counts are the same, so the payloads end at the same place.
      simp only [bytes, List.append_assoc] at h
      rcases Numeral.prefixFree h with ⟨rfl, hrest⟩
      rcases List.append_inj hrest (hlen.trans hlen'.symm) with ⟨rfl, rfl⟩
      exact ⟨rfl, rfl⟩
  | fixed32 bytes hlen =>
    cases v' with
    | fixed32 bytes' hlen' =>
      rcases List.append_inj h (hlen.trans hlen'.symm) with ⟨hbytes, rfl⟩
      cases hbytes
      exact ⟨rfl, rfl⟩

/-- A value that is no group has another wire type than the keys around groups. -/
theorem FlatValue.raw_ne {w : WireType} (v : FlatValue w) :
    w.raw ≠ WireType.startGroup.raw ∧ w.raw ≠ WireType.endGroup.raw := by
  cases v <;> decide

/-- The key says what follows it, so two bodies with the same bytes go on alike. -/
theorem GroupBody.prefixFree : PrefixFree GroupBody.bytes := by
  intro body
  -- Bodies of different forms start with keys of different wire types.
  induction body with
  | close key hkey =>
    intro body' s s' h
    cases body' with
    | close key' hkey' =>
      rcases Numeral.prefixFree h with ⟨rfl, rfl⟩
      exact ⟨rfl, rfl⟩
    | flat key' hkey' v' rest' =>
      simp only [bytes, List.append_assoc] at h
      obtain rfl : key = key' := (Numeral.prefixFree h).1
      exact absurd (hkey'.symm.trans hkey) v'.raw_ne.2
    | group key' hkey' inner' rest' =>
      simp only [bytes, List.append_assoc] at h
      obtain rfl : key = key' := (Numeral.prefixFree h).1
      exact absurd (hkey'.symm.trans hkey) (by decide)
  | @flat w key hkey v rest ih =>
    intro body' s s' h
    cases body' with
    | close key' hkey' =>
      simp only [bytes, List.append_assoc] at h
      obtain rfl : key = key' := (Numeral.prefixFree h).1
      exact absurd (hkey.symm.trans hkey') v.raw_ne.2
    | @flat w' key' hkey' v' rest' =>
      simp only [bytes, List.append_assoc] at h
      rcases Numeral.prefixFree h with ⟨rfl, hvalue⟩
      obtain rfl : w = w' := WireType.raw_injective (hkey.symm.trans hkey')
      rcases FlatValue.prefixFree w hvalue with ⟨rfl, hrest⟩
      rcases ih hrest with ⟨rfl, rfl⟩
      exact ⟨rfl, rfl⟩
    | group key' hkey' inner' rest' =>
      simp only [bytes, List.append_assoc] at h
      obtain rfl : key = key' := (Numeral.prefixFree h).1
      exact absurd (hkey.symm.trans hkey') v.raw_ne.1
  | group key hkey inner rest ihInner ihRest =>
    intro body' s s' h
    cases body' with
    | close key' hkey' =>
      simp only [bytes, List.append_assoc] at h
      obtain rfl : key = key' := (Numeral.prefixFree h).1
      exact absurd (hkey.symm.trans hkey') (by decide)
    | flat key' hkey' v' rest' =>
      simp only [bytes, List.append_assoc] at h
      obtain rfl : key = key' := (Numeral.prefixFree h).1
      exact absurd (hkey'.symm.trans hkey) v'.raw_ne.1
    | group key' hkey' inner' rest' =>
      simp only [bytes, List.append_assoc] at h
      rcases Numeral.prefixFree h with ⟨rfl, hinner⟩
      rcases ihInner hinner with ⟨rfl, hrest⟩
      rcases ihRest hrest with ⟨rfl, rfl⟩
      exact ⟨rfl, rfl⟩

theorem WireValue.prefixFree (w : WireType) : PrefixFree (WireValue.bytes (w := w)) := by
  intro v v' s s' h
  cases v with
  | flat v =>
    cases v' with
    | flat v' =>
      rcases FlatValue.prefixFree _ h with ⟨rfl, rfl⟩
      exact ⟨rfl, rfl⟩
    | group body' => exact absurd rfl v.wire_ne_startGroup
  | group body =>
    cases v' with
    | flat v' => exact absurd rfl v'.wire_ne_startGroup
    | group body' =>
      rcases GroupBody.prefixFree h with ⟨rfl, rfl⟩
      exact ⟨rfl, rfl⟩

theorem Record.prefixFree : PrefixFree Record.bytes := by
  intro r r' s s' h
  cases r with
  | mk key w v hw hzero =>
    cases r' with
    | mk key' w' v' hw' hzero' =>
      simp only [bytes, List.append_assoc] at h
      rcases Numeral.prefixFree h with ⟨rfl, hrest⟩
      obtain rfl : w = w' := WireType.raw_injective (hw.symm.trans hw')
      rcases WireValue.prefixFree _ hrest with ⟨rfl, rfl⟩
      exact ⟨rfl, rfl⟩

/-- Only the payload without records is empty. -/
theorem Record.eq_nil_of_concat {rs : List Record} (h : concat rs = []) : rs = [] := by
  cases rs with
  | nil => rfl
  | cons r rs =>
    have hpos := r.length_pos
    have hnil := congrArg List.length h
    simp only [concat_cons, List.length_nil, List.length_append] at hnil
    omega

/-- The records of a payload are determined by its bytes. -/
theorem Record.concat_injective : Function.Injective concat := by
  intro rs qs h
  induction rs generalizing qs with
  | nil => exact (eq_nil_of_concat h.symm).symm
  | cons r rs ih =>
    cases qs with
    | nil => exact eq_nil_of_concat h
    | cons q qs =>
      rw [concat_cons, concat_cons] at h
      rcases Record.prefixFree h with ⟨rfl, hrest⟩
      rw [ih hrest]

end SchemaCodec
