import Mathlib
import SchemaCodec.Proofs.Projection.Accepted
import SchemaCodec.Proofs.Projection.RoundTrip
import SchemaCodec.Proofs.Wire.Accepted
import SchemaCodec.Proofs.Wire.RoundTrip
import SchemaCodec.Registry.Codec

/-!
# Proofs.Registry.Acceptance — what was accepted once stays acceptable

A message that a reader accepted keeps within the limits of that reader (`Schema.Obeys.within`), so
under the same limits it comes back from its bytes (`Schema.Obeys.decode_encode`) and from its
object (`Schema.Obeys.readJson_toJson`). `Catalog.accepted_stays_acceptable` follows both codecs of
a type of the catalogue through what this means for what they make of each other's output.
-/

namespace SchemaCodec

section Accepted

variable {σ : Schema} {t : MessageType} {limits : Limits} {m : Message}

namespace Schema.Obeys

theorem settle_eq_ok {α : Type} (h : σ.Obeys limits.Passes t 0 m) (a : α) :
    settle limits.fault? (σ.places t m) a = .ok a :=
  settle_eq_ok_iff.2 ⟨h.places, rfl⟩

/-- A message at whose places the limits refuse nothing is not too deep, and its numbers are in
range. -/
theorem within (h : σ.Obeys limits.Passes t 0 m) :
    m.depth ≤ limits.recursion ∧ ∀ p ∈ σ.numbers t m, limits.range.accepts p.2 = true :=
  (h.conforms.settle_eq_ok_iff.1 (h.settle_eq_ok m)).1

theorem decode_encode (h : σ.Obeys limits.Passes t 0 m) (hσ : σ.WellFormed) (ht : t.WellFormed)
    (hlen : (σ.encode t m).length < 2 ^ 64) : σ.decode t limits (σ.encode t m) = .ok m := by
  rw [Schema.decode_encode hσ ht h.conforms hlen]
  exact h.settle_eq_ok m

theorem readJson_toJson (h : σ.Obeys limits.Passes t 0 m) (hσ : σ.WellFormed)
    (ht : t.WellFormed) :
    σ.readJson t .loose limits (σ.toJson t m) = .ok (σ.normalize t m) := by
  rw [Schema.readJson_toJson hσ ht h.conforms]
  exact h.settle_eq_ok (σ.normalize t m)

end Schema.Obeys

theorem Schema.decode_obeys (hσ : σ.WellFormed) (ht : t.WellFormed) {b : List UInt8}
    (h : σ.decode t limits b = .ok m) : σ.Obeys limits.Passes t 0 m := by
  rw [decode_eq_decodeAt] at h
  exact decodeAt_obeys hσ ht h

theorem Schema.readJson_passes {coercion : Coercion} {v : Json}
    (h : σ.readJson t coercion limits v = .ok m) : σ.Obeys limits.Passes t 0 m :=
  (readJson_obeys h).imp fun _ => And.left

/-- A loose reading recognizes every number of an enumeration, so its message is normal. -/
theorem Schema.recognized_of_loose {v : Json} (h : σ.readJson t .loose limits v = .ok m) :
    (∀ p ∈ σ.places t m, p.Recognized) ∧ σ.normalize t m = m := by
  have hobeys := readJson_obeys h
  have hnames : ∀ p ∈ σ.places t m, p.Recognized := fun p hp => (hobeys.places p hp).2 rfl
  exact ⟨hnames, hobeys.conforms.normalize_of_recognized hnames⟩

end Accepted

/-! ## The catalogue -/

namespace Catalog

/-- What was read from a payload or from a value is within the limits that it was read under. So
under these limits it is read back from its bytes, and loosely from its object in its normal form.
What was read loosely has recognized numbers of enumerations only and is read back unchanged.
Writing what was decoded makes a payload canonical, and the payloads made of values are accepted,
with objects that make them again. -/
theorem accepted_stays_acceptable {t : MessageType} (ht : t ∈ types) (limits : Limits) :
    (∀ m, ((∃ b, standard.decode t limits b = .ok m) ∨
        ∃ coercion v, standard.readJson t coercion limits v = .ok m) →
      m.depth ≤ limits.recursion ∧
      (∀ p ∈ standard.numbers t m, limits.range.accepts p.2 = true) ∧
      ((standard.encode t m).length < 2 ^ 63 →
        standard.decode t limits (standard.encode t m) = .ok m) ∧
      standard.readJson t .loose limits (standard.toJson t m) =
        .ok (standard.normalize t m)) ∧
    (∀ v m, standard.readJson t .loose limits v = .ok m →
      (∀ p ∈ standard.places t m, p.Recognized) ∧
      standard.readJson t .loose limits (standard.toJson t m) = .ok m) ∧
    (∀ b b', (standard.decode t limits b).map (standard.encode t) = .ok b' →
      b'.length < 2 ^ 63 →
      (standard.decode t limits b').map (standard.encode t) = .ok b') ∧
    ∀ v b, (Codec.mk standard t).encodeJson limits v = .ok b → b.length < 2 ^ 63 →
      ∃ json, (Codec.mk standard t).decodeToJson limits b = .ok json ∧
        (Codec.mk standard t).encodeJson limits json = .ok b := by
  have htable := standard_wellFormed t ht
  have hfits : ∀ b : List UInt8, b.length < 2 ^ 63 → b.length < 2 ^ 64 :=
    fun b hlen => Nat.lt_trans hlen (by norm_num)
  have hdecoded : ∀ b m, standard.decode t limits b = .ok m →
      standard.Obeys limits.Passes t 0 m :=
    fun b m h => Schema.decode_obeys standard_wellFormed htable h
  have hloose : ∀ v m, standard.readJson t .loose limits v = .ok m →
      standard.readJson t .loose limits (standard.toJson t m) = .ok m := by
    intro v m h
    have hback := (Schema.readJson_passes h).readJson_toJson standard_wellFormed htable
    rw [hback, (Schema.recognized_of_loose h).2]
  refine ⟨?_, ?_, ?_, ?_⟩
  · -- What follows from the limits does not depend on the reader.
    intro m hread
    have hobeys : standard.Obeys limits.Passes t 0 m := by
      rcases hread with ⟨b, h⟩ | ⟨coercion, v, h⟩
      · exact hdecoded b m h
      · exact Schema.readJson_passes h
    rcases hobeys.within with ⟨hdepth, hnumbers⟩
    refine ⟨hdepth, hnumbers, ?_, hobeys.readJson_toJson standard_wellFormed htable⟩
    intro hlen
    exact hobeys.decode_encode standard_wellFormed htable (hfits _ hlen)
  · intro v m h
    exact ⟨(Schema.recognized_of_loose h).1, hloose v m h⟩
  · intro b b' h hlen
    rcases map_eq_ok_iff.1 h with ⟨m, hm, rfl⟩
    have hback := (hdecoded b m hm).decode_encode standard_wellFormed htable (hfits _ hlen)
    exact map_eq_ok_iff.2 ⟨m, hback, rfl⟩
  · -- The bytes are those of a message that was read loosely, so that message comes back twice.
    intro v b h hlen
    rcases map_eq_ok_iff.1 h with ⟨m, hm, rfl⟩
    have hback := (Schema.readJson_passes hm).decode_encode standard_wellFormed htable
      (hfits _ hlen)
    refine ⟨standard.toJson t m, map_eq_ok_iff.2 ⟨m, hback, rfl⟩, ?_⟩
    exact map_eq_ok_iff.2 ⟨m, hloose v m hm, rfl⟩

/-- A request with its profile type, which has no symbol, in front of a padded user id. -/
def paddedPayload : List UInt8 :=
  [0x20, 0x07, 0x18, 0x87, 0x00]

/-- A request for a profile type that is none, with blanks around the digits of its user id. -/
def blankJson : Json :=
  .object [("profileType", .string "NONE"), ("userId", .string " +07 ")]

theorem accepted_stays_acceptable_instances :
    standard.decode deleteAccount {} paddedPayload = .ok [[], [], [.uint64 7], [.enum 7]] ∧
    (standard.decode deleteAccount {} [0x18, 0x07, 0x20, 0x07]).map
      (standard.encode deleteAccount) = .ok [0x18, 0x07, 0x20, 0x07] ∧
    standard.readJson deleteAccount .loose {}
      (standard.toJson deleteAccount [[], [], [.uint64 7], [.enum 7]]) =
        .ok [[], [], [.uint64 7], [.enum (-1)]] ∧
    standard.readJson deleteAccount .loose {}
      (standard.toJson deleteAccount [[], [], [.uint64 7], [.enum (-1)]]) =
        .ok [[], [], [.uint64 7], [.enum (-1)]] := by
  have hread : standard.decode deleteAccount {} paddedPayload =
      .ok [[], [], [.uint64 7], [.enum 7]] := by cbv
  have hwritten : (standard.decode deleteAccount {} paddedPayload).map
      (standard.encode deleteAccount) = .ok [0x18, 0x07, 0x20, 0x07] := by
    rw [hread]
    cbv
  have hloose : standard.readJson deleteAccount .loose {} blankJson =
      .ok [[], [], [.uint64 7], [.enum (-1)]] := by cbv
  rcases accepted_stays_acceptable (t := deleteAccount) (by decide) {} with
    ⟨hboth, hlooseBack, hcanonical, -⟩
  exact ⟨hread, hcanonical _ _ hwritten (by decide), (hboth _ (.inl ⟨_, hread⟩)).2.2.2,
    (hlooseBack _ _ hloose).2⟩

end Catalog
end SchemaCodec
