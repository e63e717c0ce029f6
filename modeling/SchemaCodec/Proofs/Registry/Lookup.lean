import Mathlib
import SchemaCodec.Catalog.Standard
import SchemaCodec.Proofs.Text.ByteOrder
import SchemaCodec.Registry.Store

/-!
# Proofs.Registry.Lookup — codecs found by name

- `Registry.ofCodecs`: the registry after any sequence of registrations.
- `Registry.latest?`: the codec that was registered last under a full name.
- `Registry.Owns`: a full name is the only registered one with an unqualified name.
- `Registry.Alias`: what the table of aliases says of an unqualified name.
- `Registry.Reflects`: both tables of a registry are those of the registrations so far.

Every registration keeps `Reflects` (`Reflects.register`), so a registry always reflects its history
(`ofCodecs_reflects`), and `lookup_law` reads off from there what each look-up gives.
-/

namespace SchemaCodec
namespace Registry

/-! ## Unqualified names -/

theorem ne_dot_of_mem {name : String} (h : '.' ∉ name.toList) :
    ∀ c ∈ name.toList.reverse, decide (c ≠ '.') = true := by
  intro c hc
  have hne : c ≠ '.' := fun heq => h (heq ▸ List.mem_reverse.1 hc)
  simpa using hne

/-- The part behind the last dot of a name. -/
theorem unqualified_append {short : String} (h : '.' ∉ short.toList) (package : String) :
    unqualified (package ++ "." ++ short) = short := by
  have hname : (package ++ "." ++ short).toList.reverse =
      short.toList.reverse ++ '.' :: package.toList.reverse := by
    simp
  rw [unqualified, hname, List.takeWhile_append_of_pos (ne_dot_of_mem h)]
  simp

theorem mem_of_mem_unqualified {name : String} {c : Char} (h : c ∈ (unqualified name).toList) :
    c ∈ name.toList := by
  rw [unqualified, String.toList_ofList, List.mem_reverse] at h
  exact List.mem_reverse.1 (List.takeWhile_subset _ h)

/-! ## Histories -/

/-- The registry after codecs have been registered one after the other. -/
def ofCodecs (cs : List Codec) : Registry :=
  cs.foldl register {}

/-- The full names of codecs, repeats included. -/
def fullNames (cs : List Codec) : List String :=
  cs.map (·.type.name)

/-- The codec that was registered last under a full name. -/
def latest? (cs : List Codec) (full : String) : Option Codec :=
  cs.reverse.find? fun c => c.type.name == full

/-- A full name is the only registered one with an unqualified name. -/
structure Owns (names : List String) (full short : String) : Prop where
  mem : full ∈ names
  short_eq : unqualified full = short
  only : ∀ other ∈ names, unqualified other = short → other = full

instance (names : List String) (full short : String) : Decidable (Owns names full short) :=
  decidable_of_iff
    (full ∈ names ∧ unqualified full = short ∧
      ∀ other ∈ names, unqualified other = short → other = full)
    ⟨fun ⟨hmem, hshort, honly⟩ => ⟨hmem, hshort, honly⟩,
      fun ⟨hmem, hshort, honly⟩ => ⟨hmem, hshort, honly⟩⟩

/-- What the table of aliases says of an unqualified name, for the full names registered so far:
nothing while no type has it, its owner while there is one, and nothing to be found for ever once
two types have it. -/
inductive Alias (names : List String) (short : String) : Option (Option String) → Prop where
  | absent (h : ∀ full ∈ names, unqualified full ≠ short) : Alias names short none
  | owned (full : String) (h : Owns names full short) : Alias names short (some (some full))
  | ambiguous (full other : String) (hfull : full ∈ names) (hother : other ∈ names)
      (hne : full ≠ other) (hshort : unqualified full = short)
      (hshort' : unqualified other = short) : Alias names short (some none)

/-- The tables of a registry are those of a history of registrations. -/
structure Reflects (r : Registry) (cs : List Codec) : Prop where
  codecs : ∀ full, r.codecs[full]? = latest? cs full
  aliases : ∀ short, Alias (fullNames cs) short r.aliases[short]?

/-! ## The latest codec of a name -/

section Latest

variable {cs ds : List Codec} {c : Codec} {full : String}

theorem latest?_concat :
    latest? (cs ++ [c]) full = if c.type.name = full then some c else latest? cs full := by
  rw [latest?, List.reverse_append, List.reverse_singleton, List.singleton_append]
  by_cases h : c.type.name = full
  · simp [h]
  · simp [h, latest?]

theorem mem_of_latest? (h : latest? cs full = some c) : c ∈ cs ∧ c.type.name = full := by
  constructor
  · exact List.mem_reverse.1 (List.mem_of_find?_eq_some h)
  · simpa using List.find?_some h

theorem latest?_eq_none_iff : latest? cs full = none ↔ full ∉ fullNames cs := by
  simp [latest?, fullNames, List.find?_eq_none]

theorem exists_latest? (h : full ∈ fullNames cs) : ∃ c, latest? cs full = some c := by
  rw [← Option.isSome_iff_exists, Option.isSome_iff_ne_none]
  intro hnone
  exact latest?_eq_none_iff.1 hnone h

/-- Where no two codecs share a full name, it does not matter which one came last. -/
theorem latest?_eq_some_iff
    (hnames : ∀ c ∈ cs, ∀ d ∈ cs, c.type.name = d.type.name → c = d) :
    latest? cs full = some c ↔ c ∈ cs ∧ c.type.name = full := by
  refine ⟨mem_of_latest?, ?_⟩
  rintro ⟨hmem, hname⟩
  rcases exists_latest? (List.mem_map.2 ⟨c, hmem, hname⟩) with ⟨d, hd⟩
  rcases mem_of_latest? hd with ⟨hdmem, hdname⟩
  rw [hd, hnames d hdmem c hmem (hdname.trans hname.symm)]

end Latest

/-! ## Registrations -/

/-- A new registry reflects the empty history. -/
theorem reflects_nil : Reflects {} [] := by
  constructor
  · intro full
    exact Std.TreeMap.getElem?_emptyc
  · intro short
    have hnone : ({} : Registry).aliases[short]? = none := Std.TreeMap.getElem?_emptyc
    rw [hnone]
    exact .absent fun full hfull => absurd hfull List.not_mem_nil

section Aliases

variable {names : List String} {full owner short : String}

/-- An owner stays the owner when a type joins that has another unqualified name or is the owner
itself. -/
theorem Owns.concat (h : Owns names owner short) (hfull : unqualified full = short → full = owner) :
    Owns (names ++ [full]) owner short := by
  refine ⟨List.mem_append_left _ h.mem, h.short_eq, ?_⟩
  intro other hother hequal
  rcases List.mem_append.1 hother with hother | hother
  · exact h.only other hother hequal
  · rw [List.mem_singleton.1 hother] at hequal ⊢
    exact hfull hequal

/-- A type with another unqualified name does not concern an alias. -/
theorem Alias.concat {entry : Option (Option String)} (h : Alias names short entry)
    (hne : unqualified full ≠ short) : Alias (names ++ [full]) short entry := by
  cases h with
  | absent hfree =>
    refine .absent ?_
    intro other hother
    rcases List.mem_append.1 hother with hother | hother
    · exact hfree other hother
    · rw [List.mem_singleton.1 hother]
      exact hne
  | owned owner howns =>
    exact .owned owner (howns.concat fun hequal => absurd hequal hne)
  | ambiguous first second hfirst hsecond hdistinct hshort hshort' =>
    exact .ambiguous first second (List.mem_append_left _ hfirst) (List.mem_append_left _ hsecond)
      hdistinct hshort hshort'

variable {aliases : Std.TreeMap String (Option String)}

theorem addAlias_of_ne (hne : unqualified full ≠ short) :
    (Registry.addAlias aliases full)[short]? = aliases[short]? := by
  unfold Registry.addAlias
  dsimp only
  split
  next =>
    split
    next => rfl
    next => simp [Std.TreeMap.getElem?_insert, hne]
  next => rfl
  next => simp [Std.TreeMap.getElem?_insert, hne]

/-- A type that joins others takes an unqualified name that was free, leaves the one that it owns
already, and spoils the one of another type. -/
theorem Alias.addAlias_self (h : Alias names (unqualified full) aliases[unqualified full]?) :
    Alias (names ++ [full]) (unqualified full)
      (Registry.addAlias aliases full)[unqualified full]? := by
  -- The entry so far is matched as in the registration, and `h` tells what stands behind it.
  have hnew : full ∈ names ++ [full] := List.mem_append_right _ List.mem_cons_self
  cases halias : aliases[unqualified full]? with
  | none =>
    have hadd : (Registry.addAlias aliases full)[unqualified full]? = some (some full) := by
      simp [Registry.addAlias, halias]
    rw [halias] at h
    rw [hadd]
    cases h with
    | absent hfree =>
      refine .owned full ⟨hnew, rfl, ?_⟩
      intro other hother hequal
      rcases List.mem_append.1 hother with hother | hother
      · exact absurd hequal (hfree other hother)
      · exact List.mem_singleton.1 hother
  | some entry =>
    rw [halias] at h
    cases h with
    | owned owner howns =>
      by_cases howner : owner = full
      · have hadd : (Registry.addAlias aliases full)[unqualified full]? = some (some owner) := by
          simp [Registry.addAlias, halias, howner]
        rw [hadd]
        exact .owned owner (howns.concat fun _ => howner.symm)
      · have hadd : (Registry.addAlias aliases full)[unqualified full]? = some none := by
          simp [Registry.addAlias, halias, howner]
        rw [hadd]
        exact .ambiguous owner full (List.mem_append_left _ howns.mem) hnew howner howns.short_eq
          rfl
    | ambiguous first second hfirst hsecond hdistinct hshort hshort' =>
      -- The registration finds an entry that is not its own, and spoils it once more.
      have hadd : (Registry.addAlias aliases full)[unqualified full]? = some none := by
        simp [Registry.addAlias, halias]
      rw [hadd]
      exact .ambiguous first second (List.mem_append_left _ hfirst)
        (List.mem_append_left _ hsecond) hdistinct hshort hshort'

theorem Alias.addAlias (h : ∀ short, Alias names short aliases[short]?) (full short : String) :
    Alias (names ++ [full]) short (Registry.addAlias aliases full)[short]? := by
  by_cases hshort : unqualified full = short
  · subst hshort
    exact Alias.addAlias_self (h _)
  · rw [addAlias_of_ne hshort]
    exact (h short).concat hshort

end Aliases

namespace Reflects

variable {r : Registry} {cs : List Codec}

/-- A registration is the last one of the history from then on. -/
theorem register (h : r.Reflects cs) (c : Codec) : (r.register c).Reflects (cs ++ [c]) := by
  constructor
  · intro full
    have hcodecs : (r.register c).codecs[full]? =
        if c.type.name = full then some c else r.codecs[full]? := by
      simp [Registry.register, Std.TreeMap.getElem?_insert]
    rw [hcodecs, latest?_concat, h.codecs]
  · intro short
    have hnames : fullNames (cs ++ [c]) = fullNames cs ++ [c.type.name] := by
      simp [fullNames]
    rw [hnames]
    exact Alias.addAlias h.aliases c.type.name short

theorem registerAll (h : r.Reflects cs) (ds : List Codec) :
    (ds.foldl Registry.register r).Reflects (cs ++ ds) := by
  induction ds generalizing r cs with
  | nil =>
    rw [List.append_nil]
    exact h
  | cons d ds ih =>
    have hstep := ih (h.register d)
    rw [List.append_assoc] at hstep
    exact hstep

end Reflects

/-- A registry reflects its whole history. -/
theorem ofCodecs_reflects (cs : List Codec) : (ofCodecs cs).Reflects cs :=
  reflects_nil.registerAll cs

/-! ## Look-up -/

namespace Reflects

variable {r : Registry} {cs : List Codec} (h : r.Reflects cs) {name : String}

include h

theorem byAlias?_of_owns {full : String} (howns : Owns (fullNames cs) full name) :
    r.byAlias? name = latest? cs full := by
  have hentry := h.aliases name
  unfold byAlias?
  cases halias : r.aliases[name]? with
  | none =>
    rw [halias] at hentry
    cases hentry with
    | absent hfree => exact absurd howns.short_eq (hfree full howns.mem)
  | some entry =>
    rw [halias] at hentry
    cases hentry with
    | owned owner howner =>
      have hsame : owner = full := howns.only owner howner.mem howner.short_eq
      rw [← hsame]
      exact h.codecs owner
    | ambiguous first second hfirst hsecond hne hshort hshort' =>
      -- Both types that share the name would be its owner.
      have hboth : first = second :=
        (howns.only first hfirst hshort).trans (howns.only second hsecond hshort').symm
      exact absurd hboth hne

theorem byAlias?_of_not_owned (hnone : ∀ full, ¬ Owns (fullNames cs) full name) :
    r.byAlias? name = none := by
  have hentry := h.aliases name
  unfold byAlias?
  cases halias : r.aliases[name]? with
  | none => rfl
  | some entry =>
    rw [halias] at hentry
    cases hentry with
    | owned owner howner => exact absurd howner (hnone owner)
    | ambiguous => rfl

theorem get_of_latest? {c : Codec} (hc : latest? cs name = some c) : r.get name = .ok c := by
  have hcodec : r.codecs[name]? = some c := (h.codecs name).trans hc
  simp [get, hcodec]

theorem get_of_owns (hname : latest? cs name = none) {full : String} {c : Codec}
    (howns : Owns (fullNames cs) full name) (hc : latest? cs full = some c) :
    r.get name = .ok c := by
  have hcodec : r.codecs[name]? = none := (h.codecs name).trans hname
  have halias : r.byAlias? name = some c := (h.byAlias?_of_owns howns).trans hc
  simp [get, hcodec, halias]

theorem get_of_not_owned (hname : latest? cs name = none)
    (hnone : ∀ full, ¬ Owns (fullNames cs) full name) :
    r.get name = .error (.typeNotFound name) := by
  have hcodec : r.codecs[name]? = none := (h.codecs name).trans hname
  simp [get, hcodec, h.byAlias?_of_not_owned hnone]

/-- Nothing is found that was not registered, nor under any other name than these two. -/
theorem found_of_get {c : Codec} (hget : r.get name = .ok c) :
    c ∈ cs ∧ (name = c.type.name ∨ name = unqualified c.type.name) := by
  cases hname : latest? cs name with
  | some d =>
    rw [h.get_of_latest? hname] at hget
    cases hget
    obtain ⟨hmem, hfull⟩ := mem_of_latest? hname
    exact ⟨hmem, .inl hfull.symm⟩
  | none =>
    by_cases howner : ∃ full, Owns (fullNames cs) full name
    · rcases howner with ⟨full, howns⟩
      rcases exists_latest? howns.mem with ⟨d, hd⟩
      rw [h.get_of_owns hname howns hd] at hget
      cases hget
      obtain ⟨hmem, hfull⟩ := mem_of_latest? hd
      rw [hfull]
      exact ⟨hmem, .inr howns.short_eq.symm⟩
    · rw [h.get_of_not_owned hname (not_exists.1 howner)] at hget
      cases hget

theorem mem_of_get {c : Codec} (hget : r.get name = .ok c) : c ∈ cs :=
  (h.found_of_get hget).1

theorem mem_typeNames : name ∈ r.typeNames ↔ name ∈ fullNames cs := by
  have hnone : latest? cs name ≠ none ↔ name ∈ fullNames cs := by
    rw [ne_eq, latest?_eq_none_iff, not_not]
  rw [typeNames, Std.TreeMap.mem_keys, Std.TreeMap.mem_iff_isSome_getElem?, h.codecs,
    Option.isSome_iff_ne_none]
  exact hnone

theorem count_eq : r.count = (fullNames cs).toFinset.card := by
  have hnodup : r.typeNames.Nodup := by
    refine Std.TreeMap.distinct_keys.imp ?_
    intro a b hne hequal
    exact hne (hequal ▸ Std.compare_self)
  have hsame : r.typeNames.toFinset = (fullNames cs).toFinset := by
    ext name
    rw [List.mem_toFinset, List.mem_toFinset, h.mem_typeNames]
  rw [← hsame, List.toFinset_card_of_nodup hnodup]
  exact Std.TreeMap.length_keys.symm

end Reflects

/-- The names of a registry ascend in the order of their bytes. -/
theorem typeNames_ascending (r : Registry) :
    r.typeNames.Pairwise fun a b => Text.utf8 a < Text.utf8 b := by
  refine Std.TreeMap.ordered_keys.imp ?_
  intro a b hlt
  exact (Text.lt_iff_utf8_lt a b).1 (compareOfLessAndEq_eq_lt.1 hlt)

/-- Histories with the same codecs give the same look-ups, if no two codecs share a full name. -/
theorem get_congr {cs ds : List Codec} (hmem : ∀ c, c ∈ cs ↔ c ∈ ds)
    (hnames : ∀ c ∈ cs, ∀ d ∈ cs, c.type.name = d.type.name → c = d) (name : String) :
    (ofCodecs ds).get name = (ofCodecs cs).get name := by
  have hnames' : ∀ c ∈ ds, ∀ d ∈ ds, c.type.name = d.type.name → c = d :=
    fun c hc d hd => hnames c ((hmem c).2 hc) d ((hmem d).2 hd)
  -- Both tables are determined by the latest codecs, which are the same for each full name.
  have hlatest : ∀ full, latest? ds full = latest? cs full := by
    intro full
    refine Option.ext fun c => ?_
    rw [latest?_eq_some_iff hnames, latest?_eq_some_iff hnames', hmem]
  have hfull : ∀ full, full ∈ fullNames ds ↔ full ∈ fullNames cs := by
    intro full
    rw [← not_iff_not, ← latest?_eq_none_iff, ← latest?_eq_none_iff, hlatest]
  have howns : ∀ full, Owns (fullNames cs) full name → Owns (fullNames ds) full name := by
    intro full h
    exact ⟨(hfull full).2 h.mem, h.short_eq,
      fun other hother => h.only other ((hfull other).1 hother)⟩
  have hcs := ofCodecs_reflects cs
  have hds := ofCodecs_reflects ds
  cases hname : latest? cs name with
  | some c => rw [hcs.get_of_latest? hname, hds.get_of_latest? ((hlatest name).trans hname)]
  | none =>
    have hname' : latest? ds name = none := (hlatest name).trans hname
    by_cases howner : ∃ full, Owns (fullNames cs) full name
    · rcases howner with ⟨full, h⟩
      rcases exists_latest? h.mem with ⟨c, hc⟩
      rw [hcs.get_of_owns hname h hc,
        hds.get_of_owns hname' (howns full h) ((hlatest full).trans hc)]
    · have hnone' : ∀ full, ¬ Owns (fullNames ds) full name := by
        intro full h
        refine howner ⟨full, (hfull full).1 h.mem, h.short_eq, ?_⟩
        intro other hother
        exact h.only other ((hfull other).2 hother)
      rw [hcs.get_of_not_owned hname (not_exists.1 howner), hds.get_of_not_owned hname' hnone']

/-- Once two types have shared an unqualified name, no further registration gives it an owner. -/
theorem not_owns_of_shared {cs : List Codec} {full other short : String}
    (hfull : full ∈ fullNames cs) (hother : other ∈ fullNames cs) (hne : full ≠ other)
    (hshort : unqualified full = short) (hshort' : unqualified other = short) (ds : List Codec)
    (owner : String) : ¬ Owns (fullNames (cs ++ ds)) owner short := by
  intro howns
  have hmem : ∀ name ∈ fullNames cs, name ∈ fullNames (cs ++ ds) := by
    intro name hname
    rw [fullNames, List.map_append]
    exact List.mem_append_left _ hname
  have hfirst : full = owner := howns.only full (hmem full hfull) hshort
  have hsecond : other = owner := howns.only other (hmem other hother) hshort'
  exact hne (hfirst.trans hsecond.symm)

/-! ## The law of look-up -/

/-- What a registry gives after any registrations. A name leads to the codec registered last under
it as a full name, else to that of the only full name that it is the unqualified part of, else
nowhere. The names ascend in the order of their bytes, each once. The order and the number of the
registrations do not matter while different codecs have different full names, and an unqualified
name that two types have shared is never an alias again. -/
theorem lookup_law (cs : List Codec) :
    (∀ name,
      (∀ c, latest? cs name = some c → (ofCodecs cs).get name = .ok c) ∧
      (latest? cs name = none →
        (∀ full, Owns (fullNames cs) full name →
          ∃ c, latest? cs full = some c ∧ (ofCodecs cs).get name = .ok c) ∧
        ((∀ full, ¬ Owns (fullNames cs) full name) →
          (ofCodecs cs).get name = .error (.typeNotFound name))) ∧
      ((ofCodecs cs).contains name = true ↔ ∃ c, (ofCodecs cs).get name = .ok c)) ∧
    (ofCodecs cs).count = (fullNames cs).toFinset.card ∧
    (ofCodecs cs).typeNames.Pairwise (fun a b => Text.utf8 a < Text.utf8 b) ∧
    (∀ name, name ∈ (ofCodecs cs).typeNames ↔ name ∈ fullNames cs) ∧
    (∀ ds, (∀ c, c ∈ cs ↔ c ∈ ds) →
      (∀ c ∈ cs, ∀ d ∈ cs, c.type.name = d.type.name → c = d) →
      ∀ name, (ofCodecs ds).get name = (ofCodecs cs).get name) ∧
    (∀ full ∈ fullNames cs, ∀ other ∈ fullNames cs, full ≠ other →
      ∀ short, unqualified full = short → unqualified other = short →
      ∀ ds, (ofCodecs (cs ++ ds)).byAlias? short = none) := by
  have h := ofCodecs_reflects cs
  refine ⟨?_, h.count_eq, typeNames_ascending _, fun name => h.mem_typeNames,
    fun ds => get_congr, ?_⟩
  · intro name
    refine ⟨fun c => h.get_of_latest?, ?_, ?_⟩
    · intro hname
      refine ⟨?_, h.get_of_not_owned hname⟩
      intro full howns
      rcases exists_latest? howns.mem with ⟨c, hc⟩
      exact ⟨c, hc, h.get_of_owns hname howns hc⟩
    · cases hget : (ofCodecs cs).get name <;> simp [contains, hget, Except.toBool]
  · intro full hfull other hother hne short hshort hshort' ds
    exact (ofCodecs_reflects (cs ++ ds)).byAlias?_of_not_owned
      (not_owns_of_shared hfull hother hne hshort hshort' ds)

/-- A type of another package that has the unqualified name of a type of the library. -/
def rivalService : Codec :=
  ⟨Catalog.standard, ⟨"other.v1.SocialServiceMessageFormat", []⟩⟩

/-- A history in which a type comes back after a rival has taken its unqualified name. -/
def rivalHistory : List Codec :=
  [⟨Catalog.standard, Catalog.socialService⟩, rivalService,
    ⟨Catalog.standard, Catalog.socialService⟩, ⟨Catalog.standard, Catalog.deleteAccount⟩]

theorem lookup_law_instances :
    (ofCodecs rivalHistory).get "other.v1.SocialServiceMessageFormat" = .ok rivalService ∧
    (ofCodecs rivalHistory).get "DeleteAccountMessageFormat" =
      .ok ⟨Catalog.standard, Catalog.deleteAccount⟩ ∧
    (ofCodecs rivalHistory).get "SocialServiceMessageFormat" =
      .error (.typeNotFound "SocialServiceMessageFormat") ∧
    (ofCodecs rivalHistory).contains "SocialServiceMessageFormat" = false ∧
    (ofCodecs rivalHistory).count = 3 ∧
    (∀ name, (ofCodecs rivalHistory.reverse).get name = (ofCodecs rivalHistory).get name) ∧
    (ofCodecs (rivalHistory ++ [rivalService])).byAlias? "SocialServiceMessageFormat" = none := by
  rcases lookup_law rivalHistory with ⟨hget, hcount, -, -, hset, hshared⟩
  rcases hget "other.v1.SocialServiceMessageFormat" with ⟨hrival, -⟩
  rcases hget "DeleteAccountMessageFormat" with ⟨-, hshort, -⟩
  rcases (hshort rfl).1 "message_definition.v1.DeleteAccountMessageFormat" (by decide)
    with ⟨c, hc, haccount⟩
  rcases hget "SocialServiceMessageFormat" with ⟨-, hambiguous, hcontains⟩
  have hsame : c = ⟨Catalog.standard, Catalog.deleteAccount⟩ := by
    have hlatest : latest? rivalHistory "message_definition.v1.DeleteAccountMessageFormat" =
        some ⟨Catalog.standard, Catalog.deleteAccount⟩ := rfl
    exact Option.some.inj (hc.symm.trans hlatest)
  have hsocial : "message_definition.v1.SocialServiceMessageFormat" ∈ fullNames rivalHistory := by
    decide
  have hother : "other.v1.SocialServiceMessageFormat" ∈ fullNames rivalHistory := by decide
  have hnobody := (hambiguous rfl).2
    (not_owns_of_shared hsocial hother (by decide) (by decide) (by decide) [])
  refine ⟨hrival _ rfl, hsame ▸ haccount, hnobody, ?_, ?_, ?_, ?_⟩
  · rw [Bool.eq_false_iff]
    intro hfound
    rcases hcontains.1 hfound with ⟨d, hd⟩
    rw [hnobody] at hd
    cases hd
  · rw [hcount]
    decide
  · exact hset _ (fun c => List.mem_reverse.symm) (by decide)
  · exact hshared _ hsocial _ hother (by decide) _ (by decide) (by decide) _

end Registry
end SchemaCodec
