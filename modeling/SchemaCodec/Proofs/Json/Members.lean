import Mathlib
import SchemaCodec.Json.Document

/-!
# Proofs.Json.Members — objects by look-up

An object is built by setting its members one after the other. What a key then denotes does not
depend on the order in which the members stand (`lookup_foldl_insert`), so proofs about objects
rarely look at that order. It is the ascending order of the keys (`ascending_foldl_insert`), and
every object that a document denotes is in it (`parse?_ordered`).
-/

namespace SchemaCodec
namespace Json

variable {key k : String} {value : Json} {members : List (String × Json)}

theorem lookup_cons (m : String × Json) :
    (m :: members).lookup k = if k = m.1 then some m.2 else members.lookup k := by
  by_cases h : k = m.1
  · simp [List.lookup, h]
  · have hne : (k == m.1) = false := by simpa using h
    simp [List.lookup, h, hne]

theorem lookup_eq_none_iff : members.lookup k = none ↔ k ∉ members.map (·.1) := by
  induction members with
  | nil => simp
  | cons m members ih =>
    rw [lookup_cons, List.map_cons, List.mem_cons, not_or, ← ih]
    by_cases h : k = m.1 <;> simp [h]

theorem mem_of_lookup (h : members.lookup k = some value) : (k, value) ∈ members := by
  rcases List.lookup_eq_some_iff.1 h with ⟨before, after, rfl, -⟩
  exact List.mem_append_right before List.mem_cons_self

/-- Setting a key changes what that key denotes, and no other. -/
theorem lookup_insert :
    (insert key value members).lookup k = if k = key then some value else members.lookup k := by
  induction members with
  | nil => exact lookup_cons (key, value)
  | cons m rest ih =>
    obtain ⟨k', v'⟩ := m
    simp only [insert]
    split
    next => exact lookup_cons (key, value)
    next =>
      split
      next heq =>
        subst heq
        rw [lookup_cons, lookup_cons]
        split <;> rfl
      next hne =>
        rw [lookup_cons, lookup_cons, ih]
        by_cases h : k = key
        · have hk : ¬ k = k' := fun heq => hne (h.symm.trans heq)
          rw [if_neg hk, if_pos h, if_pos h]
        · rw [if_neg h, if_neg h]

theorem mem_insert {m : String × Json} (h : m ∈ insert key value members) :
    m = (key, value) ∨ m ∈ members := by
  induction members with
  | nil => exact .inl (List.mem_singleton.1 h)
  | cons a rest ih =>
    obtain ⟨k', v'⟩ := a
    simp only [insert] at h
    split at h
    next => exact List.mem_cons.1 h
    next =>
      split at h
      next => exact (List.mem_cons.1 h).imp_right (List.mem_cons_of_mem _)
      next =>
        rcases List.mem_cons.1 h with rfl | h
        · exact .inr List.mem_cons_self
        · exact (ih h).imp_right (List.mem_cons_of_mem _)

/-- Setting a key keeps the ascending order of the keys. -/
theorem ascending_insert (h : members.Pairwise fun a b => a.1 < b.1) :
    (insert key value members).Pairwise fun a b => a.1 < b.1 := by
  induction members with
  | nil => exact List.pairwise_singleton _ _
  | cons m rest ih =>
    obtain ⟨k', v'⟩ := m
    obtain ⟨hfirst, hrest⟩ := List.pairwise_cons.1 h
    simp only [insert]
    split
    next hlt =>
      refine List.pairwise_cons.2 ⟨?_, h⟩
      intro a ha
      rcases List.mem_cons.1 ha with rfl | ha
      · exact hlt
      · exact lt_trans hlt (hfirst a ha)
    next hnot =>
      split
      next heq =>
        subst heq
        exact List.pairwise_cons.2 ⟨hfirst, hrest⟩
      next hne =>
        refine List.pairwise_cons.2 ⟨?_, ih hrest⟩
        intro a ha
        rcases mem_insert ha with rfl | ha
        · exact lt_of_le_of_ne (le_of_not_gt hnot) (Ne.symm hne)
        · exact hfirst a ha

/-- Members with different keys, set one after the other, are all found. -/
theorem lookup_foldl_insert (hkeys : (members.map (·.1)).Nodup) (sorted : List (String × Json)) :
    (members.foldl (fun sorted m => insert m.1 m.2 sorted) sorted).lookup k =
      (members.lookup k).or (sorted.lookup k) := by
  induction members generalizing sorted with
  | nil => rfl
  | cons m members ih =>
    obtain ⟨hfirst, hrest⟩ := List.nodup_cons.1 hkeys
    rw [List.foldl_cons, ih hrest, lookup_insert, lookup_cons]
    by_cases h : k = m.1
    · have hnone : members.lookup k = none := lookup_eq_none_iff.2 (h ▸ hfirst)
      rw [if_pos h, if_pos h, hnone]
      rfl
    · rw [if_neg h, if_neg h]

theorem mem_foldl_insert {m : String × Json} {sorted : List (String × Json)}
    (h : m ∈ members.foldl (fun sorted m => insert m.1 m.2 sorted) sorted) :
    m ∈ members ∨ m ∈ sorted := by
  induction members generalizing sorted with
  | nil => exact .inr h
  | cons a members ih =>
    rcases ih h with hrest | hsorted
    · exact .inl (List.mem_cons_of_mem _ hrest)
    · rcases mem_insert hsorted with rfl | hsorted
      · exact .inl List.mem_cons_self
      · exact .inr hsorted

theorem ascending_foldl_insert {sorted : List (String × Json)}
    (h : sorted.Pairwise fun a b => a.1 < b.1) :
    (members.foldl (fun sorted m => insert m.1 m.2 sorted) sorted).Pairwise
      fun a b => a.1 < b.1 := by
  induction members generalizing sorted with
  | nil => exact h
  | cons m members ih => exact ih (ascending_insert h)

/-- Members that stand in ascending order are their own sorted form. -/
theorem foldl_insert_of_ascending {members sorted : List (String × Json)}
    (h : (sorted ++ members).Pairwise fun a b => a.1 < b.1) :
    members.foldl (fun sorted m => insert m.1 m.2 sorted) sorted = sorted ++ members := by
  have hlast : ∀ (m : String × Json) (sorted : List (String × Json)),
      (∀ a ∈ sorted, a.1 < m.1) → insert m.1 m.2 sorted = sorted ++ [m] := by
    intro m sorted hbelow
    induction sorted with
    | nil => rfl
    | cons a sorted ih =>
      have hlt : a.1 < m.1 := hbelow a List.mem_cons_self
      have hrest := ih fun b hb => hbelow b (List.mem_cons_of_mem _ hb)
      rw [insert, if_neg hlt.not_gt, if_neg hlt.ne', hrest]
      rfl
  induction members generalizing sorted with
  | nil => rw [List.foldl_nil, List.append_nil]
  | cons m members ih =>
    have hbelow : ∀ a ∈ sorted, a.1 < m.1 := fun a ha =>
      (List.pairwise_append.1 h).2.2 a ha m List.mem_cons_self
    rw [List.foldl_cons, hlast m sorted hbelow, ih (by rwa [List.append_assoc]),
      List.append_assoc]
    rfl

theorem ofMembers_of_ascending {members : List (String × Json)}
    (h : members.Pairwise fun a b => a.1 < b.1) : ofMembers members = .object members := by
  have hsorted := @foldl_insert_of_ascending members [] h
  rw [ofMembers, hsorted, List.nil_append]

/-! ## Values of documents -/

/-- A value with the members of every object in ascending order of their keys, at any depth. -/
inductive Ordered : Json → Prop where
  | null : Ordered .null
  | bool (b : Bool) : Ordered (.bool b)
  | number (n : Number) : Ordered (.number n)
  | string (s : String) : Ordered (.string s)
  | array (items : List Json) (h : ∀ item ∈ items, Ordered item) : Ordered (.array items)
  | object (members : List (String × Json)) (hkeys : members.Pairwise fun a b => a.1 < b.1)
      (h : ∀ m ∈ members, Ordered m.2) : Ordered (.object members)

theorem ordered_array_iff {items : List Json} :
    (array items).Ordered ↔ ∀ item ∈ items, item.Ordered := by
  constructor
  · rintro ⟨⟩
    assumption
  · exact .array items

theorem ordered_object_iff :
    (object members).Ordered ↔
      (members.Pairwise fun a b => a.1 < b.1) ∧ ∀ m ∈ members, m.2.Ordered := by
  constructor
  · rintro ⟨⟩
    exact ⟨‹_›, ‹_›⟩
  · rintro ⟨hkeys, h⟩
    exact .object members hkeys h

theorem ordered_ofMembers (h : ∀ m ∈ members, m.2.Ordered) : (ofMembers members).Ordered := by
  refine .object _ (ascending_foldl_insert .nil) ?_
  intro m hm
  rcases mem_foldl_insert hm with hmember | hnone
  · exact h m hmember
  · cases hnone

mutual
theorem ordered_of_valueWithin? {levels : Nat} {d : Document} {v : Json}
    (h : d.valueWithin? levels = some v) : v.Ordered := by
  cases d with
  | null =>
    cases h
    exact .null
  | bool b =>
    cases h
    exact .bool b
  | number l =>
    rcases Option.map_eq_some_iff.1 h with ⟨n, -, rfl⟩
    exact .number n
  | string s =>
    rcases Option.map_eq_some_iff.1 h with ⟨s, -, rfl⟩
    exact .string s
  | array items =>
    cases levels with
    | zero => cases h
    | succ levels =>
      rcases Option.map_eq_some_iff.1 h with ⟨vs, hvs, rfl⟩
      exact .array vs (ordered_of_itemsWithin? hvs)
  | object members =>
    cases levels with
    | zero => cases h
    | succ levels =>
      rcases Option.map_eq_some_iff.1 h with ⟨ms, hms, rfl⟩
      exact ordered_ofMembers (ordered_of_membersWithin? hms)

theorem ordered_of_itemsWithin? {levels : Nat} {items : List Document} {vs : List Json}
    (h : Document.itemsWithin? levels items = some vs) : ∀ v ∈ vs, v.Ordered := by
  cases items with
  | nil =>
    cases h
    exact fun v hv => absurd hv List.not_mem_nil
  | cons item rest =>
    rw [Document.itemsWithin?] at h
    split at h
    next v vs hv hvs =>
      cases h
      exact List.forall_mem_cons.2 ⟨ordered_of_valueWithin? hv, ordered_of_itemsWithin? hvs⟩
    next => cases h

theorem ordered_of_membersWithin? {levels : Nat} {members : List (Option String × Document)}
    {ms : List (String × Json)} (h : Document.membersWithin? levels members = some ms) :
    ∀ m ∈ ms, m.2.Ordered := by
  cases members with
  | nil =>
    cases h
    exact fun m hm => absurd hm List.not_mem_nil
  | cons member rest =>
    obtain ⟨key, d⟩ := member
    rw [Document.membersWithin?.eq_def] at h
    dsimp only at h
    split at h
    next hv hms =>
      cases h
      exact List.forall_mem_cons.2 ⟨ordered_of_valueWithin? hv, ordered_of_membersWithin? hms⟩
    next => cases h
end

/-- The objects of a document are in order. -/
theorem parse?_ordered {s : String} {v : Json} (h : parse? s = some v) : v.Ordered := by
  rw [parse?] at h
  split at h
  next d _ => exact ordered_of_valueWithin? h
  next => cases h

end Json
end SchemaCodec
