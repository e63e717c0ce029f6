import Mathlib
import SchemaCodec.Fault

/-!
# Proofs.Outcome — values or faults

What a reader made of a value or of several is a value exactly if each step was one:
`map_eq_ok_iff`, `mapM_ok_iff`. The same holds of steps that carry a state: `step_ok_iff`.
-/

namespace SchemaCodec

variable {α β : Type}

theorem map_eq_ok_iff {x : Except Fault α} {f : α → β} {b : β} :
    x.map f = .ok b ↔ ∃ a, x = .ok a ∧ f a = b := by
  cases x with
  | ok a => simp [Except.map]
  | error e => simp [Except.map]

theorem map_eq_error_iff {x : Except Fault α} {f : α → β} {e : Fault} :
    x.map f = .error e ↔ x = .error e := by
  cases x with
  | ok a => simp [Except.map]
  | error e' => simp [Except.map]

theorem bind_eq_ok_iff {x : Except Fault α} {f : α → Except Fault β} {b : β} :
    (x >>= f) = .ok b ↔ ∃ a, x = .ok a ∧ f a = .ok b := by
  cases x with
  | ok a => simp [bind, Except.bind]
  | error e => simp [bind, Except.bind]

/-- Values read one after the other are all read. -/
theorem mapM_ok_iff {f : α → Except Fault β} {as : List α} {bs : List β} :
    as.mapM f = .ok bs ↔ List.Forall₂ (fun a b => f a = .ok b) as bs := by
  induction as generalizing bs with
  | nil =>
    rw [List.mapM_nil, List.forall₂_nil_left_iff]
    exact ⟨fun h => (Except.ok.inj h).symm, fun h => congrArg Except.ok h.symm⟩
  | cons a as ih =>
    rw [List.mapM_cons, List.forall₂_cons_left_iff, bind_eq_ok_iff]
    refine exists_congr fun b => ?_
    rw [bind_eq_ok_iff]
    constructor
    · rintro ⟨ha, bs', has, hbs⟩
      exact ⟨bs', ha, ih.1 has, (Except.ok.inj hbs).symm⟩
    · rintro ⟨bs', ha, has, hbs⟩
      exact ⟨ha, bs', ih.2 has, congrArg Except.ok hbs.symm⟩

theorem exists_map_iff {x : Except Fault α} {f : α → β} :
    (∃ b, x.map f = .ok b) ↔ ∃ a, x = .ok a := by
  cases x with
  | ok a => simp [Except.map]
  | error e => simp [Except.map]

theorem exists_mapM_iff {f : α → Except Fault β} {as : List α} :
    (∃ bs, as.mapM f = .ok bs) ↔ ∀ a ∈ as, ∃ b, f a = .ok b := by
  induction as with
  | nil => exact ⟨fun _ a ha => absurd ha List.not_mem_nil, fun _ => ⟨[], rfl⟩⟩
  | cons a as ih =>
    rw [List.forall_mem_cons, ← ih, List.mapM_cons]
    constructor
    · rintro ⟨bs, hbs⟩
      rcases bind_eq_ok_iff.1 hbs with ⟨b, hb, hrest⟩
      rcases bind_eq_ok_iff.1 hrest with ⟨bs', hbs', -⟩
      exact ⟨⟨b, hb⟩, bs', hbs'⟩
    · rintro ⟨⟨b, hb⟩, bs, hbs⟩
      exact ⟨b :: bs, bind_eq_ok_iff.2 ⟨b, hb, bind_eq_ok_iff.2 ⟨bs, hbs, rfl⟩⟩⟩

/-- The first value that is not read decides. -/
theorem mapM_eq_error {f : α → Except Fault β} {pre post : List α} {a : α} {e : Fault}
    (hpre : ∀ b ∈ pre, ∃ c, f b = .ok c) (ha : f a = .error e) :
    (pre ++ a :: post).mapM f = .error e := by
  induction pre with
  | nil => rw [List.nil_append, List.mapM_cons, ha]; rfl
  | cons b pre ih =>
    obtain ⟨⟨c, hc⟩, hrest⟩ := List.forall_mem_cons.1 hpre
    rw [List.cons_append, List.mapM_cons, hc, ih hrest]
    rfl

/-- Values read one after the other fail with the first one that is not read. -/
theorem mapM_eq_error_iff {f : α → Except Fault β} {as : List α} {e : Fault} :
    as.mapM f = .error e ↔
      ∃ pre a post, as = pre ++ a :: post ∧ (∀ b ∈ pre, ∃ c, f b = .ok c) ∧ f a = .error e := by
  constructor
  · intro h
    induction as with
    | nil => cases h
    | cons a as ih =>
      rw [List.mapM_cons] at h
      cases ha : f a with
      | error e' =>
        rw [ha] at h
        cases h
        exact ⟨[], a, as, rfl, fun b hb => absurd hb List.not_mem_nil, ha⟩
      | ok c =>
        cases has : as.mapM f with
        | ok cs =>
          rw [ha, has] at h
          cases h
        | error e' =>
          rw [ha, has] at h
          cases h
          obtain ⟨pre, a', post, rfl, hpre, hfail⟩ := ih has
          exact ⟨a :: pre, a', post, rfl, List.forall_mem_cons.2 ⟨⟨c, ha⟩, hpre⟩, hfail⟩
  · rintro ⟨pre, a, post, rfl, hpre, ha⟩
    exact mapM_eq_error hpre ha

theorem mapM_congr {f g : α → Except Fault β} {as : List α} (h : ∀ a ∈ as, f a = g a) :
    as.mapM f = as.mapM g := by
  induction as with
  | nil => rfl
  | cons a as ih =>
    obtain ⟨ha, hrest⟩ := List.forall_mem_cons.1 h
    rw [List.mapM_cons, List.mapM_cons, ha, ih hrest]

theorem exists_of_forall₂ {R : α → β → Prop} {as : List α} {bs : List β}
    (h : List.Forall₂ R as bs) {b : β} (hb : b ∈ bs) : ∃ a ∈ as, R a b := by
  induction h with
  | nil => cases hb
  | cons hhead htail ih =>
    rcases List.mem_cons.1 hb with rfl | hb
    · exact ⟨_, List.mem_cons_self, hhead⟩
    · rcases ih hb with ⟨a, ha, hrel⟩
      exact ⟨a, List.mem_cons_of_mem _ ha, hrel⟩

/-! ## Steps with a state -/

section Steps

variable {ε σ : Type} {x : EStateM ε σ α} {f : α → EStateM ε σ β} {s s' : σ}

theorem bind_of_ok {a : α} (h : x s = .ok a s') : (x >>= f) s = f a s' := by
  simp [bind, EStateM.bind, h]

theorem bind_of_error {e : ε} (h : x s = .error e s') : (x >>= f) s = .error e s' := by
  simp [bind, EStateM.bind, h]

/-- Two steps succeed together exactly when the second succeeds where the first one ends. -/
theorem step_ok_iff {b : β} :
    (x >>= f) s = .ok b s' ↔ ∃ a s₁, x s = .ok a s₁ ∧ f a s₁ = .ok b s' := by
  cases hx : x s with
  | ok a s₁ => simp [bind_of_ok hx, and_assoc]
  | error e s₁ => simp [bind_of_error hx]

/-- A step made into something else has succeeded. -/
theorem exists_of_map_ok {g : α → β} {b : β}
    (h : (do return g (← x) : EStateM ε σ β) s = .ok b s') : ∃ a, x s = .ok a s' := by
  obtain ⟨a, s₁, ha, hpure⟩ := step_ok_iff.1 h
  cases hpure
  exact ⟨a, ha⟩

end Steps

end SchemaCodec
