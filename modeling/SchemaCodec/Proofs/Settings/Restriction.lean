import Mathlib
import SchemaCodec.Settings.Limits

/-!
# Proofs.Settings.Restriction — limits and wider ones

- `Limits.Tighter`: limits that accept at most what others accept.
- `Limits.Refuses`: the faults that limits give of themselves.
- `Limits.Restricts`: a result under limits is that under wider ones, or is such a fault.

Readers keep `Limits.Restricts` from their parts to the whole, since a reader that goes on with a
value has it from both sides (`Limits.Restricts.bind`, `Limits.Restricts.mapM`).
-/

namespace SchemaCodec

namespace Limits

/-- Limits that accept at most what others accept. -/
structure Tighter (l l' : Limits) : Prop where
  recursion : l.recursion ≤ l'.recursion
  range : l.range = .safe ∨ l'.range = .full

/-- The faults that limits give of themselves: that too much would be open at once, and that a
number is not safe, if numbers have to be. -/
inductive Refuses (l : Limits) : Fault → Prop where
  | recursion : Refuses l (.recursionLimit l.recursion)
  | range (path : FieldPath) (n : UInt64) (hrange : l.range = .safe) (hn : maxSafeInteger < n) :
      Refuses l (.rangeOverflow path n)

/-- A result under limits is the one under wider limits, unless the limits refuse it. -/
def Restricts {α : Type} (l : Limits) (x x' : Except Fault α) : Prop :=
  x = x' ∨ ∃ e, x = .error e ∧ l.Refuses e

variable {l l' : Limits}

theorem Tighter.refl (l : Limits) : l.Tighter l := by
  refine ⟨Nat.le_refl _, ?_⟩
  cases l.range with
  | safe => exact .inl rfl
  | full => exact .inr rfl

theorem Tighter.accepts (h : l.Tighter l') {n : UInt64} (hn : l.range.accepts n = true) :
    l'.range.accepts n = true := by
  rcases h.range with hsafe | hfull
  · rw [hsafe] at hn
    cases l'.range with
    | safe => exact hn
    | full => rfl
  · rw [hfull]
    rfl

theorem refuses_of_not_accepts (path : FieldPath) {n : UInt64}
    (h : ¬ l.range.accepts n = true) : l.Refuses (.rangeOverflow path n) := by
  cases hrange : l.range with
  | safe =>
    rw [hrange] at h
    refine .range path n hrange ?_
    simpa [IntegerRange.accepts] using h
  | full =>
    rw [hrange] at h
    exact absurd rfl h

namespace Restricts

variable {α β : Type}

theorem refl (x : Except Fault α) : l.Restricts x x :=
  .inl rfl

/-- Wider limits change no result that is no fault. -/
theorem eq_of_ok {a : α} {x' : Except Fault α} (h : l.Restricts (.ok a) x') : x' = .ok a := by
  rcases h with h | ⟨e, he, -⟩
  · exact h.symm
  · cases he

/-- Wider limits change no fault but those of the limits themselves. -/
theorem eq_of_error {e : Fault} {x' : Except Fault α} (h : l.Restricts (.error e) x')
    (he : ¬ l.Refuses e) : x' = .error e := by
  rcases h with h | ⟨e', he', hrefuses⟩
  · exact h.symm
  · cases he'
    exact absurd hrefuses he

theorem map {x x' : Except Fault α} (h : l.Restricts x x') (f : α → β) :
    l.Restricts (x.map f) (x'.map f) := by
  rcases h with rfl | ⟨e, rfl, he⟩
  · exact .refl _
  · exact .inr ⟨e, rfl, he⟩

theorem bind {x x' : Except Fault α} (h : l.Restricts x x') {f f' : α → Except Fault β}
    (hf : ∀ a, l.Restricts (f a) (f' a)) : l.Restricts (x >>= f) (x' >>= f') := by
  rcases h with rfl | ⟨e, rfl, he⟩
  · cases x with
    | ok a => exact hf a
    | error e => exact .refl _
  · exact .inr ⟨e, rfl, he⟩

theorem mapM {f f' : α → Except Fault β} {as : List α} (h : ∀ a ∈ as, l.Restricts (f a) (f' a)) :
    l.Restricts (as.mapM f) (as.mapM f') := by
  induction as with
  | nil => exact .refl _
  | cons a as ih =>
    rw [List.forall_mem_cons] at h
    rw [List.mapM_cons, List.mapM_cons]
    refine h.1.bind ?_
    intro b
    exact (ih h.2).bind fun bs => .refl _

end Restricts
end Limits
end SchemaCodec
