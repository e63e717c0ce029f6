import Mathlib
import SchemaCodec.Proofs.Annotation.Restriction
import SchemaCodec.Proofs.Projection.Restriction

/-!
# Proofs.Registry.Restriction — what the limits of a reader are for

Every reader of the library takes limits, and `Catalog.limits_only_restrict` says of all of them
that limits do nothing but refuse: whatever is read or found wrong under limits is so under wider
ones, except for what the limits refuse of themselves.
-/

namespace SchemaCodec
namespace Catalog

/-- Limits only restrict. If limits are at most others in both respects, then payloads, options
messages and values in both readings give the same under the limits as under the others, message
or fault, unless the fault is that of the limits themselves: too many submessages or groups, or a
number that is not safe where numbers have to be. -/
theorem limits_only_restrict {l l' : Limits} (hrecursion : l.recursion ≤ l'.recursion)
    (hrange : l.range = .safe ∨ l'.range = .full) :
    (∀ t ∈ types, ∀ bytes,
      l.Restricts (standard.decode t l bytes) (standard.decode t l' bytes)) ∧
    (∀ kind bytes,
      l.Restricts (ElementOption.extract kind l bytes) (ElementOption.extract kind l' bytes)) ∧
    ∀ t ∈ types, ∀ coercion v,
      l.Restricts (standard.readJson t coercion l v) (standard.readJson t coercion l' v) := by
  have hl : l.Tighter l' := ⟨hrecursion, hrange⟩
  refine ⟨?_, ?_, ?_⟩
  · intro t _ bytes
    exact standard.decode_restricts t hl bytes
  · intro kind bytes
    exact ElementOption.extract_restricts kind hl bytes
  · intro t _ coercion v
    exact standard.readJson_restricts t hl coercion v

/-- Limits that are wider than the default ones in both respects. -/
def wideLimits : Limits where
  range := .full
  recursion := 200

/-- A user id, a string that is cut off and a truth value for a user id are read the same under
wider limits. -/
theorem limits_only_restrict_instances :
    standard.decode deleteAccount wideLimits [0x18, 0x07] = .ok [[], [], [.uint64 7], []] ∧
    ElementOption.extract .field wideLimits [0x0a, 0x02] = .error (.bufferTooShort 2 0 2) ∧
    standard.readJson deleteAccount .loose wideLimits (.object [("userId", .bool true)]) =
      .ok [[], [], [.uint64 1], []] := by
  have hdecode : standard.decode deleteAccount {} [0x18, 0x07] =
      .ok [[], [], [.uint64 7], []] := by cbv
  have hextract : ElementOption.extract .field {} [0x0a, 0x02] =
      .error (.bufferTooShort 2 0 2) := by cbv
  have hjson : standard.readJson deleteAccount .loose {} (.object [("userId", .bool true)]) =
      .ok [[], [], [.uint64 1], []] := by cbv
  have hrecursion : ({} : Limits).recursion ≤ wideLimits.recursion := by decide
  have hrange : ({} : Limits).range = .safe ∨ wideLimits.range = .full := by decide
  rcases limits_only_restrict hrecursion hrange with ⟨hpayloads, hoptions, hvalues⟩
  have hpayload := hpayloads deleteAccount (by decide) [0x18, 0x07]
  have hoption := hoptions .field [0x0a, 0x02]
  have hvalue := hvalues deleteAccount (by decide) .loose (.object [("userId", .bool true)])
  rw [hdecode] at hpayload
  rw [hextract] at hoption
  rw [hjson] at hvalue
  have hcut : ¬ ({} : Limits).Refuses (.bufferTooShort 2 0 2) := by
    intro h
    cases h
  exact ⟨hpayload.eq_of_ok, hoption.eq_of_error hcut, hvalue.eq_of_ok⟩

end Catalog
end SchemaCodec
