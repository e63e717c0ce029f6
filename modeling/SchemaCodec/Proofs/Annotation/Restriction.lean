import Mathlib
import SchemaCodec.Annotation.Extension
import SchemaCodec.Proofs.Wire.Lockstep

/-!
# Proofs.Annotation.Restriction — options under wider limits

The records of an options message are passed in lockstep, and each option is a payload of its own.
So the option that an options message carries is restricted by the limits only where a payload is:
`ElementOption.extract_restricts`.
-/

namespace SchemaCodec
namespace ElementOption

/-- One step of an extraction, without the proofs that it makes progress. -/
theorem extractFrom_step (kind : ElementKind) (found : Option ElementOption) (c : Cursor) :
    extractFrom kind found c =
      if c.rest.isEmpty then .ok found
      else
        match Scan.tag c with
        | .error e _ => .error e
        | .ok .stop _ => .ok found
        | .ok (.field number w) d =>
          if number = extensionNumber ∧ w = .lengthDelimited then
            match Scan.bytes d with
            | .error e _ => .error e
            | .ok payload d' =>
              match decode kind c.limits payload with
              | .error e => .error e
              | .ok x => extractFrom kind (some x) d'
          else
            match Scan.skip w d with
            | .error e _ => .error e
            | .ok () d' => extractFrom kind found d' := by
  rw [extractFrom]
  split
  next => rfl
  next =>
    split
    next ht => rw [ht]
    next ht => rw [ht]
    next number w d ht =>
      rw [ht]
      dsimp only
      split
      next =>
        split
        next hb => rw [hb]
        next payload d' hb =>
          cases hdecode : decode kind c.limits payload with
          | error e => simp only [hb, hdecode]
          | ok x => simp only [hb, hdecode]
      next =>
        split
        next hs => rw [hs]
        next hs => rw [hs]

variable {l l' : Limits}

theorem decode_restricts (kind : ElementKind) (hl : l.Tighter l') (bytes : List UInt8) :
    l.Restricts (decode kind l bytes) (decode kind l' bytes) :=
  (Catalog.standard.decode_restricts kind.optionType hl bytes).map _

theorem extractFrom_restricts {kind : ElementKind} {found : Option ElementOption}
    (hl : l.Tighter l') {c : Cursor} :
    ∀ c', c.Tracks (fun _ _ => True) l l' c' →
      l.Restricts (extractFrom kind found c) (extractFrom kind found c') := by
  fun_induction extractFrom kind found c with
  | case1 found c hempty =>
    intro c' h
    rw [extractFrom_step kind found c', h.rest, if_pos hempty]
    exact .refl _
  | case2 found c hempty e d ht =>
    intro c' h
    rcases Scan.keepsLockstep_tag.error h ht with ⟨d', ht', -⟩ | ⟨-, hrefuses⟩
    · rw [extractFrom_step kind found c', h.rest, if_neg hempty, ht']
      exact .refl _
    · exact .inr ⟨e, rfl, hrefuses⟩
  | case3 found c hempty d ht =>
    intro c' h
    rcases Scan.keepsLockstep_tag.ok h ht with ⟨d', ht', -⟩
    rw [extractFrom_step kind found c', h.rest, if_neg hempty, ht']
    exact .refl _
  | case4 found c hempty number w d ht hoption e d₁ hb =>
    intro c' h
    rcases Scan.keepsLockstep_tag.ok h ht with ⟨d', ht', hd⟩
    rcases Scan.keepsLockstep_bytes.error hd hb with ⟨d₁', hb', -⟩ | ⟨-, hrefuses⟩
    · rw [extractFrom_step kind found c', h.rest, if_neg hempty, ht']
      simp only [if_pos hoption, hb']
      exact .refl _
    · exact .inr ⟨e, rfl, hrefuses⟩
  | case5 found c hempty number w d ht hoption payload d₁ hb e hdecode =>
    intro c' h
    rcases Scan.keepsLockstep_tag.ok h ht with ⟨d', ht', hd⟩
    rcases Scan.keepsLockstep_bytes.ok hd hb with ⟨d₁', hb', -⟩
    -- An option that is refused ends the extraction, and with the same fault.
    have hoptions := decode_restricts kind hl payload
    rw [← h.limits, hdecode] at hoptions
    rw [extractFrom_step kind found c', h.rest, if_neg hempty, ht']
    simp only [if_pos hoption, hb', h.limits']
    rcases hoptions with hequal | ⟨e', he', hrefuses⟩
    · rw [← hequal]
      exact .refl _
    · cases he'
      rw [h.limits] at hrefuses
      exact .inr ⟨e, rfl, hrefuses⟩
  | case6 found c hempty number w d ht hoption payload d₁ hb x hdecode ih =>
    intro c' h
    rcases Scan.keepsLockstep_tag.ok h ht with ⟨d', ht', hd⟩
    rcases Scan.keepsLockstep_bytes.ok hd hb with ⟨d₁', hb', hd₁⟩
    have hoptions := decode_restricts kind hl payload
    rw [← h.limits, hdecode] at hoptions
    rw [extractFrom_step kind found c', h.rest, if_neg hempty, ht']
    simp only [if_pos hoption, hb', h.limits']
    rcases hoptions with hequal | ⟨e', he', -⟩
    · rw [← hequal]
      exact ih d₁' hd₁
    · cases he'
  | case7 found c hempty number w d ht hoption e d₁ hs =>
    intro c' h
    rcases Scan.keepsLockstep_tag.ok h ht with ⟨d', ht', hd⟩
    rcases (Scan.keepsLockstep_skip hl w).error hd hs with ⟨d₁', hs', -⟩ | ⟨-, hrefuses⟩
    · rw [extractFrom_step kind found c', h.rest, if_neg hempty, ht']
      simp only [if_neg hoption, hs']
      exact .refl _
    · exact .inr ⟨e, rfl, hrefuses⟩
  | case8 found c hempty number w d ht hoption d₁ hs ih =>
    intro c' h
    rcases Scan.keepsLockstep_tag.ok h ht with ⟨d', ht', hd⟩
    rcases (Scan.keepsLockstep_skip hl w).ok hd hs with ⟨d₁', hs', hd₁⟩
    rw [extractFrom_step kind found c', h.rest, if_neg hempty, ht']
    simp only [if_neg hoption, hs']
    exact ih d₁' hd₁

/-- The option of an options message under limits is that under wider ones, unless the limits
refuse it. -/
theorem extract_restricts (kind : ElementKind) (hl : l.Tighter l') (bytes : List UInt8) :
    l.Restricts (extract kind l bytes) (extract kind l' bytes) :=
  extractFrom_restricts hl (.start l' bytes) ⟨rfl, rfl, rfl, trivial, rfl, rfl⟩

end ElementOption
end SchemaCodec
