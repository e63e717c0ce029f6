import Mathlib
import SchemaCodec.Proofs.Settings.Restriction
import SchemaCodec.Proofs.Wire.Steps

/-!
# Proofs.Wire.Lockstep — two runs over the same bytes

- `Cursor.Tracks`: two cursors at the same place, the second one with wider limits.
- `Scan.Lockstep`: the results of a step at two such cursors.
- `Run.Lockstep`: the same of two runs.

What a cursor remembers for messages, its log and the path of the field that is being read, may
differ all the while. The path shows in the faults of `Scan.frame` alone, and `fill` sets it before
each of its frames, so `fill_lockstep` speaks of any two paths. Under equal limits nothing is refused
to one run alone, and the runs agree (`Run.Lockstep.agrees`).
-/

namespace SchemaCodec

/-- Two cursors stand at the same place of a payload, with related paths and limits of their own. -/
structure Cursor.Tracks (same : FieldPath → FieldPath → Prop) (l l' : Limits) (c c' : Cursor) :
    Prop where
  rest : c'.rest = c.rest
  position : c'.position = c.position
  depth : c'.depth = c.depth
  path : same c.path c'.path
  limits : c.limits = l
  limits' : c'.limits = l'

namespace Cursor.Tracks

variable {same : FieldPath → FieldPath → Prop} {l l' : Limits} {c c' : Cursor}

theorem moveTo (h : c.Tracks same l l' c') (s : List UInt8) :
    (c.moveTo s).Tracks same l l' (c'.moveTo s) := by
  refine ⟨rfl, ?_, h.depth, h.path, h.limits, h.limits'⟩
  simp only [Cursor.moveTo, h.rest, h.position]

theorem advance (h : c.Tracks same l l' c') (n : Nat) :
    (c.advance n).Tracks same l l' (c'.advance n) := by
  refine ⟨?_, ?_, h.depth, h.path, h.limits, h.limits'⟩
  · simp only [Cursor.advance, h.rest]
  · simp only [Cursor.advance, h.position]

theorem note (h : c.Tracks same l l' c') (e e' : Event) :
    (c.note e).Tracks same l l' (c'.note e') :=
  ⟨h.rest, h.position, h.depth, h.path, h.limits, h.limits'⟩

theorem child (h : c.Tracks same l l' c') (payload : List UInt8) :
    (c.child payload).Tracks same l l' (c'.child payload) :=
  ⟨rfl, rfl, congrArg (· + 1) h.depth, h.path, h.limits, h.limits'⟩

theorem aim (h : c.Tracks same l l' c') (path : FieldPath) :
    ({ c with path := path } : Cursor).Tracks Eq l l' { c' with path := path } :=
  ⟨h.rest, h.position, h.depth, rfl, h.limits, h.limits'⟩

theorem label (h : c.Tracks same l l' c') (path path' : FieldPath) (log log' : List Event) :
    ({ c with path := path, log := log } : Cursor).Tracks (fun _ _ => True) l l'
      { c' with path := path', log := log' } :=
  ⟨h.rest, h.position, h.depth, trivial, h.limits, h.limits'⟩

theorem mayOpen (h : c.Tracks same l l' c') (hl : l.Tighter l') {groups : Nat}
    (hopen : c.mayOpen groups = true) : c'.mayOpen groups = true := by
  have hroom := hl.recursion
  rw [← h.limits, ← h.limits'] at hroom
  simp only [Cursor.mayOpen, decide_eq_true_eq] at hopen ⊢
  rw [h.depth]
  exact Nat.le_trans hopen hroom

end Cursor.Tracks

namespace Scan

/-! ## Results -/

/-- The results of a step at two cursors at the same place: the same, or the tighter ones of two
different limits refuse theirs. -/
inductive Lockstep (same : FieldPath → FieldPath → Prop) (l l' : Limits) {α : Type} :
    EStateM.Result Fault Cursor α → EStateM.Result Fault Cursor α → Prop where
  | ok {a : α} {d d' : Cursor} (h : d.Tracks same l l' d') : Lockstep same l l' (.ok a d) (.ok a d')
  | error {e : Fault} {d d' : Cursor} (h : d.Tracks same l l' d') :
      Lockstep same l l' (.error e d) (.error e d')
  | refused {e : Fault} {d : Cursor} {r' : EStateM.Result Fault Cursor α} (hl : l ≠ l')
      (he : l.Refuses e) : Lockstep same l l' (.error e d) r'

/-- A step keeps two cursors at the same place, as far as their limits let it. -/
def KeepsLockstep (same : FieldPath → FieldPath → Prop) (l l' : Limits) {α : Type} (x : Scan α) :
    Prop :=
  ∀ c c' : Cursor, c.Tracks same l l' c' → Lockstep same l l' (x c) (x c')

variable {same : FieldPath → FieldPath → Prop} {l l' : Limits} {α β : Type} {c c' d : Cursor}

theorem KeepsLockstep.ok {x : Scan α} (hx : KeepsLockstep same l l' x)
    (h : c.Tracks same l l' c') {a : α} (hc : x c = .ok a d) :
    ∃ d', x c' = .ok a d' ∧ d.Tracks same l l' d' := by
  have hstep := hx c c' h
  rw [hc] at hstep
  generalize x c' = r' at hstep ⊢
  cases hstep with
  | ok hd => exact ⟨_, rfl, hd⟩

theorem KeepsLockstep.error {x : Scan α} (hx : KeepsLockstep same l l' x)
    (h : c.Tracks same l l' c') {e : Fault} (hc : x c = .error e d) :
    (∃ d', x c' = .error e d' ∧ d.Tracks same l l' d') ∨ l ≠ l' ∧ l.Refuses e := by
  have hstep := hx c c' h
  rw [hc] at hstep
  generalize x c' = r' at hstep ⊢
  cases hstep with
  | error hd => exact .inl ⟨_, rfl, hd⟩
  | refused hl he => exact .inr ⟨hl, he⟩

theorem KeepsLockstep.bind {x : Scan α} {f : α → Scan β} (hx : KeepsLockstep same l l' x)
    (hf : ∀ a, KeepsLockstep same l l' (f a)) : KeepsLockstep same l l' (x >>= f) := by
  intro c c' h
  change Lockstep same l l' (EStateM.bind x f c) (EStateM.bind x f c')
  unfold EStateM.bind
  have hstep := hx c c' h
  generalize x c = r, x c' = r' at hstep
  cases hstep with
  | ok hd => exact hf _ _ _ hd
  | error hd => exact .error hd
  | refused hl he => exact .refused hl he

theorem keepsLockstep_pure (a : α) : KeepsLockstep same l l' (pure a : Scan α) := by
  intro c c' h
  exact .ok h

theorem KeepsLockstep.map {x : Scan α} (hx : KeepsLockstep same l l' x) (f : α → β) :
    KeepsLockstep same l l' (do return f (← x)) :=
  hx.bind fun a => keepsLockstep_pure (f a)

/-! ## Values -/

theorem keepsLockstep_varint : KeepsLockstep same l l' varint := by
  intro c c' h
  unfold varint
  rw [h.rest, h.position]
  cases Varint.decode? c.rest with
  | some p => exact .ok (h.moveTo p.2)
  | none => exact .error h

theorem keepsLockstep_key : KeepsLockstep same l l' key :=
  keepsLockstep_varint.map _

theorem keepsLockstep_take (n : Nat) : KeepsLockstep same l l' (take n) := by
  intro c c' h
  unfold take
  rw [h.rest, h.position]
  split
  next => exact .error h
  next => exact .ok (h.advance n)

theorem keepsLockstep_bytes : KeepsLockstep same l l' bytes :=
  keepsLockstep_varint.bind fun n => keepsLockstep_take n.toNat

theorem keepsLockstep_skipFlat (w : WireType) : KeepsLockstep same l l' (skipFlat w) := by
  have hinvalid : KeepsLockstep same l l'
      (fun c => .error (.invalidWireType w.raw c.position) c : Scan Unit) := by
    intro c c' h
    dsimp only
    rw [h.position]
    exact .error h
  cases w with
  | varint => exact keepsLockstep_varint.map _
  | fixed64 => exact (keepsLockstep_take 8).map _
  | lengthDelimited => exact keepsLockstep_bytes.map _
  | fixed32 => exact (keepsLockstep_take 4).map _
  | startGroup => exact hinvalid
  | endGroup => exact hinvalid

theorem keepsLockstep_tag : KeepsLockstep same l l' tag := by
  intro c c' h
  unfold tag
  rw [h.position]
  have hstep := keepsLockstep_key c c' h
  generalize key c = r, key c' = r' at hstep
  cases hstep with
  | error hd => exact .error hd
  | refused hl he => exact .refused hl he
  | @ok k d d' hd =>
    dsimp only
    split
    next => exact .ok hd
    next =>
      cases WireType.ofRaw (k % 8) c.position with
      | error e => exact .error hd
      | ok w => exact .ok hd

/-! ## Limits -/

section Limits

variable (hl : l.Tighter l')

include hl

/-- Where one more message or group opens under the tighter limits, it opens under both. -/
theorem Lockstep.opened {groups : Nat} (h : c.Tracks same l l' c')
    {r r' : EStateM.Result Fault Cursor α}
    (hr : c.mayOpen groups = true → Lockstep same l l' r r') :
    Lockstep same l l'
      (if c.mayOpen groups then r else .error (.recursionLimit c.limits.recursion) c)
      (if c'.mayOpen groups then r' else .error (.recursionLimit c'.limits.recursion) c') := by
  by_cases hopen : c.mayOpen groups = true
  · rw [if_pos hopen, if_pos (h.mayOpen hl hopen)]
    exact hr hopen
  · -- Under equal limits it opens under neither, and both say so in the same words.
    rw [if_neg hopen, h.limits]
    by_cases hequal : l = l'
    · have hclosed : ¬ c'.mayOpen groups = true := by
        simpa [Cursor.mayOpen, h.depth, h.limits, h.limits', hequal] using hopen
      rw [if_neg hclosed, h.limits', hequal]
      exact .error (hequal ▸ h)
    · exact .refused hequal .recursion

theorem lockstep_skipGroups (opened : Nat) (h : c.Tracks same l l' c') :
    Lockstep same l l' (skipGroups opened c) (skipGroups opened c') := by
  -- Of all keys inside groups, only the start of a further group looks at the limits.
  fun_induction skipGroups opened c generalizing c' with
  | case1 c =>
    rw [skipGroups]
    exact .ok h
  | case2 c outer e d hk =>
    rcases keepsLockstep_key.error h hk with ⟨d', hk', hd⟩ | ⟨hl, he⟩
    · rw [skipGroups_succ, hk']
      exact .error hd
    · exact .refused hl he
  | case3 c outer k d hk e hw =>
    rcases keepsLockstep_key.ok h hk with ⟨d', hk', hd⟩
    rw [skipGroups_succ, hk', h.position]
    simp only [hw]
    exact .error hd
  | case4 c outer k d hk hw ih =>
    rcases keepsLockstep_key.ok h hk with ⟨d', hk', hd⟩
    rw [skipGroups_close hk' (WireType.raw_of_ofRaw hw)]
    exact ih hd
  | case5 c outer k d hk hw hopen ih =>
    rcases keepsLockstep_key.ok h hk with ⟨d', hk', hd⟩
    rw [skipGroups_group hk' (WireType.raw_of_ofRaw hw)]
    exact .opened hl hd fun _ => ih hd
  | case6 c outer k d hk hw hopen =>
    rcases keepsLockstep_key.ok h hk with ⟨d', hk', hd⟩
    rw [skipGroups_group hk' (WireType.raw_of_ofRaw hw)]
    exact .opened hl hd fun hopen' => absurd hopen' hopen
  | case7 c outer k d hk w hend hstart hw e d₁ hs =>
    rcases keepsLockstep_key.ok h hk with ⟨d', hk', hd⟩
    rcases (keepsLockstep_skipFlat w).error hd hs with ⟨d₁', hs', hd₁⟩ | ⟨hl, he⟩
    · rw [skipGroups_flat_error hk' (WireType.raw_of_ofRaw hw) hend hstart hs']
      exact .error hd₁
    · exact .refused hl he
  | case8 c outer k d hk w hend hstart hw d₁ hs ih =>
    rcases keepsLockstep_key.ok h hk with ⟨d', hk', hd⟩
    rcases (keepsLockstep_skipFlat w).ok hd hs with ⟨d₁', hs', hd₁⟩
    rw [skipGroups_flat hk' (WireType.raw_of_ofRaw hw) hs']
    exact ih hd₁

theorem keepsLockstep_skip (w : WireType) : KeepsLockstep same l l' (skip w) := by
  intro c c' h
  by_cases hw : w = .startGroup
  · subst hw
    exact .opened hl h fun _ => lockstep_skipGroups hl 1 h
  · rw [skip_of_ne hw]
    exact keepsLockstep_skipFlat w c c' h

/-- A number that is out of range under the tighter limits is so under equal ones. -/
theorem keepsLockstep_uint64 : KeepsLockstep Eq l l' uint64 := by
  refine keepsLockstep_varint.bind fun v => ?_
  intro c c' h
  dsimp only
  rw [h.limits, h.limits', ← h.path]
  by_cases hrange : l.range.accepts v = true
  · rw [if_pos hrange, if_pos (hl.accepts hrange)]
    exact .ok h
  · rw [if_neg hrange]
    by_cases hequal : l = l'
    · rw [← hequal, if_neg hrange]
      exact .error (hequal ▸ h)
    · exact .refused hequal (Limits.refuses_of_not_accepts c.path hrange)

omit hl in
theorem keepsLockstep_string : KeepsLockstep Eq l l' string := by
  refine keepsLockstep_bytes.bind fun payload => ?_
  intro c c' h
  dsimp only
  rw [← h.path]
  cases Text.ofUtf8? payload with
  | some s => exact .ok h
  | none => exact .error h

theorem keepsLockstep_frame (kind : Kind) : KeepsLockstep Eq l l' (frame kind) := by
  cases kind with
  | string => exact keepsLockstep_string.map _
  | bool => exact (keepsLockstep_varint.map _).map _
  | int32 => exact (keepsLockstep_varint.map _).map _
  | uint64 => exact (keepsLockstep_uint64 hl).map _
  | «enum» type => exact (keepsLockstep_varint.map _).map _
  | message name =>
    intro c c' h
    exact .opened hl h fun _ => keepsLockstep_bytes.map _ c c' h

end Limits
end Scan

/-! ## Runs -/

/-- Two runs leave the same message, and stop at the same place in the same way. -/
structure Run.Agrees (r r' : Run) : Prop where
  message : r.message = r'.message
  outcome : r.outcome = r'.outcome
  rest : r.cursor.rest = r'.cursor.rest
  position : r.cursor.position = r'.cursor.position

theorem Run.Agrees.trans {r r' r'' : Run} (h : r.Agrees r') (h' : r'.Agrees r'') :
    r.Agrees r'' :=
  ⟨h.message.trans h'.message, h.outcome.trans h'.outcome, h.rest.trans h'.rest,
    h.position.trans h'.position⟩

/-- Two runs agree, or the tighter ones of two different limits stop theirs. -/
def Run.Lockstep (l l' : Limits) (r r' : Run) : Prop :=
  r.Agrees r' ∨ l ≠ l' ∧ ∃ e, r.outcome = .error e ∧ l.Refuses e

theorem Run.Lockstep.agrees {l : Limits} {r r' : Run} (h : r.Lockstep l l r') : r.Agrees r' := by
  rcases h with h | ⟨hl, -⟩
  · exact h
  · exact absurd rfl hl

section Runs

variable {l l' : Limits} {same : FieldPath → FieldPath → Prop} {m : Message} {e : Fault}

theorem Run.lockstep_of_tracks {d d' : Cursor} (h : d.Tracks same l l' d')
    (outcome : Except Fault Unit) :
    Run.Lockstep l l' ⟨m, d, outcome⟩ ⟨m, d', outcome⟩ :=
  .inl ⟨rfl, rfl, h.rest.symm, h.position.symm⟩

theorem Run.lockstep_of_refused {d : Cursor} (h : l ≠ l' ∧ l.Refuses e) (r' : Run) :
    Run.Lockstep l l' ⟨m, d, .error e⟩ r' :=
  .inr ⟨h.1, e, rfl, h.2⟩

end Runs

/-! ### Foreign records -/

section Foreign

variable {σ : Schema} {t : MessageType} {m : Message} {l l' : Limits} (hl : l.Tighter l')
  {c c' d d₁ : Cursor} (h : c.Tracks (fun _ _ => True) l l' c') {number : Nat} {w : WireType}
  (ht : Scan.tag c = .ok (.field number w) d) (hforeign : t.Foreign number w) {remark : Event}

include hl h ht hforeign

/-- A foreign record that is passed is passed by both runs, whatever is remarked. -/
theorem exists_fill_skip (hskip : Scan.skip w (d.note remark) = .ok () d₁) :
    ∃ d₁', fill σ t m c' = fill σ t m d₁' ∧ d₁.Tracks (fun _ _ => True) l l' d₁' := by
  rcases Scan.keepsLockstep_tag.ok h ht with ⟨d', ht', hd⟩
  rcases (Scan.keepsLockstep_skip hl w).ok (hd.note remark (t.foreignEvent number w)) hskip with
    ⟨d₁', hskip', hd₁⟩
  exact ⟨d₁', fill_skip ht' hforeign hskip', hd₁⟩

theorem lockstep_of_skip_error {e : Fault} (hskip : Scan.skip w (d.note remark) = .error e d₁) :
    Run.Lockstep l l' ⟨m, d₁, .error e⟩ (fill σ t m c') := by
  rcases Scan.keepsLockstep_tag.ok h ht with ⟨d', ht', hd⟩
  rcases (Scan.keepsLockstep_skip hl w).error (hd.note remark (t.foreignEvent number w)) hskip with
    ⟨d₁', hskip', hd₁⟩ | hrefused
  · rw [fill_skip_error ht' hforeign hskip']
    exact Run.lockstep_of_tracks hd₁ _
  · exact Run.lockstep_of_refused hrefused _

end Foreign

/-- A run under limits and one under wider limits are in lockstep, whatever their cursors are
labelled with. -/
theorem fill_lockstep {σ : Schema} {t : MessageType} {m : Message} {l l' : Limits}
    (hl : l.Tighter l') {c : Cursor} : ∀ c', c.Tracks (fun _ _ => True) l l' c' →
      (fill σ t m c).Lockstep l l' (fill σ t m c') := by
  fun_induction fill σ t m c with
  | case1 t m c hempty =>
    intro c' h
    rw [fill_nil (h.rest.trans (List.isEmpty_iff.1 hempty))]
    exact Run.lockstep_of_tracks h _
  | case2 t m c hempty e d ht =>
    intro c' h
    have hempty' : ¬ c'.rest.isEmpty = true := by rwa [h.rest]
    rcases Scan.keepsLockstep_tag.error h ht with ⟨d', ht', hd⟩ | hrefused
    · rw [fill_tag_error hempty' ht']
      exact Run.lockstep_of_tracks hd _
    · exact Run.lockstep_of_refused hrefused _
  | case3 t m c hempty d ht =>
    intro c' h
    rcases Scan.keepsLockstep_tag.ok h ht with ⟨d', ht', hd⟩
    rw [fill_stop ht']
    exact Run.lockstep_of_tracks (hd.note _ _) _
  | case4 t m c hempty number d field hfield e d₁ hframe ht =>
    intro c' h
    rcases Scan.keepsLockstep_tag.ok h ht with ⟨d', ht', hd⟩
    rcases (Scan.keepsLockstep_frame hl field.kind).error (hd.aim _) hframe with
      ⟨d₁', hframe', hd₁⟩ | hrefused
    · rw [fill_frame_error ht' hfield rfl hframe']
      exact Run.lockstep_of_tracks hd₁ _
    · exact Run.lockstep_of_refused hrefused _
  | case5 t m c hempty number d field hfield x d₁ hframe ht ih =>
    intro c' h
    rcases Scan.keepsLockstep_tag.ok h ht with ⟨d', ht', hd⟩
    rcases (Scan.keepsLockstep_frame hl field.kind).ok (hd.aim _) hframe with
      ⟨d₁', hframe', hd₁⟩
    rw [fill_scalar ht' hfield rfl hframe']
    exact ih _ (hd₁.label _ _ _ _)
  | case6 t m c hempty number d field hfield name payload d₁ hframe run e houtcome ht ih =>
    intro c' h
    rcases Scan.keepsLockstep_tag.ok h ht with ⟨d', ht', hd⟩
    rcases (Scan.keepsLockstep_frame hl field.kind).ok (hd.aim _) hframe with
      ⟨d₁', hframe', hd₁⟩
    rcases ih _ ((hd₁.label _ _ _ _).child payload) with hinner | ⟨hne, e', he', hrefuses⟩
    · rw [fill_submessage_error ht' hfield rfl hframe' rfl (hinner.outcome.symm.trans houtcome)]
      exact Run.lockstep_of_tracks (hd₁.label _ _ _ _) _
    · rw [houtcome] at he'
      cases he'
      exact Run.lockstep_of_refused ⟨hne, hrefuses⟩ _
  | case7 t m c hempty number d field hfield name payload d₁ hframe run houtcome ht ih ihNext =>
    intro c' h
    rcases Scan.keepsLockstep_tag.ok h ht with ⟨d', ht', hd⟩
    rcases (Scan.keepsLockstep_frame hl field.kind).ok (hd.aim _) hframe with
      ⟨d₁', hframe', hd₁⟩
    rcases ih _ ((hd₁.label _ _ _ _).child payload) with hinner | ⟨-, e', he', -⟩
    · -- The inner runs end with logs of their own, and the outer ones go on with these.
      rw [fill_submessage ht' hfield rfl hframe' rfl (hinner.outcome.symm.trans houtcome),
        ← hinner.message]
      exact ihNext _ (hd₁.label _ _ _ _)
    · rw [houtcome] at he'
      cases he'
  | case8 t m c hempty number w d ht field hfield hwire e d₁ hskip =>
    intro c' h
    exact lockstep_of_skip_error hl h ht (MessageType.foreign_of_ne hfield hwire) hskip
  | case9 t m c hempty number w d ht field hfield hwire d₁ hskip ih =>
    intro c' h
    rcases exists_fill_skip hl h ht (MessageType.foreign_of_ne hfield hwire) hskip with
      ⟨d₁', hfill, hd₁⟩
    rw [hfill]
    exact ih d₁' hd₁
  | case10 t m c hempty number w d ht hfield e d₁ hskip =>
    intro c' h
    exact lockstep_of_skip_error hl h ht (MessageType.foreign_of_none w hfield) hskip
  | case11 t m c hempty number w d ht hfield d₁ hskip ih =>
    intro c' h
    rcases exists_fill_skip hl h ht (MessageType.foreign_of_none w hfield) hskip with
      ⟨d₁', hfill, hd₁⟩
    rw [hfill]
    exact ih d₁' hd₁

/-! ## Payloads -/

theorem Schema.decode_restricts (σ : Schema) (t : MessageType) {l l' : Limits}
    (hl : l.Tighter l') (bytes : List UInt8) :
    l.Restricts (σ.decode t l bytes) (σ.decode t l' bytes) := by
  have hstart : (Cursor.start l bytes).Tracks (fun _ _ => True) l l' (.start l' bytes) :=
    ⟨rfl, rfl, rfl, trivial, rfl, rfl⟩
  rw [decode, decode]
  rcases fill_lockstep hl _ hstart with hrun | ⟨-, e, he, hrefuses⟩
  · rw [run, run, hrun.outcome, hrun.message]
    exact .refl _
  · rw [run, he]
    exact .inr ⟨e, rfl, hrefuses⟩

end SchemaCodec
