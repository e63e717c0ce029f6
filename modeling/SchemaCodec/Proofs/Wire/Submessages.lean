import Mathlib
import SchemaCodec.Proofs.Wire.Following

/-!
# Proofs.Wire.Submessages — a reader of a message and a cursor side by side

- `Scan.submessage`: a submessage as a cursor reads it.
- `Fills`: the records of a message, read by a reader and a cursor.

A submessage is read by a reader of its own, one level deeper, and the loop over the records of a
message takes a key in each round. So a message is read without a trap (`ends_messageAt`), and only
a fault in a field leaves the path of that field behind (`fills_fields`).
-/

namespace SchemaCodec

/-! ## Submessages -/

/-- A submessage, read from its own payload one level deeper. -/
def Scan.submessage (σ : Schema) (t : MessageType) : Scan Message := fun c =>
  if c.mayOpen 0 then
    match Scan.bytes c with
    | .error e d => .error e d
    | .ok payload d =>
      let run := fill σ t t.empty (d.child payload)
      match run.outcome with
      | .error e => .error e { d with log := run.cursor.log }
      | .ok () => .ok run.message { d with log := run.cursor.log }
  else .error (.recursionLimit c.limits.recursion) c

theorem Scan.element_message (σ : Schema) (name : String) :
    Scan.element σ (.message name) =
      (do return .message (← Scan.submessage σ (σ.type name)) : Scan Element) := by
  funext c
  simp only [element, frame, submessage, bind, EStateM.bind]
  by_cases hopen : c.mayOpen 0 = true
  · simp only [hopen, if_true]
    cases Scan.bytes c with
    | error e d => rfl
    | ok payload d =>
      dsimp only [pure, EStateM.pure]
      cases (fill σ (σ.type name) (σ.type name).empty (d.child payload)).outcome <;> rfl
  · simp only [hopen]
    rfl

/-- A value that is no submessage is what was cut out. -/
theorem Scan.element_of_scalar {α : Type} (σ : Schema) {kind : Kind} {x : Scan α}
    {f : α → Element} (h : Scan.frame kind = (do return .scalar (f (← x)) : Scan Frame)) :
    Scan.element σ kind = (do return f (← x) : Scan Element) := by
  funext c
  simp only [element, h, bind, EStateM.bind]
  cases x c <;> rfl

namespace Reader

open Checked

variable {σ : Schema} {t : MessageType} {m : Message} {r : Reader} {c d : Cursor}
  {message : MessageType → Checked Message}

theorem ends_element {kind : Kind} (h : r.Stands c)
    (hmessage : ∀ t, r.Ends c (message t r) (Scan.submessage σ t c)) :
    r.Ends c (elementBy σ message kind r) (Scan.element σ kind c) := by
  cases kind with
  | string =>
    rw [Scan.element_of_scalar σ rfl]
    exact follows_string.map _ r c h.toShows h.depth_le
  | bool =>
    rw [Scan.element_of_scalar σ rfl]
    exact follows_bool.map _ r c h.toShows h.depth_le
  | int32 =>
    rw [Scan.element_of_scalar σ rfl]
    exact follows_int32.map _ r c h.toShows h.depth_le
  | uint64 =>
    rw [Scan.element_of_scalar σ rfl]
    exact follows_uint64.map _ r c h.toShows h.depth_le
  | «enum» type =>
    rw [Scan.element_of_scalar σ rfl]
    exact follows_int32.map _ r c h.toShows h.depth_le
  | message name =>
    rw [Scan.element_message]
    exact ends_map h.toShows (hmessage _) _

/-! ## Records -/

/-- A field that a failed run may have left as the one being read. -/
def Failing (t : MessageType) (path : FieldPath) : Prop :=
  ∃ f ∈ t.fields, path = ⟨t.name, f.jsonName⟩

/-- The records read by a reader and a cursor: the same message, both at the same place, and the
same fault if any. Only a fault in a field may leave the path of that field. -/
structure Fills (r : Reader) (c : Cursor) (t : MessageType) (filled : Filled) (run : Run) :
    Prop where
  message : filled.message = run.message
  leads : c.Leads { run.cursor with path := c.path }
  ok : run.outcome = .ok () → filled.result = .ok () (r.moved run.cursor) ∧
    run.cursor.path = c.path
  error : ∀ e, run.outcome = .error e →
    filled.result = .error (.fault e) (r.moved run.cursor) ∧
      (run.cursor.path = c.path ∨ Failing t run.cursor.path)

/-- Records behind those that were read are read from where these have led. -/
theorem Fills.behind {filled : Filled} {run : Run} (hlead : c.Leads d)
    (h : (r.moved d).Fills d t filled run) : r.Fills c t filled run := by
  have hpath := hlead.path
  refine ⟨h.message, ?_, ?_, ?_⟩
  · have hleads := h.leads
    rw [hpath] at hleads
    exact hlead.trans hleads
  · intro hok
    rw [← hpath]
    exact h.ok hok
  · intro e herror
    rw [← hpath]
    exact h.error e herror

theorem fills_ok (hlead : c.Leads d) : r.Fills c t ⟨m, .ok () (r.moved d)⟩ ⟨m, d, .ok ()⟩ := by
  have hpath := hlead.path
  refine ⟨rfl, ?_, fun _ => ⟨rfl, hpath⟩, nofun⟩
  rw [← hpath]
  exact hlead

theorem fills_error {e : Fault} {path : FieldPath} (hlead : c.Leads { d with path := path })
    (hpath : d.path = c.path ∨ Failing t d.path) :
    r.Fills c t ⟨m, .error (.fault e) (r.moved d)⟩ ⟨m, d, .error e⟩ := by
  refine ⟨rfl, ?_, nofun, fun e' he => ?_⟩
  · have hsame := hlead.path
    rw [← hsame]
    exact hlead
  · cases he
    exact ⟨rfl, hpath⟩

section Step

variable {rounds number : Nat} {w : WireType} {s : Reader}

theorem fieldsBy_field {f : Field} (hrest : ¬ r.buffer.length ≤ r.position)
    (ht : tag r = .ok (.field number w) s) (hfield : t.field? number = some f)
    (hwire : f.wireType = w) :
    fieldsBy σ message t (rounds + 1) m r =
      match elementBy σ message f.kind { s with path := ⟨t.name, f.jsonName⟩ } with
      | .error e s' => ⟨m, .error e s'⟩
      | .ok x s' =>
        fieldsBy σ message t rounds (t.put m number x) { s' with path := s.path } := by
  simp only [fieldsBy, if_neg hrest, ht, hfield]
  exact if_pos hwire

theorem fieldsBy_foreign (hrest : ¬ r.buffer.length ≤ r.position)
    (ht : tag r = .ok (.field number w) s) (hforeign : t.Foreign number w) :
    fieldsBy σ message t (rounds + 1) m r =
      match skip w (s.note (t.foreignEvent number w)) with
      | .error e s' => ⟨m, .error e s'⟩
      | .ok () s' => fieldsBy σ message t rounds m s' := by
  cases hfield : t.field? number with
  | some f =>
    rw [MessageType.foreignEvent_of_field hfield]
    simp only [fieldsBy, if_neg hrest, ht, hfield]
    exact if_neg (hforeign f hfield)
  | none =>
    rw [MessageType.foreignEvent_of_none hfield]
    simp only [fieldsBy, ht, hfield]
    exact if_neg hrest

end Step

/-- The loop over the records has a round left as long as there are bytes. -/
theorem fills_fields {levels rounds : Nat}
    (hmessage : ∀ t r c, Stands r c → r.limits.recursion = r.depth + levels →
      r.Ends c (message t r) (Scan.submessage σ t c))
    (h : r.Stands c) (hlevels : r.limits.recursion = r.depth + levels)
    (hrounds : c.rest.length < rounds) :
    r.Fills c t (fieldsBy σ message t rounds m r) (fill σ t m c) := by
  induction rounds generalizing m r c with
  | zero => exact absurd hrounds (Nat.not_lt_zero _)
  | succ rounds ih =>
    have hlength := h.length_rest
    by_cases hempty : r.buffer.length ≤ r.position
    · have hnil : c.rest = [] := List.length_eq_zero_iff.1 (by omega)
      rw [fill_nil hnil, fieldsBy, if_pos hempty]
      exact h.moved_self ▸ fills_ok (.refl c)
    have hrest : ¬ c.rest.isEmpty = true := by
      rw [List.isEmpty_iff]
      intro hnil
      rw [hnil, List.length_nil] at hlength
      omega
    have htag := follows_tag r c h.toShows h.depth_le
    generalize hr : tag r = x, hc : Scan.tag c = y at htag
    cases htag with
    | error hlead =>
      rw [fill_tag_error hrest hc]
      simp only [fieldsBy, if_neg hempty, hr]
      exact fills_error hlead (.inl hlead.path)
    | @ok a d hlead =>
      have hshorter := Scan.tag_length hc
      have hstands := h.moved hlead
      -- Behind the record, the loop goes on with one round less.
      have hgo : ∀ m' d', c.Leads d' → d'.rest.length ≤ d.rest.length →
          r.Fills c t (fieldsBy σ message t rounds m' (r.moved d')) (fill σ t m' d') :=
        fun m' d' hlead' hle => .behind hlead' (ih (h.moved hlead') hlevels (by omega))
      cases a with
      | stop =>
        rw [fill_stop hc]
        simp only [fieldsBy, if_neg hempty, hr]
        rw [← h.position]
        exact fills_ok (d := d.note (.endMarker t.name c.position)) ⟨hlead.forward, hlead.limits,
          hlead.depth, hlead.path⟩
      | field number w =>
        by_cases hforeign : t.Foreign number w
        · rw [fieldsBy_foreign hempty hr hforeign]
          have hnote : c.Leads (d.note (t.foreignEvent number w)) :=
            ⟨hlead.forward, hlead.limits, hlead.depth, hlead.path⟩
          have hskip := ends_skip (hstands.note (t.foreignEvent number w)) w
          generalize hs : skip w ((r.moved d).note (t.foreignEvent number w)) = x,
            hs' : Scan.skip w (d.note (t.foreignEvent number w)) = y at hskip
          cases hskip with
          | ok hlead' =>
            rw [fill_skip hc hforeign hs']
            have hle := Scan.skip_length hs'
            exact hgo m _ (hnote.trans hlead') hle
          | error hlead' =>
            rw [fill_skip_error hc hforeign hs']
            exact fills_error (hnote.trans hlead') (.inl (hnote.trans hlead').path)
        · obtain ⟨f, hfield, hwire⟩ := MessageType.exists_field_of_not_foreign hforeign
          rw [fieldsBy_field hempty hr hfield hwire, fill_element hc hfield hwire]
          have haim := hstands.aim ⟨t.name, f.jsonName⟩
          have helement : Ends _ _ (elementBy σ message f.kind _) (Scan.element σ f.kind _) :=
            ends_element haim fun t' => hmessage t' _ _ haim hlevels
          generalize hs : elementBy σ message f.kind
              { r.moved d with path := ⟨t.name, f.jsonName⟩ } = x,
            hs' : Scan.element σ f.kind { d with path := ⟨t.name, f.jsonName⟩ } = y at helement
          cases helement with
          | @ok x d' hlead' =>
            have hback : d.Leads { d' with path := d.path } :=
              ⟨hlead'.forward, hlead'.limits, hlead'.depth, rfl⟩
            have hle := hback.position_le
            have hsame := hback.length_add
            exact hgo _ _ (hlead.trans hback) (by omega)
          | @error e d' hlead' =>
            -- The path of the field is left behind, and only here.
            have hback : d.Leads { d' with path := d.path } :=
              ⟨hlead'.forward, hlead'.limits, hlead'.depth, rfl⟩
            have hmem : f ∈ t.fields := List.mem_of_find?_eq_some hfield
            exact fills_error (hlead.trans hback) (.inr ⟨f, hmem, hlead'.path⟩)

/-- A submessage is read alike. The limits keep one from opening where no level is left. -/
theorem ends_messageAt {levels : Nat} (t : MessageType) (h : r.Stands c)
    (hlevels : r.limits.recursion = r.depth + levels) :
    r.Ends c (messageAt σ levels t r) (Scan.submessage σ t c) := by
  induction levels generalizing t r c with
  | zero =>
    have hdepth := h.depth
    have hlevel := h.affords.level h.depth_le
    have hclosed : ¬ c.mayOpen 0 = true := by
      simp only [Cursor.mayOpen, h.limits, decide_eq_true_eq]
      omega
    rw [if_neg (by omega)] at hlevel
    have hmessage : messageAt σ 0 t r =
        .error (.fault (.recursionLimit r.limits.recursion)) r := by
      simp only [messageAt, bind, EStateM.bind, hlevel]
    rw [hmessage, Scan.submessage, if_neg hclosed, h.limits]
    exact ends_fail h.toShows _
  | succ levels ih =>
    have hdepth := h.depth
    have hlevel := h.affords.level h.depth_le
    have hopen : c.mayOpen 0 = true := by
      simp only [Cursor.mayOpen, h.limits, decide_eq_true_eq]
      omega
    rw [if_pos (by omega)] at hlevel
    have hbytes := follows_bytes r c h.toShows h.depth_le
    rw [Scan.submessage, if_pos hopen]
    simp only [messageAt, bind, EStateM.bind, hlevel]
    generalize hr : bytes r = x, hc : Scan.bytes c = y at hbytes
    cases hbytes with
    | error hlead => exact .error hlead
    | @ok payload d hlead =>
      have hshorter := Scan.bytes_length hc
      -- The count took a byte, so the payload and the new level are still within the ceiling.
      have hchild : ((r.moved d).child payload (r.depth + 1)).Stands (d.child payload) := by
        refine ⟨⟨Nat.zero_le _, rfl, rfl, hlead.limits.trans h.limits, rfl, rfl⟩, ?_, ?_, ?_⟩
        · simp only [child, Cursor.child, hlead.depth, hdepth]
        · show r.depth + 1 ≤ r.limits.recursion
          omega
        · refine h.affords.imp_left fun hceiling => ?_
          show r.depth + 1 + (payload.length + 1) ≤ r.ceiling
          omega
      have hlevels' : r.limits.recursion = r.depth + 1 + levels := by omega
      have hfills := fills_fields (t := t) (m := t.empty) (fun t r c h hl => ih t h hl) hchild
        hlevels' (Nat.lt_succ_self payload.length)
      dsimp only
      have hlog : ∀ log, c.Leads { d with log := log } := fun log =>
        ⟨hlead.forward, hlead.limits, hlead.depth, hlead.path⟩
      cases houtcome : (fill σ t t.empty (d.child payload)).outcome with
      | error e =>
        rw [(hfills.error e houtcome).1]
        exact .error (hlog _)
      | ok u =>
        rw [(hfills.ok houtcome).1, hfills.message]
        exact .ok (hlog _)

end Reader
end SchemaCodec
