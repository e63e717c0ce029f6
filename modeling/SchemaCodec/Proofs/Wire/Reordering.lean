import Mathlib
import SchemaCodec.Catalog.Standard
import SchemaCodec.Proofs.Wire.Filling

/-!
# Proofs.Wire.Reordering — records in another order

- `Record.Reorders`: the same records in another order, where those of each field number keep the
  order that they have among themselves.

What a record does to a message does not depend on the message (`Record.effect_of_ok`), and a value
arrives at the slots of its own number only. So records of different numbers commute
(`Record.mergeInto_comm`), a record may be moved in front of all records of other numbers
(`Record.foldlM_move`), and the records of a payload may be reordered
(`Schema.decode_reordered`).
-/

namespace SchemaCodec

/-- Records in another order, where the records of each field number keep theirs. -/
structure Record.Reorders (rs qs : List Record) : Prop where
  perm : rs.Perm qs
  numbered_eq : ∀ number, Record.numbered number rs = Record.numbered number qs

/-- Two records of different field numbers may change places. -/
theorem Record.reorders_swap {r q : Record} (h : r.number ≠ q.number) (rs : List Record) :
    Reorders (r :: q :: rs) (q :: r :: rs) := by
  refine ⟨.swap q r rs, fun number => ?_⟩
  by_cases hr : r.number = number
  · have hq : q.number ≠ number := fun hq => h (hr.trans hq.symm)
    simp [numbered, hr, hq]
  · simp [numbered, List.filter_cons, hr]

/-! ## Values of different fields -/

/-- Values of different field numbers arrive at different slots, in either order. -/
theorem MessageType.put_comm (t : MessageType) (m : Message) {a b : Nat} (h : a ≠ b)
    (x y : Element) : t.put (t.put m a x) b y = t.put (t.put m b y) a x := by
  unfold put
  generalize t.fields = fields
  induction fields generalizing m with
  | nil => rfl
  | cons f fields ih =>
    cases m with
    | nil => rfl
    | cons slot slots =>
      simp only [List.zipWith_cons_cons, ih slots, List.cons.injEq, and_true]
      -- The number of a field is at most one of the two.
      by_cases ha : f.number = a
      · have hb : f.number ≠ b := fun hb => h (ha.symm.trans hb)
        simp [ha, h]
      · simp [ha]

namespace Record

variable {σ : Schema} {t : MessageType} {limits : Limits} {d : Nat} {m m' : Message}

/-! ## Records of different fields -/

/-- A record that is merged once does the same to every message: it leaves each as it is, or puts
one value into each. -/
theorem effect_of_ok {r : Record} (h : r.mergeInto σ t limits d m = .ok m') :
    (∀ n, r.mergeInto σ t limits d n = .ok n) ∨
      ∃ x, ∀ n, r.mergeInto σ t limits d n = .ok (t.put n r.number x) := by
  by_cases hforeign : t.Foreign r.number r.wire
  · left
    intro n
    rw [mergeInto_of_foreign hforeign] at h ⊢
    split at h
    next hfits => exact if_pos hfits
    next => cases h
  · right
    obtain ⟨f, hfield, hwire⟩ := MessageType.exists_field_of_not_foreign hforeign
    rw [mergeInto_of_field hfield hwire, map_eq_ok_iff] at h
    obtain ⟨x, hx, -⟩ := h
    refine ⟨x, fun n => ?_⟩
    rw [mergeInto_of_field hfield hwire, hx]
    rfl

/-- Two records of different field numbers may be merged in either order. -/
theorem mergeInto_comm {r q : Record} (hne : r.number ≠ q.number) {m₁ : Message}
    (hr : r.mergeInto σ t limits d m = .ok m₁) (hq : q.mergeInto σ t limits d m₁ = .ok m') :
    ∃ m₂, q.mergeInto σ t limits d m = .ok m₂ ∧ r.mergeInto σ t limits d m₂ = .ok m' := by
  rcases effect_of_ok hr with hleaves | ⟨x, hput⟩
  · -- The first record leaves every message, so it leaves the one behind the second as well.
    obtain rfl : m = m₁ := Except.ok.inj ((hleaves m).symm.trans hr)
    exact ⟨m', hq, hleaves m'⟩
  · obtain rfl : t.put m r.number x = m₁ := Except.ok.inj ((hput m).symm.trans hr)
    rcases effect_of_ok hq with hleaves' | ⟨y, hput'⟩
    · obtain rfl : t.put m r.number x = m' := Except.ok.inj ((hleaves' _).symm.trans hq)
      exact ⟨m, hleaves' m, hput m⟩
    · obtain rfl : t.put (t.put m r.number x) q.number y = m' :=
        Except.ok.inj ((hput' _).symm.trans hq)
      refine ⟨t.put m q.number y, hput' m, ?_⟩
      rw [hput, t.put_comm m hne]

/-! ## Lists of records -/

/-- A record in front of records of other numbers may be moved behind them. -/
theorem foldlM_move {r : Record} {before after : List Record}
    (hne : ∀ q ∈ before, r.number ≠ q.number)
    (h : (r :: (before ++ after)).foldlM (mergeInto σ t limits d) m = .ok m') :
    (before ++ r :: after).foldlM (mergeInto σ t limits d) m = .ok m' := by
  induction before generalizing m with
  | nil => exact h
  | cons q before ih =>
    obtain ⟨hq, hbefore⟩ := List.forall_mem_cons.1 hne
    rw [List.cons_append, List.foldlM_cons, bind_eq_ok_iff] at h
    obtain ⟨m₁, hr, hrest⟩ := h
    rw [List.foldlM_cons, bind_eq_ok_iff] at hrest
    obtain ⟨m₂, hnext, hrest⟩ := hrest
    obtain ⟨n, hqn, hrn⟩ := mergeInto_comm hq hr hnext
    rw [List.cons_append, List.foldlM_cons, bind_eq_ok_iff]
    refine ⟨n, hqn, ih hbefore ?_⟩
    rw [List.foldlM_cons, bind_eq_ok_iff]
    exact ⟨m₂, hrn, hrest⟩

/-- Lists that have the same records of each number in the same order merge to the same message. -/
theorem foldlM_of_numbered_eq {rs qs : List Record}
    (h : ∀ number, numbered number rs = numbered number qs)
    (hm : rs.foldlM (mergeInto σ t limits d) m = .ok m') :
    qs.foldlM (mergeInto σ t limits d) m = .ok m' := by
  -- The first record of one list is the first of its number in the other one.
  induction rs generalizing qs m with
  | nil =>
    have hnil : qs = [] := by
      refine List.eq_nil_iff_forall_not_mem.2 fun q hq => ?_
      exact List.filter_eq_nil_iff.1 (h q.number).symm q hq (beq_self_eq_true _)
    rwa [hnil]
  | cons r rs ih =>
    have hfirst : numbered r.number qs = r :: numbered r.number rs := by
      rw [← h r.number, numbered_cons_self]
    obtain ⟨before, after, rfl, hbefore, -, hafter⟩ := List.filter_eq_cons_iff.1 hfirst
    have hne : ∀ q ∈ before, q.number ≠ r.number := fun q hq => by simpa using hbefore q hq
    refine foldlM_move (fun q hq => (hne q hq).symm) ?_
    rw [List.foldlM_cons, bind_eq_ok_iff] at hm ⊢
    obtain ⟨m₁, hr, hrest⟩ := hm
    refine ⟨m₁, hr, ih (fun number => ?_) hrest⟩
    have hnumber := h number
    rw [numbered_append] at hnumber ⊢
    -- What is left of the two lists agrees in the number of this record and in all others.
    by_cases hown : r.number = number
    · subst hown
      rw [numbered_eq_nil hne, List.nil_append]
      exact hafter.symm
    · rwa [numbered_cons_of_ne hown, numbered_cons_of_ne hown] at hnumber

end Record

/-! ## Payloads -/

/-- The order of records matters among those of one field number only: reordered records denote the
same message, and are read if they were. -/
theorem Schema.decode_reordered (σ : Schema) (t : MessageType) (limits : Limits)
    {rs qs : List Record} (h : Record.Reorders rs qs) (m : Message) :
    σ.decode t limits (Record.concat rs) = .ok m ↔
      σ.decode t limits (Record.concat qs) = .ok m := by
  rw [decode_eq_decodeAt, decode_eq_decodeAt, decodeAt_concat, decodeAt_concat]
  exact ⟨Record.foldlM_of_numbered_eq h.numbered_eq,
    Record.foldlM_of_numbered_eq fun number => (h.numbered_eq number).symm⟩

namespace Catalog

/-- A column whose name is one character. -/
def columnRecord (name : UInt8) : Record where
  key := .single 0x12 rfl
  wire := .lengthDelimited
  value := .flat (.lengthDelimited (.single 0x03 rfl) [0x12, 0x01, name] rfl)
  wire_eq := by decide
  key_ne_zero := by decide

/-- The name of a table. -/
def tableRecord : Record where
  key := .single 0x1a rfl
  wire := .lengthDelimited
  value := .flat (.lengthDelimited (.single 0x01 rfl) [0x74] rfl)
  wire_eq := by decide
  key_ne_zero := by decide

/-- A number under the field number of columns, which is none of them. -/
def strayRecord : Record where
  key := .single 0x10 rfl
  wire := .varint
  value := .flat (.varint (.single 0x2a rfl))
  wire_eq := by decide
  key_ne_zero := by decide

/-- The name of a table may stand in front of its columns, behind them or between them, as long as
these keep their order. -/
theorem decode_reordered_columns :
    Record.Reorders [columnRecord 0x61, tableRecord, strayRecord, columnRecord 0x62]
      [tableRecord, columnRecord 0x61, strayRecord, columnRecord 0x62] ∧
    standard.decode messageOptions {} (Record.concat
      [tableRecord, columnRecord 0x61, strayRecord, columnRecord 0x62]) =
        .ok [[], [.message [[], [.string "a"], [], []], .message [[], [.string "b"], [], []]],
          [.string "t"], []] := by
  have hreorders := Record.reorders_swap (r := columnRecord 0x61) (q := tableRecord) (by decide)
    [strayRecord, columnRecord 0x62]
  exact ⟨hreorders, (Schema.decode_reordered standard messageOptions {} hreorders _).1 (by cbv)⟩

end Catalog
end SchemaCodec
