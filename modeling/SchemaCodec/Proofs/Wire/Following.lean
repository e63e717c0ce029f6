import Mathlib
import SchemaCodec.Proofs.Wire.Blame
import SchemaCodec.Proofs.Wire.Checked
import SchemaCodec.Proofs.Wire.Failing

/-!
# Proofs.Wire.Following — a reader and a cursor side by side

- `Cursor.Leads`: the way of a cursor forward in its payload, whether a step failed or not.
- `Reader.Shows`: a reader and a cursor at the same place.
- `Reader.Ends`: the results of a step of each; neither is a trap.
- `Checked.Follows`: a step of a reader that ends like a step of a cursor.

Both are moved by the same decoder of numbers, so the steps for values follow one another one by
one. Groups do not: a reader calls itself for a group inside, and a cursor keeps a count of the open
ones. The loop of a reader is therefore compared with what is left of the count once the group is
closed (`Reader.Closes`).
-/

namespace SchemaCodec

/-! ## The way of a cursor -/

/-- A cursor was moved forward in its payload, and reads under the limits, at the depth and for the
field of before. -/
structure Cursor.Leads (c d : Cursor) : Prop where
  forward : ∃ bytes, c.rest = bytes ++ d.rest ∧ d.position = c.position + bytes.length
  limits : d.limits = c.limits
  depth : d.depth = c.depth
  path : d.path = c.path

namespace Cursor

variable {c d d' : Cursor}

theorem Leads.refl (c : Cursor) : c.Leads c :=
  ⟨⟨[], rfl, rfl⟩, rfl, rfl, rfl⟩

theorem Leads.trans (h : c.Leads d) (h' : d.Leads d') : c.Leads d' := by
  obtain ⟨xs, hrest, hposition⟩ := h.forward
  obtain ⟨ys, hrest', hposition'⟩ := h'.forward
  refine ⟨⟨xs ++ ys, ?_, ?_⟩, h'.limits.trans h.limits, h'.depth.trans h.depth,
    h'.path.trans h.path⟩
  · rw [hrest, hrest', List.append_assoc]
  · rw [hposition', hposition, List.length_append, Nat.add_assoc]

theorem leads_moveTo {bytes s : List UInt8} (h : c.rest = bytes ++ s) : c.Leads (c.moveTo s) := by
  refine ⟨⟨bytes, h, ?_⟩, rfl, rfl, rfl⟩
  simp [moveTo, h]

theorem Past.leads (h : c.Past d) : c.Leads d := by
  obtain ⟨bytes, hrest, hmove⟩ := h
  rw [hmove]
  exact leads_moveTo hrest

theorem Leads.length_add (h : c.Leads d) :
    d.rest.length + d.position = c.rest.length + c.position := by
  obtain ⟨bytes, hrest, hposition⟩ := h.forward
  rw [hrest, hposition, List.length_append]
  omega

theorem Leads.position_le (h : c.Leads d) : c.position ≤ d.position := by
  obtain ⟨bytes, -, hposition⟩ := h.forward
  omega

/-- A cursor that has fewer bytes left has moved. -/
theorem Leads.position_lt (h : c.Leads d) (hlen : d.rest.length < c.rest.length) :
    c.position < d.position := by
  have := h.length_add
  omega

end Cursor

namespace Reader

/-! ## The same place -/

/-- The reader at the place of a cursor, with its remarks. -/
def moved (r : Reader) (d : Cursor) : Reader :=
  { r with position := d.position, path := d.path, log := d.log }

/-- A reader inside its buffer and a cursor stand at the same place. The depth is left out, because
a reader counts the groups that are open and a cursor does not. -/
structure Shows (r : Reader) (c : Cursor) : Prop where
  within : r.position ≤ r.buffer.length
  rest : c.rest = r.buffer.drop r.position
  position : c.position = r.position
  limits : c.limits = r.limits
  path : c.path = r.path
  log : c.log = r.log

variable {r : Reader} {c d d' : Cursor}

theorem Shows.moved_self (h : r.Shows c) : r.moved c = r := by
  rw [moved, h.position, h.path, h.log]

theorem Shows.length_rest (h : r.Shows c) : c.rest.length = r.buffer.length - r.position := by
  rw [h.rest, List.length_drop]

theorem Shows.moved (h : r.Shows c) (hlead : c.Leads d) : (r.moved d).Shows d := by
  obtain ⟨bytes, hrest, hposition⟩ := hlead.forward
  have hlength := h.length_rest
  have hwithin := h.within
  rw [hrest, List.length_append] at hlength
  have hdrop : d.rest = r.buffer.drop d.position := by
    rw [hposition, h.position, ← List.drop_drop, ← h.rest, hrest, List.drop_left]
  have hle : d.position ≤ r.buffer.length := by
    rw [hposition, h.position]
    omega
  exact ⟨hle, hdrop, rfl, hlead.limits.trans h.limits, rfl, rfl⟩

/-- A remark, a field or a depth does not change the place. -/
theorem Shows.note (h : r.Shows c) (e : Event) : (r.note e).Shows (c.note e) := by
  refine ⟨h.within, h.rest, h.position, h.limits, h.path, ?_⟩
  simp only [Cursor.note, Reader.note, h.log]

theorem Shows.aim (h : r.Shows c) (path : FieldPath) :
    ({ r with path := path } : Reader).Shows { c with path := path } :=
  ⟨h.within, h.rest, h.position, h.limits, rfl, h.log⟩

theorem Shows.deepen (h : r.Shows c) (depth : Nat) : ({ r with depth := depth } : Reader).Shows c :=
  ⟨h.within, h.rest, h.position, h.limits, h.path, h.log⟩

/-! ## Results -/

/-- The results of a step of a reader and of a cursor: both stand at the same place, further on in
the payload, and a failure is the same fault. -/
inductive Ends (r : Reader) (c : Cursor) {α : Type} :
    EStateM.Result Halt Reader α → EStateM.Result Fault Cursor α → Prop where
  | ok {a : α} {d : Cursor} (h : c.Leads d) : Ends r c (.ok a (r.moved d)) (.ok a d)
  | error {e : Fault} {d : Cursor} (h : c.Leads d) :
      Ends r c (.error (.fault e) (r.moved d)) (.error e d)

/-- What comes behind a step that has moved both ends like the whole. -/
theorem Ends.behind {α : Type} {x : EStateM.Result Halt Reader α}
    {y : EStateM.Result Fault Cursor α} (hlead : c.Leads d) (h : (r.moved d).Ends d x y) :
    r.Ends c x y := by
  cases h with
  | ok h => exact .ok (hlead.trans h)
  | error h => exact .error (hlead.trans h)

end Reader

namespace Checked

open Reader

variable {α β : Type}

/-- A step of a reader ends like a step of a cursor, wherever both stand. -/
def Follows (x : Checked α) (y : Scan α) : Prop :=
  ∀ (r : Reader) (c : Cursor), r.Shows c → r.depth ≤ r.limits.recursion → r.Ends c (x r) (y c)

/-- The second step has to end alike only where the first one has led to. -/
theorem ends_bind {x : Checked α} {y : Scan α} {f : α → Checked β} {g : α → Scan β} {r : Reader}
    {c : Cursor} (hx : r.Ends c (x r) (y c))
    (hf : ∀ a d, c.Leads d → (r.moved d).Ends d (f a (r.moved d)) (g a d)) :
    r.Ends c ((x >>= f) r) ((y >>= g) c) := by
  change r.Ends c (EStateM.bind x f r) (EStateM.bind y g c)
  unfold EStateM.bind
  generalize x r = xr, y c = yc at hx
  cases hx with
  | ok h => exact .behind h (hf _ _ h)
  | error h => exact .error h

theorem get_ok (r : Reader) : (get : Checked Reader) r = .ok r r := rfl

theorem Follows.bind {x : Checked α} {y : Scan α} {f : α → Checked β} {g : α → Scan β}
    (hx : Follows x y) (hf : ∀ a, Follows (f a) (g a)) : Follows (x >>= f) (y >>= g) := by
  intro r c h hdepth
  exact ends_bind (hx r c h hdepth) fun a d hlead => hf a _ _ (h.moved hlead) hdepth

theorem ends_pure {r : Reader} {c : Cursor} (h : r.Shows c) (a : α) :
    r.Ends c ((pure a : Checked α) r) ((pure a : Scan α) c) := by
  have hok : r.Ends c (.ok a (r.moved c)) (.ok a c) := .ok (.refl c)
  rwa [h.moved_self] at hok

theorem ends_fail {r : Reader} {c : Cursor} (h : r.Shows c) (e : Fault) :
    r.Ends c (.error (.fault e) r : EStateM.Result Halt Reader α) (.error e c) := by
  have herror : r.Ends c (.error (.fault e) (r.moved c) : EStateM.Result Halt Reader α)
      (.error e c) := .error (.refl c)
  rwa [h.moved_self] at herror

theorem ends_map {x : Checked α} {y : Scan α} {r : Reader} {c : Cursor} (h : r.Shows c)
    (hx : r.Ends c (x r) (y c)) (f : α → β) :
    r.Ends c ((do return f (← x) : Checked β) r) ((do return f (← y) : Scan β) c) :=
  ends_bind hx fun a _ hlead => ends_pure (h.moved hlead) (f a)

theorem Follows.map {x : Checked α} {y : Scan α} (hx : Follows x y) (f : α → β) :
    Follows (do return f (← x)) (do return f (← y)) :=
  fun r c h hdepth => ends_map h (hx r c h hdepth) f

/-! ## Values -/

theorem follows_varint : Follows Reader.varint Scan.varint := by
  intro r c h hdepth
  have hwatch : watchDepth r = .ok () r := if_pos hdepth
  -- The slice from the position on is what the cursor has left.
  have hslice : slice r.position r.buffer.length r = .ok c.rest r := by
    rw [slice, if_pos ⟨h.within, Nat.le_refl _⟩, ← h.length_rest, ← h.rest, List.take_length]
  rw [Reader.varint, bind_of_ok hwatch, bind_of_ok (get_ok r), bind_of_ok hslice]
  unfold Scan.varint
  cases hd : Varint.decode? c.rest with
  | none =>
    dsimp only
    rw [h.position]
    exact ends_fail h _
  | some q =>
    obtain ⟨v, rest⟩ := q
    have hshorter : ¬ c.rest.length < rest.length := by
      have := Varint.decode?_length hd
      omega
    obtain ⟨n, hn, -⟩ := Varint.exists_numeral_of_decode? hd
    have hok : r.Ends c (.ok (UInt64.ofNat v) (r.moved (c.moveTo rest)))
        (.ok (UInt64.ofNat v) (c.moveTo rest)) := .ok (Cursor.leads_moveTo hn)
    have hmoved : r.moved (c.moveTo rest) =
        { r with position := r.position + (c.rest.length - rest.length) } := by
      simp only [Reader.moved, Cursor.moveTo, h.position, h.path, h.log]
    dsimp only
    rw [if_neg hshorter]
    rwa [hmoved] at hok

theorem follows_take (n : Nat) : Follows (Reader.take n) (Scan.take n) := by
  intro r c h hdepth
  have hwatch : watchDepth r = .ok () r := if_pos hdepth
  have hremaining : remaining r = .ok c.rest.length r := by
    rw [remaining, if_pos h.within, h.length_rest]
  rw [Reader.take, bind_of_ok hwatch, bind_of_ok hremaining, bind_of_ok (get_ok r)]
  unfold Scan.take
  by_cases hshort : c.rest.length < n
  · rw [if_pos hshort, if_pos hshort, h.position]
    exact ends_fail h _
  · -- There are enough bytes, so their end is inside the buffer too.
    have hslice : slice r.position (r.position + n) r = .ok (c.rest.take n) r := by
      have hwithin := h.within
      have hlength := h.length_rest
      rw [slice, if_pos (by omega), h.rest, Nat.add_sub_cancel_left]
    have hlead : c.Leads (c.advance n) := (Scan.passes_take n c _ _ (if_neg hshort)).leads
    have hok : r.Ends c (.ok (c.rest.take n) (r.moved (c.advance n)))
        (.ok (c.rest.take n) (c.advance n)) := .ok hlead
    have hmoved : r.moved (c.advance n) = { r with position := r.position + n } := by
      simp only [Reader.moved, Cursor.advance, h.position, h.path, h.log]
    rw [if_neg hshort, if_neg hshort]
    dsimp only
    rw [bind_of_ok hslice]
    rwa [hmoved] at hok

theorem follows_key : Follows Reader.key Scan.key :=
  follows_varint.map _

theorem follows_bool : Follows Reader.bool Scan.bool :=
  follows_varint.map _

theorem follows_int32 : Follows Reader.int32 Scan.int32 :=
  follows_varint.map _

theorem follows_uint64 : Follows Reader.uint64 Scan.uint64 := by
  refine follows_varint.bind fun v => ?_
  intro r c h hdepth
  dsimp only
  rw [h.limits, h.path]
  split
  next => exact ends_pure h v
  next => exact ends_fail h _

theorem follows_bytes : Follows Reader.bytes Scan.bytes :=
  follows_varint.bind fun n => follows_take n.toNat

theorem follows_string : Follows Reader.string Scan.string := by
  refine follows_bytes.bind fun payload => ?_
  intro r c h hdepth
  dsimp only
  rw [h.path]
  cases Text.ofUtf8? payload with
  | some s => exact ends_pure h s
  | none => exact ends_fail h _

theorem follows_tag : Follows Reader.tag Scan.tag := by
  intro r c h hdepth
  have hkey := follows_key r c h hdepth
  unfold Reader.tag Scan.tag
  generalize Reader.key r = x, Scan.key c = y at hkey
  cases hkey with
  | error hlead => exact .error hlead
  | @ok k d hlead =>
    dsimp only
    rw [h.position]
    split
    next => exact .ok hlead
    next =>
      cases WireType.ofRaw (k % 8) r.position with
      | error e => exact .error hlead
      | ok w => exact .ok hlead

/-- Values that are no group are skipped alike, however groups are. -/
theorem follows_skipBy (group : Checked Unit) {w : WireType} (hw : w ≠ .startGroup) :
    Follows (skipBy group w) (Scan.skipFlat w) := by
  cases w with
  | varint => exact follows_varint.map fun _ => ()
  | fixed64 => exact (follows_take 8).map fun _ => ()
  | lengthDelimited => exact follows_bytes.map fun _ => ()
  | fixed32 => exact (follows_take 4).map fun _ => ()
  | startGroup => exact absurd rfl hw
  | endGroup =>
    intro r c h hdepth
    change r.Ends c (.error (.fault (.invalidWireType WireType.endGroup.raw r.position)) r)
      (.error (.invalidWireType WireType.endGroup.raw c.position) c)
    rw [h.position]
    exact ends_fail h _

end Checked

namespace Reader

open Checked

/-! ## Depth -/

/-- A reader can count as many levels as there are bytes, or as its limits allow. -/
def Affords (r : Reader) (n : Nat) : Prop :=
  r.depth + n ≤ r.ceiling ∨ r.limits.recursion < r.ceiling

variable {r : Reader} {c d : Cursor} {n k : Nat}

theorem Affords.mono (h : r.Affords n) (hle : k ≤ n) : r.Affords k :=
  h.imp_left fun hdepth => by omega

theorem Affords.deepen (h : r.Affords (n + 1)) :
    ({ r with depth := r.depth + 1 } : Reader).Affords n := by
  refine h.imp_left fun hdepth => ?_
  simp only
  omega

/-- The next level can be counted where it is compared with the limits. -/
theorem Affords.level (h : r.Affords (n + 1)) (hdepth : r.depth ≤ r.limits.recursion) :
    level r =
      if r.depth + 1 ≤ r.limits.recursion then .ok (r.depth + 1) r
      else .error (.fault (.recursionLimit r.limits.recursion)) r := by
  have hcounted : ¬ r.ceiling < r.depth + 1 := by
    rcases h with hceiling | hceiling <;> omega
  rw [Reader.level, if_neg hcounted]
  split
  next hfull => rw [if_neg (by omega)]
  next hroom => rw [if_pos (by omega)]

/-! ## Groups -/

/-- The results of a loop of a reader, and of a cursor with `outer` more groups open: behind the end
of the group the cursor goes on with these. -/
inductive Closes (r : Reader) (c : Cursor) (outer : Nat) :
    EStateM.Result Halt Reader Unit → EStateM.Result Fault Cursor Unit → Prop where
  | ok {d : Cursor} (h : c.Leads d) :
      Closes r c outer (.ok () (r.moved d)) (Scan.skipGroups outer d)
  | error {e : Fault} {d : Cursor} (h : c.Leads d) :
      Closes r c outer (.error (.fault e) (r.moved d)) (.error e d)

theorem Closes.behind {outer : Nat} {x : EStateM.Result Halt Reader Unit}
    {y : EStateM.Result Fault Cursor Unit} (hlead : c.Leads d)
    (h : (r.moved d).Closes d outer x y) : r.Closes c outer x y := by
  cases h with
  | ok h => exact .ok (hlead.trans h)
  | error h => exact .error (hlead.trans h)

/-- One more group of a cursor, `outer` of which are open. -/
def scanGroup (outer : Nat) (c : Cursor) : EStateM.Result Fault Cursor Unit :=
  if c.mayOpen outer then Scan.skipGroups (outer + 1) c
  else .error (.recursionLimit c.limits.recursion) c

/-- What a reader needs to go past a group where `outer` are open: the limits leave room for
`levels` of them, and the reader can count these. -/
structure Room (r : Reader) (c : Cursor) (outer levels n : Nat) : Prop extends r.Shows c where
  depth : r.depth = c.depth + outer
  levels : r.limits.recursion = r.depth + levels
  affords : r.Affords n

theorem Room.moved {outer levels : Nat} (h : r.Room c outer levels n) (hlead : c.Leads d)
    (hle : k ≤ n) : (r.moved d).Room d outer levels k := by
  refine ⟨h.toShows.moved hlead, ?_, h.levels, h.affords.mono hle⟩
  rw [hlead.depth]
  exact h.depth

section Step

variable {inside : Checked Unit} {rounds : Nat} {s s' : Reader} {w : WireType}

theorem groupBody_error {e : Halt} (hk : key r = .error e s) :
    groupBody inside (rounds + 1) r = .error e s := by
  simp only [groupBody, hk]

theorem groupBody_invalid {e : Fault} (hk : key r = .ok k s)
    (hw : WireType.ofRaw (k % 8) r.position = .error e) :
    groupBody inside (rounds + 1) r = .error (.fault e) s := by
  simp only [groupBody, hk, hw]

theorem groupBody_close (hk : key r = .ok k s) (hw : k % 8 = WireType.endGroup.raw) :
    groupBody inside (rounds + 1) r = .ok () s := by
  simp only [groupBody, hk, hw, WireType.ofRaw_raw]

theorem groupBody_value (hk : key r = .ok k s) (hw : k % 8 = w.raw) (hend : w ≠ .endGroup)
    (hs : skipBy inside w s = .ok () s') :
    groupBody inside (rounds + 1) r = groupBody inside rounds s' := by
  cases w with
  | endGroup => exact absurd rfl hend
  | _ => simp only [groupBody, hk, hw, WireType.ofRaw_raw, hs]

theorem groupBody_value_error {e : Halt} (hk : key r = .ok k s) (hw : k % 8 = w.raw)
    (hend : w ≠ .endGroup) (hs : skipBy inside w s = .error e s') :
    groupBody inside (rounds + 1) r = .error e s' := by
  cases w with
  | endGroup => exact absurd rfl hend
  | _ => simp only [groupBody, hk, hw, WireType.ofRaw_raw, hs]

end Step

/-- The loop of a group has a round left as long as there are bytes, since each round takes a
key. -/
theorem closes_groupBody {levels rounds outer : Nat}
    (hgroup : ∀ outer r c, Room r c outer levels (c.rest.length + 1) →
      r.Closes c outer (group levels r) (scanGroup outer c))
    (h : r.Room c (outer + 1) levels c.rest.length) (hrounds : c.rest.length < rounds) :
    r.Closes c outer (groupBody (group levels) rounds r) (Scan.skipGroups (outer + 1) c) := by
  -- The induction is on the rounds. What carries it is that each key took a byte.
  induction rounds generalizing r c with
  | zero => exact absurd hrounds (Nat.not_lt_zero _)
  | succ rounds ih =>
    have hdepth : r.depth ≤ r.limits.recursion := by
      have := h.levels
      omega
    have hkey := follows_key r c h.toShows hdepth
    generalize hr : key r = x, hc : Scan.key c = y at hkey
    cases hkey with
    | error hlead =>
      rw [groupBody_error hr, Scan.skipGroups_succ, hc]
      exact .error hlead
    | @ok k d hlead =>
      have hshorter := Scan.key_length hc
      have hshows := h.toShows.moved hlead
      cases hw : WireType.ofRaw (k % 8) c.position with
      | error e =>
        rw [groupBody_invalid hr (h.position ▸ hw), Scan.skipGroups_succ, hc]
        simp only [hw]
        exact .error hlead
      | ok w =>
        have hraw := WireType.raw_of_ofRaw hw
        by_cases hend : w = .endGroup
        · subst hend
          rw [groupBody_close hr hraw, Scan.skipGroups_close hc hraw]
          exact .ok hlead
        -- Whatever stands there, the loop goes on where it has been passed.
        have hgo : ∀ d', d.Leads d' → r.Closes c outer
            (groupBody (group levels) rounds (r.moved d')) (Scan.skipGroups (outer + 1) d') := by
          intro d' hlead'
          have hle := (hlead.trans hlead').length_add
          have hforward := hlead'.position_le
          have hbefore := hlead.length_add
          refine .behind (hlead.trans hlead') (ih (h.moved (hlead.trans hlead') ?_) ?_) <;> omega
        by_cases hstart : w = .startGroup
        · subst hstart
          rw [Scan.skipGroups_group hc hraw]
          have hinner := hgroup (outer + 1) (r.moved d) d (h.moved hlead (by omega))
          rw [scanGroup] at hinner
          generalize hs : group levels (r.moved d) = x,
            (if d.mayOpen (outer + 1) then Scan.skipGroups (outer + 1 + 1) d
              else .error (.recursionLimit d.limits.recursion) d) = y at hinner
          cases hinner with
          | ok hlead' =>
            rw [groupBody_value hr hraw hend hs]
            exact hgo _ hlead'
          | error hlead' =>
            rw [groupBody_value_error hr hraw hend hs]
            exact .error (hlead.trans hlead')
        · have hflat := follows_skipBy (group levels) hstart (r.moved d) d hshows hdepth
          generalize hs : skipBy (group levels) w (r.moved d) = x, hs' : Scan.skipFlat w d = y
            at hflat
          cases hflat with
          | ok hlead' =>
            rw [groupBody_value hr hraw hend hs, Scan.skipGroups_flat hc hraw hs']
            exact hgo _ hlead'
          | error hlead' =>
            rw [groupBody_value_error hr hraw hend hs,
              Scan.skipGroups_flat_error hc hraw hend hstart hs']
            exact .error (hlead.trans hlead')

theorem nested_of_level {body : Checked Unit} (hlevel : level r = .ok (r.depth + 1) r) :
    nested body r =
      match body { r with depth := r.depth + 1 } with
      | .ok () s => surface (.ok ()) s
      | .error e s => surface (.error e) s := by
  exact (bind_of_ok hlevel).trans rfl

/-- A group is passed alike. Where no level is left, the limits keep it from opening. -/
theorem closes_group {levels outer : Nat} (h : r.Room c outer levels (c.rest.length + 1)) :
    r.Closes c outer (group levels r) (scanGroup outer c) := by
  induction levels generalizing outer r c with
  | zero =>
    have hlevels := h.levels
    have hdepth := h.depth
    have hlevel := h.affords.level (Nat.le_of_eq hlevels.symm)
    have hclosed : ¬ c.mayOpen outer = true := by
      simp only [Cursor.mayOpen, h.limits, decide_eq_true_eq]
      omega
    rw [if_neg (by omega)] at hlevel
    have hgroup : group 0 r = .error (.fault (.recursionLimit r.limits.recursion)) r := by
      simp only [group, bind, EStateM.bind, hlevel]
    rw [hgroup, scanGroup, if_neg hclosed, h.limits]
    exact h.moved_self ▸ Closes.error (.refl c)
  | succ levels ih =>
    have hlevels := h.levels
    have hdepth := h.depth
    have hlevel := h.affords.level (by omega)
    have hopen : c.mayOpen outer = true := by
      simp only [Cursor.mayOpen, h.limits, decide_eq_true_eq]
      omega
    rw [if_pos (by omega)] at hlevel
    have hroom : ({ r with depth := r.depth + 1 } : Reader).Room c (outer + 1) levels
        c.rest.length := by
      refine ⟨h.toShows.deepen _, ?_, ?_, h.affords.deepen⟩
      · simp only
        omega
      · simp only
        omega
    -- The groups inside have one level less, which is where the induction is used.
    have hbody := closes_groupBody (fun outer r c => ih) hroom (Nat.lt_succ_self _)
    rw [h.length_rest] at hbody
    rw [scanGroup, if_pos hopen, group, nested_of_level hlevel]
    simp only [remaining, bind, EStateM.bind, h.within, if_true]
    generalize groupBody (group levels) (r.buffer.length - r.position + 1)
      { r with depth := r.depth + 1 } = x, Scan.skipGroups (outer + 1) c = y at hbody ⊢
    cases hbody with
    | ok hlead => exact .ok hlead
    | error hlead => exact .error hlead

/-! ## Values of every wire type -/

/-- A reader and a cursor stand at the same place and depth, and the reader can count all that may
still be opened. -/
structure Stands (r : Reader) (c : Cursor) : Prop extends r.Shows c where
  depth : r.depth = c.depth
  depth_le : r.depth ≤ r.limits.recursion
  affords : r.Affords (c.rest.length + 1)

theorem Stands.moved (h : r.Stands c) (hlead : c.Leads d) : (r.moved d).Stands d := by
  have hforward := hlead.position_le
  have hlength := hlead.length_add
  exact ⟨h.toShows.moved hlead, h.depth.trans hlead.depth.symm, h.depth_le,
    h.affords.mono (by omega)⟩

theorem Stands.note (h : r.Stands c) (e : Event) : (r.note e).Stands (c.note e) :=
  ⟨h.toShows.note e, h.depth, h.depth_le, h.affords⟩

theorem Stands.aim (h : r.Stands c) (path : FieldPath) :
    ({ r with path := path } : Reader).Stands { c with path := path } :=
  ⟨h.toShows.aim path, h.depth, h.depth_le, h.affords⟩

theorem ends_skip (h : r.Stands c) (w : WireType) : r.Ends c (skip w r) (Scan.skip w c) := by
  by_cases hw : w = .startGroup
  · subst hw
    have hroom : r.Room c 0 (r.limits.recursion - r.depth) (c.rest.length + 1) :=
      ⟨h.toShows, h.depth, (Nat.add_sub_of_le h.depth_le).symm, h.affords⟩
    have hgroup := closes_group hroom
    rw [scanGroup] at hgroup
    dsimp only [skip, skipBy, Scan.skip]
    generalize group (r.limits.recursion - r.depth) r = x,
      (if c.mayOpen 0 then Scan.skipGroups (0 + 1) c
        else .error (.recursionLimit c.limits.recursion) c) = y at hgroup
    cases hgroup with
    | ok hlead =>
      rw [Scan.skipGroups.eq_def 0]
      exact .ok hlead
    | error hlead => exact .error hlead
  · rw [Scan.skip_of_ne hw]
    exact follows_skipBy _ hw r c h.toShows h.depth_le

end Reader
end SchemaCodec
