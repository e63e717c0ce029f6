import Mathlib
import SchemaCodec.Catalog.Standard
import SchemaCodec.Proofs.Wire.Framing
import SchemaCodec.Proofs.Wire.Submessages

/-!
# Proofs.Wire.Bounds — a reader keeps its bounds

- `Operation`: what a reader can be asked for, one after the other and also after a failure.
- `Operation.perform`, `Operation.scan`: an operation of a reader, and the same of a cursor.
- `Reader.after`: a reader after operations.

An operation of a reader ends like that of a cursor (`Operation.Meets`), so it can start from
wherever others have left the reader, and `Reader.reader_keeps_its_bounds` is an induction over
them.
-/

namespace SchemaCodec

/-! ## Progress -/

theorem FlatValue.length_pos {w : WireType} (v : FlatValue w) : 0 < v.bytes.length := by
  cases v with
  | varint n => exact n.length_pos
  | fixed64 bytes h =>
    rw [FlatValue.bytes, h]
    decide
  | lengthDelimited count payload h =>
    rw [FlatValue.bytes, List.length_append]
    exact Nat.add_pos_left count.length_pos _
  | fixed32 bytes h =>
    rw [FlatValue.bytes, h]
    decide

theorem GroupBody.length_pos (body : GroupBody) : 0 < body.bytes.length := by
  cases body with
  | close key h => exact key.length_pos
  | flat key h v rest =>
    rw [GroupBody.bytes, List.length_append, List.length_append, Nat.add_assoc]
    exact Nat.add_pos_left key.length_pos _
  | group key h inner rest =>
    rw [GroupBody.bytes, List.length_append, List.length_append, Nat.add_assoc]
    exact Nat.add_pos_left key.length_pos _

theorem WireValue.length_pos {w : WireType} (v : WireValue w) : 0 < v.bytes.length := by
  cases v with
  | flat v => exact v.length_pos
  | group body => exact body.length_pos

namespace Scan

variable {σ : Schema} {t : MessageType} {m : Message} {c d : Cursor}

/-- Skipping a value takes at least one byte. -/
theorem skip_shortens {w : WireType} (h : skip w c = .ok () d) : d.rest.length < c.rest.length := by
  obtain ⟨v, hv⟩ := skip_ok h
  have hpos := v.length_pos
  rw [hv, List.length_append]
  omega

/-- Reading a submessage takes at least the byte of its count. -/
theorem submessage_shortens (h : submessage σ t c = .ok m d) : d.rest.length < c.rest.length := by
  unfold submessage at h
  split at h
  next =>
    split at h
    next => cases h
    next payload d' hbytes =>
      have hshorter := bytes_length hbytes
      dsimp only at h
      split at h
      next => cases h
      next =>
        cases h
        show d'.rest.length < c.rest.length
        omega
  next => cases h

/-- Reading the value of a known field takes at least one byte. -/
theorem merge_shortens {number : Nat} {m' : Message} (hknown : (t.field? number).isSome)
    (h : merge σ t m number c = .ok m' d) : d.rest.length < c.rest.length := by
  obtain ⟨f, hfield⟩ := Option.isSome_iff_exists.1 hknown
  obtain ⟨d', hskip, hrest, -⟩ := skip_of_merge hfield h
  rw [← hrest]
  exact skip_shortens hskip

end Scan

/-! ## Operations -/

/-- What a reader can be asked for. -/
inductive Operation where
  | varint
  | bool
  | int32
  | enum
  | uint64
  | bytes
  | string
  /-- a submessage -/
  | message (t : MessageType)
  /-- the value of a field of a message -/
  | merge (t : MessageType) (m : Message) (number : Nat)
  /-- records up to the end of the buffer or of the message -/
  | fields (t : MessageType) (m : Message)
  | skip (w : WireType)

/-- What a reader gives for an operation. -/
inductive Reply where
  | element (e : Element)
  | payload (bytes : List UInt8)
  | done

namespace Operation

/-- An operation of a reader. -/
def perform (σ : Schema) : Operation → Checked Reply
  | .varint => do return .element (.uint64 (← Reader.varint))
  | .bool => do return .element (.bool (← Reader.bool))
  | .int32 => do return .element (.int32 (← Reader.int32))
  | .enum => do return .element (.enum (← Reader.int32))
  | .uint64 => do return .element (.uint64 (← Reader.uint64))
  | .bytes => do return .payload (← Reader.bytes)
  | .string => do return .element (.string (← Reader.string))
  | .message t => do return .element (.message (← Reader.message σ t))
  | .merge t m number => do return .element (.message (← Reader.merge σ t m number))
  | .fields t m => fun r =>
    let filled := Reader.fields σ t m r
    match filled.result with
    | .ok () s => .ok (.element (.message filled.message)) s
    | .error e s => .error e s
  | .skip w => do
    Reader.skip w
    return .done

/-- The same operation of a cursor. -/
def scan (σ : Schema) : Operation → Scan Reply
  | .varint => do return .element (.uint64 (← Scan.varint))
  | .bool => do return .element (.bool (← Scan.bool))
  | .int32 => do return .element (.int32 (← Scan.int32))
  | .enum => do return .element (.enum (← Scan.int32))
  | .uint64 => do return .element (.uint64 (← Scan.uint64))
  | .bytes => do return .payload (← Scan.bytes)
  | .string => do return .element (.string (← Scan.string))
  | .message t => do return .element (.message (← Scan.submessage σ t))
  | .merge t m number => do return .element (.message (← Scan.merge σ t m number))
  | .fields t m => fun c =>
    let run := fill σ t m c
    match run.outcome with
    | .ok () => .ok (.element (.message run.message)) run.cursor
    | .error e => .error e run.cursor
  | .skip w => do
    Scan.skip w
    return .done

/-- The operations that cannot succeed without reading something. -/
def Consumes : Operation → Prop
  | .merge t _ number => (t.field? number).isSome
  | .fields _ _ => False
  | _ => True

/-- The paths that an operation may leave where it fails. -/
def Leaves : Operation → FieldPath → Prop
  | .fields t _, path => Reader.Failing t path
  | _, _ => False

/-- The reader after an operation, whether it failed or not. -/
def next (σ : Schema) (op : Operation) (r : Reader) : Reader :=
  match op.perform σ r with
  | .ok _ s => s
  | .error _ s => s

theorem scan_shortens {σ : Schema} {op : Operation} {c d : Cursor} {a : Reply}
    (hop : op.Consumes) (h : op.scan σ c = .ok a d) : d.rest.length < c.rest.length := by
  cases op with
  | fields t m => exact hop.elim
  | merge t m number =>
    obtain ⟨m', hm⟩ := exists_of_map_ok h
    exact Scan.merge_shortens hop hm
  | message t =>
    obtain ⟨m', hm⟩ := exists_of_map_ok h
    exact Scan.submessage_shortens hm
  | skip w =>
    obtain ⟨u, hskip⟩ := exists_of_map_ok h
    exact Scan.skip_shortens hskip
  | varint =>
    obtain ⟨v, hv⟩ := exists_of_map_ok h
    exact Scan.varint_length hv
  | bool =>
    obtain ⟨v, hv⟩ := exists_of_map_ok h
    exact Scan.map_varint_length hv
  | int32 =>
    obtain ⟨v, hv⟩ := exists_of_map_ok h
    exact Scan.map_varint_length hv
  | enum =>
    obtain ⟨v, hv⟩ := exists_of_map_ok h
    exact Scan.map_varint_length hv
  | uint64 =>
    obtain ⟨v, hv⟩ := exists_of_map_ok h
    exact Scan.uint64_length hv
  | bytes =>
    obtain ⟨payload, hpayload⟩ := exists_of_map_ok h
    exact Nat.lt_of_le_of_lt (Nat.le_add_left _ _) (Scan.bytes_length hpayload)
  | string =>
    obtain ⟨text, htext⟩ := exists_of_map_ok h
    exact Scan.string_length htext

end Operation

namespace Reader

open Checked

variable {σ : Schema} {t : MessageType} {m : Message} {r : Reader} {c d : Cursor}

/-- A cursor at the place of a reader. -/
def cursor (r : Reader) : Cursor where
  rest := r.buffer.drop r.position
  position := r.position
  limits := r.limits
  depth := r.depth
  path := r.path
  log := r.log

/-- The result of a cursor, as that of a reader of its payload. -/
def onto {α : Type} (r : Reader) : EStateM.Result Fault Cursor α → EStateM.Result Halt Reader α
  | .ok a d => .ok a (r.moved d)
  | .error e d => .error (.fault e) (r.moved d)

/-- A reader after operations, some of which may have failed. -/
def after (σ : Schema) (ops : List Operation) (r : Reader) : Reader :=
  ops.foldl (fun r op => op.next σ r) r

theorem Stands.cursor_eq (h : r.Stands c) : r.cursor = c := by
  rw [cursor, ← h.rest, ← h.position, ← h.limits, h.depth, ← h.path, ← h.log]

theorem Stands.levels (h : r.Stands c) :
    r.limits.recursion = r.depth + (r.limits.recursion - r.depth) :=
  (Nat.add_sub_of_le h.depth_le).symm

theorem ends_message (h : r.Stands c) :
    r.Ends c (Reader.message σ t r) (Scan.submessage σ t c) :=
  ends_messageAt t h h.levels

theorem ends_merge (h : r.Stands c) (number : Nat) :
    r.Ends c (Reader.merge σ t m number r) (Scan.merge σ t m number c) := by
  unfold Reader.merge Scan.merge
  cases t.field? number with
  | none => exact ends_pure h.toShows m
  | some f =>
    exact ends_map h.toShows (ends_element h fun t' => ends_message h) _

/-- A reader reads the records that a cursor reads. -/
theorem fills_of_stands (h : r.Stands c) :
    r.Fills c t (fields σ t m r) (fill σ t m c) := by
  unfold fields remaining
  rw [if_pos h.within]
  refine fills_fields (fun t r c h hlevels => ends_messageAt t h hlevels) h h.levels ?_
  rw [h.length_rest]
  exact Nat.lt_succ_self _

end Reader

namespace Operation

open Reader Checked

variable {σ : Schema} {op : Operation} {r : Reader} {c : Cursor}

/-- The results of an operation of a reader and of a cursor: they are the same, and a failure leaves
the field that was read before, or the one that failed. -/
structure Meets (op : Operation) (r : Reader) (c : Cursor) (x : EStateM.Result Halt Reader Reply)
    (y : EStateM.Result Fault Cursor Reply) : Prop where
  same : x = r.onto y
  ok : ∀ a d, y = .ok a d → c.Leads d
  error : ∀ e d, y = .error e d →
    c.Leads { d with path := c.path } ∧ (d.path = c.path ∨ op.Leaves d.path)

theorem meets_of_ends {x : EStateM.Result Halt Reader Reply}
    {y : EStateM.Result Fault Cursor Reply} (h : r.Ends c x y) : op.Meets r c x y := by
  cases h with
  | ok hlead =>
    refine ⟨rfl, fun a d h => ?_, nofun⟩
    cases h
    exact hlead
  | error hlead =>
    refine ⟨rfl, nofun, fun e d h => ?_⟩
    cases h
    have hpath := hlead.path
    rw [← hpath]
    exact ⟨hlead, .inl rfl⟩

/-- Wherever a reader and a cursor stand, an operation does the same to both. -/
theorem meets (op : Operation) (h : r.Stands c) :
    op.Meets r c (op.perform σ r) (op.scan σ c) := by
  cases op with
  | varint => exact meets_of_ends (follows_varint.map _ r c h.toShows h.depth_le)
  | bool => exact meets_of_ends (follows_bool.map _ r c h.toShows h.depth_le)
  | int32 => exact meets_of_ends (follows_int32.map _ r c h.toShows h.depth_le)
  | enum => exact meets_of_ends (follows_int32.map _ r c h.toShows h.depth_le)
  | uint64 => exact meets_of_ends (follows_uint64.map _ r c h.toShows h.depth_le)
  | bytes => exact meets_of_ends (follows_bytes.map _ r c h.toShows h.depth_le)
  | string => exact meets_of_ends (follows_string.map _ r c h.toShows h.depth_le)
  | message t => exact meets_of_ends (ends_map h.toShows (ends_message h) _)
  | merge t m number => exact meets_of_ends (ends_map h.toShows (ends_merge h number) _)
  | skip w => exact meets_of_ends (ends_map h.toShows (ends_skip h w) fun _ => Reply.done)
  | fields t m =>
    have hfills := fills_of_stands (σ := σ) (t := t) (m := m) h
    dsimp only [perform, scan]
    cases houtcome : (fill σ t m c).outcome with
    | ok u =>
      obtain ⟨hresult, hpath⟩ := hfills.ok houtcome
      rw [hresult, hfills.message]
      refine ⟨rfl, fun a d hd => ?_, nofun⟩
      cases hd
      -- The run ended where it found the path of before, so it has only moved.
      have hlead := hfills.leads
      rwa [← hpath] at hlead
    | error e =>
      obtain ⟨hresult, hpath⟩ := hfills.error e houtcome
      rw [hresult]
      refine ⟨rfl, nofun, fun e' d hd => ?_⟩
      cases hd
      exact ⟨hfills.leads, hpath⟩

/-- What an operation may do to a reader. -/
structure Keeps (σ : Schema) (op : Operation) (r : Reader) : Prop where
  /-- nothing happens to it that must not happen -/
  no_trap : ∀ t s, op.perform σ r ≠ .error (.trap t) s
  /-- a cursor gives the same and ends at the same place -/
  same : op.perform σ r = r.onto (op.scan σ r.cursor)
  buffer : (op.next σ r).buffer = r.buffer
  limits : (op.next σ r).limits = r.limits
  depth : (op.next σ r).depth = r.depth
  /-- it moves forward -/
  forward : r.position ≤ (op.next σ r).position
  /-- it stays in its buffer -/
  within : (op.next σ r).position ≤ r.buffer.length
  /-- it moves where something has to be read -/
  consumes : op.Consumes → ∀ a s, op.perform σ r = .ok a s → r.position < s.position
  /-- only reading records may leave another field behind, and only where the field failed -/
  path : (op.next σ r).path = r.path ∨
    (∃ e s, op.perform σ r = .error e s) ∧ op.Leaves (op.next σ r).path

/-- The place that an operation leads to. -/
theorem exists_next (op : Operation) (h : r.Stands c) :
    ∃ d, op.next σ r = r.moved d ∧ c.Leads { d with path := c.path } ∧
      (d.path = c.path ∨ (∃ e s, op.perform σ r = .error e s) ∧ op.Leaves d.path) := by
  have hmeets := meets (σ := σ) op h
  have hsame := hmeets.same
  cases hscan : op.scan σ c with
  | ok a d =>
    rw [hscan] at hsame
    have hlead := hmeets.ok a d hscan
    have hpath := hlead.path
    refine ⟨d, ?_, ?_, .inl hpath⟩
    · rw [next, hsame]
      rfl
    · rw [← hpath]
      exact hlead
  | error e d =>
    rw [hscan] at hsame
    obtain ⟨hlead, hpath⟩ := hmeets.error e d hscan
    refine ⟨d, ?_, hlead, hpath.imp_right fun hleaves => ⟨⟨_, _, hsame⟩, hleaves⟩⟩
    rw [next, hsame]
    rfl

/-- An operation can be followed by another one. -/
theorem stands_next (op : Operation) (h : r.Stands c) :
    (op.next σ r).Stands (op.next σ r).cursor := by
  obtain ⟨d, hnext, hlead, -⟩ := exists_next (σ := σ) op h
  have hstands : (r.moved d).Stands d := (h.moved hlead).aim d.path
  rw [hnext, hstands.cursor_eq]
  exact hstands

/-- One operation keeps the bounds. -/
theorem keeps_of_stands (op : Operation) (h : r.Stands c) : op.Keeps σ r := by
  have hmeets := meets (σ := σ) op h
  have hsame := hmeets.same
  have hposition := h.position
  obtain ⟨d, hnext, hlead, hpath⟩ := exists_next (σ := σ) op h
  have hwithin : d.position ≤ r.buffer.length := (h.moved hlead).within
  have hforward : c.position ≤ d.position := hlead.position_le
  constructor
  case no_trap =>
    intro t s htrap
    rw [hsame] at htrap
    cases hscan : op.scan σ c with
    | ok a d =>
      rw [hscan] at htrap
      cases htrap
    | error e d =>
      rw [hscan] at htrap
      cases htrap
  case same => rwa [h.cursor_eq]
  case buffer =>
    rw [hnext]
    rfl
  case limits =>
    rw [hnext]
    rfl
  case depth =>
    rw [hnext]
    rfl
  case forward =>
    rw [hnext, ← hposition]
    exact hforward
  case within =>
    rw [hnext]
    exact hwithin
  case consumes =>
    intro hop a s hok
    rw [hsame] at hok
    cases hscan : op.scan σ c with
    | error e d' =>
      rw [hscan] at hok
      cases hok
    | ok a' d' =>
      rw [hscan] at hok
      cases hok
      rw [← hposition]
      exact (hmeets.ok _ _ hscan).position_lt (scan_shortens hop hscan)
  case path =>
    rw [hnext, ← h.path]
    exact hpath

end Operation

namespace Reader

variable {σ : Schema} {ceiling : Nat} {limits : Limits} {payload : List UInt8}

/-- A new reader can count all that a payload may open. -/
theorem stands_start (hceiling : payload.length < ceiling ∨ limits.recursion < ceiling) :
    (start ceiling limits payload).Stands (start ceiling limits payload).cursor := by
  refine ⟨⟨Nat.zero_le _, rfl, rfl, rfl, rfl, rfl⟩, rfl, Nat.zero_le _, ?_⟩
  refine hceiling.imp_left fun hlength => ?_
  show 0 + (payload.length + 1) ≤ ceiling
  omega

/-- Operations can be followed by others, and leave what they keep. -/
theorem stands_after (ops : List Operation) {r : Reader} (h : r.Stands r.cursor) :
    (r.after σ ops).Stands (r.after σ ops).cursor ∧ (r.after σ ops).buffer = r.buffer ∧
      (r.after σ ops).limits = r.limits ∧ (r.after σ ops).depth = r.depth := by
  induction ops generalizing r with
  | nil => exact ⟨h, rfl, rfl, rfl⟩
  | cons op ops ih =>
    have hkeeps := Operation.keeps_of_stands (σ := σ) op h
    obtain ⟨hstands, hbuffer, hlimits, hdepth⟩ := ih (Operation.stands_next (σ := σ) op h)
    exact ⟨hstands, hbuffer.trans hkeeps.buffer, hlimits.trans hkeeps.limits,
      hdepth.trans hkeeps.depth⟩

/-- A reader keeps its bounds. After any operations on a payload, failed ones among them, it stands
inside the payload, with the limits and at the depth that it started with, and so it does after
one more, whatever that is. Every operation gives what a cursor gives: no bytes are taken that are
not there, nothing outside the buffer is asked for, nothing is read deeper than the limits allow,
and no loop goes around more often than there are bytes left, and once more. An operation that has
to read something moves forward where it succeeds. The field being read is the one of before, unless
reading records failed in a field.

A counter of 32 bits is the ceiling `4294967295`: one more is never counted in a payload that has
fewer bytes, or under limits that stop before. Every payload is below some ceiling. -/
theorem reader_keeps_its_bounds (σ : Schema) (ceiling : Nat) (limits : Limits)
    (payload : List UInt8) (hceiling : payload.length < ceiling ∨ limits.recursion < ceiling)
    (ops : List Operation) :
    let r := (start ceiling limits payload).after σ ops
    r.buffer = payload ∧ r.limits = limits ∧ r.depth = 0 ∧ r.position ≤ payload.length ∧
      ∀ op : Operation, op.Keeps σ r := by
  obtain ⟨hstands, hbuffer, hlimits, hdepth⟩ := stands_after (σ := σ) ops (stands_start hceiling)
  refine ⟨hbuffer, hlimits, hdepth, ?_, fun op => Operation.keeps_of_stands op hstands⟩
  have hwithin := hstands.within
  rwa [hbuffer] at hwithin

end Reader

namespace Catalog

/-- A number in a group in a group. Neither group ends. -/
def openGroups : List UInt8 :=
  [0x0b, 0x10, 5]

/-- Two groups are left where the payload ends, and no level is left open. -/
theorem reader_keeps_its_bounds_openGroups :
    openGroups.length < 4294967295 ∧
      let r := (Reader.start 4294967295 {} openGroups).after standard [.skip .startGroup]
      (r.buffer = openGroups ∧ r.limits = {} ∧ r.depth = 0 ∧ r.position ≤ openGroups.length ∧
        ∀ op : Operation, op.Keeps standard r) ∧
      r.position = 3 := by
  have hlength : openGroups.length < 4294967295 := by decide
  refine ⟨hlength, ?_, by cbv⟩
  exact Reader.reader_keeps_its_bounds standard 4294967295 {} openGroups (.inl hlength)
    [.skip .startGroup]

end Catalog
end SchemaCodec
