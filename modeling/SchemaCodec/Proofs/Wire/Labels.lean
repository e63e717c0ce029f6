import Mathlib
import SchemaCodec.Proofs.Wire.Lockstep

/-!
# Proofs.Wire.Labels — what a cursor carries for messages only

A cursor remembers the field that is being read and the remarks made so far. Neither has an
influence on what is read: `fill_relabel` says that a run leaves the same message and fails with
the same fault whatever its cursor is labelled with.
-/

namespace SchemaCodec

/-- The cursor with another log, and with its path changed. -/
def Cursor.relabel (f : FieldPath → FieldPath) (log : List Event) (c : Cursor) : Cursor :=
  { c with path := f c.path, log := log }

/-- The labels of a cursor have no influence on a run. -/
theorem fill_relabel (σ : Schema) (t : MessageType) (m : Message) (c : Cursor)
    (f : FieldPath → FieldPath) (log : List Event) :
    (fill σ t m (c.relabel f log)).Agrees (fill σ t m c) := by
  have htracks : (c.relabel f log).Tracks (fun _ _ => True) c.limits c.limits c :=
    ⟨rfl, rfl, rfl, trivial, rfl, rfl⟩
  exact (fill_lockstep (Limits.Tighter.refl c.limits) c htracks).agrees

end SchemaCodec
