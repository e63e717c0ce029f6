import SchemaCodec.Schema.Type

/-!
# Schema.Message — message values

- `Element`: one value of a field, with decidable equality.
- `Slot`: the values that a message holds for one field.
- `Message`: a slot for each field of its type, in the order of the table.
- `MessageType.empty`, `MessageType.put`: the message without any field set, and a message after a
  value has arrived for a field.
- `Message.clear`: a message with every field back at its default.

A slot holds no value where a field is at its default. A singular field holds at most one value
otherwise, and a repeated field all of its values in order. So a scalar at zero and a field that
was never set are the same message, while a submessage without any fields set is a value.
-/

namespace SchemaCodec

/-- One value of a field. The slots of a submessage follow the table of its type. -/
inductive Element where
  | string (s : String)
  | bool (b : Bool)
  | int32 (n : Int32)
  | uint64 (n : UInt64)
  | enum (n : Int32)
  | message (slots : List (List Element))
  deriving Repr, Inhabited

/-- The values that a message holds for one field. -/
abbrev Slot := List Element

/-- A slot for each field of a message type, in the order of its table. -/
abbrev Message := List Slot

/-- A message with every field back at its default. -/
def Message.clear (m : Message) : Message :=
  m.map fun _ => []

/-! ## Equality -/

mutual
/-- Whether two values are the same. -/
def Element.same : Element → Element → Bool
  | .string s, .string s' => s == s'
  | .bool b, .bool b' => b == b'
  | .int32 n, .int32 n' => n == n'
  | .uint64 n, .uint64 n' => n == n'
  | .enum n, .enum n' => n == n'
  | .message slots, .message slots' => sameSlots slots slots'
  | _, _ => false

/-- Whether two submessages have the same slots. -/
def sameSlots : List (List Element) → List (List Element) → Bool
  | [], [] => true
  | slot :: slots, slot' :: slots' => sameSlot slot slot' && sameSlots slots slots'
  | _, _ => false

/-- Whether two slots hold the same values. -/
def sameSlot : List Element → List Element → Bool
  | [], [] => true
  | e :: slot, e' :: slot' => e.same e' && sameSlot slot slot'
  | _, _ => false
end

mutual
theorem Element.same_iff (e e' : Element) : e.same e' = true ↔ e = e' := by
  cases e <;> cases e' <;> simp [Element.same]
  case message.message slots slots' => exact sameSlots_iff slots slots'

theorem sameSlots_iff (slots slots' : List (List Element)) :
    sameSlots slots slots' = true ↔ slots = slots' := by
  cases slots with
  | nil => cases slots' <;> simp [sameSlots]
  | cons slot slots =>
    cases slots' with
    | nil => simp [sameSlots]
    | cons slot' slots' => simp [sameSlots, sameSlot_iff slot slot', sameSlots_iff slots slots']

theorem sameSlot_iff (slot slot' : List Element) : sameSlot slot slot' = true ↔ slot = slot' := by
  cases slot with
  | nil => cases slot' <;> simp [sameSlot]
  | cons e slot =>
    cases slot' with
    | nil => simp [sameSlot]
    | cons e' slot' => simp [sameSlot, e.same_iff e', sameSlot_iff slot slot']
end

instance : DecidableEq Element :=
  fun e e' => decidable_of_iff _ (e.same_iff e')

/-! ## Messages of a type -/

/-- Whether a value is the default of its kind. A submessage never is. -/
def Element.isDefault : Element → Bool
  | .string s => s == ""
  | .bool b => !b
  | .int32 n => n == 0
  | .uint64 n => n == 0
  | .enum n => n == 0
  | .message _ => false

/-- The default value of a kind of scalar; a submessage without fields for messages. -/
def Kind.zero : Kind → Element
  | .string => .string ""
  | .bool => .bool false
  | .int32 => .int32 0
  | .uint64 => .uint64 0
  | .enum _ => .enum 0
  | .message _ => .message []

/-- The slot of a singular field that holds a value. -/
def Slot.single (e : Element) : Slot :=
  if e.isDefault then [] else [e]

/-- A field's slot after a value has arrived: repeated fields collect their values, singular
fields keep the last one as a whole. -/
def Field.put (f : Field) (slot : Slot) (e : Element) : Slot :=
  if f.repeated then slot ++ [e] else Slot.single e

namespace MessageType

/-- The message of a type with every field at its default. -/
def empty (t : MessageType) : Message :=
  t.fields.map fun _ => []

/-- The slot of the field with a number. -/
def slot (t : MessageType) (m : Message) (number : Nat) : Slot :=
  (((t.fields.zip m).find? fun p => p.1.number == number).map (·.2)).getD []

/-- A message after a value has arrived for the field with a number. -/
def put (t : MessageType) (m : Message) (number : Nat) (e : Element) : Message :=
  List.zipWith (fun f slot => if f.number == number then f.put slot e else slot) t.fields m

end MessageType
end SchemaCodec
