import SchemaCodec.Catalog.Queue
import SchemaCodec.Fault

/-!
# Row.Model — the row of a deletion request

- `DeleteAccount`: a deletion request as a record.
- `Row`: the row stored for it. The profile type is stored by symbol.
- `Hooks`: what is run around a conversion.
- `DeleteAccount.toRowWith`, `Row.toMessageWith`: the conversions.
- `DeleteAccount.patch`: a request after the masked fields of another were copied.
-/

namespace SchemaCodec

/-- A deletion request. The profile type may be a number that is not defined. -/
structure DeleteAccount where
  authZeroId : String := ""
  email : String := ""
  userId : UInt64 := 0
  profileType : Int32 := 0
  deriving DecidableEq, Repr

/-- The row stored for a deletion request. -/
structure Row where
  authZeroId : String := ""
  email : String := ""
  profileType : String := ""
  userId : UInt64 := 0
  deriving DecidableEq, Repr

/-- The table that holds the rows. -/
def Row.table : String := "delete_account_message_formats"

/-! ## Conversions -/

/-- What is run around the conversions. Each hook gets the source and the target so far, and gives
the target to go on with, or fails. -/
structure Hooks (m : Type → Type) where
  beforeToRow : DeleteAccount → Row → m Row
  afterToRow : DeleteAccount → Row → m Row
  beforeToMessage : Row → DeleteAccount → m DeleteAccount
  afterToMessage : Row → DeleteAccount → m DeleteAccount

/-- Hooks that change nothing. -/
def Hooks.none (m : Type → Type) [Monad m] : Hooks m where
  beforeToRow _ row := pure row
  afterToRow _ row := pure row
  beforeToMessage _ d := pure d
  afterToMessage _ d := pure d

namespace DeleteAccount

/-- The row with every column set from a request. A number without a symbol is stored as the empty
text. -/
def assignTo (d : DeleteAccount) (row : Row) : Row :=
  { row with
    authZeroId := d.authZeroId
    email := d.email
    userId := d.userId
    profileType := (Catalog.profileType.symbolOf? d.profileType).getD "" }

/-- The row of a request, with hooks around the conversion. -/
def toRowWith {m : Type → Type} [Monad m] (hooks : Hooks m) (d : DeleteAccount) : m Row := do
  let row ← hooks.beforeToRow d {}
  hooks.afterToRow d (d.assignTo row)

/-- The row of a request. -/
def toRow (d : DeleteAccount) : Row :=
  Id.run (d.toRowWith (.none Id))

end DeleteAccount

namespace Row

/-- The request with every field set from a row. An unknown symbol becomes zero. -/
def assignTo (r : Row) (d : DeleteAccount) : DeleteAccount :=
  { d with
    authZeroId := r.authZeroId
    email := r.email
    userId := r.userId
    profileType := (Catalog.profileType.numberOf? r.profileType).getD 0 }

/-- The request of a row, with hooks around the conversion. -/
def toMessageWith {m : Type → Type} [Monad m] (hooks : Hooks m) (r : Row) : m DeleteAccount := do
  let d ← hooks.beforeToMessage r {}
  hooks.afterToMessage r (r.assignTo d)

/-- The request of a row. -/
def toMessage (r : Row) : DeleteAccount :=
  Id.run (r.toMessageWith (.none Id))

end Row

/-! ## Field masks -/

namespace DeleteAccount

/-- What is left of a path behind a stem. -/
def behind? : List Char → List Char → Option (List Char)
  | [], path => some path
  | s :: stem, p :: path => if s = p then behind? stem path else none
  | _ :: _, [] => none

/-- A request after the field with a model name was copied from another. Other names copy
nothing. -/
def copyField (source target : DeleteAccount) (name : String) : DeleteAccount :=
  match name with
  | "AuthZeroId" => { target with authZeroId := source.authZeroId }
  | "Email" => { target with email := source.email }
  | "UserId" => { target with userId := source.userId }
  | "ProfileType" => { target with profileType := source.profileType }
  | _ => target

/-- A request after one path of a mask. A path that does not start with the stem copies nothing. -/
def copyPath (stem : String) (source target : DeleteAccount) (path : String) : DeleteAccount :=
  match behind? stem.toList path.toList with
  | some name => source.copyField target (String.ofList name)
  | none => target

/-- The patched request. Without a source there is none; without a target the patch fails. -/
def patch (target source : Option DeleteAccount) (paths : List String) (stem : String) :
    Except Fault (Option DeleteAccount) :=
  match source, target with
  | none, _ => .ok none
  | some _, none => .error (.other "nil argument: patchee")
  | some s, some t => .ok (some (paths.foldl (s.copyPath stem) t))

end DeleteAccount
end SchemaCodec
