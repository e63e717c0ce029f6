import Mathlib
import SchemaCodec.Proofs.Projection.Enumerations
import SchemaCodec.Row.Model

/-!
# Proofs.Row.Conversion — requests and rows with hooks around the conversion

- `DeleteAccount.StoredAs`: the row that a request is stored as.
- `Row.ReadAs`: the request that a row is read as.
- `Catalog.ProfileDefined`, `Catalog.ProfileNamed`: numbers and symbols of profile types.

A conversion sets every field of its target, so what a hook in front of it wrote is gone before the
hook behind it (`DeleteAccount.toRowWith_eq`, `Row.toMessageWith_eq`). What a conversion gives is
defined in the table of profile types, and there both conversions are inverse to each other.
-/

namespace SchemaCodec

/-! ## Tables -/

namespace EnumType

variable {e : EnumType} {v : EnumValue} {n : Int32} {s : String}

theorem symbolOf?_of_mem (h : (e.values.map (·.number)).Nodup) (hv : v ∈ e.values) :
    e.symbolOf? v.number = some v.symbol := by
  have hfind : e.find? v.number = some v := (find?_eq_some_iff_of_distinct h).2 ⟨hv, rfl⟩
  rw [symbolOf?, hfind, Option.map_some]

theorem numberOf?_of_mem (h : (e.values.map (·.symbol)).Nodup) (hv : v ∈ e.values) :
    e.numberOf? v.symbol = some v.number := by
  have hfind : e.values.find? (fun v' => v'.symbol == v.symbol) = some v :=
    (find?_eq_some_iff_of_distinct h).2 ⟨hv, rfl⟩
  rw [numberOf?, hfind, Option.map_some]

theorem symbolOf?_of_undefined (h : ∀ v ∈ e.values, v.number ≠ n) : e.symbolOf? n = none := by
  have hfind : e.find? n = none := List.find?_eq_none.2 fun v hv => by simpa using h v hv
  rw [symbolOf?, hfind, Option.map_none]

theorem numberOf?_of_unnamed (h : ∀ v ∈ e.values, v.symbol ≠ s) : e.numberOf? s = none := by
  have hfind : e.values.find? (fun v => v.symbol == s) = none :=
    List.find?_eq_none.2 fun v hv => by simpa using h v hv
  rw [numberOf?, hfind, Option.map_none]

end EnumType

namespace Catalog

/-- A number is that of a profile type. -/
def ProfileDefined (n : Int32) : Prop :=
  ∃ v ∈ profileType.values, v.number = n

instance (n : Int32) : Decidable (ProfileDefined n) :=
  inferInstanceAs (Decidable (∃ v ∈ profileType.values, v.number = n))

/-- A text is the symbol of a profile type. -/
def ProfileNamed (s : String) : Prop :=
  ∃ v ∈ profileType.values, v.symbol = s

instance (s : String) : Decidable (ProfileNamed s) :=
  inferInstanceAs (Decidable (∃ v ∈ profileType.values, v.symbol = s))

theorem profileType_numbers : (profileType.values.map (·.number)).Nodup := by decide

theorem profileType_symbols : (profileType.values.map (·.symbol)).Nodup := by decide

end Catalog

open Catalog (ProfileDefined ProfileNamed profileType_numbers profileType_symbols)

/-! ## Rows of requests -/

/-- The row that a request is stored as: the profile type by its symbol, or as the empty text if the
number has none. -/
structure DeleteAccount.StoredAs (d : DeleteAccount) (row : Row) : Prop where
  authZeroId : row.authZeroId = d.authZeroId
  email : row.email = d.email
  userId : row.userId = d.userId
  defined : ∀ v ∈ Catalog.profileType.values, v.number = d.profileType → row.profileType = v.symbol
  undefined : ¬ ProfileDefined d.profileType → row.profileType = ""

/-- The request that a row is read as: the profile type by its number, or zero if the symbol is not
known. -/
structure Row.ReadAs (row : Row) (d : DeleteAccount) : Prop where
  authZeroId : d.authZeroId = row.authZeroId
  email : d.email = row.email
  userId : d.userId = row.userId
  named : ∀ v ∈ Catalog.profileType.values, v.symbol = row.profileType → d.profileType = v.number
  unnamed : ¬ ProfileNamed row.profileType → d.profileType = 0

namespace DeleteAccount

theorem stored_toRow (d : DeleteAccount) : d.StoredAs d.toRow where
  authZeroId := rfl
  email := rfl
  userId := rfl
  defined := by
    rintro v hv hnumber
    have hsymbol := EnumType.symbolOf?_of_mem profileType_numbers hv
    rw [hnumber] at hsymbol
    exact congrArg (Option.getD · "") hsymbol
  undefined := by
    intro h
    have hsymbol := EnumType.symbolOf?_of_undefined fun v hv hnumber => h ⟨v, hv, hnumber⟩
    exact congrArg (Option.getD · "") hsymbol

/-- A request is stored as one row only. -/
theorem storedAs_iff {d : DeleteAccount} {row : Row} : d.StoredAs row ↔ row = d.toRow := by
  have hrow := d.stored_toRow
  constructor
  · intro h
    have hprofile : row.profileType = d.toRow.profileType := by
      by_cases hdefined : ProfileDefined d.profileType
      · obtain ⟨v, hv, hnumber⟩ := hdefined
        rw [h.defined v hv hnumber, hrow.defined v hv hnumber]
      · rw [h.undefined hdefined, hrow.undefined hdefined]
    calc
      row = ⟨row.authZeroId, row.email, row.profileType, row.userId⟩ := rfl
      _ = ⟨d.authZeroId, d.email, d.toRow.profileType, d.userId⟩ := by
        rw [h.authZeroId, h.email, hprofile, h.userId]
      _ = d.toRow := rfl
  · rintro rfl
    exact hrow

/-- A defined number is stored as the symbol of a profile type. -/
theorem profileNamed_toRow {d : DeleteAccount} (h : ProfileDefined d.profileType) :
    ProfileNamed d.toRow.profileType := by
  obtain ⟨v, hv, hnumber⟩ := h
  exact ⟨v, hv, (d.stored_toRow.defined v hv hnumber).symm⟩

/-- What the hook in front of the conversion wrote is gone. -/
theorem toRowWith_eq {m : Type → Type} [Monad m] (hooks : Hooks m) (d : DeleteAccount) :
    d.toRowWith hooks = hooks.beforeToRow d {} >>= fun _ => hooks.afterToRow d d.toRow := rfl

end DeleteAccount

namespace Row

theorem read_toMessage (r : Row) : r.ReadAs r.toMessage where
  authZeroId := rfl
  email := rfl
  userId := rfl
  named := by
    rintro v hv hsymbol
    have hnumber := EnumType.numberOf?_of_mem profileType_symbols hv
    rw [hsymbol] at hnumber
    exact congrArg (Option.getD · 0) hnumber
  unnamed := by
    intro h
    have hnumber := EnumType.numberOf?_of_unnamed fun v hv hsymbol => h ⟨v, hv, hsymbol⟩
    exact congrArg (Option.getD · 0) hnumber

/-- A row is read as one request only. -/
theorem readAs_iff {r : Row} {d : DeleteAccount} : r.ReadAs d ↔ d = r.toMessage := by
  have hmessage := r.read_toMessage
  constructor
  · intro h
    have hprofile : d.profileType = r.toMessage.profileType := by
      by_cases hnamed : ProfileNamed r.profileType
      · obtain ⟨v, hv, hsymbol⟩ := hnamed
        rw [h.named v hv hsymbol, hmessage.named v hv hsymbol]
      · rw [h.unnamed hnamed, hmessage.unnamed hnamed]
    calc
      d = ⟨d.authZeroId, d.email, d.userId, d.profileType⟩ := rfl
      _ = ⟨r.authZeroId, r.email, r.userId, r.toMessage.profileType⟩ := by
        rw [h.authZeroId, h.email, h.userId, hprofile]
      _ = r.toMessage := rfl
  · rintro rfl
    exact hmessage

/-- Whatever stands in a row, it is read as the number of a profile type. -/
theorem profileDefined_toMessage (r : Row) : ProfileDefined r.toMessage.profileType := by
  by_cases h : ProfileNamed r.profileType
  · obtain ⟨v, hv, hsymbol⟩ := h
    exact ⟨v, hv, (r.read_toMessage.named v hv hsymbol).symm⟩
  · rw [r.read_toMessage.unnamed h]
    decide

/-- What the hook in front of the conversion wrote is gone. -/
theorem toMessageWith_eq {m : Type → Type} [Monad m] (hooks : Hooks m) (r : Row) :
    r.toMessageWith hooks = hooks.beforeToMessage r {} >>= fun _ =>
      hooks.afterToMessage r r.toMessage := rfl

end Row

/-! ## There and back -/

/-- A request comes back from its row, but for a number without a symbol. -/
theorem DeleteAccount.toMessage_toRow (d : DeleteAccount) :
    d.toRow.toMessage =
      { d with profileType := if ProfileDefined d.profileType then d.profileType else 0 } := by
  have hprofile : d.toRow.toMessage.profileType =
      if ProfileDefined d.profileType then d.profileType else 0 := by
    split
    next h =>
      obtain ⟨v, hv, hnumber⟩ := h
      have hsymbol := d.stored_toRow.defined v hv hnumber
      exact (d.toRow.read_toMessage.named v hv hsymbol.symm).trans hnumber
    next h =>
      have hunnamed : ¬ ProfileNamed d.toRow.profileType := by
        rw [d.stored_toRow.undefined h]
        decide
      exact d.toRow.read_toMessage.unnamed hunnamed
  calc
    d.toRow.toMessage = { d with profileType := d.toRow.toMessage.profileType } := rfl
    _ = _ := by rw [hprofile]

/-- A row comes back from its request, but for a symbol that is not known. -/
theorem Row.toRow_toMessage (r : Row) :
    r.toMessage.toRow =
      { r with
        profileType :=
          if ProfileNamed r.profileType then r.profileType else "PROFILE_TYPE_UNSPECIFIED" } := by
  have hprofile : r.toMessage.toRow.profileType =
      if ProfileNamed r.profileType then r.profileType else "PROFILE_TYPE_UNSPECIFIED" := by
    split
    next h =>
      obtain ⟨v, hv, hsymbol⟩ := h
      have hnumber := r.read_toMessage.named v hv hsymbol
      exact (r.toMessage.stored_toRow.defined v hv hnumber.symm).trans hsymbol
    next h =>
      -- The row is read as zero, which is the number of the first profile type.
      have hfirst : ⟨"PROFILE_TYPE_UNSPECIFIED", "Unspecified", 0⟩ ∈
          Catalog.profileType.values := by decide
      exact r.toMessage.stored_toRow.defined _ hfirst (r.read_toMessage.unnamed h).symm
  calc
    r.toMessage.toRow = { r with profileType := r.toMessage.toRow.profileType } := rfl
    _ = _ := by rw [hprofile]

/-! ## Conversions -/

/-- A conversion with hooks fails as the hook in front of it does, and is otherwise what the hook
behind it makes of the converted value: what the first hook wrote does not matter. Without hooks a
number without a symbol comes back as zero and an unknown symbol as that of zero, and nothing else
changes, however often the way is gone. -/
theorem hooks_wrap_conversions :
    (∀ d : DeleteAccount, (∀ row, d.StoredAs row ↔ row = d.toRow) ∧
      ∀ (ε : Type) (hooks : Hooks (Except ε)),
        (∀ e, hooks.beforeToRow d {} = .error e → d.toRowWith hooks = .error e) ∧
        (∀ touched, hooks.beforeToRow d {} = .ok touched →
          d.toRowWith hooks = hooks.afterToRow d d.toRow) ∧
        d.toRowWith (.none (Except ε)) = .ok d.toRow) ∧
    (∀ r : Row, (∀ d, r.ReadAs d ↔ d = r.toMessage) ∧
      ∀ (ε : Type) (hooks : Hooks (Except ε)),
        (∀ e, hooks.beforeToMessage r {} = .error e → r.toMessageWith hooks = .error e) ∧
        (∀ touched, hooks.beforeToMessage r {} = .ok touched →
          r.toMessageWith hooks = hooks.afterToMessage r r.toMessage) ∧
        r.toMessageWith (.none (Except ε)) = .ok r.toMessage) ∧
    (∀ d : DeleteAccount,
      d.toRow.toMessage =
        { d with profileType := if ProfileDefined d.profileType then d.profileType else 0 } ∧
      d.toRow.toMessage.toRow.toMessage = d.toRow.toMessage) ∧
    ∀ r : Row,
      r.toMessage.toRow =
        { r with
          profileType :=
            if ProfileNamed r.profileType then r.profileType else "PROFILE_TYPE_UNSPECIFIED" } ∧
      r.toMessage.toRow.toMessage.toRow = r.toMessage.toRow := by
  refine ⟨?_, ?_, ?_, ?_⟩
  · intro d
    refine ⟨fun row => DeleteAccount.storedAs_iff, ?_⟩
    intro ε hooks
    rw [d.toRowWith_eq hooks]
    refine ⟨?_, ?_, rfl⟩
    · intro e hbefore
      rw [hbefore]
      rfl
    · intro touched hbefore
      rw [hbefore]
      rfl
  · intro r
    refine ⟨fun d => Row.readAs_iff, ?_⟩
    intro ε hooks
    rw [r.toMessageWith_eq hooks]
    refine ⟨?_, ?_, rfl⟩
    · intro e hbefore
      rw [hbefore]
      rfl
    · intro touched hbefore
      rw [hbefore]
      rfl
  · intro d
    refine ⟨d.toMessage_toRow, ?_⟩
    rw [DeleteAccount.toMessage_toRow d.toRow.toMessage,
      if_pos (Row.profileDefined_toMessage d.toRow)]
  · intro r
    have hnamed : ProfileNamed r.toMessage.toRow.profileType :=
      DeleteAccount.profileNamed_toRow r.profileDefined_toMessage
    refine ⟨r.toRow_toMessage, ?_⟩
    rw [Row.toRow_toMessage r.toMessage.toRow, if_pos hnamed]

/-- Hooks that refuse requests without an address, and write into the row on both sides of the
conversion. -/
def auditHooks : Hooks (Except String) where
  beforeToRow d row := if d.email = "" then .error "no address" else .ok { row with userId := 7 }
  afterToRow _ row := .ok { row with authZeroId := row.authZeroId ++ "|stored" }
  beforeToMessage _ d := .ok { d with profileType := 2 }
  afterToMessage _ d := .ok d

theorem hooks_wrap_conversions_audit :
    DeleteAccount.toRowWith auditHooks { authZeroId := "a" } = .error "no address" ∧
    DeleteAccount.toRowWith auditHooks { authZeroId := "a", email := "b", profileType := 9 } =
      .ok { authZeroId := "a|stored", email := "b" } ∧
    Row.toMessageWith auditHooks { profileType := "USER" } = .ok {} := by
  obtain ⟨hrows, hmessages, -, -⟩ := hooks_wrap_conversions
  refine ⟨?_, ?_, ?_⟩
  · exact ((hrows { authZeroId := "a" }).2 String auditHooks).1 "no address" rfl
  · exact ((hrows { authZeroId := "a", email := "b", profileType := 9 }).2 String auditHooks).2.1
      { userId := 7 } rfl
  · exact ((hmessages { profileType := "USER" }).2 String auditHooks).2.1 { profileType := 2 } rfl

end SchemaCodec
