import Mathlib
import SchemaCodec.Row.Model

/-!
# Proofs.Row.Masks — requests after the masked fields of others were copied

- `DeleteAccount.modelNames`: the names that paths go by.
- `DeleteAccount.masked`: a request with the fields that paths name taken from another.

A path names a field if it is the name of the field behind the stem, and copying along one path is
the mask of that path alone (`DeleteAccount.copyPath_eq`). Masks compose
(`DeleteAccount.masked_append`), so copying along all paths is the mask of all of them, in whatever
order they come.
-/

namespace SchemaCodec
namespace DeleteAccount

/-- The names of the fields in the model. -/
def modelNames : List String :=
  ["AuthZeroId", "Email", "UserId", "ProfileType"]

/-- A request with the fields that paths name taken from another. -/
def masked (target source : DeleteAccount) (paths : List String) (stem : String) :
    DeleteAccount where
  authZeroId := if stem ++ "AuthZeroId" ∈ paths then source.authZeroId else target.authZeroId
  email := if stem ++ "Email" ∈ paths then source.email else target.email
  userId := if stem ++ "UserId" ∈ paths then source.userId else target.userId
  profileType := if stem ++ "ProfileType" ∈ paths then source.profileType else target.profileType

variable {target source : DeleteAccount} {paths others : List String} {stem path : String}

/-! ## Masks -/

/-- Only the paths that name fields count. -/
theorem masked_congr (h : ∀ name ∈ modelNames, stem ++ name ∈ paths ↔ stem ++ name ∈ others) :
    target.masked source paths stem = target.masked source others stem := by
  rw [modelNames, List.forall_mem_cons, List.forall_mem_cons, List.forall_mem_cons,
    List.forall_mem_singleton] at h
  obtain ⟨hauth, hemail, huser, hprofile⟩ := h
  simp only [masked, hauth, hemail, huser, hprofile]

/-- One mask and then another from the same request take what either names. -/
theorem masked_append :
    (target.masked source paths stem).masked source others stem =
      target.masked source (paths ++ others) stem := by
  have hfield : ∀ {α : Type} (name : String) (a b : α),
      (if name ∈ others then a else if name ∈ paths then a else b) =
        if name ∈ paths ++ others then a else b := by
    intro α name a b
    rw [← ite_or]
    exact if_congr (or_comm.trans List.mem_append.symm) rfl rfl
  simp only [masked, hfield]

/-! ## Copying -/

/-- What is behind a stem. -/
theorem behind?_eq_some_iff {stem path rest : List Char} :
    behind? stem path = some rest ↔ path = stem ++ rest := by
  induction stem generalizing path with
  | nil => exact ⟨Option.some.inj, congrArg some⟩
  | cons s stem ih =>
    cases path with
    | nil => simp [behind?]
    | cons p path =>
      rw [behind?, Option.ite_none_right_eq_some, ih, List.cons_append, List.cons.injEq, eq_comm]

theorem behind?_toList_eq_some_iff {name : List Char} :
    behind? stem.toList path.toList = some name ↔ path = stem ++ String.ofList name := by
  rw [behind?_eq_some_iff, ← String.toList_inj, String.toList_append, String.toList_ofList]

/-- A field is copied under its own name, and under no other. -/
theorem copyField_eq (name : String) :
    source.copyField target name = target.masked source [stem ++ name] stem := by
  simp only [masked, List.mem_singleton, String.append_right_inj]
  unfold copyField
  split
  next => rfl
  next => rfl
  next => rfl
  next => rfl
  next hauth hemail huser hprofile =>
    rw [if_neg (Ne.symm hauth), if_neg (Ne.symm hemail), if_neg (Ne.symm huser),
      if_neg (Ne.symm hprofile)]

/-- One path copies the field that it names, if it names one. -/
theorem copyPath_eq : source.copyPath stem target path = target.masked source [path] stem := by
  cases hbehind : behind? stem.toList path.toList with
  | some name =>
    rw [copyPath, hbehind, behind?_toList_eq_some_iff.1 hbehind]
    exact copyField_eq _
  | none =>
    have hother : ∀ name, stem ++ name ≠ path := by
      intro name hpath
      have hsome : behind? stem.toList path.toList = some name.toList := by
        rw [behind?_toList_eq_some_iff, String.ofList_toList, hpath]
      rw [hbehind] at hsome
      cases hsome
    simp [copyPath, hbehind, masked, hother]

theorem foldl_copyPath :
    paths.foldl (source.copyPath stem) target = target.masked source paths stem := by
  induction paths generalizing target with
  | nil => rfl
  | cons path paths ih =>
    calc
      (path :: paths).foldl (source.copyPath stem) target
          = paths.foldl (source.copyPath stem) (target.masked source [path] stem) := by
        rw [List.foldl_cons, copyPath_eq]
      _ = (target.masked source [path] stem).masked source paths stem := ih
      _ = target.masked source (path :: paths) stem := masked_append

/-! ## Patches -/

/-- A patch copies exactly the fields that its paths name, so neither the order and the number of
the paths nor any other path matters. A patch that was made is not changed by making it again, and
two patches from one request are the patch of both lists of paths. Without a source there is nothing
to patch, and without a target the patch fails. -/
theorem patch_copies_named_fields (target source : DeleteAccount) (paths : List String)
    (stem : String) :
    patch (some target) (some source) paths stem =
      .ok (some (target.masked source paths stem)) ∧
    (∀ others, (∀ name ∈ modelNames, stem ++ name ∈ paths ↔ stem ++ name ∈ others) →
      patch (some target) (some source) others stem =
        patch (some target) (some source) paths stem) ∧
    (∀ others, (patch (some target) (some source) paths stem >>= fun patched =>
      patch patched (some source) others stem) =
        patch (some target) (some source) (paths ++ others) stem) ∧
    (patch (some target) (some source) paths stem >>= fun patched =>
      patch patched (some source) paths stem) =
        patch (some target) (some source) paths stem ∧
    (∀ target?, patch target? none paths stem = .ok none) ∧
    patch none (some source) paths stem = .error (.other "nil argument: patchee") := by
  have hpatch : ∀ (target : DeleteAccount) (paths : List String),
      patch (some target) (some source) paths stem =
        .ok (some (target.masked source paths stem)) := by
    intro target paths
    rw [patch, foldl_copyPath]
  have hboth : ∀ others, (patch (some target) (some source) paths stem >>= fun patched =>
      patch patched (some source) others stem) =
        patch (some target) (some source) (paths ++ others) stem := by
    intro others
    calc
      (patch (some target) (some source) paths stem >>= fun patched =>
          patch patched (some source) others stem)
          = patch (some (target.masked source paths stem)) (some source) others stem := by
        rw [hpatch]
        rfl
      _ = patch (some target) (some source) (paths ++ others) stem := by
        rw [hpatch, hpatch, masked_append]
  have hsame : ∀ others, (∀ name ∈ modelNames, stem ++ name ∈ paths ↔ stem ++ name ∈ others) →
      patch (some target) (some source) others stem =
        patch (some target) (some source) paths stem := by
    intro others h
    rw [hpatch, hpatch, masked_congr h]
  refine ⟨hpatch target paths, hsame, hboth, ?_, fun target? => rfl, rfl⟩
  rw [hboth]
  apply hsame
  intro name hname
  rw [List.mem_append, or_self]

/-- A request to copy from. -/
def businessRequest : DeleteAccount :=
  ⟨"auth0|1", "a@b.com", 42, 2⟩

theorem patch_copies_named_fields_account :
    patch (some {}) (some businessRequest) ["Account.Email", "Email", "Account.UserId"] "Account." =
      .ok (some { email := "a@b.com", userId := 42 }) ∧
    patch (some {}) (some businessRequest)
        ["Account.UserId", "Account.Unknown", "Account.Email", "Account.UserId"] "Account." =
      patch (some {}) (some businessRequest) ["Account.Email", "Email", "Account.UserId"]
        "Account." := by
  obtain ⟨hpatch, hsame, -⟩ := patch_copies_named_fields {} businessRequest
    ["Account.Email", "Email", "Account.UserId"] "Account."
  refine ⟨?_, hsame _ (by decide)⟩
  rw [hpatch]
  decide

end DeleteAccount
end SchemaCodec
