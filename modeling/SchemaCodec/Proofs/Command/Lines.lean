import Mathlib
import SchemaCodec.Command.Arguments

/-!
# Proofs.Command.Lines — the words of a command line

- `Switch.classify_plain`: an argument without a hyphen in front is a word.
- `Switch.scan_values`: no option has an empty value.
- `Request.decodeLine`: the command line that decodes a payload.

A command line that names a settings file names one (`Request.settings_ne_empty`), so whatever one
line has been answered with can be asked of the next (`Request.parse?_decodeLine`).
-/

namespace SchemaCodec

namespace Switch

variable {known : List Switch} {room : Nat} {found found' : Found}

/-! ## Words -/

theorem classify_plain {arg : String} (h : arg.toList.head? ≠ some '-') :
    classify known arg = .plain := by
  unfold classify
  split
  next harg => simp [harg] at h
  next harg => simp [harg] at h
  next harg => simp [harg] at h
  next harg => simp [harg] at h
  next => rfl

/-- An option by its name, with a value behind an equals sign. -/
theorem classify_named {arg name value : String} (hname : ∀ c ∈ name.toList, c ≠ '=')
    (harg : arg.toList = '-' :: '-' :: (name.toList ++ '=' :: value.toList)) :
    classify known arg = named known name (some value) := by
  -- The name has no equals sign, so the first one is that in front of the value.
  have hpos : ∀ c ∈ name.toList, decide (c ≠ '=') = true :=
    fun c hc => decide_eq_true (hname c hc)
  have hfront : (name.toList ++ '=' :: value.toList).takeWhile (fun c => decide (c ≠ '=')) =
      name.toList := by
    rw [List.takeWhile_append_of_pos hpos]
    simp
  have hback : (name.toList ++ '=' :: value.toList).dropWhile (fun c => decide (c ≠ '=')) =
      '=' :: value.toList := by
    rw [List.dropWhile_append_of_pos hpos]
    simp
  unfold classify
  split
  next h => simp [harg] at h
  next body h =>
    rw [harg] at h
    obtain rfl := (List.cons.inj (List.cons.inj h).2).2
    rw [hfront, hback, String.ofList_toList]
    exact congrArg (named known name) (congrArg some String.ofList_toList)
  next h => simp [harg] at h
  next _ hne _ h =>
    rw [harg] at h
    exact (hne _ (List.cons.inj h).2.symm).elim
  next hne => exact (hne _ harg).elim

/-! ## Scans -/

section Scan

variable {arg name value : String} {rest : List String}

/-- In front of a command, the first word is the command. -/
theorem scan_command (h : classify known arg = .plain) :
    scan known 0 found (arg :: rest) = some { found with rest := arg :: rest } := by
  simp only [scan, h, if_true]

theorem scan_word (h : classify known arg = .plain) (hroom : found.words.length < room) :
    scan known room found (arg :: rest) =
      scan known room { found with words := found.words ++ [arg] } rest := by
  have hsome : room ≠ 0 := Nat.ne_of_gt (Nat.zero_lt_of_lt hroom)
  simp only [scan, h, if_neg hsome, if_pos hroom]

theorem scan_value (h : classify known arg = .valued [] name (some value))
    (hadd : found.addValue name value = some found') :
    scan known room found (arg :: rest) = scan known room found' rest := by
  simp only [scan, h, Found.addFlags, Option.bind_some, hadd]

end Scan

/-! ## Values -/

theorem Found.addFlags_values {names : List String} (h : found.addFlags names = some found') :
    found'.values = found.values := by
  induction names generalizing found with
  | nil =>
    cases h
    rfl
  | cons name names ih =>
    rw [Found.addFlags] at h
    split at h
    next => cases h
    next => exact (ih h :)

theorem Found.addValue_values {name value : String} (h : found.addValue name value = some found') :
    value ≠ "" ∧ found'.values = found.values ++ [(name, value)] := by
  unfold Found.addValue at h
  split at h
  next => cases h
  next hadd =>
    cases h
    refine ⟨?_, rfl⟩
    rintro rfl
    exact hadd rfl

/-- No option has an empty value. -/
def Found.Filled (found : Found) : Prop :=
  ∀ v ∈ found.values, v.2 ≠ ""

theorem Found.Filled.add {flags : List String} {name value : String} (h : found.Filled)
    (hadd : ((found.addFlags flags).bind fun f => f.addValue name value) = some found') :
    found'.Filled := by
  obtain ⟨f, hflags, hvalue⟩ := Option.bind_eq_some_iff.1 hadd
  obtain ⟨hne, hvalues⟩ := Found.addValue_values hvalue
  intro v hv
  rw [hvalues, Found.addFlags_values hflags] at hv
  rcases List.mem_append.1 hv with hv | hv
  · exact h v hv
  · rw [List.mem_singleton.1 hv]
    exact hne

/-- A scan adds no option with an empty value. -/
theorem scan_filled {args : List String} (h : scan known room found args = some found')
    (hfilled : found.Filled) : found'.Filled := by
  -- Options with a value are the only arguments that add one.
  fun_induction scan known room found args with
  | case1 | case3 | case6 =>
    cases h
    exact hfilled
  | case4 found arg rest harg hroom hwords ih => exact ih h hfilled
  | case8 found arg rest names harg added hflags ih =>
    refine ih h ?_
    rw [Found.Filled, Found.addFlags_values hflags]
    exact hfilled
  | case10 found arg rest flags name harg =>
    obtain ⟨added, hflags, rfl⟩ := Option.map_eq_some_iff.1 h
    rw [Found.Filled, Found.addFlags_values hflags]
    exact hfilled
  | case11 found arg rest flags name value harg added hadd ih => exact ih h (hfilled.add hadd)
  | case14 found arg flags name harg value rest hvalue added hadd ih =>
    exact ih h (hfilled.add hadd)
  | _ => cases h

theorem Found.Filled.ne_empty {name value : String} (h : found.Filled)
    (hlookup : found.values.lookup name = some value) : value ≠ "" := by
  obtain ⟨before, behind, hvalues, -⟩ := List.lookup_eq_some_iff.1 hlookup
  refine h (name, value) ?_
  rw [hvalues]
  exact List.mem_append_right _ List.mem_cons_self

end Switch

namespace Request

variable {args : List String} {i : Invocation} {settings : Option String}

theorem ofHelpWords?_ne_run : ofHelpWords? args ≠ some (.run i) := by
  unfold ofHelpWords?
  split
  next => nofun
  next =>
    intro h
    obtain ⟨shape, -, hshape⟩ := Option.map_eq_some_iff.1 h
    cases hshape
  next => nofun

theorem ofArguments?_settings {shape : Shape} (h : ofArguments? shape settings args = some (.run i))
    (hsettings : ∀ path ∈ settings, path ≠ "") : ∀ path ∈ i.settings, path ≠ "" := by
  unfold ofArguments? at h
  split at h
  next => cases h
  next found hfound =>
    have hfilled : found.Filled := Switch.scan_filled hfound nofun
    split at h
    next => cases h
    next =>
      split at h
      next =>
        obtain ⟨c, -, hrun⟩ := Option.map_eq_some_iff.1 h
        cases hrun
        intro path hpath
        rcases Option.or_eq_some_iff.1 hpath with hlookup | ⟨-, hfront⟩
        · exact hfilled.ne_empty hlookup
        · exact hsettings path hfront
      next => cases h

/-- A settings file has a name. -/
theorem settings_ne_empty (h : parse? args = some (.run i)) : ∀ path ∈ i.settings, path ≠ "" := by
  unfold parse? at h
  split at h
  next => cases h
  next front hfront =>
    have hfilled : front.Filled := Switch.scan_filled hfront nofun
    split at h
    next => cases h
    next => cases h
    next => cases h
    next => exact absurd h ofHelpWords?_ne_run
    next =>
      split at h
      next => exact ofArguments?_settings h fun path hpath => hfilled.ne_empty hpath
      next => cases h

/-! ## A line -/

/-- The command line that decodes a payload. -/
def decodeLine (settings : Option String) (name payload : String) : List String :=
  settings.toList.map ("--config=" ++ ·) ++ ["decode", name, payload]

theorem classify_config (path : String) :
    Switch.classify frontSwitches ("--config=" ++ path) = .valued [] "config" (some path) := by
  have harg : ("--config=" ++ path).toList =
      '-' :: '-' :: ("config".toList ++ '=' :: path.toList) := by
    rw [String.toList_append]
    rfl
  exact (Switch.classify_named (by simp) harg).trans rfl

/-- What stands in front of the command is the settings file, if there is one. -/
theorem scan_decodeLine {name payload : String} (hsettings : ∀ path ∈ settings, path ≠ "") :
    ∃ front : Switch.Found,
      Switch.scan frontSwitches 0 {} (decodeLine settings name payload) = some front ∧
        front.final = none ∧ front.rest = ["decode", name, payload] ∧
        front.values.lookup "config" = settings := by
  have hcommand : Switch.classify frontSwitches "decode" = .plain :=
    Switch.classify_plain (by decide)
  cases settings with
  | none => exact ⟨_, Switch.scan_command hcommand, rfl, rfl, rfl⟩
  | some path =>
    have hadd : ({} : Switch.Found).addValue "config" path =
        some { values := [("config", path)] } := by
      have hpath : path ≠ "" := hsettings path rfl
      simp [Switch.Found.addValue, hpath]
    refine ⟨_, (Switch.scan_value (classify_config path) hadd).trans
      (Switch.scan_command hcommand), rfl, rfl, rfl⟩

theorem ofArguments?_decode {name payload : String} (hname : name.toList.head? ≠ some '-')
    (hpayload : payload.toList.head? ≠ some '-') :
    ofArguments? .decode settings [name, payload] =
      some (.run ⟨settings, .decode name payload false false⟩) := by
  have hscan : Switch.scan Shape.decode.switches Shape.decode.operands.length {} [name, payload] =
      some { words := [name, payload] } := by
    rw [Switch.scan_word (Switch.classify_plain hname) (by decide),
      Switch.scan_word (Switch.classify_plain hpayload) (Nat.lt_succ_self 1)]
    rfl
  rw [ofArguments?, hscan]
  rfl

/-- The line asks for what it says, if neither word looks like an option. -/
theorem parse?_decodeLine {name payload : String} (hsettings : ∀ path ∈ settings, path ≠ "")
    (hname : name.toList.head? ≠ some '-') (hpayload : payload.toList.head? ≠ some '-') :
    parse? (decodeLine settings name payload) =
      some (.run ⟨settings, .decode name payload false false⟩) := by
  obtain ⟨front, hscan, hfinal, hrest, hlookup⟩ := scan_decodeLine hsettings
  rw [parse?, hscan]
  simp only [hfinal, hrest, hlookup]
  exact ofArguments?_decode hname hpayload

end Request
end SchemaCodec
