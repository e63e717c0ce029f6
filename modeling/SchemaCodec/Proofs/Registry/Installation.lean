import Mathlib
import SchemaCodec.Registry.Process

/-!
# Proofs.Registry.Installation — limits that are installed at most once

- `Process.Call`, `Process.Reply`: what a process is asked, and what it answers.
- `Process.after`, `Process.reply`: what is installed after calls, and the answer to one more.
- `Process.firstOffered?`: the first valid limits that calls offer.
- `Process.inForce`: the limits that the calls after them are answered under.

A call fills what is installed only while nothing is (`Process.Call.next_eq`), so a process holds
the first valid limits that it was offered (`Process.after_eq`). Readers see nothing else of the
calls before them.
-/

namespace SchemaCodec

/-! ## Installing -/

namespace Limits

variable {installed : Option Limits} {l held : Limits}

theorem validate_of_le (h : 1 ≤ l.recursion) : l.validate = .ok () :=
  if_neg (Nat.one_le_iff_ne_zero.1 h)

theorem validate_of_not_le (h : ¬ 1 ≤ l.recursion) :
    l.validate = .error (.configuration "recursion_limit must be at least 1") :=
  if_pos (by omega)

/-- Valid limits are compared with what is held after they were offered. -/
theorem run_install_of_le (h : 1 ≤ l.recursion) (installed : Option Limits) :
    (Process.install l).run installed =
      if installed.getD l = l then .ok () (some l)
      else .error (.configuration
        s!"configuration already installed as {(installed.getD l).describe}")
        (some (installed.getD l)) := by
  rw [Process.install, validate_of_le h]
  change EStateM.run (if installed.getD l = l then pure () else throw _)
    (some (installed.getD l)) = _
  split
  next hsame =>
    rw [hsame]
    rfl
  next => rfl

theorem run_install_of_not_le (h : ¬ 1 ≤ l.recursion) (installed : Option Limits) :
    (Process.install l).run installed =
      .error (.configuration "recursion_limit must be at least 1") installed := by
  rw [Process.install, validate_of_not_le h]
  rfl

/-- Valid limits are compared with those installed before, which may be none. -/
theorem install_of_le (h : 1 ≤ l.recursion) :
    install installed l =
      if installed.getD l = l then .ok l
      else .error (.configuration
        s!"configuration already installed as {(installed.getD l).describe}") := by
  rw [install, run_install_of_le h]
  by_cases hsame : installed.getD l = l
  · rw [if_pos hsame, if_pos hsame]
    rfl
  · rw [if_neg hsame, if_neg hsame]

theorem install_of_not_le (h : ¬ 1 ≤ l.recursion) :
    install installed l =
      .error (.configuration "recursion_limit must be at least 1") := by
  rw [install, run_install_of_not_le h]

theorem install_eq_ok_iff :
    install installed l = .ok held ↔ 1 ≤ l.recursion ∧ installed.getD l = l ∧ held = l := by
  by_cases h : 1 ≤ l.recursion
  · rw [install_of_le h]
    split
    next hsame => simp [h, hsame, eq_comm]
    next hother => simp [hother]
  · rw [install_of_not_le h]
    simp [h]

/-- Only the configuration is to blame for limits that are refused. -/
theorem exists_reason_of_install {e : Fault} (he : install installed l = .error e) :
    ∃ reason, e = .configuration reason := by
  by_cases h : 1 ≤ l.recursion
  · rw [install_of_le h] at he
    split at he
    next => cases he
    next => exact ⟨_, (Except.error.inj he).symm⟩
  · rw [install_of_not_le h] at he
    exact ⟨_, (Except.error.inj he).symm⟩

end Limits

namespace Process

/-- A process installs limits over those that it holds, and holds what it held after a failure. -/
theorem run_install (l : Limits) (installed : Option Limits) :
    (install l).run installed =
      match Limits.install installed l with
      | .ok held => .ok () (some held)
      | .error e => .error e installed := by
  by_cases h : 1 ≤ l.recursion
  · rw [Limits.run_install_of_le h, Limits.install_of_le h]
    split
    next => rfl
    next hother =>
      -- Limits only differ from those held if some are.
      cases installed with
      | none => exact absurd rfl hother
      | some old => rfl
  · rw [Limits.run_install_of_not_le h, Limits.install_of_not_le h]

/-! ## Calls -/

/-- What a process is asked. -/
inductive Call where
  | install (l : Limits)
  | current
  | decode (c : Codec) (bytes : List UInt8)
  | readJson (c : Codec) (coercion : Coercion) (v : Json)
  | build (c : Codec) (v : Json)

/-- What a process answers. -/
inductive Reply where
  | done
  | limits (l : Limits)
  | message (m : Message)
  | bytes (bs : List UInt8)
  deriving DecidableEq, Repr

namespace Call

/-- A call as an action of the process. -/
def perform : Call → Process Reply
  | .install l => do
    Process.install l
    return .done
  | .current => return .limits (← Process.current)
  | .decode c bytes => return .message (← Process.decode c bytes)
  | .readJson c coercion v => return .message (← Process.readJson c coercion v)
  | .build c v => return .bytes (← Process.build c v)

/-- What is installed after a call, whether it failed or not. -/
def next (call : Call) (installed : Option Limits) : Option Limits :=
  match call.perform.run installed with
  | .ok _ held => held
  | .error _ held => held

/-- The answer to a call. -/
def reply (call : Call) (installed : Option Limits) : Except Fault Reply :=
  match call.perform.run installed with
  | .ok r _ => .ok r
  | .error e _ => .error e

/-- The limits that a call offers, if they are valid. -/
def offered? : Call → Option Limits
  | .install l => if 1 ≤ l.recursion then some l else none
  | _ => none

variable {installed : Option Limits} {l : Limits}

theorem run_install :
    (Call.install l).perform.run installed =
      match Limits.install installed l with
      | .ok held => .ok .done (some held)
      | .error e => .error e installed := by
  have hperform : (Call.install l).perform.run installed =
      match (Process.install l).run installed with
      | .ok _ held => .ok .done held
      | .error e held => .error e held := by
    simp only [perform, EStateM.run, bind, EStateM.bind]
    cases Process.install l installed <;> rfl
  rw [hperform, Process.run_install]
  cases Limits.install installed l <;> rfl

theorem reply_install :
    (Call.install l).reply installed = (Limits.install installed l).map fun _ => .done := by
  rw [reply, run_install]
  cases Limits.install installed l <;> rfl

theorem next_install_of_error {e : Fault} (h : Limits.install installed l = .error e) :
    (Call.install l).next installed = installed := by
  rw [next, run_install, h]

/-- A result that depends on the limits in force only is the answer, and nothing is installed. -/
theorem answer_ofResult {α : Type} (r : Except Fault α) (f : α → Reply) {call : Call}
    (h : call.perform.run installed =
      (do return f (← ofResult r) : Process Reply).run installed) :
    call.reply installed = r.map f ∧ call.next installed = installed := by
  rw [reply, next, h]
  cases r <;> exact ⟨rfl, rfl⟩

theorem reply_current : Call.current.reply installed = .ok (.limits (.current installed)) := rfl

theorem answer_decode (c : Codec) (bytes : List UInt8) :
    (Call.decode c bytes).reply installed =
      (c.decode (.current installed) bytes).map .message ∧
    (Call.decode c bytes).next installed = installed :=
  answer_ofResult (c.decode (.current installed) bytes) .message rfl

theorem answer_readJson (c : Codec) (coercion : Coercion) (v : Json) :
    (Call.readJson c coercion v).reply installed =
      (c.readJson coercion (.current installed) v).map .message ∧
    (Call.readJson c coercion v).next installed = installed :=
  answer_ofResult (c.readJson coercion (.current installed) v) .message rfl

theorem answer_build (c : Codec) (v : Json) :
    (Call.build c v).reply installed = (c.build installed v).map .bytes ∧
    (Call.build c v).next installed = installed :=
  answer_ofResult (c.build installed v) .bytes rfl

/-- A call fills what is installed only while nothing is. -/
theorem next_eq (call : Call) (installed : Option Limits) :
    call.next installed = installed.or call.offered? := by
  cases call with
  | install l =>
    cases hinstall : Limits.install installed l with
    | ok held =>
      obtain ⟨hvalid, hsame, rfl⟩ := Limits.install_eq_ok_iff.1 hinstall
      rw [next, run_install, hinstall, offered?, if_pos hvalid]
      cases installed with
      | none => rfl
      | some old => exact congrArg some hsame.symm
    | error e =>
      rw [next_install_of_error hinstall]
      cases installed with
      | none =>
        -- Nothing is held, so only their own check can refuse the limits.
        have hinvalid : ¬ 1 ≤ l.recursion := fun hvalid => by
          have hok : Limits.install none l = .ok l :=
            Limits.install_eq_ok_iff.2 ⟨hvalid, rfl, rfl⟩
          cases hok.symm.trans hinstall
        exact (if_neg hinvalid).symm
      | some old => rfl
  | current => exact (Option.or_none).symm
  | decode c bytes => exact (answer_decode c bytes).2.trans Option.or_none.symm
  | readJson c coercion v => exact (answer_readJson c coercion v).2.trans Option.or_none.symm
  | build c v => exact (answer_build c v).2.trans Option.or_none.symm

end Call

/-! ## Histories -/

/-- What is installed after calls, if nothing was before them. -/
def after (calls : List Call) : Option Limits :=
  calls.foldl (fun installed call => call.next installed) none

/-- The answer to one more call. -/
def reply (calls : List Call) (call : Call) : Except Fault Reply :=
  call.reply (after calls)

/-- The first valid limits that calls offer. -/
def firstOffered? (calls : List Call) : Option Limits :=
  calls.findSome? Call.offered?

/-- The limits that one more call is answered under: the first valid limits that were offered, and
the safe range with a hundred levels before that. -/
def inForce (calls : List Call) : Limits :=
  (firstOffered? calls).getD ⟨.safe, 100⟩

variable {calls : List Call} {l : Limits}

/-- Whatever a process holds at first, calls fill it with the first valid limits only. -/
theorem foldl_next (calls : List Call) (installed : Option Limits) :
    calls.foldl (fun installed call => call.next installed) installed =
      installed.or (firstOffered? calls) := by
  induction calls generalizing installed with
  | nil => exact Option.or_none.symm
  | cons call calls ih =>
    have hfirst : firstOffered? (call :: calls) = call.offered?.or (firstOffered? calls) := by
      rw [firstOffered?, List.findSome?_cons]
      cases call.offered? <;> rfl
    calc (call :: calls).foldl (fun installed call => call.next installed) installed
        = (call.next installed).or (firstOffered? calls) := ih (call.next installed)
      _ = (installed.or call.offered?).or (firstOffered? calls) := by rw [call.next_eq installed]
      _ = installed.or (firstOffered? (call :: calls)) := by rw [Option.or_assoc, hfirst]

theorem after_eq (calls : List Call) : after calls = firstOffered? calls :=
  foldl_next calls none

theorem after_append (calls later : List Call) :
    after (calls ++ later) = (after calls).or (firstOffered? later) := by
  rw [after, List.foldl_append]
  exact foldl_next later (after calls)

theorem current_after (calls : List Call) : Limits.current (after calls) = inForce calls :=
  congrArg Limits.current (after_eq calls)

/-- An installation succeeds exactly if its limits are valid and are what is installed then. -/
theorem reply_install_eq_ok_iff :
    reply calls (.install l) = .ok .done ↔
      1 ≤ l.recursion ∧ after (calls ++ [.install l]) = some l := by
  have hafter : 1 ≤ l.recursion →
      after (calls ++ [.install l]) = some ((after calls).getD l) := fun hvalid => by
    have hoffered : firstOffered? [.install l] = some l := by
      rw [firstOffered?, List.findSome?_singleton]
      exact if_pos hvalid
    rw [after_append, hoffered]
    cases after calls <;> rfl
  have hreply : reply calls (.install l) = .ok .done ↔
      ∃ held, Limits.install (after calls) l = .ok held := by
    rw [reply, Call.reply_install]
    cases Limits.install (after calls) l <;> simp [Except.map]
  rw [hreply]
  constructor
  · rintro ⟨held, hheld⟩
    obtain ⟨hvalid, hsame, -⟩ := Limits.install_eq_ok_iff.1 hheld
    exact ⟨hvalid, (hafter hvalid).trans (congrArg some hsame)⟩
  · rintro ⟨hvalid, hsame⟩
    have hheld : (after calls).getD l = l := Option.some.inj ((hafter hvalid).symm.trans hsame)
    exact ⟨l, Limits.install_eq_ok_iff.2 ⟨hvalid, hheld, rfl⟩⟩

/-- An installation that does not succeed is refused, and leaves no trace. -/
theorem refused_install (h : reply calls (.install l) ≠ .ok .done) :
    (∃ reason, reply calls (.install l) = .error (.configuration reason)) ∧
      ∀ later, after (calls ++ .install l :: later) = after (calls ++ later) := by
  rw [reply, Call.reply_install] at h
  cases hinstall : Limits.install (after calls) l with
  | ok held => exact absurd (by rw [hinstall]; rfl) h
  | error e =>
    obtain ⟨reason, rfl⟩ := Limits.exists_reason_of_install hinstall
    refine ⟨⟨reason, ?_⟩, fun later => ?_⟩
    · rw [reply, Call.reply_install, hinstall]
      rfl
    · rw [after, after, List.foldl_append, List.foldl_append, List.foldl_cons]
      congr 1
      exact Call.next_install_of_error hinstall

/-! ## One choice of limits for a process -/

/-- Nothing is installed until the first valid limits are offered, and these are installed from then
on. An installation succeeds exactly if its limits are valid and installed afterwards; any other
one is refused and changes nothing that a later call could see. Each reader answers as under the
limits in force. -/
theorem limits_are_installed_once (calls : List Call) :
    after calls = firstOffered? calls ∧
    (∀ l, after calls = some l → ∀ later, after (calls ++ later) = some l) ∧
    (∀ l, (reply calls (.install l) = .ok .done ↔
        1 ≤ l.recursion ∧ after (calls ++ [.install l]) = some l) ∧
      (reply calls (.install l) ≠ .ok .done →
        (∃ reason, reply calls (.install l) = .error (.configuration reason)) ∧
        ∀ later, after (calls ++ .install l :: later) = after (calls ++ later) ∧
          ∀ call, reply (calls ++ .install l :: later) call = reply (calls ++ later) call)) ∧
    reply calls .current = .ok (.limits (inForce calls)) ∧
    (∀ c bytes, reply calls (.decode c bytes) =
      (c.decode (inForce calls) bytes).map .message) ∧
    (∀ c coercion v, reply calls (.readJson c coercion v) =
      (c.readJson coercion (inForce calls) v).map .message) ∧
    (∀ c v, reply calls (.build c v) =
      ((c.readJson .strict (inForce calls) v).map c.encode).map .bytes) := by
  have hforce := current_after calls
  refine ⟨after_eq calls, fun l hl later => ?_, fun l => ⟨reply_install_eq_ok_iff, fun h => ?_⟩,
    ?_, fun c bytes => ?_, fun c coercion v => ?_, fun c v => ?_⟩
  · rw [after_append, hl]
    rfl
  · obtain ⟨hreason, htrace⟩ := refused_install h
    exact ⟨hreason, fun later => ⟨htrace later, fun call => congrArg call.reply (htrace later)⟩⟩
  · rw [reply, Call.reply_current, hforce]
  · rw [reply, (Call.answer_decode c bytes).1, hforce]
  · rw [reply, (Call.answer_readJson c coercion v).1, hforce]
  · rw [reply, (Call.answer_build c v).1, Codec.build, hforce]

/-- The default limits answer first, invalid limits are refused, and eight levels over the full
range stay. -/
theorem limits_are_installed_once_full :
    reply [] .current = .ok (.limits ⟨.safe, 100⟩) ∧
    after [.current, .install ⟨.safe, 0⟩] = none ∧
    (let calls := [.current, .install ⟨.safe, 0⟩, .install ⟨.full, 8⟩]
    reply calls (.install ⟨.full, 8⟩) = .ok .done ∧
      (∃ reason, reply calls (.install {}) = .error (.configuration reason)) ∧
      reply (calls ++ [.install {}]) .current = .ok (.limits ⟨.full, 8⟩)) := by
  obtain ⟨-, -, -, hdefault, -⟩ := limits_are_installed_once []
  obtain ⟨hnone, -⟩ := limits_are_installed_once [.current, .install ⟨.safe, 0⟩]
  obtain ⟨hfull, hstays, hinstall, hcurrent, -⟩ :=
    limits_are_installed_once [.current, .install ⟨.safe, 0⟩, .install ⟨.full, 8⟩]
  have hother : after [.current, .install ⟨.safe, 0⟩, .install ⟨.full, 8⟩, .install {}] =
      some ⟨.full, 8⟩ := hstays _ hfull [.install {}]
  have hrefused : reply [.current, .install ⟨.safe, 0⟩, .install ⟨.full, 8⟩] (.install {}) ≠
      .ok .done := fun hdone => by
    have hdefaults := ((hinstall {}).1.1 hdone).2
    cases hother.symm.trans hdefaults
  obtain ⟨hreason, hseen⟩ := (hinstall {}).2 hrefused
  refine ⟨hdefault, hnone, ?_, hreason, ?_⟩
  · exact (hinstall ⟨.full, 8⟩).1.2 ⟨by decide, hstays _ hfull [.install ⟨.full, 8⟩]⟩
  · exact ((hseen []).2 .current).trans hcurrent

end Process
end SchemaCodec
