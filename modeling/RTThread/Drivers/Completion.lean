import Mathlib.Logic.Function.Basic
import RTThread.Kernel.Thread
import RTThread.Lib.Runs

/-!
# Completions (`completion.c`)

A flag that one thread waits for and that any context sets. The waiting thread suspends itself
while the flag is not set, and clears the flag when it goes on, whatever has woken it.
`rt_completion_done` tests the flag first and disables interrupts behind the test; it sets the
flag and resumes the thread if it is suspended.

The record `due` is not kept by the code: a `rt_completion_done` has set the flag, and no wait has
returned `RT_EOK` since.

## Main results

* `completion_not_lost` — as long as no `rt_completion_done` sets the flag while the time-out has
  woken the thread and it has not gone on, a completion that is due will be seen.
* `completion_lost` — a run in which one is lost.
-/

namespace RTThread

/-- `struct rt_completion`, with what it sees of the waiting thread: whether it is suspended in
the list, whether it is in `rt_completion_wait` behind its first section, its field `error`, and
whether its timer is running. `found` are the contexts in `rt_completion_done` that have found
the flag not set. -/
structure Completion where
  flag : Bool
  suspended : Bool
  inWait : Bool
  error : RtErr
  timer : Bool
  found : Nat → Bool
  due : Bool

/-- How a step ends. -/
inductive CompletionOutcome
  /-- `rt_completion_wait` returns. -/
  | returned (result : RtErr)
  | goesOn
deriving DecidableEq

namespace Completion

/-- `rt_completion_init`. -/
def rtCompletionInit : Completion where
  flag := false
  suspended := false
  inWait := false
  error := .eok
  timer := false
  found _ := false
  due := false

/-- `rt_completion_wait` up to its return, or to its call of `rt_schedule`. -/
def rtCompletionWait (s : Completion) (timeout : Int) : CompletionOutcome × Completion :=
  if s.flag = false then
    if timeout = 0 then (.returned .etimeout, s)
    else
      -- reset thread error number, suspend thread, start timer
      (.goesOn, { s with
        suspended := true
        inWait := true
        error := .eok
        timer := decide (0 < timeout) })
  else
    -- clean completed flag
    (.returned .eok, { s with flag := false, due := false })

/-- `rt_completion_wait` behind its call of `rt_schedule`. -/
def waitWoken (s : Completion) : CompletionOutcome × Completion :=
  (.returned s.error, { s with
    flag := false
    inWait := false
    due := if s.error = .eok then false else s.due })

/-- The test of `rt_completion_done` in the context `c`. -/
def rtCompletionDone (s : Completion) (c : Nat) : Completion :=
  if s.flag then s else { s with found := Function.update s.found c true }

/-- `rt_completion_done` behind its test. -/
def doneSection (s : Completion) (c : Nat) : Completion :=
  { s with
    flag := true
    -- resume the thread in the suspended list
    suspended := false
    timer := if s.suspended then false else s.timer
    found := Function.update s.found c false
    due := true }

end Completion

/-- What happens to a completion. -/
inductive CompletionAct
  | wait (timeout : Int)
  /-- `rt_schedule` returns to `rt_completion_wait`. -/
  | woken
  | timeout
  | done (c : Nat)
  | doneSection (c : Nat)

namespace Completion

/-- The outcome of an action, and the state it leads to. -/
def step (s : Completion) : CompletionAct → Option (CompletionOutcome × Completion)
  | .wait timeout => Runs.takeIf (s.inWait = false) (s.rtCompletionWait timeout)
  | .woken => Runs.takeIf (s.inWait = true ∧ s.suspended = false) s.waitWoken
  | .timeout =>
    Runs.takeIf (s.suspended = true ∧ s.timer = true)
      (.goesOn, { s with suspended := false, timer := false, error := .etimeout })
  | .done c => Runs.takeIf (s.found c = false) (.goesOn, s.rtCompletionDone c)
  | .doneSection c => Runs.takeIf (s.found c = true) (.goesOn, s.doneSection c)

def exec (s : Completion) (a : CompletionAct) : Option Completion := (s.step a).map Prod.snd

/-- The time-out has woken the thread, and it has not gone on. -/
def TimedOut (s : Completion) : Prop :=
  s.inWait = true ∧ s.suspended = false ∧ s.error ≠ .eok

instance (s : Completion) : Decidable s.TimedOut := by
  unfold TimedOut
  infer_instance

/-- **The condition**: no `rt_completion_done` sets the flag while the time-out has woken the
thread and it has not gone on. -/
def InTime (s : Completion) : CompletionAct → Prop
  | .doneSection _ => ¬ s.TimedOut
  | _ => True

instance (s : Completion) (a : CompletionAct) : Decidable (s.InTime a) := by
  unfold InTime
  split <;> infer_instance

/-- The wait in progress has been resumed and will return `RT_EOK`. -/
def Resumed (s : Completion) : Prop := s.inWait = true ∧ s.suspended = false ∧ s.error = .eok

/-- **The invariant of a completion.** -/
structure Inv (s : Completion) : Prop where
  inWait : s.suspended = true → s.inWait = true ∧ s.error = .eok
  due : s.due = true → s.flag = true ∨ s.Resumed
  flag : s.flag = true → s.due = true
  /-- Nothing is due while the thread is suspended, or has been woken by its time-out. -/
  nothing : s.suspended = true ∨ s.TimedOut → s.due = false

section Steps

variable {s s' : Completion} {a : CompletionAct} {r : CompletionOutcome × Completion}

/-- **Every step keeps the invariant**, under the condition. -/
theorem Inv.step (h : s.Inv) (hok : s.InTime a) (hs : s.step a = some r) : r.2.Inv := by
  cases a with
  | wait timeout =>
    obtain ⟨hin, rfl⟩ := Runs.takeIf_eq_some.1 hs
    -- a thread that calls `rt_completion_wait` is in no wait
    have hnot : ¬ s.Resumed := fun hres => by
      rw [hres.1] at hin
      cases hin
    unfold rtCompletionWait
    by_cases hflag : s.flag = false
    · rw [if_pos hflag]
      split
      · exact h
      · -- a thread suspends itself only when nothing is due
        have hdue : s.due = false := by
          rw [← Bool.not_eq_true]
          intro hdue
          rcases h.due hdue with hset | hres
          · rw [hset] at hflag
            cases hflag
          · exact hnot hres
        refine ⟨fun _ => ⟨rfl, rfl⟩, fun hd => ?_, fun hf => ?_, fun _ => hdue⟩
        · rw [show s.due = true from hd] at hdue
          cases hdue
        · rw [show s.flag = true from hf] at hflag
          cases hflag
    · rw [if_neg hflag]
      refine ⟨h.inWait, (fun hd => by cases hd), (fun hf => by cases hf), fun _ => rfl⟩
  | woken =>
    obtain ⟨⟨hin, hsus⟩, rfl⟩ := Runs.takeIf_eq_some.1 hs
    -- without an error the wait has seen it, and with one nothing was due
    have hdue : s.waitWoken.2.due = false := by
      show (if s.error = .eok then false else s.due) = false
      by_cases herror : s.error = .eok
      · rw [if_pos herror]
      · rw [if_neg herror]
        exact h.nothing (Or.inr ⟨hin, hsus, herror⟩)
    refine ⟨fun hs' => ?_, fun hd => ?_, (fun hf => by cases hf), fun _ => hdue⟩
    · rw [show s.suspended = true from hs'] at hsus
      cases hsus
    · rw [hdue] at hd
      cases hd
  | timeout =>
    obtain ⟨⟨hsus, -⟩, rfl⟩ := Runs.takeIf_eq_some.1 hs
    have hdue := h.nothing (Or.inl hsus)
    refine ⟨(fun hs' => by cases hs'), fun hd => ?_, h.flag, fun _ => hdue⟩
    rw [show s.due = true from hd] at hdue
    cases hdue
  | done c =>
    obtain ⟨-, rfl⟩ := Runs.takeIf_eq_some.1 hs
    dsimp only
    unfold rtCompletionDone
    split
    · exact h
    · exact ⟨h.inWait, h.due, h.flag, h.nothing⟩
  | doneSection c =>
    obtain ⟨-, rfl⟩ := Runs.takeIf_eq_some.1 hs
    refine ⟨(fun hs' => by cases hs'), fun _ => Or.inl rfl, fun _ => rfl, ?_⟩
    rintro (hs' | ⟨hin, -, herror⟩)
    · cases hs'
    · -- the thread was suspended, so it has no error, or the time-out had woken it
      by_cases hsus : s.suspended = true
      · exact absurd (h.inWait hsus).2 herror
      · rw [Bool.not_eq_true] at hsus
        exact absurd ⟨hin, hsus, herror⟩ hok

/-- **A completion that comes too late is lost**: the thread clears the flag when it goes on, and
returns its time-out. -/
theorem done_timedOut {c : Nat} (hlate : s.TimedOut) (hs : s.exec (.doneSection c) = some s') :
    s'.due = true ∧ ∃ s'', s'.step .woken = some (.returned s.error, s'') ∧ s.error ≠ .eok ∧
      s''.due = true ∧ s''.flag = false ∧ s''.inWait = false := by
  obtain ⟨r, hr, rfl⟩ := Option.map_eq_some_iff.1 hs
  obtain ⟨-, rfl⟩ := Runs.takeIf_eq_some.1 hr
  obtain ⟨hin, -, herror⟩ := hlate
  refine ⟨rfl, (s.doneSection c).waitWoken.2, ?_, herror, if_neg herror, rfl, rfl⟩
  exact Runs.takeIf_eq_some.2 ⟨⟨hin, rfl⟩, rfl⟩

end Steps

/-- **Completions.** In every run in which no `rt_completion_done` sets the flag between the
time-out of the thread and its second section, a completion that is due is there: the flag is
set, and then the next wait returns `RT_EOK` at once, or the wait in progress has been resumed
and returns `RT_EOK` when it goes on. Otherwise it is lost when the thread goes on. -/
theorem completion_not_lost {s : Completion}
    (hrun : Runs (Runs.Exec exec) InTime rtCompletionInit s) :
    (s.due = true → s.flag = true ∨ s.Resumed) ∧
    (∀ timeout r, s.due = true → s.step (.wait timeout) = some r → r.1 = .returned .eok) ∧
    (∀ r, s.due = true → s.step .woken = some r → r.1 = .returned .eok) ∧
    (s.inWait = false → s.suspended = false) ∧
    (∀ c s', ¬ s.InTime (.doneSection c) → s.exec (.doneSection c) = some s' →
      s'.due = true ∧ ∃ s'', s'.step .woken = some (.returned s.error, s'') ∧ s.error ≠ .eok ∧
        s''.due = true ∧ s''.flag = false ∧ s''.inWait = false) := by
  have hinit : Inv rtCompletionInit :=
    ⟨(fun h => by cases h), (fun h => by cases h), (fun h => by cases h), fun _ => rfl⟩
  have h : s.Inv := by
    refine Runs.invariant (fun s₁ a s₂ hinv hok hs => ?_) hrun hinit
    obtain ⟨r, hr, rfl⟩ := Option.map_eq_some_iff.1 hs
    exact hinv.step hok hr
  refine ⟨h.due, ?_, ?_, ?_, fun c s' hlate hs => done_timedOut (not_not.1 hlate) hs⟩
  · intro timeout r hdue hs
    obtain ⟨hin, rfl⟩ := Runs.takeIf_eq_some.1 hs
    -- nobody is in a wait, so what is due is in the flag
    have hflag : s.flag = true := by
      refine (h.due hdue).resolve_right fun hres => ?_
      rw [hres.1] at hin
      cases hin
    unfold rtCompletionWait
    rw [hflag]
    rfl
  · intro r hdue hs
    obtain ⟨⟨hin, hsus⟩, rfl⟩ := Runs.takeIf_eq_some.1 hs
    by_contra herror
    -- woken by its time-out, and nothing was due
    have hnot := h.nothing (Or.inr ⟨hin, hsus, fun heok => herror (congrArg _ heok)⟩)
    rw [hdue] at hnot
    cases hnot
  · intro hin
    rw [← Bool.not_eq_true]
    intro hsus
    rw [(h.inWait hsus).1] at hin
    cases hin

/-- A completion is done while the thread is suspended, and another one while it is away. -/
def twoDone : List CompletionAct :=
  [.wait 10, .done 1, .doneSection 1, .woken, .done 2, .doneSection 2]

theorem completion_not_lost_two :
    ∃ s, Runs (Runs.Exec exec) InTime rtCompletionInit s ∧
      ∀ timeout r, s.step (.wait timeout) = some r → r.1 = .returned .eok := by
  obtain ⟨s, -, hrun, hend⟩ := @Runs.exec_of_replay _ _ InTime rtCompletionInit exec _
    twoDone (fun s => s.due) (by decide +kernel)
  exact ⟨s, hrun, fun timeout r hs => (completion_not_lost hrun).2.1 timeout r hend hs⟩

/-- The time-out fires, the completion is done, and the thread goes on. -/
def lateDone : List CompletionAct :=
  [.wait 10, .timeout, .done 1, .doneSection 1, .woken]

/-- **A completion is lost**: it is due, but the flag is not set and nobody is in a wait. -/
theorem completion_lost :
    ∃ s, Runs (Runs.Exec exec) Runs.always rtCompletionInit s ∧
      s.due = true ∧ s.flag = false ∧ s.inWait = false := by
  obtain ⟨s, -, hrun, hend⟩ := @Runs.exec_of_replay _ _ Runs.always rtCompletionInit exec _
    lateDone
    (fun s => decide (s.due = true ∧ s.flag = false ∧ s.inWait = false)) (by decide +kernel)
  exact ⟨s, hrun, of_decide_eq_true hend⟩

end Completion

end RTThread
