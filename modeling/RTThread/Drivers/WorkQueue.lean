import RTThread.Kernel.Timer
import RTThread.Lib.Queues
import RTThread.Lib.Runs

/-!
# Work queues (`workqueue.c`)

A work item waits in `work_list` until the work thread takes it, or in `delayed_list` until the
handler of its timer moves it over. The sections with interrupts disabled are the steps. A delayed
submission starts the timer behind its section, and `rt_timer_start` has its assertions in front
of its own section; the handler runs in the timer thread, and has its assertion in front of its
section, too. An assertion that fails does not return.

The record `Work.owed` is not kept by the code: a submission of the item has been accepted, and
since then the work thread has not taken the item and nobody has cancelled it.

The semaphore by which `rt_workqueue_cancel_work_sync` waits is left out.

## Main results

* `step_same` — a step changes one item at most.
* `Inv.step` — what holds in every run: an item is in at most one list, a suspended work thread has
  nothing to do, and the timer of an item is an object just as long as `SUBMITTING` is set.
-/

namespace RTThread

/-- The address of a `struct rt_work`. -/
abbrev WorkId := Nat

/-- The lists of a work queue: `work_list` and `delayed_list`. -/
inductive WorkList
  | work
  | delayed
deriving DecidableEq

/-- `struct rt_work`: its two flags, whether `workqueue` is set, and its timer, which is an object
from its `rt_timer_init` to its `rt_timer_detach`. The submissions that are about to call
`rt_timer_start` are counted in `starting`, those behind its assertions in `checked`. -/
structure Work where
  pending : Bool
  submitting : Bool
  workqueue : Bool
  timerType : Bool
  activated : Bool
  initTick : Nat
  timeoutTick : Nat
  starting : Nat
  checked : Nat
  owed : Bool

namespace Work

/-- `rt_work_init`. -/
def rtWorkInit : Work where
  pending := false
  submitting := false
  workqueue := false
  timerType := false
  activated := false
  initTick := 0
  timeoutTick := 0
  starting := 0
  checked := 0
  owed := false

/-- `rt_timer_init` of a timer that is in no list. -/
def rtTimerInit (x : Work) (time : Nat) : Work :=
  { x with timerType := true, activated := false, initTick := time, timeoutTick := 0 }

/-- `rt_timer_stop` -/
def rtTimerStop (x : Work) : Work := { x with activated := false }

/-- `rt_timer_control` with `RT_TIMER_CTRL_SET_TIME`. -/
def rtTimerControl (x : Work) (time : Nat) : Work := { x with initTick := time }

/-- `rt_timer_detach` -/
def rtTimerDetach (x : Work) : Work := { x with timerType := false, activated := false }

/-- The section of `rt_timer_start`. -/
def rtTimerStart (x : Work) (now : Nat) : Work :=
  { x with activated := true, timeoutTick := Word32.add now x.initTick }

/-- The flags and the timer of an item in a submission with a delay. -/
def delay (x : Work) (ticks : Nat) : Work :=
  let x :=
    -- Timer started
    if x.submitting then x.rtTimerStop.rtTimerControl ticks
    else { x.rtTimerInit ticks with submitting := true }
  { x with workqueue := true, owed := true, starting := x.starting + 1 }

/-- The flags and the timer of an item that is cancelled. -/
def cancel (x : Work) : Work :=
  let x :=
    -- Timer started
    if x.submitting then { x.rtTimerStop.rtTimerDetach with submitting := false } else x
  { x with workqueue := false, owed := false }

end Work

/-- Where the timer thread is. -/
inductive TimerThread
  | idle
  /-- The timer of the item has run out, and its handler begins. -/
  | expired (w : WorkId)
  /-- The handler is behind its assertion. -/
  | passed (w : WorkId)
  /-- An assertion of the handler has failed. -/
  | stuck
deriving DecidableEq

/-- `struct rt_workqueue` with its thread, its items, and what runs their timers. -/
structure WorkQueue where
  lists : WorkList → List WorkId
  workCurrent : Option WorkId
  /-- The work thread is suspended. -/
  suspended : Bool
  work : WorkId → Work
  timerThread : TimerThread
  now : Nat

/-- How a step ends. -/
inductive WorkQueueOutcome
  /-- The call returns `RT_EOK`. -/
  | accepted
  /-- The call returns `-RT_EBUSY`. -/
  | busy
  /-- The call returns `-RT_ERROR`. -/
  | refused
  | assertFails
  | goesOn

namespace WorkQueue

/-- `rt_workqueue_create`, with initialised work items. -/
def rtWorkqueueCreate : WorkQueue where
  lists _ := []
  workCurrent := none
  suspended := false
  work _ := .rtWorkInit
  timerThread := .idle
  now := 0

/-- The fields of an item change. -/
def setWork (s : WorkQueue) (w : WorkId) (x : Work) : WorkQueue :=
  { s with work := Function.update s.work w x }

/-- `rt_list_remove(&(work->list))` -/
def listRemove (s : WorkQueue) (w : WorkId) : WorkQueue :=
  { s with lists := Queues.unlink s.lists w }

/-- The item goes to the end of a list. -/
def insertBefore (s : WorkQueue) (q : WorkList) (w : WorkId) : WorkQueue :=
  { s with lists := Function.update s.lists q (s.lists q ++ [w]) }

/-- The item goes to the front of a list. -/
def insertAfter (s : WorkQueue) (q : WorkList) (w : WorkId) : WorkQueue :=
  { s with lists := Function.update s.lists q (w :: s.lists q) }

/-- The work thread is resumed if it is suspended and does no work. -/
def resumeThread (s : WorkQueue) : WorkQueue :=
  if s.workCurrent = none ∧ s.suspended = true then { s with suspended := false } else s

/-- `_workqueue_submit_work`. With a delay it goes on to `rt_timer_start`. -/
def workqueueSubmitWork (s : WorkQueue) (w : WorkId) (ticks : Nat) :
    WorkQueueOutcome × WorkQueue :=
  -- remove list
  let s := s.listRemove w
  let x := { s.work w with pending := false }
  if ticks = 0 then
    if s.workCurrent ≠ some w then
      (.accepted, ((s.insertBefore .work w).setWork w
        { x with pending := true, workqueue := true, owed := true }).resumeThread)
    else (.busy, (s.setWork w x).resumeThread)
  else if ticks < rtTickMax / 2 then
    -- insert delay work list
    (.goesOn, (s.insertBefore .delayed w).setWork w (x.delay ticks))
  else (.refused, s.setWork w x)

/-- `rt_workqueue_submit_work`, and with no delay `rt_workqueue_dowork`. -/
def rtWorkqueueSubmitWork (s : WorkQueue) (w : WorkId) (ticks : Nat) :
    WorkQueueOutcome × WorkQueue :=
  if ticks < rtTickMax / 2 then s.workqueueSubmitWork w ticks else (.assertFails, s)

/-- The assertions of `rt_timer_start`. -/
def startCheck (s : WorkQueue) (w : WorkId) : WorkQueueOutcome × WorkQueue :=
  let x := { s.work w with starting := (s.work w).starting - 1 }
  if x.timerType then (.goesOn, s.setWork w { x with checked := x.checked + 1 })
  else (.assertFails, s.setWork w x)

/-- The section of `rt_timer_start`, behind which the submission returns. -/
def timerStart (s : WorkQueue) (w : WorkId) : WorkQueueOutcome × WorkQueue :=
  (.accepted, s.setWork w
    { (s.work w).rtTimerStart s.now with checked := (s.work w).checked - 1 })

/-- `rt_workqueue_urgent_work` -/
def rtWorkqueueUrgentWork (s : WorkQueue) (w : WorkId) : WorkQueueOutcome × WorkQueue :=
  (.accepted, ((s.listRemove w).insertAfter .work w).resumeThread)

/-- `_workqueue_cancel_work` -/
def workqueueCancelWork (s : WorkQueue) (w : WorkId) : WorkQueueOutcome × WorkQueue :=
  (if s.workCurrent ≠ some w then .accepted else .busy,
    (s.listRemove w).setWork w { s.work w with pending := false }.cancel)

/-- `rt_soft_timer_check` takes the timer of the item, which has run out, from its list. -/
def timerExpire (s : WorkQueue) (w : WorkId) : WorkQueue :=
  { s.setWork w { s.work w with activated := false } with timerThread := .expired w }

/-- The assertion of `_delayed_work_timeout_handler`. -/
def handlerAssert (s : WorkQueue) (w : WorkId) : WorkQueueOutcome × WorkQueue :=
  if (s.work w).workqueue then (.goesOn, { s with timerThread := .passed w })
  else (.assertFails, { s with timerThread := .stuck })

/-- The section of `_delayed_work_timeout_handler`, which starts with the assertions of
`rt_timer_detach`. -/
def delayedWorkTimeoutHandler (s : WorkQueue) (w : WorkId) : WorkQueueOutcome × WorkQueue :=
  if (s.work w).timerType then
    let x := { (s.work w).rtTimerDetach with submitting := false }
    -- remove delay list
    let s : WorkQueue := { s.listRemove w with timerThread := .idle }
    -- insert work queue
    if s.workCurrent ≠ some w then
      (.goesOn, ((s.insertBefore .work w).setWork w { x with pending := true }).resumeThread)
    else (.goesOn, (s.setWork w x).resumeThread)
  else (.assertFails, { s with timerThread := .stuck })

/-- The section of `_workqueue_thread_entry`. -/
def workqueueThreadEntry (s : WorkQueue) : WorkQueue :=
  match s.lists .work with
  | [] => { s with suspended := true }
  | w :: _ =>
    -- we have work to do with
    { (s.listRemove w).setWork w
        { s.work w with pending := false, workqueue := false, owed := false } with
      workCurrent := some w }

end WorkQueue

/-- What happens to a work queue. -/
inductive WorkQueueAct
  | submit (w : WorkId) (ticks : Nat)
  | startCheck (w : WorkId)
  | timerStart (w : WorkId)
  | urgent (w : WorkId)
  | cancel (w : WorkId)
  | expire (w : WorkId)
  | handlerAssert (w : WorkId)
  | handlerSection (w : WorkId)
  /-- The work thread takes the first item, or suspends itself. -/
  | take
  /-- The function of the item has returned. -/
  | done
  | tick

namespace WorkQueue

/-- The outcome of an action, and the state it leads to. -/
def step (s : WorkQueue) : WorkQueueAct → Option (WorkQueueOutcome × WorkQueue)
  | .submit w ticks => some (s.rtWorkqueueSubmitWork w ticks)
  | .startCheck w => Runs.takeIf (0 < (s.work w).starting) (s.startCheck w)
  | .timerStart w => Runs.takeIf (0 < (s.work w).checked) (s.timerStart w)
  | .urgent w => some (s.rtWorkqueueUrgentWork w)
  | .cancel w => some (s.workqueueCancelWork w)
  | .expire w =>
    Runs.takeIf (s.timerThread = .idle ∧ (s.work w).activated = true ∧
      Word32.sub s.now (s.work w).timeoutTick < rtTickMax / 2) (.goesOn, s.timerExpire w)
  | .handlerAssert w => Runs.takeIf (s.timerThread = .expired w) (s.handlerAssert w)
  | .handlerSection w => Runs.takeIf (s.timerThread = .passed w) (s.delayedWorkTimeoutHandler w)
  | .take =>
    Runs.takeIf (s.workCurrent = none ∧ s.suspended = false) (.goesOn, s.workqueueThreadEntry)
  | .done => Runs.takeIf (s.workCurrent ≠ none) (.goesOn, { s with workCurrent := none })
  | .tick => some (.goesOn, { s with now := Word32.add s.now 1 })

def exec (s : WorkQueue) (a : WorkQueueAct) : Option WorkQueue := (s.step a).map Prod.snd

/-- The timer thread has taken the timer of the item and not finished with it. -/
def Handled (s : WorkQueue) (w : WorkId) : Prop :=
  s.timerThread = .expired w ∨ s.timerThread = .passed w

instance (s : WorkQueue) (w : WorkId) : Decidable (s.Handled w) := by
  unfold Handled
  infer_instance

/-- The timer of the item is active, is being started, or has just run out. -/
def Running (s : WorkQueue) (w : WorkId) : Prop :=
  (s.work w).activated = true ∨ 0 < (s.work w).starting ∨ 0 < (s.work w).checked ∨ s.Handled w

instance (s : WorkQueue) (w : WorkId) : Decidable (s.Running w) := by
  unfold Running
  infer_instance

-- --------
-- What the steps do
-- --------

/-- An item changes its fields and its place; `place` is the list it is in afterwards. -/
structure Effect (s s' : WorkQueue) (w : WorkId) (place : Option WorkList) (x : Work) : Prop where
  apart : Queues.Apart s'.lists
  mem : ∀ u q, u ∈ s'.lists q ↔ (u = w ∧ place = some q) ∨ (u ≠ w ∧ u ∈ s.lists q)
  work : s'.work = Function.update s.work w x

/-- Nothing has happened to an item. -/
structure SameWork (s s' : WorkQueue) (u : WorkId) : Prop where
  work : s'.work u = s.work u
  mem : ∀ q, u ∈ s'.lists q ↔ u ∈ s.lists q
  handled : s'.Handled u ↔ s.Handled u

section Effects

variable {s s' : WorkQueue} {w u : WorkId} {place : Option WorkList} {x : Work} {q : WorkList}
  {ticks : Nat} {l : List WorkId}

theorem SameWork.running (h : SameWork s s' u) : s'.Running u ↔ s.Running u := by
  unfold Running
  rw [h.work, h.handled]

theorem resumeThread_fields (s : WorkQueue) : s.resumeThread.lists = s.lists ∧
    s.resumeThread.work = s.work ∧ s.resumeThread.timerThread = s.timerThread ∧
    s.resumeThread.workCurrent = s.workCurrent ∧
    (s.resumeThread.suspended = true → s.suspended = true ∧ s.workCurrent ≠ none) := by
  unfold resumeThread
  split
  case isTrue => exact ⟨rfl, rfl, rfl, rfl, fun h => by cases h⟩
  case isFalse h => exact ⟨rfl, rfl, rfl, rfl, fun hs => ⟨hs, fun hc => h ⟨hc, hs⟩⟩⟩

theorem Effect.resumeThread (h : Effect s s' w place x) : Effect s s'.resumeThread w place x := by
  obtain ⟨hlists, hwork, -⟩ := resumeThread_fields s'
  refine ⟨?_, ?_, hwork.trans h.work⟩
  · rw [hlists]
    exact h.apart
  · rw [hlists]
    exact h.mem

theorem effect_remove (h : Queues.Apart s.lists) (hlists : s'.lists = Queues.unlink s.lists w)
    (hwork : s'.work = Function.update s.work w x) : Effect s s' w none x := by
  refine ⟨hlists ▸ h.unlink w, fun u q => ?_, hwork⟩
  rw [hlists, h.mem_unlink]
  simp

theorem effect_insert (h : Queues.Apart s.lists) (hl : l.Perm (w :: Queues.unlink s.lists w q))
    (hlists : s'.lists = Function.update (Queues.unlink s.lists w) q l)
    (hwork : s'.work = Function.update s.work w x) : Effect s s' w (some q) x := by
  refine ⟨hlists ▸ h.relink hl, fun u p => ?_, hwork⟩
  rw [hlists, h.mem_relink hl, Option.some.injEq, eq_comm (a := q)]

theorem effect_submit_now (h : Queues.Apart s.lists) (hcur : s.workCurrent ≠ some w) :
    Effect s (s.workqueueSubmitWork w 0).2 w (some .work)
      { s.work w with pending := true, workqueue := true, owed := true } := by
  unfold workqueueSubmitWork
  rw [if_pos rfl, if_pos (by exact hcur)]
  exact (effect_insert h (List.perm_append_singleton _ _) rfl rfl).resumeThread

theorem effect_submit_busy (h : Queues.Apart s.lists) (hcur : s.workCurrent = some w) :
    Effect s (s.workqueueSubmitWork w 0).2 w none { s.work w with pending := false } := by
  unfold workqueueSubmitWork
  rw [if_pos rfl, if_neg (by exact not_not.2 hcur)]
  exact (effect_remove h rfl rfl).resumeThread

theorem effect_submit_delayed (h : Queues.Apart s.lists) (hpos : ticks ≠ 0)
    (hlt : ticks < rtTickMax / 2) :
    Effect s (s.workqueueSubmitWork w ticks).2 w (some .delayed)
      ({ s.work w with pending := false }.delay ticks) := by
  unfold workqueueSubmitWork
  rw [if_neg hpos, if_pos hlt]
  exact effect_insert h (List.perm_append_singleton _ _) rfl rfl

theorem effect_urgent (h : Queues.Apart s.lists) :
    Effect s (s.rtWorkqueueUrgentWork w).2 w (some .work) (s.work w) :=
  (@effect_insert s ((s.listRemove w).insertAfter .work w) w _ _ _ h (List.Perm.refl _) rfl
    (Function.update_eq_self w s.work).symm).resumeThread

theorem effect_cancel (h : Queues.Apart s.lists) :
    Effect s (s.workqueueCancelWork w).2 w none { s.work w with pending := false }.cancel :=
  effect_remove h rfl rfl

/-- The fields of an item whose timer the handler has dealt with. -/
abbrev handledWork (s : WorkQueue) (w : WorkId) : Work :=
  { (s.work w).rtTimerDetach with submitting := false }

theorem effect_handle (h : Queues.Apart s.lists) (htype : (s.work w).timerType = true)
    (hcur : s.workCurrent ≠ some w) :
    Effect s (s.delayedWorkTimeoutHandler w).2 w (some .work)
      { s.handledWork w with pending := true } := by
  unfold delayedWorkTimeoutHandler
  rw [if_pos htype, if_pos (by exact hcur)]
  exact (effect_insert h (List.perm_append_singleton _ _) rfl rfl).resumeThread

theorem effect_handle_current (h : Queues.Apart s.lists) (htype : (s.work w).timerType = true)
    (hcur : s.workCurrent = some w) :
    Effect s (s.delayedWorkTimeoutHandler w).2 w none (s.handledWork w) := by
  unfold delayedWorkTimeoutHandler
  rw [if_pos htype, if_neg (by exact not_not.2 hcur)]
  exact (effect_remove h rfl rfl).resumeThread

theorem effect_take (h : Queues.Apart s.lists) (hl : s.lists .work = w :: l) :
    Effect s s.workqueueThreadEntry w none
      { s.work w with pending := false, workqueue := false, owed := false } := by
  unfold workqueueThreadEntry
  rw [hl]
  exact effect_remove h rfl rfl

theorem Effect.work_self (h : Effect s s' w place x) : s'.work w = x := by
  rw [h.work, Function.update_self]

theorem Effect.mem_self (h : Effect s s' w place x) (q : WorkList) :
    w ∈ s'.lists q ↔ place = some q := by
  rw [h.mem]
  simp

theorem Effect.sameWork (h : Effect s s' w place x) (hu : w ≠ u)
    (hhandled : s'.Handled u ↔ s.Handled u) : SameWork s s' u where
  work := by rw [h.work, Function.update_of_ne (Ne.symm hu)]
  mem q := by
    rw [h.mem]
    simp [Ne.symm hu]
  handled := hhandled

theorem sameWork_of_lists (hu : w ≠ u) (hlists : s'.lists = s.lists)
    (hwork : s'.work = Function.update s.work w x) (hhandled : s'.Handled u ↔ s.Handled u) :
    SameWork s s' u where
  work := by rw [hwork, Function.update_of_ne (Ne.symm hu)]
  mem q := by rw [hlists]
  handled := hhandled

theorem handled_congr (h : s'.timerThread = s.timerThread) : s'.Handled u ↔ s.Handled u := by
  unfold Handled
  rw [h]

/-- The timer thread is not at an item of another timer. -/
theorem not_handled_of_ne (hu : w ≠ u)
    (h : s.timerThread = .idle ∨ s.timerThread = .stuck ∨ s.timerThread = .expired w ∨
      s.timerThread = .passed w) : ¬ s.Handled u := by
  unfold Handled
  rcases h with h | h | h | h
  · rw [h]
    simp
  · rw [h]
    simp
  · rw [h]
    simp [hu]
  · rw [h]
    simp [hu]

end Effects

/-- The item an action is about. -/
def item (s : WorkQueue) : WorkQueueAct → Option WorkId
  | .submit w _ => some w
  | .startCheck w => some w
  | .timerStart w => some w
  | .urgent w => some w
  | .cancel w => some w
  | .expire w => some w
  | .handlerAssert w => some w
  | .handlerSection w => some w
  | .take => (s.lists .work).head?
  | .done => none
  | .tick => none

section Steps

variable {s s' : WorkQueue} {a : WorkQueueAct} {r : WorkQueueOutcome × WorkQueue} {w u : WorkId}
  {place : Option WorkList} {x : Work} {ticks : Nat}

theorem effect_submit (h : Queues.Apart s.lists) (hlt : ticks < rtTickMax / 2) :
    ∃ place x, Effect s (s.rtWorkqueueSubmitWork w ticks).2 w place x := by
  unfold rtWorkqueueSubmitWork
  rw [if_pos hlt]
  by_cases hpos : ticks = 0
  · subst hpos
    by_cases hcur : s.workCurrent = some w
    · exact ⟨_, _, effect_submit_busy h hcur⟩
    · exact ⟨_, _, effect_submit_now h hcur⟩
  · exact ⟨_, _, effect_submit_delayed h hpos hlt⟩

theorem submit_timerThread (s : WorkQueue) (w : WorkId) (ticks : Nat) :
    (s.rtWorkqueueSubmitWork w ticks).2.timerThread = s.timerThread := by
  unfold rtWorkqueueSubmitWork workqueueSubmitWork
  split
  · dsimp only
    split
    · split
      · exact (resumeThread_fields _).2.2.1
      · exact (resumeThread_fields _).2.2.1
    · rfl
  · rfl

theorem handle_timerThread (htype : (s.work w).timerType = true) :
    (s.delayedWorkTimeoutHandler w).2.timerThread = .idle := by
  unfold delayedWorkTimeoutHandler
  rw [if_pos htype]
  dsimp only
  split
  · exact (resumeThread_fields _).2.2.1
  · exact (resumeThread_fields _).2.2.1

/-- **The other items** stay as they are in every step. -/
theorem step_same (h : Queues.Apart s.lists) (hs : s.step a = some r) (hu : s.item a ≠ some u) :
    SameWork s r.2 u := by
  have hne : ∀ w, s.item a = some w → w ≠ u := fun w hw hwu => hu (hw.trans (congrArg some hwu))
  cases a with
  | submit w ticks =>
    cases hs
    by_cases hlt : ticks < rtTickMax / 2
    · obtain ⟨place, x, he⟩ := effect_submit h hlt (w := w)
      exact he.sameWork (hne w rfl) (handled_congr (submit_timerThread s w ticks))
    · unfold rtWorkqueueSubmitWork
      rw [if_neg hlt]
      exact ⟨rfl, fun q => Iff.rfl, Iff.rfl⟩
  | startCheck w =>
    obtain ⟨-, rfl⟩ := Runs.takeIf_eq_some.1 hs
    unfold startCheck
    dsimp only
    split
    · exact sameWork_of_lists (hne w rfl) rfl rfl Iff.rfl
    · exact sameWork_of_lists (hne w rfl) rfl rfl Iff.rfl
  | timerStart w =>
    obtain ⟨-, rfl⟩ := Runs.takeIf_eq_some.1 hs
    exact sameWork_of_lists (hne w rfl) rfl rfl Iff.rfl
  | urgent w =>
    cases hs
    exact (effect_urgent h).sameWork (hne w rfl) (handled_congr (resumeThread_fields _).2.2.1)
  | cancel w =>
    cases hs
    exact (effect_cancel h).sameWork (hne w rfl) Iff.rfl
  | expire w =>
    obtain ⟨⟨hidle, -⟩, rfl⟩ := Runs.takeIf_eq_some.1 hs
    -- the timer thread was idle, and is at the timer of `w` now
    refine sameWork_of_lists (hne w rfl) rfl rfl (iff_of_false ?_ ?_)
    · exact not_handled_of_ne (hne w rfl) (Or.inr (Or.inr (Or.inl rfl)))
    · exact not_handled_of_ne (hne w rfl) (Or.inl hidle)
  | handlerAssert w =>
    obtain ⟨hw, rfl⟩ := Runs.takeIf_eq_some.1 hs
    -- the timer thread is at the timer of `w` before and behind the assertion
    have hbefore := not_handled_of_ne (hne w rfl) (Or.inr (Or.inr (Or.inl hw)))
    unfold handlerAssert
    split
    · exact ⟨rfl, fun q => Iff.rfl, iff_of_false
        (not_handled_of_ne (hne w rfl) (Or.inr (Or.inr (Or.inr rfl)))) hbefore⟩
    · exact ⟨rfl, fun q => Iff.rfl, iff_of_false
        (not_handled_of_ne (hne w rfl) (Or.inr (Or.inl rfl))) hbefore⟩
  | handlerSection w =>
    obtain ⟨hw, rfl⟩ := Runs.takeIf_eq_some.1 hs
    have hbefore := not_handled_of_ne (hne w rfl) (Or.inr (Or.inr (Or.inr hw)))
    by_cases htype : (s.work w).timerType = true
    -- the handler has finished, and the timer thread is idle
    · have hafter : ¬ (s.delayedWorkTimeoutHandler w).2.Handled u :=
        not_handled_of_ne (hne w rfl) (Or.inl (handle_timerThread htype))
      by_cases hcur : s.workCurrent = some w
      · exact (effect_handle_current h htype hcur).sameWork (hne w rfl)
          (iff_of_false hafter hbefore)
      · exact (effect_handle h htype hcur).sameWork (hne w rfl) (iff_of_false hafter hbefore)
    · unfold delayedWorkTimeoutHandler
      rw [if_neg htype]
      exact ⟨rfl, fun q => Iff.rfl, iff_of_false
        (not_handled_of_ne (hne w rfl) (Or.inr (Or.inl rfl))) hbefore⟩
  | take =>
    obtain ⟨-, rfl⟩ := Runs.takeIf_eq_some.1 hs
    cases hl : s.lists .work with
    | nil =>
      unfold workqueueThreadEntry
      rw [hl]
      exact ⟨rfl, fun q => Iff.rfl, Iff.rfl⟩
    | cons w l =>
      have hw : s.item .take = some w := by
        unfold item
        rw [hl]
        rfl
      refine (effect_take h hl).sameWork (hne w hw) (handled_congr ?_)
      unfold workqueueThreadEntry
      rw [hl]
      rfl
  | done =>
    obtain ⟨-, rfl⟩ := Runs.takeIf_eq_some.1 hs
    exact ⟨rfl, fun q => Iff.rfl, Iff.rfl⟩
  | tick =>
    cases hs
    exact ⟨rfl, fun q => Iff.rfl, Iff.rfl⟩

/-- **Only an assertion of the handler** stops the timer thread. -/
theorem stuck_of_step (hs : s.step a = some r) (hbefore : s.timerThread ≠ .stuck)
    (hafter : r.2.timerThread = .stuck) :
    (∃ w, a = .handlerAssert w ∧ (s.work w).workqueue = false) ∨
      ∃ w, a = .handlerSection w ∧ (s.work w).timerType = false := by
  cases a with
  | submit w ticks =>
    cases hs
    exact absurd ((submit_timerThread s w ticks).symm.trans hafter) hbefore
  | startCheck w =>
    obtain ⟨-, rfl⟩ := Runs.takeIf_eq_some.1 hs
    unfold startCheck at hafter
    dsimp only at hafter
    split at hafter
    · exact absurd hafter hbefore
    · exact absurd hafter hbefore
  | timerStart w =>
    obtain ⟨-, rfl⟩ := Runs.takeIf_eq_some.1 hs
    exact absurd hafter hbefore
  | urgent w =>
    cases hs
    -- resuming the work thread leaves the timer thread alone
    have hsame := (resumeThread_fields ((s.listRemove w).insertAfter .work w)).2.2.1
    exact absurd (hsame.symm.trans hafter) hbefore
  | cancel w =>
    cases hs
    exact absurd hafter hbefore
  | expire w =>
    obtain ⟨-, rfl⟩ := Runs.takeIf_eq_some.1 hs
    cases hafter
  | handlerAssert w =>
    obtain ⟨-, rfl⟩ := Runs.takeIf_eq_some.1 hs
    refine Or.inl ⟨w, rfl, ?_⟩
    rw [← Bool.not_eq_true]
    intro hqueue
    unfold handlerAssert at hafter
    rw [if_pos hqueue] at hafter
    cases hafter
  | handlerSection w =>
    obtain ⟨-, rfl⟩ := Runs.takeIf_eq_some.1 hs
    refine Or.inr ⟨w, rfl, ?_⟩
    rw [← Bool.not_eq_true]
    intro htype
    cases (handle_timerThread htype).symm.trans hafter
  | take =>
    obtain ⟨-, rfl⟩ := Runs.takeIf_eq_some.1 hs
    unfold workqueueThreadEntry at hafter
    dsimp only at hafter
    split at hafter
    · exact absurd hafter hbefore
    · exact absurd hafter hbefore
  | done =>
    obtain ⟨-, rfl⟩ := Runs.takeIf_eq_some.1 hs
    exact absurd hafter hbefore
  | tick =>
    cases hs
    exact absurd hafter hbefore

-- --------
-- Every run
-- --------

/-- **What holds in every run.** -/
structure Inv (s : WorkQueue) : Prop where
  apart : Queues.Apart s.lists
  /-- The work thread is suspended only when there is nothing to do. -/
  asleep : s.suspended = true → s.workCurrent = none ∧ s.lists .work = []
  timerType : ∀ w, (s.work w).timerType = (s.work w).submitting
  delayed : ∀ w, w ∈ s.lists .delayed → (s.work w).submitting = true

theorem Inv.effect (h : s.Inv) (he : Effect s s' w place x)
    (hasleep : s'.suspended = true → s'.workCurrent = none ∧ s'.lists .work = [])
    (htype : x.timerType = x.submitting) (hdelayed : place = some .delayed → x.submitting = true) :
    s'.Inv where
  apart := he.apart
  asleep := hasleep
  timerType u := by
    -- the item that has moved, and the others
    by_cases hu : u = w
    · rw [hu, he.work_self, htype]
    · rw [he.work, Function.update_of_ne hu]
      exact h.timerType u
  delayed u hmem := by
    by_cases hu : u = w
    · rw [hu] at hmem ⊢
      rw [he.work_self]
      exact hdelayed ((he.mem_self _).1 hmem)
    · rw [he.mem] at hmem
      rw [he.work, Function.update_of_ne hu]
      exact h.delayed u (hmem.resolve_left fun hw => hu hw.1).2

/-- Only fields of the item change, and not `SUBMITTING`. -/
theorem Inv.setWork (h : s.Inv) (hlists : s'.lists = s.lists)
    (hcur : s'.workCurrent = s.workCurrent) (hsus : s'.suspended = s.suspended)
    (hwork : s'.work = Function.update s.work w x)
    (htype : x.timerType = (s.work w).timerType) (hsub : x.submitting = (s.work w).submitting) :
    s'.Inv where
  apart := hlists ▸ h.apart
  asleep hs := by
    rw [hcur, hlists]
    exact h.asleep (hsus ▸ hs)
  timerType u := by
    by_cases hu : u = w
    · rw [hu, hwork, Function.update_self, htype, hsub]
      exact h.timerType w
    · rw [hwork, Function.update_of_ne hu]
      exact h.timerType u
  delayed u hmem := by
    rw [hlists] at hmem
    by_cases hu : u = w
    · rw [hu] at hmem ⊢
      rw [hwork, Function.update_self, hsub]
      exact h.delayed w hmem
    · rw [hwork, Function.update_of_ne hu]
      exact h.delayed u hmem

theorem Inv.awake (h : s.Inv) (hsus : s'.suspended = s.suspended)
    (hcur : s'.workCurrent = s.workCurrent) : s'.resumeThread.suspended = false := by
  rw [← Bool.not_eq_true]
  intro hs
  obtain ⟨hs, hne⟩ := (resumeThread_fields s').2.2.2.2 hs
  rw [hcur] at hne
  exact hne (h.asleep (hsus ▸ hs)).1

/-- A thread that stays suspended has nothing to do. -/
theorem Inv.still (h : s.Inv) (hsus : s'.suspended = s.suspended)
    (hcur : s'.workCurrent = s.workCurrent) (he : Effect s s' w place x)
    (hplace : place ≠ some .work) :
    s'.suspended = true → s'.workCurrent = none ∧ s'.lists .work = [] := by
  intro hs
  obtain ⟨hnone, hempty⟩ := h.asleep (hsus ▸ hs)
  refine ⟨hcur.trans hnone, List.eq_nil_iff_forall_not_mem.2 fun u hu => ?_⟩
  rcases (he.mem u .work).1 hu with ⟨-, hw⟩ | ⟨-, hu⟩
  · exact hplace hw
  · rw [hempty] at hu
    cases hu

theorem delay_fields (x : Work) (ticks : Nat) : (x.delay ticks).submitting = true ∧
    (x.delay ticks).pending = x.pending ∧ (x.delay ticks).activated = false ∧
    (x.delay ticks).workqueue = true ∧ 0 < (x.delay ticks).starting ∧
    (x.timerType = x.submitting → (x.delay ticks).timerType = true) := by
  unfold Work.delay
  by_cases hsub : x.submitting = true
  · rw [if_pos hsub]
    exact ⟨hsub, rfl, rfl, rfl, Nat.succ_pos _, fun h => h.trans hsub⟩
  · rw [if_neg hsub]
    exact ⟨rfl, rfl, rfl, rfl, Nat.succ_pos _, fun _ => rfl⟩

theorem cancel_fields (x : Work) : x.cancel.submitting = false ∧ x.cancel.pending = x.pending ∧
    (x.cancel.activated = true → x.submitting = false ∧ x.activated = true) ∧
    x.cancel.owed = false ∧ (x.timerType = x.submitting → x.cancel.timerType = false) := by
  unfold Work.cancel
  by_cases hsub : x.submitting = true
  · rw [if_pos hsub]
    exact ⟨rfl, rfl, (fun h => by cases h), rfl, fun _ => rfl⟩
  · rw [if_neg hsub]
    rw [Bool.not_eq_true] at hsub
    exact ⟨hsub, rfl, fun h => ⟨hsub, h⟩, rfl, fun h => h.trans hsub⟩

theorem Inv.submit_awake (h : s.Inv) : (s.workqueueSubmitWork w 0).2.suspended = false := by
  unfold workqueueSubmitWork
  rw [if_pos rfl]
  split
  · exact h.awake rfl rfl
  · exact h.awake rfl rfl

theorem Inv.handle_awake (h : s.Inv) (htype : (s.work w).timerType = true) :
    (s.delayedWorkTimeoutHandler w).2.suspended = false := by
  unfold delayedWorkTimeoutHandler
  rw [if_pos htype]
  dsimp only
  split
  · exact h.awake rfl rfl
  · exact h.awake rfl rfl

/-- A submission without delay. -/
theorem Inv.submit_now (h : s.Inv) : (s.workqueueSubmitWork w 0).2.Inv := by
  have hawake := h.submit_awake (w := w)
  have hasleep : (s.workqueueSubmitWork w 0).2.suspended = true →
      (s.workqueueSubmitWork w 0).2.workCurrent = none ∧
        (s.workqueueSubmitWork w 0).2.lists .work = [] := by
    intro hs
    rw [hawake] at hs
    cases hs
  by_cases hcur : s.workCurrent = some w
  · exact h.effect (effect_submit_busy h.apart hcur) hasleep (h.timerType w) (fun hp => by cases hp)
  · exact h.effect (effect_submit_now h.apart hcur) hasleep (h.timerType w) (fun hp => by cases hp)

theorem Inv.handle (h : s.Inv) (htype : (s.work w).timerType = true) :
    (s.delayedWorkTimeoutHandler w).2.Inv := by
  have hawake := h.handle_awake htype
  have hasleep : (s.delayedWorkTimeoutHandler w).2.suspended = true →
      (s.delayedWorkTimeoutHandler w).2.workCurrent = none ∧
        (s.delayedWorkTimeoutHandler w).2.lists .work = [] := by
    intro hs
    rw [hawake] at hs
    cases hs
  by_cases hcur : s.workCurrent = some w
  · exact h.effect (effect_handle_current h.apart htype hcur) hasleep rfl (fun hp => by cases hp)
  · exact h.effect (effect_handle h.apart htype hcur) hasleep rfl (fun hp => by cases hp)

/-- **Every step keeps the invariant.** -/
theorem Inv.step (h : s.Inv) (hs : s.step a = some r) : r.2.Inv := by
  cases a with
  | submit w ticks =>
    cases hs
    unfold rtWorkqueueSubmitWork
    split
    case isTrue hlt =>
      by_cases hpos : ticks = 0
      · subst hpos
        exact h.submit_now
      -- a delayed item goes into `delayed_list`, so `work_list` has no item more
      · have he := effect_submit_delayed (w := w) h.apart hpos hlt
        obtain ⟨hsub, -, -, -, -, htype⟩ := delay_fields { s.work w with pending := false } ticks
        refine h.effect he (h.still ?_ ?_ he (by simp)) ((htype (h.timerType w)).trans hsub.symm)
          fun _ => hsub
        · unfold workqueueSubmitWork
          rw [if_neg hpos, if_pos hlt]
          rfl
        · unfold workqueueSubmitWork
          rw [if_neg hpos, if_pos hlt]
          rfl
    case isFalse => exact h
  | startCheck w =>
    obtain ⟨-, rfl⟩ := Runs.takeIf_eq_some.1 hs
    unfold startCheck
    dsimp only
    split
    · exact h.setWork rfl rfl rfl rfl rfl rfl
    · exact h.setWork rfl rfl rfl rfl rfl rfl
  | timerStart w =>
    obtain ⟨-, rfl⟩ := Runs.takeIf_eq_some.1 hs
    exact h.setWork rfl rfl rfl rfl rfl rfl
  | urgent w =>
    cases hs
    refine h.effect (effect_urgent h.apart) (fun hs => ?_) (h.timerType w) (fun hp => by cases hp)
    -- whoever puts an item into `work_list` has resumed the work thread
    have hawake : (s.rtWorkqueueUrgentWork w).2.suspended = false := h.awake rfl rfl
    rw [hawake] at hs
    cases hs
  | cancel w =>
    cases hs
    have he := effect_cancel h.apart (w := w)
    obtain ⟨hsub, -, -, -, htype⟩ := cancel_fields { s.work w with pending := false }
    exact h.effect he (h.still rfl rfl he (by simp)) ((htype (h.timerType w)).trans hsub.symm)
      (fun hp => by cases hp)
  | expire w =>
    obtain ⟨-, rfl⟩ := Runs.takeIf_eq_some.1 hs
    exact h.setWork rfl rfl rfl rfl rfl rfl
  | handlerAssert w =>
    obtain ⟨-, rfl⟩ := Runs.takeIf_eq_some.1 hs
    unfold handlerAssert
    split
    · exact ⟨h.apart, h.asleep, h.timerType, h.delayed⟩
    · exact ⟨h.apart, h.asleep, h.timerType, h.delayed⟩
  | handlerSection w =>
    obtain ⟨-, rfl⟩ := Runs.takeIf_eq_some.1 hs
    by_cases htype : (s.work w).timerType = true
    · exact h.handle htype
    · unfold delayedWorkTimeoutHandler
      rw [if_neg htype]
      exact ⟨h.apart, h.asleep, h.timerType, h.delayed⟩
  | take =>
    obtain ⟨⟨hcur, hsus⟩, rfl⟩ := Runs.takeIf_eq_some.1 hs
    dsimp only
    cases hl : s.lists .work with
    | nil =>
      unfold workqueueThreadEntry
      rw [hl]
      -- the work thread suspends itself with no item there
      exact ⟨h.apart, fun _ => ⟨hcur, hl⟩, h.timerType, h.delayed⟩
    | cons w l =>
      refine h.effect (effect_take h.apart hl) (fun hs => ?_) (h.timerType w)
        (fun hp => by cases hp)
      have hsame : s.workqueueThreadEntry.suspended = s.suspended := by
        unfold workqueueThreadEntry
        rw [hl]
        rfl
      rw [hsame, hsus] at hs
      cases hs
  | done =>
    obtain ⟨hcur, rfl⟩ := Runs.takeIf_eq_some.1 hs
    exact ⟨h.apart, fun hs => absurd (h.asleep hs).1 hcur, h.timerType, h.delayed⟩
  | tick =>
    cases hs
    exact ⟨h.apart, h.asleep, h.timerType, h.delayed⟩

/-- A queue that was created has no work. -/
theorem inv_create : Inv rtWorkqueueCreate where
  apart := ⟨fun _ => List.nodup_nil, fun h => by cases h⟩
  asleep h := by cases h
  timerType _ := rfl
  delayed _ h := by cases h

end Steps

end WorkQueue

end RTThread
