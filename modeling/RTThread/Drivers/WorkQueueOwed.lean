import RTThread.Drivers.WorkQueue

/-!
# Accepted work

A submission that is accepted owes an execution until the work thread takes the item or it is
cancelled. The handler of a delayed item drops it if the item is the one being executed, although
the submission may have been accepted since the work thread took it; and a submission without
delay takes an item that is being executed out of `delayed_list` and returns `-RT_EBUSY`.

## Main results

* `workQueue_executes` — in every run that meets the condition an accepted item is in `work_list`,
  and the work thread is awake, or it is in `delayed_list` with its timer running; and the two
  steps that drop an item.
* `workQueue_drops` — a run in which a delayed item is dropped.
-/

namespace RTThread

namespace WorkQueue

/-- An item that is owed is in one of the lists, and an active timer is one of a submission. -/
structure OwedOk (s : WorkQueue) (w : WorkId) : Prop where
  owed : (s.work w).owed = true →
    w ∈ s.lists .work ∨ (w ∈ s.lists .delayed ∧ s.Running w)
  activated : (s.work w).activated = true → (s.work w).submitting = true

/-- The item is being executed, and a further submission has been accepted since. -/
def OwedCurrent (s : WorkQueue) (w : WorkId) : Prop :=
  s.workCurrent = some w ∧ (s.work w).owed = true

instance (s : WorkQueue) (w : WorkId) : Decidable (s.OwedCurrent w) := by
  unfold OwedCurrent
  infer_instance

/-- **The condition**: no submission without delay and no handler comes upon an item that is
being executed and owed; the assertions of the handler hold; and `rt_timer_start` finds
`SUBMITTING` still set. -/
def Keeps (s : WorkQueue) : WorkQueueAct → Prop
  | .submit w ticks => ticks = 0 → ¬ s.OwedCurrent w
  | .timerStart w => (s.work w).submitting = true
  | .handlerAssert w => (s.work w).workqueue = true
  | .handlerSection w => (s.work w).timerType = true ∧ ¬ s.OwedCurrent w
  | _ => True

instance (s : WorkQueue) (a : WorkQueueAct) : Decidable (s.Keeps a) := by
  unfold Keeps
  split <;> infer_instance

section Owed

variable {s s' : WorkQueue} {a : WorkQueueAct} {r : WorkQueueOutcome × WorkQueue} {w u : WorkId}
  {place : Option WorkList} {x : Work} {ticks : Nat}

theorem OwedOk.same (h : s.OwedOk u) (hsame : SameWork s s' u) : s'.OwedOk u := by
  refine ⟨?_, ?_⟩
  · rw [hsame.work, hsame.mem, hsame.mem, hsame.running]
    exact h.owed
  · rw [hsame.work]
    exact h.activated

theorem Effect.owedOk (he : Effect s s' w place x)
    (howed : x.owed = true → place = some .work)
    (hact : x.activated = true → x.submitting = true) : s'.OwedOk w := by
  refine ⟨?_, ?_⟩
  · rw [he.work_self, he.mem_self]
    exact fun h => Or.inl (howed h)
  · rw [he.work_self]
    exact hact

theorem OwedOk.submit (h : s.OwedOk w) (hapart : Queues.Apart s.lists)
    (hok : s.Keeps (.submit w ticks)) : (s.rtWorkqueueSubmitWork w ticks).2.OwedOk w := by
  unfold rtWorkqueueSubmitWork
  by_cases hlt : ticks < rtTickMax / 2
  · rw [if_pos hlt]
    by_cases hpos : ticks = 0
    · subst hpos
      -- an item that is being executed is refused, but nothing was owed to it
      by_cases hcur : s.workCurrent = some w
      · exact (effect_submit_busy hapart hcur).owedOk (fun howed => absurd ⟨hcur, howed⟩ (hok rfl))
          h.activated
      · exact (effect_submit_now hapart hcur).owedOk (fun _ => rfl) h.activated
    · have he := effect_submit_delayed (w := w) hapart hpos hlt
      obtain ⟨hsub, -, -, -, hstarting, -⟩ :=
        delay_fields { s.work w with pending := false } ticks
      refine ⟨fun _ => Or.inr ⟨(he.mem_self _).2 rfl, ?_⟩, fun _ => ?_⟩
      · unfold Running
        rw [he.work_self]
        exact Or.inr (Or.inl hstarting)
      · rw [he.work_self]
        exact hsub
  · rw [if_neg hlt]
    exact h

theorem OwedOk.setWork (h : s.OwedOk w) (hlists : s'.lists = s.lists)
    (hwork : s'.work = Function.update s.work w x) (howed : x.owed = (s.work w).owed)
    (hact : x.activated = true → x.submitting = true)
    (hrunning : w ∈ s.lists .delayed → s'.Running w) : s'.OwedOk w := by
  have hw : s'.work w = x := by rw [hwork, Function.update_self]
  refine ⟨?_, ?_⟩
  · rw [hw, howed, hlists]
    exact fun ho => (h.owed ho).imp_right fun hd => ⟨hd.1, hrunning hd.1⟩
  · rw [hw]
    exact hact

/-- **The item of an action** is not dropped, under the condition. -/
theorem OwedOk.item (h : s.OwedOk w) (hinv : s.Inv) (hok : s.Keeps a)
    (hs : s.step a = some r) (hw : s.item a = some w) : r.2.OwedOk w := by
  have hapart := hinv.apart
  cases a with
  | submit w ticks =>
    cases hw
    cases hs
    exact h.submit hapart hok
  | startCheck w =>
    cases hw
    obtain ⟨-, rfl⟩ := Runs.takeIf_eq_some.1 hs
    unfold startCheck
    dsimp only
    by_cases htype : (s.work w).timerType = true
    · rw [if_pos htype]
      refine h.setWork rfl rfl rfl h.activated fun _ => Or.inr (Or.inr (Or.inl ?_))
      show 0 < (Function.update s.work w _ w).checked
      rw [Function.update_self]
      exact Nat.succ_pos _
    · -- the item has left `delayed_list`
      rw [if_neg htype]
      rw [hinv.timerType] at htype
      exact h.setWork rfl rfl rfl h.activated fun hd => absurd (hinv.delayed w hd) htype
  | timerStart w =>
    cases hw
    obtain ⟨-, rfl⟩ := Runs.takeIf_eq_some.1 hs
    -- the timer runs, with `SUBMITTING` still set
    refine h.setWork rfl rfl rfl (fun _ => hok) fun _ => Or.inl ?_
    show (Function.update s.work w _ w).activated = true
    rw [Function.update_self]
    rfl
  | urgent w =>
    cases hw
    cases hs
    exact (effect_urgent hapart).owedOk (fun _ => rfl) h.activated
  | cancel w =>
    cases hw
    cases hs
    obtain ⟨-, -, hact, howed, -⟩ := cancel_fields { s.work w with pending := false }
    refine (effect_cancel hapart).owedOk (fun ho => ?_) fun hact' => ?_
    · rw [howed] at ho
      cases ho
    · obtain ⟨hsub, hact'⟩ := hact hact'
      -- a timer that stays active belongs to an item that is not cancelled
      have hset := h.activated hact'
      rw [show (s.work w).submitting = false from hsub] at hset
      cases hset
  | expire w =>
    cases hw
    obtain ⟨-, rfl⟩ := Runs.takeIf_eq_some.1 hs
    exact h.setWork rfl rfl rfl (fun hact => by cases hact)
      fun _ => Or.inr (Or.inr (Or.inr (Or.inl rfl)))
  | handlerAssert w =>
    cases hw
    obtain ⟨-, rfl⟩ := Runs.takeIf_eq_some.1 hs
    have hqueue : (s.work w).workqueue = true := hok
    unfold handlerAssert
    rw [if_pos hqueue]
    exact h.setWork rfl (Function.update_eq_self w s.work).symm rfl h.activated
      fun _ => Or.inr (Or.inr (Or.inr (Or.inr rfl)))
  | handlerSection w =>
    cases hw
    obtain ⟨-, rfl⟩ := Runs.takeIf_eq_some.1 hs
    obtain ⟨htype, hnot⟩ := hok
    -- the handler drops an item that is being executed, to which nothing was owed
    by_cases hcur : s.workCurrent = some w
    · exact (effect_handle_current hapart htype hcur).owedOk
        (fun howed => absurd ⟨hcur, howed⟩ hnot) fun hact => by cases hact
    · exact (effect_handle hapart htype hcur).owedOk (fun _ => rfl) fun hact => by cases hact
  | take =>
    obtain ⟨-, rfl⟩ := Runs.takeIf_eq_some.1 hs
    obtain ⟨l, hl⟩ : ∃ l, s.lists .work = w :: l := List.head?_eq_some_iff.1 hw
    exact (effect_take hapart hl).owedOk (fun howed => by cases howed) h.activated
  | done => cases hw
  | tick => cases hw

/-- **A submission without delay** drops an item that is being executed and owed. -/
theorem Inv.submit_drops (hinv : s.Inv) (hw : s.OwedCurrent w)
    (hs : s.exec (.submit w 0) = some s') : (s'.work w).owed = true ∧ ∀ q, w ∉ s'.lists q := by
  obtain ⟨r, hr, rfl⟩ := Option.map_eq_some_iff.1 hs
  cases hr
  have he := effect_submit_busy hinv.apart hw.1
  refine ⟨?_, fun q hmem => ?_⟩
  · rw [show (s.rtWorkqueueSubmitWork w 0).2.work w = _ from he.work_self]
    exact hw.2
  · cases (he.mem_self q).1 hmem

/-- **The handler** drops an item that is being executed and owed, and the timer does not run any
more. -/
theorem Inv.handler_drops (hinv : s.Inv) (hw : s.OwedCurrent w)
    (htype : (s.work w).timerType = true) (hs : s.exec (.handlerSection w) = some s') :
    (s'.work w).owed = true ∧ (∀ q, w ∉ s'.lists q) ∧ (s'.work w).activated = false := by
  obtain ⟨r, hr, rfl⟩ := Option.map_eq_some_iff.1 hs
  obtain ⟨-, rfl⟩ := Runs.takeIf_eq_some.1 hr
  have he := effect_handle_current hinv.apart htype hw.1
  refine ⟨?_, fun q hmem => ?_, ?_⟩
  · rw [he.work_self]
    exact hw.2
  · cases (he.mem_self q).1 hmem
  · rw [he.work_self]
    rfl

end Owed

/-- **Accepted work.** In every run that meets the condition an item with an accepted submission,
until the work thread takes it or it is cancelled, is in `work_list` and the work thread is awake,
or it is in `delayed_list` with its timer running; and the timer thread has not failed an
assertion. A submission without delay and a handler that do not meet the condition leave an
accepted item in no list. -/
theorem workQueue_executes {s : WorkQueue}
    (hrun : Runs (Runs.Exec exec) Keeps rtWorkqueueCreate s) :
    (∀ w, (s.work w).owed = true →
      (w ∈ s.lists .work ∧ s.suspended = false) ∨ (w ∈ s.lists .delayed ∧ s.Running w)) ∧
    s.timerThread ≠ .stuck ∧
    (∀ w s', s.OwedCurrent w → s.exec (.submit w 0) = some s' →
      (s'.work w).owed = true ∧ ∀ q, w ∉ s'.lists q) ∧
    ∀ w s', s.OwedCurrent w → (s.work w).timerType = true →
      s.exec (.handlerSection w) = some s' →
      (s'.work w).owed = true ∧ (∀ q, w ∉ s'.lists q) ∧ (s'.work w).activated = false := by
  have hinit : Inv rtWorkqueueCreate ∧ (∀ w, OwedOk rtWorkqueueCreate w) ∧
      rtWorkqueueCreate.timerThread ≠ .stuck :=
    ⟨inv_create, fun w => ⟨(fun h => by cases h), fun h => by cases h⟩, fun h => by cases h⟩
  obtain ⟨hinv, h, hthread⟩ : s.Inv ∧ (∀ w, s.OwedOk w) ∧ s.timerThread ≠ .stuck := by
    refine @Runs.invariant _ _ _ _ _ _
      (fun s : WorkQueue => s.Inv ∧ (∀ w, s.OwedOk w) ∧ s.timerThread ≠ .stuck) ?_ hrun hinit
    rintro s₁ a s₂ ⟨hinv, howed, hthread⟩ hok hs
    obtain ⟨r, hr, rfl⟩ := Option.map_eq_some_iff.1 hs
    refine ⟨hinv.step hr, fun u => ?_, fun hstuck => ?_⟩
    · by_cases hu : s₁.item a = some u
      · exact (howed u).item hinv hok hr hu
      · exact (howed u).same (step_same hinv.apart hr hu)
    -- an assertion that fails is against the condition
    · rcases stuck_of_step hr hthread hstuck with ⟨w, rfl, hqueue⟩ | ⟨w, rfl, htype⟩
      · rw [show (s₁.work w).workqueue = true from hok] at hqueue
        cases hqueue
      · rw [show (s₁.work w).timerType = true from hok.1] at htype
        cases htype
  refine ⟨fun w howed => ?_, hthread, fun w s' hw hs => hinv.submit_drops hw hs,
    fun w s' hw htype hs => hinv.handler_drops hw htype hs⟩
  refine ((h w).owed howed).imp_left fun hw => ⟨hw, ?_⟩
  -- a suspended work thread has an empty list
  rw [← Bool.not_eq_true]
  intro hsus
  rw [(hinv.asleep hsus).2] at hw
  cases hw

/-- An item is submitted again, with a delay, while it is being executed, and its timer runs out
behind that. -/
def delayedWhileCurrent : List WorkQueueAct :=
  [.submit 1 0, .take, .submit 1 2, .startCheck 1, .timerStart 1, .tick, .done, .take, .tick,
    .expire 1, .handlerAssert 1, .handlerSection 1]

theorem workQueue_executes_again :
    ∃ s, Runs (Runs.Exec exec) Keeps rtWorkqueueCreate s ∧ 1 ∈ s.lists .work ∧
      s.suspended = false := by
  obtain ⟨s, -, hrun, hend⟩ := @Runs.exec_of_replay _ _ Keeps rtWorkqueueCreate exec _
    delayedWhileCurrent (fun s => decide ((s.work 1).owed = true ∧ 1 ∉ s.lists .delayed))
    (by decide +kernel)
  obtain ⟨howed, hnot⟩ := of_decide_eq_true hend
  exact ⟨s, hrun, ((workQueue_executes hrun).1 1 howed).resolve_right fun h => hnot h.1⟩

/-- The timer runs out while the item is still being executed. -/
def expiredWhileCurrent : List WorkQueueAct :=
  [.submit 1 0, .take, .submit 1 2, .startCheck 1, .timerStart 1, .tick, .tick, .expire 1,
    .handlerAssert 1, .handlerSection 1, .done]

/-- **An accepted item is dropped**: it is owed, but it is in no list, its timer is not running
and it is not being executed. -/
theorem workQueue_drops :
    ∃ s, Runs (Runs.Exec exec) Runs.always rtWorkqueueCreate s ∧ (s.work 1).owed = true ∧
      (∀ q, 1 ∉ s.lists q) ∧ ¬ s.Running 1 ∧ s.workCurrent = none := by
  obtain ⟨s, -, hrun, hend⟩ := @Runs.exec_of_replay _ _ Runs.always rtWorkqueueCreate exec _
    expiredWhileCurrent (fun s => decide ((s.work 1).owed = true ∧ s.lists .work = [] ∧
      s.lists .delayed = [] ∧ ¬ s.Running 1 ∧ s.workCurrent = none)) (by decide +kernel)
  obtain ⟨howed, hwork, hdelayed, hrunning, hcur⟩ := of_decide_eq_true hend
  refine ⟨s, hrun, howed, fun q => ?_, hrunning, hcur⟩
  cases q with
  | work => simp [hwork]
  | delayed => simp [hdelayed]

end WorkQueue

end RTThread
