import RTThread.Drivers.WorkQueue

/-!
# The places of a work item

A work item is in one list at most, but its flags, its timer and `workqueue` say where it is only
as long as nobody takes it out of `delayed_list` without looking at `SUBMITTING`. Both
`rt_workqueue_urgent_work` and a submission without delay do: the timer keeps running, and its
handler finds the item somewhere else, or `workqueue` cleared by the work thread.

From the section of a submission to the section of the handler the timer counts as running: it is
active, is about to be started, or has just run out.

## Main results

* `workQueue_places` — in every run that meets the condition flags, lists and timers agree, and
  the assertions of the handler hold; and a step that does not meet it makes them disagree.
* `workQueue_misplaced` — a run to a failed assertion of the handler, and one to an item in
  `work_list` whose timer is running.
-/

namespace RTThread

namespace WorkQueue

/-- The flags, the timer and `workqueue` of an item agree with the list it is in. -/
structure WorkOk (s : WorkQueue) (w : WorkId) : Prop where
  pending : (s.work w).pending = true ↔ w ∈ s.lists .work
  submitting : (s.work w).submitting = true ↔ w ∈ s.lists .delayed
  activated : (s.work w).activated = true → (s.work w).submitting = true
  running : (s.work w).submitting = true → s.Running w
  handled : s.Handled w → (s.work w).submitting = true
  workqueue : (s.work w).submitting = true → (s.work w).workqueue = true

/-- Every item is where its fields say, and no assertion of the handler has failed. -/
structure Consistent (s : WorkQueue) : Prop where
  apart : Queues.Apart s.lists
  work : ∀ w, s.WorkOk w
  timerThread : s.timerThread ≠ .stuck

/-- **The condition**: a submission without delay finds `SUBMITTING` not set, an urgent one finds
`PENDING` set, `rt_timer_start` finds `SUBMITTING` still set, and no item is cancelled while its
handler is under way. -/
def Orderly (s : WorkQueue) : WorkQueueAct → Prop
  | .submit w ticks => ticks = 0 → (s.work w).submitting = false
  | .timerStart w => (s.work w).submitting = true
  | .urgent w => (s.work w).pending = true
  | .cancel w => ¬ s.Handled w
  | _ => True

instance (s : WorkQueue) : ∀ a : WorkQueueAct, Decidable (s.Orderly a)
  | .submit w ticks => inferInstanceAs (Decidable (ticks = 0 → (s.work w).submitting = false))
  | .timerStart w => inferInstanceAs (Decidable ((s.work w).submitting = true))
  | .urgent w => inferInstanceAs (Decidable ((s.work w).pending = true))
  | .cancel w => inferInstanceAs (Decidable (¬ s.Handled w))
  | .startCheck _ | .expire _ | .handlerAssert _ | .handlerSection _ | .take | .done | .tick =>
    isTrue trivial

section Places

variable {s s' : WorkQueue} {a : WorkQueueAct} {r : WorkQueueOutcome × WorkQueue} {w u : WorkId}
  {place : Option WorkList} {x : Work} {ticks : Nat}

theorem WorkOk.same (h : s.WorkOk u) (hsame : SameWork s s' u) : s'.WorkOk u := by
  refine ⟨?_, ?_, ?_, ?_, ?_, ?_⟩
  · rw [hsame.work, hsame.mem]
    exact h.pending
  · rw [hsame.work, hsame.mem]
    exact h.submitting
  · rw [hsame.work]
    exact h.activated
  · rw [hsame.work, hsame.running]
    exact h.running
  · rw [hsame.work, hsame.handled]
    exact h.handled
  · rw [hsame.work]
    exact h.workqueue

/-- The item that has moved, when it has no timer running afterwards. -/
theorem Effect.workOk_settled (he : Effect s s' w place x)
    (hpending : x.pending = true ↔ place = some .work) (hplace : place ≠ some .delayed)
    (hsub : x.submitting = false) (hact : x.activated = false) (hhandled : ¬ s'.Handled w) :
    s'.WorkOk w := by
  refine ⟨?_, ?_, ?_, ?_, fun h => absurd h hhandled, ?_⟩
  · rw [he.work_self, he.mem_self]
    exact hpending
  · rw [he.work_self, he.mem_self, hsub]
    exact iff_of_false Bool.false_ne_true hplace
  · rw [he.work_self, hact]
    exact fun h => absurd h Bool.false_ne_true
  · rw [he.work_self, hsub]
    exact fun h => absurd h Bool.false_ne_true
  · rw [he.work_self, hsub]
    exact fun h => absurd h Bool.false_ne_true

theorem WorkOk.settled (h : s.WorkOk w) (hsub : (s.work w).submitting = false) :
    (s.work w).activated = false ∧ ¬ s.Handled w := by
  have hnot : ¬ (s.work w).submitting = true := by simp [hsub]
  refine ⟨?_, fun hh => hnot (h.handled hh)⟩
  rw [← Bool.not_eq_true]
  exact fun hact => hnot (h.activated hact)

theorem WorkOk.not_submitting (h : s.WorkOk w) (hapart : Queues.Apart s.lists)
    (hw : w ∈ s.lists .work) : (s.work w).submitting = false := by
  rw [← Bool.not_eq_true, h.submitting]
  intro hd
  cases hapart.same hw hd

/-- Only fields of the item change. -/
theorem WorkOk.setWork (h : s.WorkOk w) (hlists : s'.lists = s.lists)
    (hwork : s'.work = Function.update s.work w x) (hpending : x.pending = (s.work w).pending)
    (hsub : x.submitting = (s.work w).submitting) (hqueue : x.workqueue = (s.work w).workqueue)
    (hact : x.activated = true → (s.work w).submitting = true)
    (hrunning : (s.work w).submitting = true → s'.Running w)
    (hhandled : s'.Handled w → (s.work w).submitting = true) : s'.WorkOk w := by
  have hw : s'.work w = x := by rw [hwork, Function.update_self]
  refine ⟨?_, ?_, ?_, ?_, ?_, ?_⟩
  · rw [hw, hpending, hlists]
    exact h.pending
  · rw [hw, hsub, hlists]
    exact h.submitting
  · rw [hw, hsub]
    exact hact
  · rw [hw, hsub]
    exact hrunning
  · rw [hw, hsub]
    exact hhandled
  · rw [hw, hsub, hqueue]
    exact h.workqueue

/-- A submission, which finds `SUBMITTING` not set if it has no delay. -/
theorem WorkOk.submit (h : s.WorkOk w) (hapart : Queues.Apart s.lists)
    (hok : s.Orderly (.submit w ticks)) : (s.rtWorkqueueSubmitWork w ticks).2.WorkOk w := by
  have hhandled : (s.rtWorkqueueSubmitWork w ticks).2.Handled w ↔ s.Handled w :=
    handled_congr (submit_timerThread s w ticks)
  unfold rtWorkqueueSubmitWork at hhandled ⊢
  by_cases hlt : ticks < rtTickMax / 2
  · rw [if_pos hlt] at hhandled ⊢
    by_cases hpos : ticks = 0
    · subst hpos
      -- without delay: no timer was running, and none is
      have hsub : (s.work w).submitting = false := hok rfl
      obtain ⟨hact, hnot⟩ := h.settled hsub
      have hnot' := mt hhandled.1 hnot
      by_cases hcur : s.workCurrent = some w
      · exact (effect_submit_busy hapart hcur).workOk_settled (by simp) (by simp) hsub hact hnot'
      · exact (effect_submit_now hapart hcur).workOk_settled (by simp) (by simp) hsub hact hnot'
    -- with a delay: the timer is about to be started
    · have he := effect_submit_delayed (w := w) hapart hpos hlt
      obtain ⟨hsub, hpending, hact, hqueue, hstarting, -⟩ :=
        delay_fields { s.work w with pending := false } ticks
      refine ⟨?_, ?_, ?_, fun _ => ?_, fun _ => ?_, fun _ => ?_⟩
      · rw [he.work_self, he.mem_self, hpending]
        simp
      · rw [he.work_self, he.mem_self]
        exact iff_of_true hsub rfl
      · rw [he.work_self, hact]
        exact fun h => absurd h Bool.false_ne_true
      · unfold Running
        rw [he.work_self]
        exact Or.inr (Or.inl hstarting)
      · rw [he.work_self]
        exact hsub
      · rw [he.work_self]
        exact hqueue
  · rw [if_neg hlt]
    exact h

/-- **The item of an action** is where its fields say, under the condition. -/
theorem Consistent.item (h : s.Consistent) (hinv : s.Inv) (hok : s.Orderly a)
    (hs : s.step a = some r) (hw : s.item a = some w) : r.2.WorkOk w := by
  have hapart := h.apart
  have hworkOk := h.work w
  cases a with
  | submit w ticks =>
    cases hw
    cases hs
    exact hworkOk.submit hapart hok
  | startCheck w =>
    cases hw
    obtain ⟨hstarting, rfl⟩ := Runs.takeIf_eq_some.1 hs
    unfold startCheck
    dsimp only
    by_cases htype : (s.work w).timerType = true
    · rw [if_pos htype]
      refine hworkOk.setWork rfl rfl rfl rfl rfl hworkOk.activated (fun _ => ?_) hworkOk.handled
      refine Or.inr (Or.inr (Or.inl ?_))
      show 0 < (Function.update s.work w _ w).checked
      rw [Function.update_self]
      exact Nat.succ_pos _
    · rw [if_neg htype]
      -- no timer object, so `SUBMITTING` is not set and nothing is running
      rw [hinv.timerType] at htype
      exact hworkOk.setWork rfl rfl rfl rfl rfl hworkOk.activated (fun hsub => absurd hsub htype)
        hworkOk.handled
  | timerStart w =>
    cases hw
    obtain ⟨-, rfl⟩ := Runs.takeIf_eq_some.1 hs
    refine hworkOk.setWork rfl rfl rfl rfl rfl (fun _ => hok) (fun _ => Or.inl ?_) fun _ => hok
    show (Function.update s.work w _ w).activated = true
    rw [Function.update_self]
    rfl
  | urgent w =>
    cases hw
    cases hs
    have hpending : (s.work w).pending = true := hok
    -- `PENDING` is set: the item only moves to the front of `work_list`
    have hsub := hworkOk.not_submitting hapart (hworkOk.pending.1 hpending)
    obtain ⟨hact, hnot⟩ := hworkOk.settled hsub
    refine (effect_urgent hapart).workOk_settled (iff_of_true hpending rfl) (by simp) hsub hact ?_
    exact mt (handled_congr (resumeThread_fields _).2.2.1).1 hnot
  | cancel w =>
    cases hw
    cases hs
    obtain ⟨hsub, hpending, hact, -⟩ := cancel_fields { s.work w with pending := false }
    refine (effect_cancel hapart).workOk_settled ?_ (by simp) hsub ?_ hok
    · rw [hpending]
      simp
    · rw [← Bool.not_eq_true]
      intro hact'
      obtain ⟨hsub', hact'⟩ := hact hact'
      have hset := hworkOk.activated hact'
      rw [show (s.work w).submitting = false from hsub'] at hset
      cases hset
  | expire w =>
    cases hw
    obtain ⟨⟨-, hact, -⟩, rfl⟩ := Runs.takeIf_eq_some.1 hs
    -- the timer was active, and from now on counts as running in the timer thread
    have hsub := hworkOk.activated hact
    exact hworkOk.setWork rfl rfl rfl rfl rfl (fun h => by cases h)
      (fun _ => Or.inr (Or.inr (Or.inr (Or.inl rfl)))) fun _ => hsub
  | handlerAssert w =>
    cases hw
    obtain ⟨hexpired, rfl⟩ := Runs.takeIf_eq_some.1 hs
    have hsub := hworkOk.handled (Or.inl hexpired)
    unfold handlerAssert
    rw [if_pos (hworkOk.workqueue hsub)]
    exact hworkOk.setWork rfl (Function.update_eq_self w s.work).symm rfl rfl rfl
      hworkOk.activated (fun _ => Or.inr (Or.inr (Or.inr (Or.inr rfl)))) fun _ => hsub
  | handlerSection w =>
    cases hw
    obtain ⟨hpassed, rfl⟩ := Runs.takeIf_eq_some.1 hs
    -- the item is still in `delayed_list`, so its timer is an object
    have htype : (s.work w).timerType = true := by
      rw [hinv.timerType]
      exact hworkOk.handled (Or.inr hpassed)
    have hnot : ¬ (s.delayedWorkTimeoutHandler w).2.Handled w := by
      unfold Handled
      rw [handle_timerThread htype]
      simp
    by_cases hcur : s.workCurrent = some w
    -- it cannot be in `work_list` at the same time
    · have hpending : (s.work w).pending = false := by
        rw [← Bool.not_eq_true, hworkOk.pending]
        intro hmem
        have hsub := hworkOk.not_submitting hapart hmem
        rw [← hinv.timerType, htype] at hsub
        cases hsub
      refine (effect_handle_current hapart htype hcur).workOk_settled ?_ (by simp) rfl rfl hnot
      exact iff_of_false (by simp [Work.rtTimerDetach, hpending]) (by simp)
    · exact (effect_handle hapart htype hcur).workOk_settled (iff_of_true rfl rfl) (by simp) rfl
        rfl hnot
  | take =>
    obtain ⟨-, rfl⟩ := Runs.takeIf_eq_some.1 hs
    obtain ⟨l, hl⟩ : ∃ l, s.lists .work = w :: l := List.head?_eq_some_iff.1 hw
    have hmem : w ∈ s.lists .work := Queues.head_mem hl
    have hsub := hworkOk.not_submitting hapart hmem
    obtain ⟨hact, hnot⟩ := hworkOk.settled hsub
    refine (effect_take hapart hl).workOk_settled (by simp) (by simp) hsub hact
      (mt (handled_congr ?_).1 hnot)
    unfold workqueueThreadEntry
    rw [hl]
    rfl
  | done => cases hw
  | tick => cases hw

/-- **Every step keeps the items where their fields say**, under the condition. -/
theorem Consistent.step (h : s.Consistent) (hinv : s.Inv) (hok : s.Orderly a)
    (hs : s.step a = some r) : r.2.Consistent := by
  refine ⟨(hinv.step hs).apart, fun u => ?_, fun hstuck => ?_⟩
  · by_cases hu : s.item a = some u
    · exact h.item hinv hok hs hu
    · exact (h.work u).same (step_same h.apart hs hu)
  -- neither assertion of the handler can fail
  · rcases stuck_of_step hs h.timerThread hstuck with ⟨w, rfl, hqueue⟩ | ⟨w, rfl, htype⟩
    · obtain ⟨hexpired, -⟩ := Runs.takeIf_eq_some.1 hs
      rw [(h.work w).workqueue ((h.work w).handled (Or.inl hexpired))] at hqueue
      cases hqueue
    · obtain ⟨hpassed, -⟩ := Runs.takeIf_eq_some.1 hs
      rw [hinv.timerType, (h.work w).handled (Or.inr hpassed)] at htype
      cases htype

/-- **A step that does not meet the condition** makes an item disagree. -/
theorem Inv.misplaced (hinv : s.Inv) (hok : ¬ s.Orderly a) (hs : s.step a = some r) :
    ¬ r.2.Consistent := by
  intro h
  cases a with
  | submit w ticks =>
    cases hs
    obtain ⟨rfl, hset⟩ : ticks = 0 ∧ (s.work w).submitting = true := by
      simpa [Orderly] using hok
    -- the item is not in `delayed_list` any more
    have hnot : ¬ (s.workqueueSubmitWork w 0).2.WorkOk w := by
      intro hw
      by_cases hcur : s.workCurrent = some w
      · have he := effect_submit_busy hinv.apart hcur
        have hmem := hw.submitting.1 (by rw [he.work_self]; exact hset)
        cases (he.mem_self _).1 hmem
      · have he := effect_submit_now hinv.apart hcur
        have hmem := hw.submitting.1 (by rw [he.work_self]; exact hset)
        cases (he.mem_self _).1 hmem
    exact hnot (h.work w)
  | timerStart w =>
    obtain ⟨-, rfl⟩ := Runs.takeIf_eq_some.1 hs
    -- the timer is active now, with `SUBMITTING` not set
    have hset := (h.work w).activated (by
      show (Function.update s.work w _ w).activated = true
      rw [Function.update_self]
      rfl)
    refine hok ?_
    rw [show (s.timerStart w).2.work w = _ from Function.update_self _ _ _] at hset
    exact hset
  | urgent w =>
    cases hs
    have he := effect_urgent (w := w) hinv.apart
    -- the item is in `work_list` now, with `PENDING` not set
    have hset := (h.work w).pending.2 ((he.mem_self _).2 rfl)
    rw [he.work_self] at hset
    exact hok hset
  | cancel w =>
    cases hs
    have he := effect_cancel (w := w) hinv.apart
    -- the handler goes on, with `SUBMITTING` cleared
    have hhandled : s.Handled w := not_not.1 hok
    have hset := (h.work w).handled hhandled
    rw [he.work_self, (cancel_fields _).1] at hset
    cases hset
  | startCheck w => exact hok trivial
  | expire w => exact hok trivial
  | handlerAssert w => exact hok trivial
  | handlerSection w => exact hok trivial
  | take => exact hok trivial
  | done => exact hok trivial
  | tick => exact hok trivial

theorem consistent_create : Consistent rtWorkqueueCreate where
  apart := inv_create.apart
  work w :=
    { pending := iff_of_false Bool.false_ne_true List.not_mem_nil
      submitting := iff_of_false Bool.false_ne_true List.not_mem_nil
      activated := fun h => by cases h
      running := fun h => by cases h
      handled := fun h => by rcases h with h | h <;> cases h
      workqueue := fun h => by cases h }
  timerThread h := by cases h

end Places

/-- **The places of the work items.** In every run that meets the condition an item is in one list
at most, `PENDING` is set just for the items in `work_list` and `SUBMITTING` for those in
`delayed_list`, which are those with a running timer and have `workqueue` set, so that no
assertion of the handler fails. A step that does not meet the condition leads to a state in which
this does not hold. -/
theorem workQueue_places {s : WorkQueue}
    (hrun : Runs (Runs.Exec exec) Orderly rtWorkqueueCreate s) :
    s.Consistent ∧
    (∀ w, (s.work w).starting = 0 → (s.work w).checked = 0 → ¬ s.Handled w →
      ((s.work w).activated = true ↔ (s.work w).submitting = true)) ∧
    (∀ w r, s.step (.handlerAssert w) = some r → r.1 ≠ .assertFails) ∧
    ∀ a s', ¬ s.Orderly a → s.exec a = some s' → ¬ s'.Consistent := by
  obtain ⟨hinv, h⟩ : s.Inv ∧ s.Consistent := by
    refine @Runs.invariant _ _ _ _ _ _ (fun s : WorkQueue => s.Inv ∧ s.Consistent) ?_ hrun
      ⟨inv_create, consistent_create⟩
    rintro s₁ a s₂ ⟨hinv, hcons⟩ hok hs
    obtain ⟨r, hr, rfl⟩ := Option.map_eq_some_iff.1 hs
    exact ⟨hinv.step hr, hcons.step hinv hok hr⟩
  refine ⟨h, fun w hstarting hchecked hhandled => ⟨(h.work w).activated, fun hsub => ?_⟩, ?_, ?_⟩
  · rcases (h.work w).running hsub with hact | hpos | hpos | hh
    · exact hact
    · omega
    · omega
    · exact absurd hh hhandled
  · intro w r hs
    obtain ⟨hexpired, rfl⟩ := Runs.takeIf_eq_some.1 hs
    unfold handlerAssert
    rw [if_pos ((h.work w).workqueue ((h.work w).handled (Or.inl hexpired)))]
    exact fun he => by cases he
  · intro a s' hok hs
    obtain ⟨r, hr, rfl⟩ := Option.map_eq_some_iff.1 hs
    exact hinv.misplaced hok hr

/-- An item is submitted with a delay, its timer runs out, and the work thread takes it. -/
def delayedThenTaken : List WorkQueueAct :=
  [.submit 1 2, .startCheck 1, .timerStart 1, .tick, .tick, .expire 1, .handlerAssert 1,
    .handlerSection 1, .take, .submit 2 7, .done]

theorem workQueue_places_delayed :
    ∃ s, Runs (Runs.Exec exec) Orderly rtWorkqueueCreate s ∧ s.Consistent ∧
      s.lists .delayed = [2] ∧ s.workCurrent = none := by
  obtain ⟨s, -, hrun, hend⟩ := @Runs.exec_of_replay _ _ Orderly rtWorkqueueCreate exec _
    delayedThenTaken (fun s => decide (s.lists .delayed = [2] ∧ s.workCurrent = none))
    (by decide +kernel)
  exact ⟨s, hrun, (workQueue_places hrun).1, of_decide_eq_true hend⟩

/-- A delayed item is made urgent, and the work thread takes it before its timer runs out. -/
def urgentThenTaken : List WorkQueueAct :=
  [.submit 1 2, .startCheck 1, .timerStart 1, .urgent 1, .take, .tick, .tick, .expire 1,
    .handlerAssert 1]

/-- A delayed item is submitted again, without delay. -/
def delayedThenNow : List WorkQueueAct :=
  [.submit 1 2, .startCheck 1, .timerStart 1, .submit 1 0]

/-- **Items come to be misplaced**: the assertion of the handler fails, and an item in `work_list`
has `SUBMITTING` set and its timer running. -/
theorem workQueue_misplaced :
    (∃ s, Runs (Runs.Exec exec) Runs.always rtWorkqueueCreate s ∧ s.timerThread = .stuck) ∧
    ∃ s, Runs (Runs.Exec exec) Runs.always rtWorkqueueCreate s ∧ 1 ∈ s.lists .work ∧
      (s.work 1).submitting = true ∧ (s.work 1).activated = true ∧ 1 ∉ s.lists .delayed := by
  constructor
  · obtain ⟨s, -, hrun, hend⟩ := @Runs.exec_of_replay _ _ Runs.always rtWorkqueueCreate exec _
      urgentThenTaken (fun s => decide (s.timerThread = .stuck)) (by decide +kernel)
    exact ⟨s, hrun, of_decide_eq_true hend⟩
  · obtain ⟨s, -, hrun, hend⟩ := @Runs.exec_of_replay _ _ Runs.always rtWorkqueueCreate exec _
      delayedThenNow (fun s => decide (1 ∈ s.lists .work ∧ (s.work 1).submitting = true ∧
        (s.work 1).activated = true ∧ 1 ∉ s.lists .delayed)) (by decide +kernel)
    exact ⟨s, hrun, of_decide_eq_true hend⟩

end WorkQueue

end RTThread
