import RTThread.Kernel.Priorities

/-!
# Preemption

While a thread runs outside the kernel, no thread that is ready is more urgent: whoever makes a
thread ready, or lets interrupts do so, calls `rt_schedule` before the running thread goes on.
Two calls change priorities without it. The last `rt_mutex_release` of a mutex nobody waits for
may lower its thread below one that is ready, and `RT_THREAD_CTRL_CHANGE_PRIORITY` may lower the
running thread or raise a ready one. `KeepsUrgent` says of an action that it does neither.

## Main results

* `running_most_urgent` — in every run without these steps a call that returns leaves no ready
  thread more urgent than the running one.
* `released_less_urgent` — `rt_mutex_release` returns to a thread that is no longer the most
  urgent one.
-/

namespace RTThread

variable {cfg : SchedCfg} {idle : ThreadId}

/-- The scheduler has picked a most urgent thread when it was started. -/
structure Kernel.Started (cfg : SchedCfg) (idle : ThreadId) (s : Kernel) : Prop
    extends s.Booted cfg idle where
  urgent : s.sys.Urgent

/-- `rt_schedule` is on its way, or is not needed. -/
def Kernel.Preempts (s : Kernel) : Prop :=
  s.pending = true ∨ s.sys.lockNest ≠ 0 ∨
    (∃ t k, s.sys.current = some t ∧ s.pc t = .schedule k) ∨ s.sys.Urgent

/-- The action lets no thread that is ready be more urgent than the running one. -/
def KeepsUrgent (s : Kernel) : KernelAct → Prop
  | .mutexRelease t m =>
    s.sys.lockNest = 0 → s.LastRelease t m → s.waiters (.mutex m) = [] →
      -- the priority given back is urgent enough
      ∀ u, (s.sys.thread u).stat = .ready → (s.mutex m).originalPriority ≤ s.priority u
  | .control t u p =>
    s.sys.lockNest = 0 →
      (u = t → ∀ v, (s.sys.thread v).stat = .ready → p ≤ s.priority v) ∧
        ((s.sys.thread u).stat = .ready → s.priority t ≤ p)
  | _ => True

section Step

variable {s s' : Kernel} {a : KernelAct} {t u : ThreadId} {m : Nat}

/-- Outside the kernel an unlocked thread is a most urgent one. -/
theorem Kernel.Preempts.at_run (hp : s.Preempts) (hat : s.At t .run) (hlock : s.sys.lockNest = 0) :
    s.sys.Urgent := by
  rcases hp with hpend | hnest | ⟨v, k, hcur, hpc⟩ | hurgent
  · rw [hat.settled] at hpend
    cases hpend
  · exact absurd hlock hnest
  · rw [hat.current, Option.some.injEq] at hcur
    subst hcur
    rw [hat.pc] at hpc
    cases hpc
  · exact hurgent

theorem Kernel.Preempts.of_schedule {k : Cont} (hcur : s.sys.current = some t)
    (hpc : s.pc t = .schedule k) : s.Preempts :=
  Or.inr (Or.inr (Or.inl ⟨t, k, hcur, hpc⟩))

theorem Kernel.Preempts.goSchedule {c : Option ThreadId} (hc : s.Caller c)
    (hcur : s'.sys.current = s.sys.current) : (s'.goSchedule c).Preempts := by
  cases c with
  | none => exact Or.inl rfl
  | some t =>
    exact Kernel.Preempts.of_schedule (hcur.trans hc.current) (Kernel.setPc_self t _)

theorem Kernel.Preempts.scheduled {sys : Sys} (h : BlockInv cfg idle sys s.pc)
    (hs : s'.sys = rtSchedule cfg sys) : s'.Preempts := by
  obtain ⟨cur, hcur⟩ := h.current
  by_cases hlock : sys.lockNest = 0
  · refine Or.inr (Or.inr (Or.inr ?_))
    rw [hs]
    exact h.sched.schedule_urgent hlock hcur
  · refine Or.inr (Or.inl ?_)
    rw [hs, h.sched.schedule_lockNest]
    exact hlock

/-- Nothing changes but the contents of the objects and the errors. -/
theorem Kernel.Preempts.same (hp : s.Preempts) (hpend : s'.pending = s.pending)
    (hpc : s'.pc = s.pc) (hlock : s'.sys.lockNest = s.sys.lockNest)
    (hcur : s'.sys.current = s.sys.current)
    (hstat : ∀ u, (s'.sys.thread u).stat = (s.sys.thread u).stat)
    (hprio : ∀ u, s'.priority u = s.priority u) : s'.Preempts := by
  unfold Kernel.Preempts Sys.Urgent
  rw [hpend, hpc, hlock, hcur]
  refine hp.imp id (Or.imp id (Or.imp id fun hurgent => ?_))
  intro v u hv hu
  rw [hstat] at hu
  have hle := hurgent v u hv hu
  have hv' := hprio v
  have hu' := hprio u
  unfold Kernel.priority at hv' hu'
  omega

/-- The error of a thread is set, and perhaps an object changed. -/
theorem Kernel.Preempts.setError (hp : s.Preempts) {e : RtErr} (hpend : s'.pending = s.pending)
    (hpc : s'.pc = s.pc) (hsys : s'.sys = s.sys.setError t e) : s'.Preempts := by
  refine hp.same hpend hpc ?_ ?_ (fun u => ?_) fun u => ?_
  · rw [hsys]
    rfl
  · rw [hsys]
    rfl
  · rw [hsys]
    exact setError_stat s.sys t e u
  · unfold Kernel.priority
    rw [hsys]
    exact setError_priority t e u

theorem resume_current (sys : Sys) (u : ThreadId) :
    (rtThreadResume cfg sys u).2.current = sys.current := by
  unfold rtThreadResume
  split
  · rfl
  · exact (rtScheduleInsertThread_current _ _).trans rfl

@[simp] theorem restorePriority_lockNest (sys : Sys) (t : ThreadId) (p : Nat) :
    (restorePriority cfg sys t p).lockNest = sys.lockNest := by
  unfold restorePriority
  split
  · exact rtThreadControl_lockNest t p
  · rfl

/-- The priority of the thread `t` of the call is restored, and it goes on. -/
theorem MutexInv.preempts_restore (h : MutexInv cfg idle s) (hat : s.At t .run)
    (hlast : s.LastRelease t m) (hq : s.waiters (.mutex m) = [])
    (hok : KeepsUrgent s (.mutexRelease t m))
    (hsys : s'.sys = restorePriority cfg s.sys t (s.mutex m).originalPriority) : s'.Preempts := by
  by_cases hlock : s.sys.lockNest = 0
  case neg =>
    refine Or.inr (Or.inl ?_)
    rw [hsys, restorePriority_lockNest]
    exact hlock
  refine Or.inr (Or.inr (Or.inr ?_))
  intro v u hv hu
  rw [hsys, restorePriority_current, hat.current, Option.some.injEq] at hv
  subst hv
  rw [hsys, restorePriority_stat h.sched] at hu
  -- the thread of the call runs, so it is not the one that is ready
  have hut : u ≠ t := by
    rintro rfl
    rw [h.at_run hat] at hu
    cases hu
  rw [hsys, h.sched.restore_priority, h.sched.restore_priority, if_pos rfl, if_neg hut]
  exact hok hlock hlast hq u hu

/-- **Every step keeps the most urgent thread running** or on its way to `rt_schedule`. -/
theorem Kernel.Preempts.step (hp : s.Preempts) (h : MutexInv cfg idle s)
    (hs : KernelStep cfg idle s a s') (hok : KeepsUrgent s a) : s'.Preempts := by
  have hb := h.toBlockInv
  cases hs with
  | @semTake t i timeout hat =>
    rcases @rtSemTake_cases cfg s t i timeout with
      ⟨-, heq⟩ | ⟨-, -, heq⟩ | ⟨-, -, heq⟩ <;> rw [heq]
    · exact hp
    · exact hp
    · have hfields := @Kernel.block_fields cfg { s with sys := s.sys.setError t .eok } t (.sem i)
        (s.sem i).flag timeout (.semTake i) (hb.setError t .eok).sched (hb.awake_resetError hat)
      exact .of_schedule (hfields.2.2.1.trans hat.current) (Function.update_self _ _ _)
  | @semTrytake t i =>
    unfold rtSemTrytake
    rcases @rtSemTake_cases cfg s t i 0 with ⟨-, heq⟩ | ⟨-, -, heq⟩ | ⟨-, htime, -⟩
    · rw [heq]
      exact hp
    · rw [heq]
      exact hp
    · exact absurd rfl htime
  | @semRelease c i hc =>
    rcases @rtSemRelease_cases cfg s i with ⟨w, rest, -, heq⟩ | ⟨-, -, heq⟩ | ⟨-, -, heq⟩ <;>
      rw [heq]
    · exact .goSchedule hc (resume_current s.sys w)
    · exact hp
    · exact hp
  | @semReset c i value hc => exact .goSchedule hc (resumeAll_spec hb (.sem i)).2.current
  | @mutexTake t m timeout hat =>
    have hcase := @rtMutexTake_cases cfg s t m timeout
    generalize rtMutexTake cfg s t m timeout = r at hcase ⊢
    cases hcase with
    | blocked =>
      obtain ⟨hsched, hawake⟩ := h.changeOwner_awake hat (s.mutex m).owner
      have hfields := @Kernel.block_fields cfg { s with
        sys := changeOwnerPriority cfg (s.sys.setError t .eok) t (s.mutex m).owner } t (.mutex m)
        .prio timeout (.mutexTake m) hsched hawake
      refine .of_schedule (hfields.2.2.1.trans ?_) (Function.update_self _ _ _)
      exact (changeOwnerPriority_current _ _).trans hat.current
    | refused =>
      have hreset : (s.resetError t).Preempts := hp.setError rfl rfl rfl
      exact hreset.setError rfl rfl rfl
    | _ => exact hp.setError rfl rfl rfl
  | @mutexRelease t m hat =>
    have hcase := @rtMutexRelease_cases cfg s t m h.sched
    generalize rtMutexRelease cfg s t m = r at hcase ⊢
    cases hcase with
    | notOwner => exact hp.setError rfl rfl rfl
    | keep => exact hp
    | handOver _ _ w =>
      refine Kernel.Preempts.goSchedule (c := some t) hat ?_
      exact (resume_current _ w).trans (restorePriority_current t _)
    | free howner hhold hq =>
      exact h.preempts_restore hat (h.lastRelease_iff.1 ⟨howner, hhold⟩) hq hok rfl
    | overflow howner hhold hq =>
      exact h.preempts_restore hat (h.lastRelease_iff.1 ⟨howner, hhold⟩) hq hok rfl
  | @wait t i timeout hat =>
    have hfields := @Kernel.block_fields cfg { s with sys := s.sys.setError t .eok } t (.other i)
      (s.flag i) timeout (.wait i) (hb.setError t .eok).sched (hb.awake_resetError hat)
    exact .of_schedule (hfields.2.2.1.trans hat.current) (Function.update_self _ _ _)
  | @signal c i u hc => exact .goSchedule hc (resume_current s.sys u)
  | @sleep t timeout hat =>
    refine .of_schedule ?_ (Kernel.setPc_self t _)
    exact (suspend_current (hb.awake_resetError hat)).trans hat.current
  | @control t u p hat =>
    by_cases hlock : s.sys.lockNest = 0
    case neg =>
      refine Or.inr (Or.inl ?_)
      show (rtThreadControl cfg s.sys u p).lockNest ≠ 0
      rw [rtThreadControl_lockNest]
      exact hlock
    obtain ⟨hself, hready⟩ := hok hlock
    have hurgent := hp.at_run hat hlock
    refine Or.inr (Or.inr (Or.inr ?_))
    intro w v hw hv
    change (rtThreadControl cfg s.sys u p).current = some w at hw
    change ((rtThreadControl cfg s.sys u p).thread v).stat = .ready at hv
    show ((rtThreadControl cfg s.sys u p).thread w).currentPriority ≤
      ((rtThreadControl cfg s.sys u p).thread v).currentPriority
    rw [rtThreadControl_current, hat.current, Option.some.injEq] at hw
    subst hw
    have hv' : (s.sys.thread v).stat = .ready := by
      rw [h.sched.control_thread] at hv
      by_cases hvu : v = u
      · subst hvu
        rwa [Function.update_self, Thread.withPriority_stat] at hv
      · rwa [Function.update_of_ne hvu] at hv
    have hvt : v ≠ t := by
      rintro rfl
      rw [h.at_run hat] at hv'
      cases hv'
    rw [h.sched.control_priority, h.sched.control_priority]
    by_cases hut : u = t
    · subst hut
      rw [if_pos rfl, if_neg hvt]
      exact hself rfl v hv'
    · rw [if_neg (Ne.symm hut)]
      by_cases hvu : v = u
      · subst hvu
        rw [if_pos rfl]
        exact hready hv'
      · rw [if_neg hvu]
        exact hurgent t v hat.current hv'
  | @startup t u hat hu =>
    refine Kernel.Preempts.goSchedule (c := some t) hat ?_
    show (threadStartup cfg s.sys u).current = s.sys.current
    rw [threadStartup_eq h.sched hu, wake_current]
  | @yield t hat =>
    have hedit : BlockInv cfg idle (s.sys.setThread t { s.sys.thread t with yielding := true })
        s.pc := hb.edit rfl rfl rfl rfl rfl id
    exact .scheduled hedit rfl
  | @enterCritical t hat => exact Or.inr (Or.inl (Nat.succ_ne_zero _))
  | @exitCritical t hat =>
    dsimp only
    split
    case isTrue => exact Kernel.Preempts.goSchedule (c := some t) hat rfl
    case isFalse hlock => exact Or.inr (Or.inl hlock)
  | @reschedule t k hat => exact .scheduled hb rfl
  | @ret t k hat =>
    -- the thread was behind `rt_schedule`
    have hleft : s.pending = true ∨ s.sys.lockNest ≠ 0 ∨ s.sys.Urgent := by
      rcases hp with hpend | hnest | ⟨v, k', hcur, hpc⟩ | hurgent
      · exact Or.inl hpend
      · exact Or.inr (Or.inl hnest)
      · rw [hat.current, Option.some.injEq] at hcur
        subst hcur
        rw [hat.pc] at hpc
        cases hpc
      · exact Or.inr (Or.inr hurgent)
    have hrun : (s.setPc t .run).Preempts := hleft.imp id (Or.imp id Or.inr)
    rcases @Kernel.leave_eq s t k with heq | heq <;> rw [heq]
    · exact hrun
    · exact hrun.setError rfl rfl rfl
  | timeout => exact Or.inl rfl
  | tick => exact Or.inl rfl
  | schedule => exact .scheduled hb rfl

/-- **Preemption.** In every run in which the last release of a mutex nobody waits for gives back
a priority no ready thread is below, and a change of priority respects the running thread: when
the scheduler is not locked and no interrupt handler is active, no ready thread is more urgent
than the one that runs outside the kernel, so in particular behind every call that returns. -/
theorem running_most_urgent {s₀ : Kernel} (h0 : s₀.Started cfg idle)
    (hrun : Runs (KernelStep cfg idle) KeepsUrgent s₀ s) (hat : s.At t .run)
    (hlock : s.sys.lockNest = 0) (hu : (s.sys.thread u).stat = .ready) :
    s.priority t ≤ s.priority u := by
  have hinv : MutexInv cfg idle s ∧ s.Preempts :=
    @Runs.invariant _ _ _ _ _ _ (fun s : Kernel => MutexInv cfg idle s ∧ s.Preempts)
      (by
        rintro s a s' ⟨h, hp⟩ hok hs
        exact ⟨h.step hs, hp.step h hs hok⟩)
      hrun ⟨MutexInv.booted h0.toBooted, Or.inr (Or.inr (Or.inr h0.urgent))⟩
  exact hinv.2.at_run hat hlock t u hat.current hu

end Step

-- --------
-- The start of the scheduler
-- --------

/-- `rt_system_scheduler_start` picks a most urgent thread. -/
theorem SchedInv.start_urgent {s : Sys} (h : SchedInv cfg s) (hnone : s.current = none) :
    (rtSystemSchedulerStart cfg s).Urgent := by
  intro t u ht hu
  unfold rtSystemSchedulerStart at ht hu ⊢
  cases hget : schedulerGetHighestPriorityThread cfg s with
  | none =>
    rw [hget] at ht
    dsimp only at ht
    rw [hnone] at ht
    cases ht
  | some next =>
    rw [hget] at ht hu
    dsimp only at ht hu ⊢
    rw [rtScheduleRemoveThread_thread] at ht hu ⊢
    rw [Sys.setThread_current, rtScheduleRemoveThread_current, Option.some.injEq] at ht
    subst ht
    -- the thread that is picked runs, so the ready one is another
    have hne : u ≠ next := by
      rintro rfl
      rw [Sys.setThread_self] at hu
      cases hu
    rw [Sys.setThread_of_ne _ _ hne, rtScheduleRemoveThread_thread] at hu ⊢
    rw [Sys.setThread_self]
    obtain ⟨best, hbest, -, -, -, hurgent⟩ := h.getHighest (h.group_ne_zero_iff.2 ⟨u, hu⟩)
    rw [hget, Option.some.injEq] at hbest
    subst hbest
    exact hurgent u hu

theorem bootKernel_started {priority : ThreadId → Nat} {value : Nat → Nat}
    (hp : ∀ t, priority t < cfg.priorityMax) (hv : ∀ i, value i ≤ rtSemValueMax) :
    (bootKernel cfg priority value).Started cfg 0 where
  toBooted := bootKernel_booted hp hv
  urgent := by
    have hinit := SchedInv.initial hp
    have hcur : (threadStartup cfg (Sys.initial priority) 0).current = none := by
      rw [threadStartup_eq hinit rfl, wake_current]
      rfl
    have heq : rtThreadStartup cfg (Sys.initial priority) 0 =
        threadStartup cfg (Sys.initial priority) 0 := by
      unfold rtThreadStartup
      exact if_neg (not_not_intro hcur)
    show (rtSystemSchedulerStart cfg (rtThreadStartup cfg (Sys.initial priority) 0)).Urgent
    rw [heq]
    exact (hinit.startup rfl).start_urgent hcur

theorem bootKernel32_started {priority : List Nat} (hp : ∀ p, p ∈ priority → p < 32) :
    (bootKernel32 priority).Started schedCfg32 0 :=
  bootKernel_started (getD_lt hp) fun _ => Nat.zero_le _

-- --------
-- Two runs
-- --------

/-- No user's change of priority, and releases only of mutexes for which a thread waits. -/
def PassesOn (s : Kernel) : KernelAct → Prop
  | .mutexRelease _ m => s.waiters (.mutex m) ≠ []
  | .control _ _ _ => False
  | _ => True

instance (s : Kernel) : ∀ a : KernelAct, Decidable (PassesOn s a)
  | .mutexRelease _ m => inferInstanceAs (Decidable (s.waiters (.mutex m) ≠ []))
  | .control .. => isFalse id
  | .semTake .. | .semTrytake _ | .semRelease .. | .semReset .. | .mutexTake .. | .wait ..
  | .signal .. | .sleep .. | .startup .. | .yield _ | .enterCritical _ | .exitCritical _
  | .reschedule _ | .ret _ | .timeout _ | .tick | .schedule => isTrue trivial

theorem PassesOn.keepsUrgent {s : Kernel} {a : KernelAct} (h : PassesOn s a) :
    KeepsUrgent s a := by
  cases a with
  | mutexRelease t m => exact fun _ _ hq => absurd hq h
  | control => exact absurd h id
  | _ => trivial

/-- A mutex is passed on to a more urgent thread, which runs at once. -/
theorem running_most_urgent_passed : ∃ s,
    Runs (KernelStep schedCfg32 0) KeepsUrgent (bootKernel32 [31, 20, 5]) s ∧ s.At 2 .run ∧
    (s.sys.thread 1).stat = .ready ∧ s.priority 2 ≤ s.priority 1 := by
  have hreplay : (Runs.replay (Runs.execOk (Kernel.exec schedCfg32 0) PassesOn)
      (bootKernel32 [31, 20, 5])
      [.startup 0 1, .reschedule 0, .mutexTake 1 0 (-1), .startup 1 2, .reschedule 1,
        .mutexTake 2 0 (-1), .reschedule 2, .ret 1, .mutexRelease 1 0, .reschedule 1,
        .ret 2]).any
      (fun s => decide (s.At 2 .run ∧ s.sys.lockNest = 0 ∧ (s.sys.thread 1).stat = .ready)) =
        true := by
    decide +kernel
  obtain ⟨s, hrun, hend⟩ := Kernel.allowed_of_replay hreplay
  obtain ⟨hat, hlock, hready⟩ := of_decide_eq_true hend
  have hrun' := @Runs.mono _ _ _ _ KeepsUrgent _ _ (fun _ => True)
    (fun _ _ _ hok => PassesOn.keepsUrgent hok) (fun _ _ _ _ _ _ => trivial) hrun trivial
  exact ⟨s, hrun', hat, hready,
    running_most_urgent (bootKernel32_started (by decide)) hrun' hat hlock hready⟩

/-- **A release that does not reschedule.** The thread 2 raises the thread 1, which owns the mutex
0, and its waiting time runs out; the thread 1 releases the mutex, gets its own priority back and
runs on, while the thread 2 is ready. -/
theorem released_less_urgent : ∃ s s',
    Runs (KernelStep schedCfg32 0) Runs.always (bootKernel32 [31, 20, 5]) s ∧
    KernelStep schedCfg32 0 s (.mutexRelease 1 0) s' ∧ s'.At 1 .run ∧ s'.sys.lockNest = 0 ∧
    (s'.sys.thread 2).stat = .ready ∧ s'.priority 1 = 20 ∧ s'.priority 2 = 5 := by
  have hreplay : (Runs.replay (Kernel.exec schedCfg32 0) (bootKernel32 [31, 20, 5])
      [.startup 0 1, .reschedule 0, .mutexTake 1 0 (-1), .startup 1 2, .reschedule 1,
        .mutexTake 2 0 10, .reschedule 2, .ret 1, .timeout 2, .schedule]).any
      (fun s => (s.exec schedCfg32 0 (.mutexRelease 1 0)).any fun s' =>
        decide (s'.At 1 .run ∧ s'.sys.lockNest = 0 ∧ (s'.sys.thread 2).stat = .ready ∧
          s'.priority 1 = 20 ∧ s'.priority 2 = 5)) = true := by
    decide +kernel
  obtain ⟨s, -, hrun, hend⟩ := Kernel.run_of_replay hreplay
  obtain ⟨s', hs, hstate⟩ := (Option.any_eq_true _ _).1 hend
  exact ⟨s, s', hrun, Kernel.exec_iff.1 hs, of_decide_eq_true hstate⟩

end RTThread
