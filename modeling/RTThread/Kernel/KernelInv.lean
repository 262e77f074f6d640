import RTThread.Kernel.Blocking

/-!
# The invariant of the kernel

The calls of `ipc.c` are taken apart once, into their outcomes; every proof about a step goes
through these cases. `KernelInv` adds to `BlockInv` that an owned mutex remembers a priority of
a thread, which the owner gets back.

## Main results

* `rtMutexTake_cases`, `rtMutexRelease_cases`, `rtSemTake_cases`, `rtSemRelease_cases` — the
  outcomes of the calls.
* `KernelInv.step`, `KernelInv.run` — the invariant holds in every reachable state.
-/

namespace RTThread

variable {cfg : SchedCfg} {idle : ThreadId}

-- --------
-- The calls, case by case
-- --------

section Calls

variable {s : Kernel} {t : ThreadId} {i m : Nat} {timeout : Int}

/-- The outcomes of `rt_sem_take`. -/
theorem rtSemTake_cases :
    (0 < (s.sem i).value ∧ rtSemTake cfg s t i timeout =
      (some .eok, s.setSem i { s.sem i with value := (s.sem i).value - 1 })) ∨
    ((s.sem i).value = 0 ∧ timeout = 0 ∧ rtSemTake cfg s t i timeout = (some .etimeout, s)) ∨
    ((s.sem i).value = 0 ∧ timeout ≠ 0 ∧ rtSemTake cfg s t i timeout =
      (none, { s with sys := s.sys.setError t .eok }.block cfg t (.sem i) (s.sem i).flag timeout
        (.semTake i))) := by
  unfold rtSemTake
  dsimp only
  by_cases hv : 0 < (s.sem i).value
  · exact Or.inl ⟨hv, if_pos hv⟩
  · have hzero : (s.sem i).value = 0 := by omega
    rw [if_neg hv]
    by_cases ht : timeout = 0
    · exact Or.inr (Or.inl ⟨hzero, ht, if_pos ht⟩)
    · exact Or.inr (Or.inr ⟨hzero, ht, if_neg ht⟩)

/-- The outcomes of `rt_sem_release`. -/
theorem rtSemRelease_cases :
    (∃ w rest, s.waiters (.sem i) = w :: rest ∧ rtSemRelease cfg s i =
      (.eok, true, { s with sys := (rtThreadResume cfg s.sys w).2 })) ∨
    (s.waiters (.sem i) = [] ∧ (s.sem i).value < rtSemValueMax ∧ rtSemRelease cfg s i =
      (.eok, false, s.setSem i { s.sem i with value := (s.sem i).value + 1 })) ∨
    (s.waiters (.sem i) = [] ∧ rtSemValueMax ≤ (s.sem i).value ∧
      rtSemRelease cfg s i = (.efull, false, s)) := by
  unfold rtSemRelease ipcListResume
  dsimp only
  cases hq : s.waiters (.sem i) with
  | cons w rest =>
    refine Or.inl ⟨w, rest, rfl, ?_⟩
    rw [if_pos (by simp)]
    unfold Kernel.waiters at hq
    rw [hq]
  | nil =>
    refine Or.inr ?_
    rw [if_neg (by simp)]
    by_cases hv : (s.sem i).value < rtSemValueMax
    · exact Or.inl ⟨rfl, hv, if_pos hv⟩
    · exact Or.inr ⟨rfl, Nat.le_of_not_lt hv, if_neg hv⟩

/-- The state `rt_mutex_take` starts from: it resets the error of its thread. -/
def Kernel.resetError (s : Kernel) (t : ThreadId) : Kernel :=
  { s with sys := s.sys.setError t .eok }

/-- The outcomes of `rt_mutex_take`. -/
inductive MutexTaken (cfg : SchedCfg) (s : Kernel) (t : ThreadId) (m : Nat) (timeout : Int) :
    Option RtErr × Kernel → Prop
  | again (howner : (s.mutex m).owner = some t) (hhold : (s.mutex m).hold < rtMutexHoldMax) :
      MutexTaken cfg s t m timeout (some .eok, (s.resetError t).setMutex m
        { s.mutex m with hold := (s.mutex m).hold + 1 })
  | full (howner : (s.mutex m).owner = some t) (hhold : rtMutexHoldMax ≤ (s.mutex m).hold) :
      MutexTaken cfg s t m timeout (some .efull, s.resetError t)
  | first (howner : (s.mutex m).owner ≠ some t) (hvalue : 0 < (s.mutex m).value)
      (hhold : (s.mutex m).hold < rtMutexHoldMax) :
      MutexTaken cfg s t m timeout (some .eok, (s.resetError t).setMutex m
        { s.mutex m with
          value := (s.mutex m).value - 1, owner := some t, originalPriority := s.priority t
          hold := (s.mutex m).hold + 1 })
  | stuck (howner : (s.mutex m).owner ≠ some t) (hvalue : 0 < (s.mutex m).value)
      (hhold : rtMutexHoldMax ≤ (s.mutex m).hold) :
      MutexTaken cfg s t m timeout (some .efull, (s.resetError t).setMutex m
        { s.mutex m with
          value := (s.mutex m).value - 1, owner := some t, originalPriority := s.priority t })
  | refused (howner : (s.mutex m).owner ≠ some t) (hvalue : (s.mutex m).value = 0)
      (htimeout : timeout = 0) :
      MutexTaken cfg s t m timeout
        (some .etimeout, { s with sys := (s.sys.setError t .eok).setError t .etimeout })
  | blocked (howner : (s.mutex m).owner ≠ some t) (hvalue : (s.mutex m).value = 0)
      (htimeout : timeout ≠ 0) :
      MutexTaken cfg s t m timeout
        (none, { s with
          sys := changeOwnerPriority cfg (s.sys.setError t .eok) t (s.mutex m).owner }.block cfg t
            (.mutex m) .prio timeout (.mutexTake m))

theorem rtMutexTake_cases : MutexTaken cfg s t m timeout (rtMutexTake cfg s t m timeout) := by
  have hprio : ({ s with sys := s.sys.setError t .eok } : Kernel).priority t = s.priority t := by
    unfold Kernel.priority Sys.setError
    rw [Sys.setThread_self]
  unfold rtMutexTake
  dsimp only
  rw [hprio]
  by_cases ho : (s.mutex m).owner = some t
  · rw [if_pos ho]
    by_cases hh : (s.mutex m).hold < rtMutexHoldMax
    · rw [if_pos hh]
      exact .again ho hh
    · rw [if_neg hh]
      exact .full ho (Nat.le_of_not_lt hh)
  · rw [if_neg ho]
    by_cases hv : 0 < (s.mutex m).value
    · rw [if_pos hv]
      by_cases hh : (s.mutex m).hold < rtMutexHoldMax
      · rw [if_pos hh]
        exact .first ho hv hh
      · rw [if_neg hh]
        exact .stuck ho hv (Nat.le_of_not_lt hh)
    · have hzero : (s.mutex m).value = 0 := by omega
      rw [if_neg hv]
      by_cases ht : timeout = 0
      · rw [if_pos ht]
        exact .refused ho hzero ht
      · rw [if_neg ht]
        exact .blocked ho hzero ht

/-- The outcomes of `rt_mutex_release`. -/
inductive MutexReleased (cfg : SchedCfg) (s : Kernel) (t : ThreadId) (m : Nat) :
    RtErr × Bool × Kernel → Prop
  | notOwner (howner : (s.mutex m).owner ≠ some t) :
      MutexReleased cfg s t m (.error, false, { s with sys := s.sys.setError t .error })
  | keep (howner : (s.mutex m).owner = some t) (hhold : ((s.mutex m).hold + 255) % 2 ^ 8 ≠ 0) :
      MutexReleased cfg s t m
        (.eok, false, s.setMutex m { s.mutex m with hold := ((s.mutex m).hold + 255) % 2 ^ 8 })
  | handOver (howner : (s.mutex m).owner = some t) (hhold : ((s.mutex m).hold + 255) % 2 ^ 8 = 0)
      (w : ThreadId) (rest : List ThreadId) (hq : s.waiters (.mutex m) = w :: rest) :
      MutexReleased cfg s t m
        (.eok, true,
          { s with
            mutex := Function.update s.mutex m
              { s.mutex m with
                owner := some w, hold := 1
                originalPriority := ((restorePriority cfg s.sys t
                  (s.mutex m).originalPriority).thread w).currentPriority }
            sys := (rtThreadResume cfg
              (restorePriority cfg s.sys t (s.mutex m).originalPriority) w).2 })
  | free (howner : (s.mutex m).owner = some t) (hhold : ((s.mutex m).hold + 255) % 2 ^ 8 = 0)
      (hq : s.waiters (.mutex m) = []) (hvalue : (s.mutex m).value < rtMutexValueMax) :
      MutexReleased cfg s t m
        (.eok, false,
          { s with
            mutex := Function.update s.mutex m
              { value := (s.mutex m).value + 1, originalPriority := 0xff, hold := 0, owner := none }
            sys := restorePriority cfg s.sys t (s.mutex m).originalPriority })
  | overflow (howner : (s.mutex m).owner = some t) (hhold : ((s.mutex m).hold + 255) % 2 ^ 8 = 0)
      (hq : s.waiters (.mutex m) = []) (hvalue : rtMutexValueMax ≤ (s.mutex m).value) :
      MutexReleased cfg s t m
        (.efull, false,
          { s with
            mutex := Function.update s.mutex m { s.mutex m with hold := 0 }
            sys := restorePriority cfg s.sys t (s.mutex m).originalPriority })

theorem SchedInv.restore_wait {s : Sys} (h : SchedInv cfg s) (t : ThreadId) (p : Nat) (o : IpcId) :
    (restorePriority cfg s t p).queue (.wait o) = s.queue (.wait o) := by
  unfold restorePriority
  split
  · exact h.control_wait t p o
  · rfl

theorem rtMutexRelease_cases (h : SchedInv cfg s.sys) :
    MutexReleased cfg s t m (rtMutexRelease cfg s t m) := by
  have hwait := h.restore_wait t (s.mutex m).originalPriority (.mutex m)
  unfold rtMutexRelease
  dsimp only
  by_cases ho : (s.mutex m).owner = some t
  · rw [if_neg (not_not_intro ho)]
    by_cases hh : ((s.mutex m).hold + 255) % 2 ^ 8 = 0
    · rw [if_pos hh]
      unfold passOn Kernel.waiters
      dsimp only
      cases hq : s.sys.queue (.wait (.mutex m)) with
      | cons w rest =>
        rw [hwait, hq]
        dsimp only
        rw [hh, if_pos (by decide)]
        have hresume : ipcListResume cfg
            (restorePriority cfg s.sys t (s.mutex m).originalPriority) (.mutex m) =
            (rtThreadResume cfg
              (restorePriority cfg s.sys t (s.mutex m).originalPriority) w).2 := by
          unfold ipcListResume
          rw [hwait, hq]
        rw [hresume]
        exact .handOver ho hh w rest hq
      | nil =>
        rw [hwait, hq]
        dsimp only
        by_cases hv : (s.mutex m).value < rtMutexValueMax
        · rw [if_pos hv, hh]
          exact .free ho hh hq hv
        · rw [if_neg hv, hh]
          exact .overflow ho hh hq (Nat.le_of_not_lt hv)
    · rw [if_neg hh]
      exact .keep ho hh
  · rw [if_pos ho]
    exact .notOwner ho

end Calls

-- --------
-- The invariant of the kernel
-- --------

/-- A mutex that is owned remembers a priority of a thread. -/
def Remembering (cfg : SchedCfg) (mutex : Nat → Mutex) : Prop :=
  ∀ m t, (mutex m).owner = some t → (mutex m).originalPriority < cfg.priorityMax

/-- **The invariant of the kernel**: of the threads and the mutexes. -/
structure KernelInv (cfg : SchedCfg) (idle : ThreadId) (s : Kernel) : Prop
    extends BlockInv cfg idle s.sys s.pc where
  original : Remembering cfg s.mutex

section Step

variable {s s' : Kernel} {sys : Sys} {pc : ThreadId → Pc} {t u : ThreadId} {p : Nat}

theorem BlockInv.restore (h : BlockInv cfg idle sys pc) (t : ThreadId) (hp : p < cfg.priorityMax) :
    BlockInv cfg idle (restorePriority cfg sys t p) pc := by
  unfold restorePriority
  split
  · exact h.control t hp
  · exact h

theorem BlockInv.changeOwner (h : BlockInv cfg idle sys pc) (t : ThreadId)
    (owner : Option ThreadId) : BlockInv cfg idle (changeOwnerPriority cfg sys t owner) pc := by
  unfold changeOwnerPriority
  split
  · exact h
  · split
    · exact h.control _ (h.sched.bounded t)
    · exact h

theorem BlockInv.goSchedule (h : BlockInv cfg idle s.sys s.pc) {c : Option ThreadId}
    (hc : ∀ t, c = some t → (s.sys.thread t).stat ≠ .suspend) :
    BlockInv cfg idle (s.goSchedule c).sys (s.goSchedule c).pc := by
  cases c with
  | none => exact h
  | some t => exact h.move (hc t rfl) _

/-- The thread of a call runs. -/
theorem BlockInv.at_run (h : BlockInv cfg idle s.sys s.pc) (hat : s.At t .run) :
    (s.sys.thread t).stat = .running := by
  refine h.running hat.current fun k hk => ?_
  rw [hat.pc] at hk
  cases hk

theorem BlockInv.running_resetError (h : BlockInv cfg idle s.sys s.pc) (hat : s.At t .run) :
    ((s.sys.setError t .eok).thread t).stat = .running :=
  (setError_stat _ _ _ _).trans (h.at_run hat)

theorem BlockInv.awake_resetError (h : BlockInv cfg idle s.sys s.pc) (hat : s.At t .run) :
    ((s.sys.setError t .eok).thread t).Awake :=
  Or.inr (h.running_resetError hat)

theorem resume_stat_ne (hu : (sys.thread u).stat = .suspend)
    (ht : (sys.thread t).stat ≠ .suspend) :
    ((rtThreadResume cfg sys u).2.thread t).stat ≠ .suspend := by
  have hne : t ≠ u := by
    rintro rfl
    exact ht hu
  rw [rtThreadResume_eq hu, wake_of_ne _ hne]
  exact ht

theorem BlockInv.resume_goSchedule (h : BlockInv cfg idle s.sys s.pc) {c : Option ThreadId}
    (hc : s.Caller c) (hs : (s.sys.thread u).stat = .suspend) :
    BlockInv cfg idle (({ s with sys := (rtThreadResume cfg s.sys u).2 } : Kernel).goSchedule c).sys
      (({ s with sys := (rtThreadResume cfg s.sys u).2 } : Kernel).goSchedule c).pc := by
  refine BlockInv.goSchedule (h.resume hs) ?_
  rintro t rfl
  refine resume_stat_ne hs ?_
  rw [h.at_run hc]
  decide

theorem restorePriority_stat (h : SchedInv cfg sys) (t u : ThreadId) (p : Nat) :
    ((restorePriority cfg sys t p).thread u).stat = (sys.thread u).stat := by
  unfold restorePriority
  split
  · rw [h.control_thread]
    by_cases hu : u = t
    · subst hu
      rw [Function.update_self, Thread.withPriority_stat]
    · rw [Function.update_of_ne hu]
  · rfl

theorem SchedInv.first_suspended {o : IpcId} {w : ThreadId} {rest : List ThreadId}
    (h : SchedInv cfg s.sys) (hq : s.waiters o = w :: rest) :
    (s.sys.thread w).stat = .suspend :=
  h.wait (Queues.head_mem hq)

theorem SchedInv.first_restored {o : IpcId} {w : ThreadId} {rest : List ThreadId}
    (h : SchedInv cfg s.sys) (hq : s.waiters o = w :: rest) (t : ThreadId) (p : Nat) :
    ((restorePriority cfg s.sys t p).thread w).stat = .suspend := by
  rw [restorePriority_stat h]
  exact h.first_suspended hq

theorem changeOwnerPriority_stat (h : SchedInv cfg sys) (t u : ThreadId)
    (owner : Option ThreadId) :
    ((changeOwnerPriority cfg sys t owner).thread u).stat = (sys.thread u).stat := by
  unfold changeOwnerPriority
  split
  · rfl
  · split
    · rw [h.control_thread]
      by_cases hu : u = ‹ThreadId›
      · subst hu
        rw [Function.update_self, Thread.withPriority_stat]
      · rw [Function.update_of_ne hu]
    · rfl

@[simp] theorem changeOwnerPriority_current (t : ThreadId) (owner : Option ThreadId) :
    (changeOwnerPriority cfg sys t owner).current = sys.current := by
  unfold changeOwnerPriority
  split
  · rfl
  · split
    · exact rtThreadControl_current _ _
    · rfl

@[simp] theorem changeOwnerPriority_lockNest (t : ThreadId) (owner : Option ThreadId) :
    (changeOwnerPriority cfg sys t owner).lockNest = sys.lockNest := by
  unfold changeOwnerPriority
  split
  · rfl
  · split
    · exact rtThreadControl_lockNest _ _
    · rfl

/-- **Every step keeps the threads where they belong.** -/
theorem KernelInv.block_step {a : KernelAct} (h : KernelInv cfg idle s)
    (hs : KernelStep cfg idle s a s') : BlockInv cfg idle s'.sys s'.pc := by
  have hb := h.toBlockInv
  cases hs with
  | @semTake t i timeout hat hassert hidle =>
    rcases @rtSemTake_cases cfg s t i timeout with
      ⟨-, heq⟩ | ⟨-, -, heq⟩ | ⟨hzero, htime, heq⟩ <;> rw [heq]
    · exact hb
    · exact hb
    · exact BlockInv.block (hb.setError t .eok) hat.current (hb.running_resetError hat)
        (hassert hzero htime).1 (fun hi => htime (hidle hi)) rfl
  | @semTrytake t i hcur =>
    rcases @rtSemTake_cases cfg s t i 0 with ⟨-, heq⟩ | ⟨-, -, heq⟩ | ⟨-, htime, -⟩
    · unfold rtSemTrytake
      rw [heq]
      exact hb
    · unfold rtSemTrytake
      rw [heq]
      exact hb
    · exact absurd rfl htime
  | @semRelease c i hc =>
    rcases @rtSemRelease_cases cfg s i with ⟨w, rest, hq, heq⟩ | ⟨-, -, heq⟩ | ⟨-, -, heq⟩ <;>
      rw [heq]
    · exact hb.resume_goSchedule hc (h.sched.first_suspended hq)
    · exact hb
    · exact hb
  | @semReset c i value hc =>
    obtain ⟨hinv, hall⟩ := resumeAll_spec hb (.sem i)
    refine BlockInv.goSchedule hinv ?_
    rintro t rfl
    have hrun := hb.at_run hc
    have hnot : t ∉ s.sys.queue (.wait (.sem i)) := hb.not_waiting (by rw [hrun]; decide) _
    show ((ipcListResumeAll cfg s.sys (.sem i)).thread t).stat ≠ .suspend
    rw [hall.kept t hnot, hrun]
    decide
  | @mutexTake t m timeout hat hassert hidle =>
    have hcase := @rtMutexTake_cases cfg s t m timeout
    generalize rtMutexTake cfg s t m timeout = r at hcase ⊢
    cases hcase with
    | again => exact hb.setError t .eok
    | full => exact hb.setError t .eok
    | first => exact hb.setError t .eok
    | stuck => exact hb.setError t .eok
    | refused => exact (hb.setError t .eok).setError t .etimeout
    | blocked howner hvalue htime =>
      have herr := hb.setError t .eok
      refine BlockInv.block (herr.changeOwner t (s.mutex m).owner) ?_ ?_ ?_ ?_ rfl
      · exact (changeOwnerPriority_current _ _).trans hat.current
      · show ((changeOwnerPriority cfg (s.sys.setError t .eok) t _).thread t).stat = .running
        rw [changeOwnerPriority_stat herr.sched]
        exact hb.running_resetError hat
      · exact (changeOwnerPriority_lockNest _ _).trans hassert.1
      · exact fun hi => htime (hidle hi)
  | @mutexRelease t m hat =>
    have hcase := @rtMutexRelease_cases cfg s t m h.sched
    have hrun := hb.at_run hat
    generalize rtMutexRelease cfg s t m = r at hcase ⊢
    cases hcase with
    | notOwner => exact hb.setError t .error
    | keep => exact hb
    | handOver howner _ w rest hq =>
      have hrestore := hb.restore t (h.original _ _ howner)
      have hw := h.sched.first_suspended hq
      have hw' := h.sched.first_restored hq t (s.mutex m).originalPriority
      refine BlockInv.goSchedule (c := some t) (hrestore.resume hw') ?_
      intro u hu
      cases hu
      refine resume_stat_ne hw' ?_
      rw [restorePriority_stat h.sched, hrun]
      decide
    | free howner => exact hb.restore t (h.original _ _ howner)
    | overflow howner => exact hb.restore t (h.original _ _ howner)
  | @wait t i timeout hat hassert hidle =>
    exact BlockInv.block (hb.setError t .eok) hat.current (hb.running_resetError hat) hassert.1
      hidle rfl
  | @signal c i u hc hu => exact hb.resume_goSchedule hc (h.sched.wait hu)
  | @sleep t timeout hat hassert hidle =>
    have herr := hb.setError t .eok
    have hrun := hb.running_resetError hat
    have hthread := @suspend_thread cfg (s.sys.setError t .eok) t (Or.inr hrun)
    refine herr.of_suspend (k := .sleep) ?_ hat.current hrun hassert.1 hidle ?_ ?_ ?_ ?_ ?_
    · exact (herr.sched.suspend t).edit rfl rfl rfl rfl rfl
    · exact suspend_current (Or.inr hrun)
    · exact suspend_lockNest (Or.inr hrun)
    · unfold Kernel.setPc Sys.setTimer
      dsimp only
      rw [Sys.setThread_self, hthread, Function.update_self]
    · intro u hu
      unfold Kernel.setPc Sys.setTimer
      dsimp only
      rw [Sys.setThread_of_ne _ _ hu, hthread, Function.update_of_ne hu]
    · intro u o
      show u ∈ (rtThreadSuspend cfg (s.sys.setError t .eok) t).2.queue (.wait o) ↔ _
      rw [suspend_wait herr.sched (Or.inr hrun)]
      simp [Cont.queue]
  | @control t u priority hat hp => exact hb.control u hp
  | @startup t u hat hu =>
    refine BlockInv.goSchedule (c := some t) (hb.startup hu) ?_
    intro v hv
    cases hv
    have hrun := hb.at_run hat
    have hne : t ≠ u := by
      rintro rfl
      rw [hrun] at hu
      cases hu
    show ((threadStartup cfg s.sys u).thread t).stat ≠ .suspend
    rw [threadStartup_eq h.sched hu, wake_of_ne _ hne, hrun]
    decide
  | @yield t hat => exact BlockInv.schedule (hb.edit rfl rfl rfl rfl rfl id)
  | @enterCritical t hat => exact hb.with_lockNest hat.current (hb.at_run hat) _
  | @exitCritical t hat =>
    have hlock := hb.with_lockNest hat.current (hb.at_run hat) (s.sys.lockNest - 1)
    dsimp only
    split
    · refine BlockInv.goSchedule (c := some t) hlock ?_
      intro v hv
      cases hv
      show (s.sys.thread t).stat ≠ .suspend
      rw [hb.at_run hat]
      decide
    · exact hlock
  | @reschedule t k hat => exact hb.reschedule hat.pc
  | @ret t k hat =>
    have hrun : (s.sys.thread t).stat = .running := by
      refine hb.running hat.current fun k' hk' => ?_
      rw [hat.pc] at hk'
      cases hk'
    have hawake : (s.sys.thread t).stat ≠ .suspend := by
      rw [hrun]
      decide
    cases k with
    | sleep =>
      unfold Kernel.leave
      dsimp only
      split
      · refine (hb.setError t .eok).move ?_ .run
        rw [setError_stat]
        exact hawake
      · exact hb.move hawake .run
    | done => exact hb.move hawake .run
    | semTake i => exact hb.move hawake .run
    | mutexTake m => exact hb.move hawake .run
    | wait i => exact hb.move hawake .run
  | @timeout u htimer hassert =>
    have hoff : BlockInv cfg idle (s.sys.setTimer u false) s.pc :=
      hb.edit rfl rfl rfl rfl rfl fun hfalse => by cases hfalse
    have hself : ((s.sys.setTimer u false).thread u) = { s.sys.thread u with timer := false } :=
      Sys.setThread_self _ _ _
    have hsus : ((s.sys.setTimer u false).thread u).stat = .suspend := by
      rw [hself]
      exact hassert
    show BlockInv cfg idle (threadTimeout cfg (s.sys.setTimer u false) u) s.pc
    rw [threadTimeout_eq]
    refine hoff.wake (Or.inl hsus) ((hoff.sched.masked_of_suspend hsus).of_same rfl rfl rfl rfl)
      (hoff.sched.bounded u) ?_
    rw [hself]
  | @tick t hcur => exact hb.edit rfl rfl rfl rfl rfl id
  | schedule => exact hb.schedule

theorem Remembering.update {mutex : Nat → Mutex} {x : Mutex} (h : Remembering cfg mutex) (m : Nat)
    (hx : ∀ t, x.owner = some t → x.originalPriority < cfg.priorityMax) :
    Remembering cfg (Function.update mutex m x) := by
  intro m' t howner
  by_cases hm : m' = m
  · subst hm
    rw [Function.update_self] at howner ⊢
    exact hx t howner
  · rw [Function.update_of_ne hm] at howner ⊢
    exact h m' t howner

@[simp] theorem Kernel.goSchedule_mutex (c : Option ThreadId) :
    (s.goSchedule c).mutex = s.mutex := by
  cases c <;> rfl

@[simp] theorem Kernel.goSchedule_sem (c : Option ThreadId) : (s.goSchedule c).sem = s.sem := by
  cases c <;> rfl

@[simp] theorem Kernel.goSchedule_sys (c : Option ThreadId) : (s.goSchedule c).sys = s.sys := by
  cases c <;> rfl

@[simp] theorem Kernel.setPc_self (t : ThreadId) (pc : Pc) : (s.setPc t pc).pc t = pc := by
  simp [Kernel.setPc]

theorem Kernel.setPc_of_ne {t u : ThreadId} (pc : Pc) (hu : u ≠ t) :
    (s.setPc t pc).pc u = s.pc u := by
  simp [Kernel.setPc, hu]

@[simp] theorem Kernel.setSem_self (i : Nat) (x : Sem) : (s.setSem i x).sem i = x := by
  simp [Kernel.setSem]

@[simp] theorem Kernel.setMutex_self (m : Nat) (x : Mutex) : (s.setMutex m x).mutex m = x := by
  simp [Kernel.setMutex]

theorem Kernel.leave_eq (t : ThreadId) (k : Cont) :
    (s.leave t k).2 = s.setPc t .run ∨
      (s.leave t k).2 = { s with sys := s.sys.setError t .eok }.setPc t .run := by
  cases k with
  | sleep =>
    unfold Kernel.leave
    dsimp only
    split
    · exact Or.inr rfl
    · exact Or.inl rfl
  | done => exact Or.inl rfl
  | semTake => exact Or.inl rfl
  | mutexTake => exact Or.inl rfl
  | wait => exact Or.inl rfl

/-- Only the calls on mutexes change a mutex. -/
theorem KernelStep.mutex_eq {a : KernelAct} (hs : KernelStep cfg idle s a s')
    (htake : ∀ t m timeout, a ≠ .mutexTake t m timeout) (hrel : ∀ t m, a ≠ .mutexRelease t m) :
    s'.mutex = s.mutex := by
  cases hs with
  | mutexTake => exact absurd rfl (htake _ _ _)
  | mutexRelease => exact absurd rfl (hrel _ _)
  | @semTake t i timeout =>
    rcases @rtSemTake_cases cfg s t i timeout with
      ⟨-, heq⟩ | ⟨-, -, heq⟩ | ⟨-, -, heq⟩ <;> rw [heq] <;> rfl
  | @semTrytake t i =>
    unfold rtSemTrytake
    rcases @rtSemTake_cases cfg s t i 0 with
      ⟨-, heq⟩ | ⟨-, -, heq⟩ | ⟨-, -, heq⟩ <;> rw [heq] <;> rfl
  | @semRelease c i =>
    rcases @rtSemRelease_cases cfg s i with ⟨w, rest, -, heq⟩ | ⟨-, -, heq⟩ | ⟨-, -, heq⟩ <;>
      rw [heq]
    · exact Kernel.goSchedule_mutex c
    · rfl
    · rfl
  | @semReset c => exact Kernel.goSchedule_mutex c
  | @signal c => exact Kernel.goSchedule_mutex c
  | @exitCritical =>
    dsimp only
    split <;> rfl
  | @ret t k => rcases @Kernel.leave_eq s t k with heq | heq <;> rw [heq] <;> rfl
  | wait => rfl
  | sleep => rfl
  | control => rfl
  | startup => rfl
  | yield => rfl
  | enterCritical => rfl
  | reschedule => rfl
  | timeout => rfl
  | tick => rfl
  | schedule => rfl

/-- **Every step keeps the invariant of the kernel.** -/
theorem KernelInv.step {a : KernelAct} (h : KernelInv cfg idle s)
    (hs : KernelStep cfg idle s a s') : KernelInv cfg idle s' := by
  refine ⟨h.block_step hs, ?_⟩
  have hb := h.toBlockInv
  cases a with
  | mutexTake t m timeout =>
    cases hs with
    | mutexTake hat hassert hidle =>
      have hcase := @rtMutexTake_cases cfg s t m timeout
      generalize rtMutexTake cfg s t m timeout = r at hcase ⊢
      cases hcase with
      | again howner => exact h.original.update m fun _ _ => h.original _ _ howner
      | full => exact h.original
      | first => exact h.original.update m fun _ _ => h.sched.bounded t
      | stuck => exact h.original.update m fun _ _ => h.sched.bounded t
      | refused => exact h.original
      | blocked => exact h.original
  | mutexRelease t m =>
    cases hs with
    | mutexRelease hat =>
      have hcase := @rtMutexRelease_cases cfg s t m h.sched
      generalize rtMutexRelease cfg s t m = r at hcase ⊢
      cases hcase with
      | notOwner => exact h.original
      | keep howner => exact h.original.update m fun _ _ => h.original _ _ howner
      | handOver howner _ w rest hq =>
        have hrestore := hb.restore t (h.original _ _ howner)
        exact h.original.update m fun _ _ => hrestore.sched.bounded w
      | free => exact h.original.update m fun _ hnone => by cases hnone
      | overflow howner => exact h.original.update m fun _ _ => h.original _ _ howner
  | _ =>
    have heq := hs.mutex_eq (fun _ _ _ h => by cases h) (fun _ _ h => by cases h)
    unfold Remembering
    rw [heq]
    exact h.original

/-- The invariant holds when the scheduler has been started. -/
theorem KernelInv.booted (h : s.Booted cfg idle) : KernelInv cfg idle s where
  sched := h.sched
  idle_awake := h.idle_awake
  current := h.current.imp fun _ ht => ht.1
  current_stat {t} ht := by
    obtain ⟨u, hu, hrun⟩ := h.current
    rw [ht, Option.some.injEq] at hu
    subst hu
    exact Or.inl hrun
  waiting t o :=
    iff_of_false (fun ht => h.none_suspended t (h.sched.wait ht)) fun ht => h.none_suspended t ht.1
  inside ht := absurd ht (h.none_suspended _)
  timer ht := by
    rw [h.no_timer] at ht
    cases ht
  original m t hm := by
    rw [h.mutexes] at hm
    cases hm

end Step

-- --------
-- A started kernel
-- --------

/-- The kernel once the idle thread, the thread 0, has been started: the other threads are
initialised with their priorities, the semaphores with their values. -/
def bootKernel (cfg : SchedCfg) (priority : ThreadId → Nat) (value : Nat → Nat) : Kernel where
  sys := rtSystemSchedulerStart cfg (rtThreadStartup cfg (Sys.initial priority) 0)
  sem i := ⟨value i, .prio⟩
  mutex _ := mutexInit
  flag _ := .prio
  pc _ := .run
  pending := false

/-- The idle thread runs, the others have not been started. -/
theorem bootSys_fields {priority : ThreadId → Nat} (hp : ∀ t, priority t < cfg.priorityMax) :
    SchedInv cfg (rtSystemSchedulerStart cfg (rtThreadStartup cfg (Sys.initial priority) 0)) ∧
      (rtSystemSchedulerStart cfg (rtThreadStartup cfg (Sys.initial priority) 0)).current = some 0 ∧
      ((rtSystemSchedulerStart cfg (rtThreadStartup cfg (Sys.initial priority) 0)).thread 0).stat =
        .running ∧
      (∀ t, ((rtSystemSchedulerStart cfg
        (rtThreadStartup cfg (Sys.initial priority) 0)).thread t).stat ≠ .suspend) ∧
      (∀ t, ((rtSystemSchedulerStart cfg
        (rtThreadStartup cfg (Sys.initial priority) 0)).thread t).timer = false) ∧
      (rtSystemSchedulerStart cfg (rtThreadStartup cfg (Sys.initial priority) 0)).lockNest = 0 := by
  have hinit := SchedInv.initial hp
  have hstart := threadStartup_eq (t := 0) hinit rfl
  have hinv := hinit.startup (t := 0) rfl
  have heq : rtThreadStartup cfg (Sys.initial priority) 0 =
      threadStartup cfg (Sys.initial priority) 0 := by
    unfold rtThreadStartup
    rw [if_neg]
    rw [hstart, wake_current]
    exact not_not_intro rfl
  rw [heq]
  have hself : ((threadStartup cfg (Sys.initial priority) 0).thread 0).stat = .ready := by
    rw [hstart, wake_self]
    rfl
  have hother : ∀ u, u ≠ 0 →
      (threadStartup cfg (Sys.initial priority) 0).thread u = threadInit (priority u) := by
    intro u hu
    rw [hstart, wake_of_ne _ hu]
    rfl
  have htimer : ((threadStartup cfg (Sys.initial priority) 0).thread 0).timer = false := by
    rw [hstart, wake_self]
  have hcur : (threadStartup cfg (Sys.initial priority) 0).current = none := by
    rw [hstart, wake_current]
    rfl
  have hlock : (threadStartup cfg (Sys.initial priority) 0).lockNest = 0 := by
    rw [hstart, wake_lockNest]
    rfl
  have hsched := hinv.start hcur
  obtain ⟨next, hget, -, hstat, -, -⟩ := hinv.getHighest (hinv.group_ne_zero_iff.2 ⟨0, hself⟩)
  -- the only thread that is ready is the idle thread
  have hnext : next = 0 := by
    by_contra hne
    rw [hother next hne] at hstat
    cases hstat
  subst hnext
  unfold rtSystemSchedulerStart at hsched ⊢
  rw [hget] at hsched ⊢
  dsimp only at hsched ⊢
  rw [rtScheduleRemoveThread_thread] at hsched ⊢
  refine ⟨hsched, rtScheduleRemoveThread_current _ _, ?_, ?_, ?_, ?_⟩
  · rw [Sys.setThread_self]
  · intro t
    by_cases ht : t = 0
    · subst ht
      rw [Sys.setThread_self]
      simp
    · rw [Sys.setThread_of_ne _ _ ht, rtScheduleRemoveThread_thread]
      show ((threadStartup cfg (Sys.initial priority) 0).thread t).stat ≠ .suspend
      rw [hother t ht]
      simp [threadInit]
  · intro t
    by_cases ht : t = 0
    · subst ht
      rw [Sys.setThread_self]
      exact htimer
    · rw [Sys.setThread_of_ne _ _ ht, rtScheduleRemoveThread_thread]
      show ((threadStartup cfg (Sys.initial priority) 0).thread t).timer = false
      rw [hother t ht]
      rfl
  · rw [Sys.setThread_lockNest, rtScheduleRemoveThread_lockNest]
    exact hlock

theorem bootKernel_booted {priority : ThreadId → Nat} {value : Nat → Nat}
    (hp : ∀ t, priority t < cfg.priorityMax) (hv : ∀ i, value i ≤ rtSemValueMax) :
    (bootKernel cfg priority value).Booted cfg 0 := by
  obtain ⟨hsched, hcur, hrun, hsus, htimer, hlock⟩ := bootSys_fields hp
  exact ⟨hsched, ⟨0, hcur, hrun⟩, Or.inr hrun, hsus, htimer, fun _ => rfl, rfl, hlock,
    fun _ => rfl, hv⟩

end RTThread
