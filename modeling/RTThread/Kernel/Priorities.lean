import RTThread.Kernel.Mutex

/-!
# Priorities and suspend lists, step by step

Three actions change a priority, and each changes that of one thread: `rt_mutex_take` raises the
owner of a mutex, the last `rt_mutex_release` restores the priority of its thread, and
`rt_thread_control` sets any. A thread joins a suspend list only when it blocks, at the place
`_ipc_list_suspend` gives it. What is proved about priorities goes through these two facts and
never looks at the calls again.

## Main results

* `KernelStep.priority_eq` — the priorities after a step.
* `KernelStep.waiters_cases` — the suspend lists after a step.
* `MutexInv.step` — the invariant of the kernel with its mutexes.
* `MutexInv.taken`, `MutexInv.released` — who owns a mutex after a take and after a release.
-/

namespace RTThread

variable {cfg : SchedCfg} {idle : ThreadId}

/-- The thread whose priority the action changes, and its new priority. -/
def KernelAct.reprioritised (s : Kernel) : KernelAct → Option (ThreadId × Nat)
  | .mutexTake t m time =>
    -- the owner of the mutex `t` has to wait for is raised to the priority of `t`
    if (s.mutex m).owner ≠ some t ∧ (s.mutex m).value = 0 ∧ time ≠ 0 then
      match (s.mutex m).owner with
      | some o => if s.priority t < s.priority o then some (o, s.priority t) else none
      | none => none
    else none
  | .mutexRelease t m =>
    if (s.mutex m).owner = some t ∧ ((s.mutex m).hold + 255) % 2 ^ 8 = 0 then
      some (t, (s.mutex m).originalPriority)
    else none
  | .control _ u priority => some (u, priority)
  | _ => none

/-- The priority of a thread after the action. -/
def KernelAct.priorityAfter (s : Kernel) (a : KernelAct) (u : ThreadId) : Nat :=
  match a.reprioritised s with
  | some (v, p) => if u = v then p else s.priority u
  | none => s.priority u

section After

variable {s : Kernel} {t u : ThreadId} {m : Nat} {time : Int}

theorem KernelAct.priorityAfter_take_of_not
    (hn : ¬ ((s.mutex m).owner ≠ some t ∧ (s.mutex m).value = 0 ∧ time ≠ 0)) (u : ThreadId) :
    (KernelAct.mutexTake t m time).priorityAfter s u = s.priority u := by
  unfold KernelAct.priorityAfter KernelAct.reprioritised
  dsimp only
  rw [if_neg hn]

/-- A take that blocks may raise the owner. -/
theorem KernelAct.priorityAfter_take {o : ThreadId}
    (hblock : (s.mutex m).owner ≠ some t ∧ (s.mutex m).value = 0 ∧ time ≠ 0)
    (howner : (s.mutex m).owner = some o) (u : ThreadId) :
    (KernelAct.mutexTake t m time).priorityAfter s u =
      if u = o ∧ s.priority t < s.priority o then s.priority t else s.priority u := by
  unfold KernelAct.priorityAfter KernelAct.reprioritised
  dsimp only
  rw [if_pos hblock, howner]
  dsimp only
  by_cases hlt : s.priority t < s.priority o
  · rw [if_pos hlt]
    simp only [hlt, and_true]
  · rw [if_neg hlt]
    simp only [hlt, and_false, if_false]

theorem KernelAct.priorityAfter_take_of_ne (hu : (s.mutex m).owner ≠ some u) :
    (KernelAct.mutexTake t m time).priorityAfter s u = s.priority u := by
  by_cases hblock : (s.mutex m).owner ≠ some t ∧ (s.mutex m).value = 0 ∧ time ≠ 0
  case neg => exact KernelAct.priorityAfter_take_of_not hblock u
  cases howner : (s.mutex m).owner with
  | none =>
    unfold KernelAct.priorityAfter KernelAct.reprioritised
    dsimp only
    rw [if_pos hblock, howner]
  | some o =>
    rw [KernelAct.priorityAfter_take hblock howner, if_neg]
    rintro ⟨rfl, -⟩
    exact hu howner

theorem KernelAct.priorityAfter_release
    (hf : (s.mutex m).owner = some t ∧ ((s.mutex m).hold + 255) % 2 ^ 8 = 0) (u : ThreadId) :
    (KernelAct.mutexRelease t m).priorityAfter s u =
      if u = t then (s.mutex m).originalPriority else s.priority u := by
  unfold KernelAct.priorityAfter KernelAct.reprioritised
  dsimp only
  rw [if_pos hf]

theorem KernelAct.priorityAfter_release_of_not
    (hn : ¬ ((s.mutex m).owner = some t ∧ ((s.mutex m).hold + 255) % 2 ^ 8 = 0)) (u : ThreadId) :
    (KernelAct.mutexRelease t m).priorityAfter s u = s.priority u := by
  unfold KernelAct.priorityAfter KernelAct.reprioritised
  dsimp only
  rw [if_neg hn]

end After

/-- The thread that the action suspends on an object, and the object. -/
def KernelAct.enqueued (s : Kernel) : KernelAct → Option (ThreadId × IpcId)
  | .semTake t i time => if (s.sem i).value = 0 ∧ time ≠ 0 then some (t, .sem i) else none
  | .mutexTake t m time =>
    if (s.mutex m).owner ≠ some t ∧ (s.mutex m).value = 0 ∧ time ≠ 0 then some (t, .mutex m)
    else none
  | .wait t i _ => some (t, .other i)
  | _ => none

/-- The flag an IPC object was created with. A mutex is always `RT_IPC_FLAG_PRIO`. -/
def Kernel.flagOf (s : Kernel) : IpcId → IpcFlag
  | .sem i => (s.sem i).flag
  | .mutex _ => .prio
  | .other i => s.flag i

-- --------
-- The priorities
-- --------

section Priority

variable {s : Sys} {t u : ThreadId} {p : Nat}

theorem setThread_priority {x : Thread} (hp : x.currentPriority = (s.thread t).currentPriority)
    (u : ThreadId) :
    ((s.setThread t x).thread u).currentPriority = (s.thread u).currentPriority := by
  by_cases hu : u = t
  · subst hu
    rw [Sys.setThread_self, hp]
  · rw [Sys.setThread_of_ne s x hu]

theorem setError_priority (t : ThreadId) (e : RtErr) (u : ThreadId) :
    ((s.setError t e).thread u).currentPriority = (s.thread u).currentPriority := by
  unfold Sys.setError
  exact setThread_priority (by rfl) u

theorem setTimer_priority (t : ThreadId) (b : Bool) (u : ThreadId) :
    ((s.setTimer t b).thread u).currentPriority = (s.thread u).currentPriority := by
  unfold Sys.setTimer
  exact setThread_priority (by rfl) u

theorem wake_priority {x : Thread} (hp : x.currentPriority = (s.thread t).currentPriority)
    (u : ThreadId) :
    ((wake cfg s t x).thread u).currentPriority = (s.thread u).currentPriority := by
  by_cases hu : u = t
  · subst hu
    rw [wake_self]
    exact hp
  · rw [wake_of_ne x hu]

theorem resume_priority (t u : ThreadId) :
    ((rtThreadResume cfg s t).2.thread u).currentPriority = (s.thread u).currentPriority := by
  by_cases hs : (s.thread t).stat = .suspend
  · rw [rtThreadResume_eq hs]
    dsimp only
    exact wake_priority (by rfl) u
  · unfold rtThreadResume
    rw [if_pos hs]

theorem SchedInv.control_priority (h : SchedInv cfg s) (t : ThreadId) (p : Nat) (u : ThreadId) :
    ((rtThreadControl cfg s t p).thread u).currentPriority =
      if u = t then p else (s.thread u).currentPriority := by
  rw [h.control_thread]
  by_cases hu : u = t
  · subst hu
    rw [Function.update_self, Thread.withPriority_currentPriority, if_pos rfl]
  · rw [Function.update_of_ne hu, if_neg hu]

theorem SchedInv.restore_priority (h : SchedInv cfg s) (t : ThreadId) (p : Nat) (u : ThreadId) :
    ((restorePriority cfg s t p).thread u).currentPriority =
      if u = t then p else (s.thread u).currentPriority := by
  unfold restorePriority
  split
  case isTrue => exact h.control_priority t p u
  case isFalse heq =>
    by_cases hu : u = t
    · subst hu
      rw [if_pos rfl]
      exact (not_not.1 heq).symm
    · rw [if_neg hu]

end Priority

section Step

variable {s s' : Kernel} {a : KernelAct} {t u : ThreadId} {m : Nat} {o : IpcId}

theorem Kernel.block_priority {flag : IpcFlag} {timeout : Int} {k : Cont} (h : SchedInv cfg s.sys)
    (ha : (s.sys.thread t).Awake) (u : ThreadId) :
    (s.block cfg t o flag timeout k).priority u = s.priority u := by
  unfold Kernel.priority
  by_cases hu : u = t
  · subst hu
    rw [Kernel.block_self h ha]
  · rw [Kernel.block_of_ne h ha hu]

theorem resumeAll_priority (h : BlockInv cfg idle s.sys s.pc) (o : IpcId) (u : ThreadId) :
    ((ipcListResumeAll cfg s.sys o).thread u).currentPriority =
      (s.sys.thread u).currentPriority := by
  have hall := (resumeAll_spec h o).2
  by_cases hu : u ∈ s.sys.queue (.wait o)
  · rw [hall.woken u hu]
  · rw [hall.kept u hu]

theorem KernelInv.changeOwner_awake (h : KernelInv cfg idle s) (hat : s.At t .run)
    (owner : Option ThreadId) :
    SchedInv cfg (changeOwnerPriority cfg (s.sys.setError t .eok) t owner) ∧
      ((changeOwnerPriority cfg (s.sys.setError t .eok) t owner).thread t).Awake := by
  have herr := h.toBlockInv.setError t .eok
  refine ⟨(herr.changeOwner t owner).sched, ?_⟩
  unfold Thread.Awake
  rw [changeOwnerPriority_stat herr.sched]
  exact h.awake_resetError hat

/-- The priorities when a take of a mutex blocks: the owner may have been raised. -/
theorem KernelInv.take_priority (h : KernelInv cfg idle s) {timeout : Int}
    (howner : (s.mutex m).owner ≠ some t) (hvalue : (s.mutex m).value = 0) (ht : timeout ≠ 0)
    (u : ThreadId) :
    ((changeOwnerPriority cfg (s.sys.setError t .eok) t (s.mutex m).owner).thread u).currentPriority
      = (KernelAct.mutexTake t m timeout).priorityAfter s u := by
  have herr := (h.toBlockInv.setError t .eok).sched
  have hsame : ∀ v, ((s.sys.setError t .eok).thread v).currentPriority = s.priority v :=
    setError_priority t .eok
  unfold changeOwnerPriority
  cases howner' : (s.mutex m).owner with
  | none =>
    rw [KernelAct.priorityAfter_take_of_ne (by rw [howner']; simp)]
    exact hsame u
  | some o =>
    rw [KernelAct.priorityAfter_take ⟨howner, hvalue, ht⟩ howner']
    dsimp only
    rw [hsame t, hsame o]
    by_cases hlt : s.priority t < s.priority o
    · simp only [hlt, if_true, and_true]
      rw [herr.control_priority, hsame u]
    · simp only [hlt, if_false, and_false]
      exact hsame u

/-- **The priorities after a step.** -/
theorem KernelStep.priority_eq (h : KernelInv cfg idle s) (hs : KernelStep cfg idle s a s')
    (u : ThreadId) : s'.priority u = a.priorityAfter s u := by
  have hb := h.toBlockInv
  cases hs with
  | @semTake t i timeout hat =>
    rcases @rtSemTake_cases cfg s t i timeout with
      ⟨-, heq⟩ | ⟨-, -, heq⟩ | ⟨-, -, heq⟩ <;> rw [heq]
    · rfl
    · rfl
    · have herr := (hb.setError t .eok).sched
      refine (Kernel.block_priority herr (hb.awake_resetError hat) u).trans ?_
      exact setError_priority t .eok u
  | @semTrytake t i =>
    unfold rtSemTrytake
    rcases @rtSemTake_cases cfg s t i 0 with ⟨-, heq⟩ | ⟨-, -, heq⟩ | ⟨-, htime, -⟩
    · rw [heq]
      rfl
    · rw [heq]
      rfl
    · exact absurd rfl htime
  | @semRelease c i =>
    rcases @rtSemRelease_cases cfg s i with ⟨w, rest, -, heq⟩ | ⟨-, -, heq⟩ | ⟨-, -, heq⟩ <;>
      rw [heq]
    · unfold Kernel.priority
      rw [if_pos rfl, Kernel.goSchedule_sys]
      exact resume_priority w u
    · rfl
    · rfl
  | @semReset c i =>
    unfold Kernel.priority
    rw [Kernel.goSchedule_sys]
    exact resumeAll_priority hb _ u
  | @mutexTake t m timeout hat =>
    have hcase := @rtMutexTake_cases cfg s t m timeout
    have hsame : (s.resetError t).priority u = s.priority u  :=
      setError_priority t .eok u
    have hnone : ¬ ((s.mutex m).owner ≠ some t ∧ (s.mutex m).value = 0 ∧ timeout ≠ 0) →
        (KernelAct.mutexTake t m timeout).priorityAfter s u = s.priority u :=
      fun hn => KernelAct.priorityAfter_take_of_not hn u
    generalize rtMutexTake cfg s t m timeout = r at hcase ⊢
    cases hcase with
    | again howner =>
      rw [hnone fun hn => hn.1 howner]
      exact hsame
    | full howner =>
      rw [hnone fun hn => hn.1 howner]
      exact hsame
    | first _ hvalue =>
      rw [hnone fun hn => absurd hn.2.1 (by omega)]
      exact hsame
    | stuck _ hvalue =>
      rw [hnone fun hn => absurd hn.2.1 (by omega)]
      exact hsame
    | refused _ _ htime =>
      rw [hnone fun hn => hn.2.2 htime]
      exact (setError_priority t .etimeout u).trans hsame
    | blocked howner hvalue htime =>
      obtain ⟨hsched, hawake⟩ := h.changeOwner_awake hat (s.mutex m).owner
      exact (Kernel.block_priority hsched hawake u).trans (h.take_priority howner hvalue htime u)
  | @mutexRelease t m hat =>
    have hcase := @rtMutexRelease_cases cfg s t m h.sched
    have hnone : ¬ ((s.mutex m).owner = some t ∧ ((s.mutex m).hold + 255) % 2 ^ 8 = 0) →
        (KernelAct.mutexRelease t m).priorityAfter s u = s.priority u :=
      fun hn => KernelAct.priorityAfter_release_of_not hn u
    have hfinal : (s.mutex m).owner = some t ∧ ((s.mutex m).hold + 255) % 2 ^ 8 = 0 →
        ((restorePriority cfg s.sys t (s.mutex m).originalPriority).thread u).currentPriority =
          (KernelAct.mutexRelease t m).priorityAfter s u := by
      intro hf
      rw [KernelAct.priorityAfter_release hf]
      exact h.sched.restore_priority t _ u
    generalize rtMutexRelease cfg s t m = r at hcase ⊢
    cases hcase with
    | notOwner howner =>
      rw [hnone fun hn => howner hn.1]
      exact setError_priority t .error u
    | keep _ hhold =>
      rw [hnone fun hn => hhold hn.2]
      rfl
    | handOver howner hhold w =>
      unfold Kernel.priority
      rw [if_pos rfl, Kernel.goSchedule_sys]
      exact (resume_priority w u).trans (hfinal ⟨howner, hhold⟩)
    | free howner hhold => exact hfinal ⟨howner, hhold⟩
    | overflow howner hhold => exact hfinal ⟨howner, hhold⟩
  | @wait t i timeout hat =>
    have herr := (hb.setError t .eok).sched
    refine (Kernel.block_priority herr (hb.awake_resetError hat) u).trans ?_
    exact setError_priority t .eok u
  | @signal c i v =>
    unfold Kernel.priority
    rw [Kernel.goSchedule_sys]
    exact resume_priority v u
  | @sleep t timeout hat =>
    have hawake := hb.awake_resetError hat
    refine (setTimer_priority t true u).trans ?_
    rw [suspend_thread hawake]
    refine Eq.trans ?_ (setError_priority t .eok u)
    by_cases hu : u = t
    · subst hu
      rw [Function.update_self]
    · rw [Function.update_of_ne hu]
  | @control t v priority => exact h.sched.control_priority v priority u
  | @startup t v hat hv =>
    unfold Kernel.priority
    rw [Kernel.goSchedule_sys]
    show ((threadStartup cfg s.sys v).thread u).currentPriority = (s.sys.thread u).currentPriority
    rw [threadStartup_eq h.sched hv]
    exact wake_priority (by exact Thread.withPriority_currentPriority _ _) u
  | @yield t =>
    have hedit : SchedInv cfg (s.sys.setThread t { s.sys.thread t with yielding := true }) :=
      h.sched.edit rfl rfl rfl rfl rfl
    exact (hedit.schedule_currentPriority u).trans (setThread_priority (by rfl) u)
  | enterCritical => rfl
  | exitCritical =>
    dsimp only
    split <;> rfl
  | reschedule => exact h.sched.schedule_currentPriority u
  | @ret t k =>
    rcases @Kernel.leave_eq s t k with heq | heq <;> rw [heq]
    · rfl
    · exact setError_priority t .eok u
  | @timeout v =>
    show ((threadTimeout cfg (s.sys.setTimer v false) v).thread u).currentPriority = _
    rw [threadTimeout_eq]
    exact (wake_priority (by rfl) u).trans (setTimer_priority v false u)
  | @tick t => exact setThread_priority (by rfl) u
  | schedule => exact h.sched.schedule_currentPriority u

-- --------
-- The suspend lists
-- --------

theorem BlockInv.not_waiting_of_run (h : BlockInv cfg idle s.sys s.pc) (hpc : s.pc t = .run)
    (o : IpcId) : t ∉ s.waiters o :=
  fun ht => not_inCall_of_run hpc (h.inCall_of_waits ht)

/-- The thread that an action suspends was outside the kernel. -/
theorem KernelStep.enqueued_run (hs : KernelStep cfg idle s a s')
    (ha : a.enqueued s = some (t, o)) : s.pc t = .run := by
  unfold KernelAct.enqueued at ha
  cases hs with
  | semTake hat =>
    dsimp only at ha
    split at ha
    · cases ha
      exact hat.pc
    · cases ha
  | mutexTake hat =>
    dsimp only at ha
    split at ha
    · cases ha
      exact hat.pc
    · cases ha
  | wait hat =>
    cases ha
    exact hat.pc
  | _ => cases ha

theorem Kernel.block_inserts {flag : IpcFlag} {timeout : Int} {k : Cont} (h : SchedInv cfg s.sys)
    (ha : (s.sys.thread t).Awake) :
    (s.block cfg t o flag timeout k).waiters o =
      ipcInsert (s.block cfg t o flag timeout k).priority flag t (s.waiters o) := by
  have hprio : (s.block cfg t o flag timeout k).priority = s.priority :=
    funext fun u => Kernel.block_priority h ha u
  rw [hprio]
  exact Kernel.block_waiters h ha

/-- **The suspend lists after a step**: a list loses threads, or gains the one that blocks. -/
theorem KernelStep.waiters_cases (h : KernelInv cfg idle s) (hs : KernelStep cfg idle s a s')
    (o : IpcId) : (s'.waiters o).Sublist (s.waiters o) ∨
      ∃ t, a.enqueued s = some (t, o) ∧
        s'.waiters o = ipcInsert s'.priority (s.flagOf o) t (s.waiters o) := by
  have hb := h.toBlockInv
  by_cases ha : a.Concerns s o
  case neg =>
    rw [(hs.unseen h ha).waiters]
    exact Or.inl (List.Sublist.refl _)
  cases hs with
  | @semTake t i timeout hat =>
    cases ha
    rcases @rtSemTake_cases cfg s t i timeout with
      ⟨-, heq⟩ | ⟨-, -, heq⟩ | ⟨hzero, htime, heq⟩ <;> rw [heq]
    · exact Or.inl (List.Sublist.refl _)
    · exact Or.inl (List.Sublist.refl _)
    · exact Or.inr ⟨t, if_pos ⟨hzero, htime⟩,
        Kernel.block_inserts (hb.setError t .eok).sched (hb.awake_resetError hat)⟩
  | @semTrytake t i =>
    unfold rtSemTrytake
    rcases @rtSemTake_cases cfg s t i 0 with ⟨-, heq⟩ | ⟨-, -, heq⟩ | ⟨-, htime, -⟩
    · rw [heq]
      exact Or.inl (List.Sublist.refl _)
    · rw [heq]
      exact Or.inl (List.Sublist.refl _)
    · exact absurd rfl htime
  | @semRelease c i =>
    refine Or.inl ?_
    cases ha
    rcases @rtSemRelease_cases cfg s i with ⟨w, rest, hq, heq⟩ | ⟨-, -, heq⟩ | ⟨-, -, heq⟩ <;>
      rw [heq]
    · unfold Kernel.waiters
      rw [if_pos rfl, Kernel.goSchedule_sys, resume_wait (h.sched.first_suspended hq)]
      exact List.erase_sublist
    · exact List.Sublist.refl _
    · exact List.Sublist.refl _
  | @semReset c i =>
    refine Or.inl ?_
    cases ha
    have hempty := (resumeAll_spec hb (.sem i)).2.empty
    unfold Kernel.waiters
    rw [Kernel.goSchedule_sys]
    show ((ipcListResumeAll cfg s.sys (.sem i)).queue _).Sublist _
    rw [hempty]
    exact List.nil_sublist _
  | @mutexTake t m timeout hat =>
    cases ha
    have hcase := @rtMutexTake_cases cfg s t m timeout
    generalize rtMutexTake cfg s t m timeout = r at hcase ⊢
    cases hcase with
    | blocked howner hvalue htime =>
      obtain ⟨hsched, hawake⟩ := h.changeOwner_awake hat (s.mutex m).owner
      have herr := (hb.setError t .eok).sched
      have hwait : ({ s with
          sys := changeOwnerPriority cfg (s.sys.setError t .eok) t (s.mutex m).owner } :
          Kernel).waiters (.mutex m) = s.waiters (.mutex m) := herr.changeOwner_wait _ _ _
      refine Or.inr ⟨t, if_pos ⟨howner, hvalue, htime⟩, ?_⟩
      rw [← hwait]
      exact Kernel.block_inserts hsched hawake
    | _ => exact Or.inl (List.Sublist.refl _)
  | @mutexRelease t m hat =>
    refine Or.inl ?_
    cases ha
    have hcase := @rtMutexRelease_cases cfg s t m h.sched
    have hwait := fun p => h.sched.restore_wait t p (.mutex m)
    generalize rtMutexRelease cfg s t m = r at hcase ⊢
    cases hcase with
    | notOwner => exact List.Sublist.refl _
    | keep => exact List.Sublist.refl _
    | handOver howner hhold w rest hq =>
      have hw := h.sched.first_restored hq t (s.mutex m).originalPriority
      unfold Kernel.waiters
      rw [if_pos rfl, Kernel.goSchedule_sys]
      show ((rtThreadResume cfg _ w).2.queue _).Sublist _
      rw [resume_wait hw, hwait]
      exact List.erase_sublist
    | free =>
      unfold Kernel.waiters
      rw [if_neg (by simp), hwait]
    | overflow =>
      unfold Kernel.waiters
      rw [if_neg (by simp), hwait]
  | @wait t i timeout hat =>
    cases ha
    exact Or.inr ⟨t, rfl,
      Kernel.block_inserts (hb.setError t .eok).sched (hb.awake_resetError hat)⟩
  | @signal c i u hc hu =>
    refine Or.inl ?_
    unfold Kernel.waiters
    rw [Kernel.goSchedule_sys, resume_wait (h.sched.wait hu)]
    exact List.erase_sublist
  | @ret t k =>
    rcases @Kernel.leave_eq s t k with heq | heq <;> rw [heq] <;>
      exact Or.inl (List.Sublist.refl _)
  | @timeout u =>
    refine Or.inl ?_
    show ((threadTimeout cfg (s.sys.setTimer u false) u).queue _).Sublist _
    rw [threadTimeout_eq, wake_wait]
    exact List.erase_sublist
  | _ => cases ha

-- --------
-- The mutexes
-- --------

/-- The invariant of the kernel with that of the mutexes. -/
structure MutexInv (cfg : SchedCfg) (idle : ThreadId) (s : Kernel) : Prop
    extends KernelInv cfg idle s where
  recorded : ∃ g, ∀ m, MutexOk m s g

/-- **A step** keeps the invariant of the mutexes. -/
theorem MutexInv.step (h : MutexInv cfg idle s) (hs : KernelStep cfg idle s a s') :
    MutexInv cfg idle s' := by
  obtain ⟨g, hok⟩ := h.recorded
  exact ⟨h.toKernelInv.step hs, _, fun m => (hok m).step h.toKernelInv hs⟩

theorem MutexInv.booted (h : s.Booted cfg idle) : MutexInv cfg idle s :=
  ⟨KernelInv.booted h, _, fun m => MutexOk.start h m⟩

theorem MutexInv.shape (h : MutexInv cfg idle s) (m : Nat) :
    s.MutexFree m ∨ ∃ t, s.MutexHeld m t := by
  obtain ⟨g, hok⟩ := h.recorded
  exact (hok m).shape

theorem MutexInv.held (h : MutexInv cfg idle s) (ht : (s.mutex m).owner = some t) :
    s.MutexHeld m t := by
  obtain ⟨g, hok⟩ := h.recorded
  exact (hok m).held ht

theorem MutexInv.free (h : MutexInv cfg idle s) (hv : 0 < (s.mutex m).value) :
    s.MutexFree m := by
  obtain ⟨g, hok⟩ := h.recorded
  exact (hok m).free hv

/-- The release by the thread is the last one: the mutex is passed on or freed. -/
def Kernel.LastRelease (s : Kernel) (t : ThreadId) (m : Nat) : Prop :=
  (s.mutex m).owner = some t ∧ (s.mutex m).hold = 1

instance (s : Kernel) (t : ThreadId) (m : Nat) : Decidable (s.LastRelease t m) :=
  inferInstanceAs (Decidable (_ ∧ _))

theorem MutexInv.lastRelease_iff (h : MutexInv cfg idle s) :
    (s.mutex m).owner = some t ∧ ((s.mutex m).hold + 255) % 2 ^ 8 = 0 ↔ s.LastRelease t m := by
  refine and_congr_right fun howner => ?_
  have hheld := h.held howner
  have hpos := hheld.hold
  have hle : (s.mutex m).hold ≤ 255 := hheld.hold_le
  omega

/-- Who owns a mutex after a take. -/
inductive MutexOwned (s s' : Kernel) (t : ThreadId) (m : Nat) : Prop
  | acquired (hget : (s.mutex m).owner ≠ some t ∧ 0 < (s.mutex m).value) (hfree : s.MutexFree m)
      (howner : (s'.mutex m).owner = some t)
      (horiginal : (s'.mutex m).originalPriority = s.priority t)
  | same (hnot : ¬ ((s.mutex m).owner ≠ some t ∧ 0 < (s.mutex m).value))
      (howner : (s'.mutex m).owner = (s.mutex m).owner)
      (horiginal : (s'.mutex m).originalPriority = (s.mutex m).originalPriority)

theorem MutexInv.taken {time : Int} (h : MutexInv cfg idle s)
    (hs : KernelStep cfg idle s (.mutexTake t m time) s') : MutexOwned s s' t m := by
  cases hs with
  | mutexTake hat =>
    have hcase := @rtMutexTake_cases cfg s t m time
    generalize rtMutexTake cfg s t m time = r at hcase ⊢
    cases hcase with
    | again howner =>
      have hself := @Kernel.setMutex_self (s.resetError t) m
        { s.mutex m with hold := (s.mutex m).hold + 1 }
      refine .same (fun hn => hn.1 howner) ?_ ?_
      · rw [hself]
      · rw [hself]
    | full howner => exact .same (fun hn => hn.1 howner) rfl rfl
    | first howner hvalue =>
      have hself := @Kernel.setMutex_self (s.resetError t) m
        { s.mutex m with
          value := (s.mutex m).value - 1, owner := some t, originalPriority := s.priority t
          hold := (s.mutex m).hold + 1 }
      refine .acquired ⟨howner, hvalue⟩ (h.free hvalue) ?_ ?_
      · rw [hself]
      · rw [hself]
    | stuck _ hvalue hhold =>
      -- a free mutex has not been taken
      rw [(h.free hvalue).hold] at hhold
      exact absurd hhold (by decide)
    | refused _ hvalue => exact .same (fun hn => absurd hn.2 (by omega)) rfl rfl
    | blocked _ hvalue => exact .same (fun hn => absurd hn.2 (by omega)) rfl rfl

/-- Who owns a mutex after a release. -/
inductive MutexLeft (s s' : Kernel) (t : ThreadId) (m : Nat) : Prop
  | same (hnot : ¬ s.LastRelease t m) (howner : (s'.mutex m).owner = (s.mutex m).owner)
      (horiginal : (s'.mutex m).originalPriority = (s.mutex m).originalPriority)
  | passed (w : ThreadId) (rest : List ThreadId) (hlast : s.LastRelease t m)
      (hq : s.waiters (.mutex m) = w :: rest) (hne : w ≠ t)
      (howner : (s'.mutex m).owner = some w)
      (horiginal : (s'.mutex m).originalPriority = s.priority w)
      (hrest : s'.waiters (.mutex m) = rest)
  | freed (hlast : s.LastRelease t m) (hq : s.waiters (.mutex m) = [])
      (howner : (s'.mutex m).owner = none)

theorem MutexInv.released (h : MutexInv cfg idle s)
    (hs : KernelStep cfg idle s (.mutexRelease t m) s') : MutexLeft s s' t m := by
  cases hs with
  | mutexRelease hat =>
    have hcase := @rtMutexRelease_cases cfg s t m h.sched
    generalize rtMutexRelease cfg s t m = r at hcase ⊢
    cases hcase with
    | notOwner howner => exact .same (fun hn => howner hn.1) rfl rfl
    | keep howner hhold =>
      have hself := @Kernel.setMutex_self s m
        { s.mutex m with hold := ((s.mutex m).hold + 255) % 2 ^ 8 }
      rw [if_neg (by simp)]
      refine .same (fun hn => hhold (h.lastRelease_iff.2 hn).2) ?_ ?_
      · rw [hself]
      · rw [hself]
    | handOver howner hhold w rest hq =>
      have hne : w ≠ t := by
        rintro rfl
        exact h.not_waiting_of_run hat.pc (.mutex m) (Queues.head_mem hq)
      have hw := h.sched.first_restored hq t (s.mutex m).originalPriority
      rw [if_pos rfl]
      refine .passed w rest (h.lastRelease_iff.1 ⟨howner, hhold⟩) hq hne ?_ ?_ ?_
      · rw [Kernel.goSchedule_mutex]
        exact congrArg Mutex.owner (Function.update_self m _ s.mutex)
      · rw [Kernel.goSchedule_mutex]
        refine (congrArg Mutex.originalPriority (Function.update_self m _ s.mutex)).trans ?_
        exact (h.sched.restore_priority t _ w).trans (if_neg hne)
      · unfold Kernel.waiters at hq ⊢
        rw [Kernel.goSchedule_sys]
        refine (resume_wait hw _).trans ?_
        rw [h.sched.restore_wait, hq, List.erase_cons_head]
    | free howner hhold hq =>
      refine .freed (h.lastRelease_iff.1 ⟨howner, hhold⟩) hq ?_
      exact congrArg Mutex.owner (Function.update_self m _ s.mutex)
    | overflow howner _ _ hvalue =>
      -- a held mutex has no unit
      rw [(h.held howner).value] at hvalue
      exact absurd hvalue (by decide)

theorem MutexInv.mutex_other {m' : Nat} (h : MutexInv cfg idle s) (hs : KernelStep cfg idle s a s')
    (ha : (∃ time, a = .mutexTake t m time) ∨ a = .mutexRelease t m) (hm : m' ≠ m) :
    s'.mutex m' = s.mutex m' := by
  refine hs.mutex_other h.toKernelInv ?_
  rcases ha with ⟨time, rfl⟩ | rfl <;> exact fun hc => hm (IpcId.mutex.inj hc)

theorem MutexInv.not_owner (h : MutexInv cfg idle s) (hu : u ∈ s.waiters (.mutex m)) :
    (s.mutex m).owner ≠ some u := by
  obtain ⟨g, hok⟩ := h.recorded
  exact ((hok m).waiting u hu).1

end Step

end RTThread
