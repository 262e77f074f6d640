import RTThread.Kernel.Ipc

/-!
# Blocked threads

`BlockInv` ties the status of the threads to where they are: a thread is suspended only between
the critical section of a call that blocks and the return of that call, the list it waits in is
the one this call names, and the current thread is suspended only on its way to `rt_schedule`.
The idle thread never blocks, so `rt_schedule` always finds a thread to run, and a call goes on
behind its `rt_schedule` only when its thread has been woken.

## Main results

* `BlockInv.schedule_running` — `rt_schedule` always leaves a running thread.
* `resumeAll_spec` — `_ipc_list_resume_all` wakes every thread of the list.
-/

namespace RTThread

variable {cfg : SchedCfg} {idle : ThreadId}

/-- What a thread in a call goes on with. -/
def Pc.cont : Pc → Option Cont
  | .run => none
  | .schedule k => some k
  | .woken k => some k

/-- The object in whose list a call waits. -/
def Cont.queue : Cont → Option IpcId
  | .done => none
  | .semTake i => some (.sem i)
  | .mutexTake m => some (.mutex m)
  | .wait i => some (.other i)
  | .sleep => none

/-- Where the threads are, and their status. -/
structure BlockInv (cfg : SchedCfg) (idle : ThreadId) (s : Sys) (pc : ThreadId → Pc) : Prop where
  sched : SchedInv cfg s
  idle_awake : (s.thread idle).Awake
  current : ∃ t, s.current = some t
  current_stat : ∀ {t}, s.current = some t → (s.thread t).stat = .running ∨
    (s.thread t).stat = .suspend ∧ s.lockNest = 0 ∧ ∃ k, pc t = .schedule k
  waiting : ∀ t o, t ∈ s.queue (.wait o) ↔
    (s.thread t).stat = .suspend ∧ ∃ k, (pc t).cont = some k ∧ k.queue = some o
  inside : ∀ {t}, (s.thread t).stat = .suspend → pc t ≠ .run
  timer : ∀ {t}, (s.thread t).timer = true → (s.thread t).stat = .suspend

section Primitives

variable {s : Sys} {pc : ThreadId → Pc} {t u : ThreadId}

theorem BlockInv.running (h : BlockInv cfg idle s pc) (hcur : s.current = some t)
    (hpc : ∀ k, pc t ≠ .schedule k) : (s.thread t).stat = .running := by
  rcases h.current_stat hcur with hrun | ⟨-, -, k, hk⟩
  · exact hrun
  · exact absurd hk (hpc k)

theorem BlockInv.not_waiting (h : BlockInv cfg idle s pc) (hs : (s.thread t).stat ≠ .suspend)
    (o : IpcId) : t ∉ s.queue (.wait o) :=
  fun ht => hs ((h.waiting t o).1 ht).1

/-- A thread that is not suspended may go anywhere. -/
theorem BlockInv.move (h : BlockInv cfg idle s pc) (hs : (s.thread t).stat ≠ .suspend) (p : Pc) :
    BlockInv cfg idle s (Function.update pc t p) where
  sched := h.sched
  idle_awake := h.idle_awake
  current := h.current
  current_stat {u} hu := by
    rcases h.current_stat hu with hrun | ⟨hsus, hlock, hk⟩
    · exact Or.inl hrun
    · have hut : u ≠ t := by
        rintro rfl
        exact hs hsus
      rw [Function.update_of_ne hut]
      exact Or.inr ⟨hsus, hlock, hk⟩
  waiting u o := by
    by_cases hut : u = t
    · subst hut
      exact iff_of_false (h.not_waiting hs o) fun hsus => hs hsus.1
    · rw [Function.update_of_ne hut]
      exact h.waiting u o
  inside {u} hu := by
    have hut : u ≠ t := by
      rintro rfl
      exact hs hu
    rw [Function.update_of_ne hut]
    exact h.inside hu
  timer := h.timer

/-- An edit of what is neither status, priority nor mask, and starts no timer. -/
theorem BlockInv.edit (h : BlockInv cfg idle s pc) {x : Thread} (hstat : x.stat = (s.thread t).stat)
    (hp : x.currentPriority = (s.thread t).currentPriority) (hn : x.number = (s.thread t).number)
    (hm : x.numberMask = (s.thread t).numberMask) (hh : x.highMask = (s.thread t).highMask)
    (htimer : x.timer = true → (s.thread t).timer = true) :
    BlockInv cfg idle (s.setThread t x) pc := by
  have hall : ∀ u, ((s.setThread t x).thread u).stat = (s.thread u).stat := by
    intro u
    by_cases hu : u = t
    · subst hu
      rw [Sys.setThread_self]
      exact hstat
    · rw [Sys.setThread_of_ne s x hu]
  refine ⟨h.sched.edit hstat hp hn hm hh, ?_, h.current, ?_, ?_, ?_, ?_⟩
  · unfold Thread.Awake
    rw [hall]
    exact h.idle_awake
  · intro u hu
    rw [hall]
    exact h.current_stat hu
  · intro u o
    rw [hall]
    exact h.waiting u o
  · intro u hu
    rw [hall] at hu
    exact h.inside hu
  · intro u hu
    rw [hall]
    by_cases hut : u = t
    · subst hut
      rw [Sys.setThread_self] at hu
      exact h.timer (htimer hu)
    · rw [Sys.setThread_of_ne s x hut] at hu
      exact h.timer hu

theorem setError_stat (s : Sys) (t : ThreadId) (e : RtErr) (u : ThreadId) :
    ((s.setError t e).thread u).stat = (s.thread u).stat := by
  unfold Sys.setError
  by_cases hu : u = t
  · subst hu
    rw [Sys.setThread_self]
  · rw [Sys.setThread_of_ne _ _ hu]

theorem BlockInv.setError (h : BlockInv cfg idle s pc) (t : ThreadId) (e : RtErr) :
    BlockInv cfg idle (s.setError t e) pc :=
  h.edit rfl rfl rfl rfl rfl id

/-- **A thread is woken** or started. -/
theorem BlockInv.wake (h : BlockInv cfg idle s pc)
    (hs : (s.thread t).stat = .suspend ∨ (s.thread t).stat = .init) {x : Thread}
    (hm : x.Masked cfg) (hp : x.currentPriority < cfg.priorityMax) (htimer : x.timer = false) :
    BlockInv cfg idle (wake cfg s t x) pc := by
  have hr : (s.thread t).stat ≠ .ready := by
    rcases hs with hs | hs <;> rw [hs] <;> decide
  have hawake := s.readyStat_awake t
  have hself : ((RTThread.wake cfg s t x).thread t).stat ≠ .suspend := by
    rw [wake_self]
    rcases hawake with ha | ha <;> simp [ha]
  refine ⟨h.sched.wake hr hm hp, ?_, ?_, ?_, ?_, ?_, ?_⟩
  · by_cases hi : idle = t
    · subst hi
      rw [wake_self]
      exact hawake
    · rw [wake_of_ne x hi]
      exact h.idle_awake
  · rw [wake_current]
    exact h.current
  · intro u hu
    rw [wake_current] at hu
    by_cases hut : u = t
    · subst hut
      refine Or.inl ?_
      rw [wake_self]
      exact if_pos hu
    · rw [wake_of_ne x hut, wake_lockNest]
      exact h.current_stat hu
  · intro u o
    rw [wake_wait, (h.sched.apart.nodup _).mem_erase_iff]
    by_cases hut : u = t
    · subst hut
      exact iff_of_false (fun hu => hu.1 rfl) fun hu => hself hu.1
    · rw [wake_of_ne x hut, h.waiting u o]
      simp [hut]
  · intro u hu
    by_cases hut : u = t
    · subst hut
      exact absurd hu hself
    · rw [wake_of_ne x hut] at hu
      exact h.inside hu
  · intro u hu
    by_cases hut : u = t
    · subst hut
      rw [wake_self] at hu
      rw [htimer] at hu
      cases hu
    · rw [wake_of_ne x hut] at hu ⊢
      exact h.timer hu

theorem BlockInv.resume (h : BlockInv cfg idle s pc) (hs : (s.thread t).stat = .suspend) :
    BlockInv cfg idle (rtThreadResume cfg s t).2 pc := by
  rw [rtThreadResume_eq hs]
  exact h.wake (Or.inl hs) ((h.sched.masked_of_suspend hs).of_same rfl rfl rfl rfl)
    (h.sched.bounded t) rfl

theorem BlockInv.startup (h : BlockInv cfg idle s pc) (hi : (s.thread t).stat = .init) :
    BlockInv cfg idle (threadStartup cfg s t) pc := by
  rw [threadStartup_eq h.sched hi]
  refine h.wake (Or.inr hi) (Thread.Masked.of_same (Thread.masked_withPriority (s.thread t) _)
    rfl rfl rfl rfl) ?_ rfl
  rw [Thread.withPriority_currentPriority]
  exact h.sched.bounded t

/-- A priority is changed. -/
theorem BlockInv.control (h : BlockInv cfg idle s pc) (t : ThreadId) {p : Nat}
    (hp : p < cfg.priorityMax) : BlockInv cfg idle (rtThreadControl cfg s t p) pc := by
  have hall : ∀ u, ((rtThreadControl cfg s t p).thread u).stat = (s.thread u).stat ∧
      ((rtThreadControl cfg s t p).thread u).timer = (s.thread u).timer := by
    intro u
    rw [h.sched.control_thread]
    by_cases hu : u = t
    · subst hu
      rw [Function.update_self, Thread.withPriority_stat, Thread.withPriority_timer]
      exact ⟨rfl, rfl⟩
    · rw [Function.update_of_ne hu]
      exact ⟨rfl, rfl⟩
  refine ⟨h.sched.control t hp, ?_, ?_, ?_, ?_, ?_, ?_⟩
  · unfold Thread.Awake
    rw [(hall idle).1]
    exact h.idle_awake
  · rw [rtThreadControl_current]
    exact h.current
  · intro u hu
    rw [rtThreadControl_current] at hu
    rw [(hall u).1, rtThreadControl_lockNest]
    exact h.current_stat hu
  · intro u o
    rw [h.sched.control_wait, (hall u).1]
    exact h.waiting u o
  · intro u hu
    rw [(hall u).1] at hu
    exact h.inside hu
  · intro u hu
    rw [(hall u).2] at hu
    rw [(hall u).1]
    exact h.timer hu

/-- **After `rt_schedule` the current thread is running**: a suspended one is switched away
from, since the idle thread at least is ready. -/
theorem BlockInv.schedule_running (h : BlockInv cfg idle s pc)
    (hcur : (rtSchedule cfg s).current = some t) :
    ((rtSchedule cfg s).thread t).stat = .running := by
  obtain ⟨cur, hold⟩ := h.current
  cases (rtSchedule_cases h.sched hold).1 with
  | nothing hidle heq =>
    rw [heq] at hcur ⊢
    rcases h.current_stat hcur with hrun | ⟨hsus, hlock, -⟩
    · exact hrun
    · -- the idle thread is ready, so the scheduler cannot find nothing to do
      have hready : (s.thread idle).stat = .ready := by
        refine h.idle_awake.resolve_right fun hrun => ?_
        have hcur' := h.sched.running hrun
        rw [hcur, Option.some.injEq] at hcur'
        rw [hcur', hrun] at hsus
        cases hsus
      rcases hidle with hne | hnone
      · exact absurd hlock hne
      · exact absurd hready (hnone idle)
  | stay next _ _ hstay hthread _ hcurrent _ =>
    rw [hcurrent, hold, Option.some.injEq] at hcur
    rw [hthread, ← hcur, Function.update_self]
    exact hstay.1
  | switch next _ _ _ _ hthread _ hcurrent _ =>
    rw [hcurrent, Option.some.injEq] at hcur
    rw [hthread, hcur, Function.update_self]

/-- `rt_schedule` keeps the invariant, whoever calls it. -/
theorem BlockInv.schedule (h : BlockInv cfg idle s pc) :
    BlockInv cfg idle (rtSchedule cfg s) pc where
  sched := h.sched.schedule
  idle_awake := (h.sched.schedule_awake_iff idle).2 h.idle_awake
  current := by
    obtain ⟨cur, hold⟩ := h.current
    cases (rtSchedule_cases h.sched hold).1 with
    | nothing _ heq =>
      rw [heq]
      exact ⟨cur, hold⟩
    | stay _ _ _ _ _ _ hcurrent _ => exact ⟨cur, hcurrent.trans hold⟩
    | switch next _ _ _ _ _ _ hcurrent _ => exact ⟨next, hcurrent⟩
  current_stat hcur := Or.inl (h.schedule_running hcur)
  waiting u o := by
    rw [h.sched.schedule_wait, h.sched.schedule_suspend_iff]
    exact h.waiting u o
  inside hu := h.inside ((h.sched.schedule_suspend_iff _).1 hu)
  timer {u} hu := by
    rw [h.sched.schedule_timer] at hu
    rw [h.sched.schedule_suspend_iff]
    exact h.timer hu

/-- The thread that made the call goes on behind it when it runs again. -/
theorem BlockInv.reschedule (h : BlockInv cfg idle s pc) {k : Cont} (hk : pc t = .schedule k) :
    BlockInv cfg idle (rtSchedule cfg s) (Function.update pc t (.woken k)) := by
  have hsame : ∀ u, (Function.update pc t (.woken k) u).cont = (pc u).cont := by
    intro u
    by_cases hu : u = t
    · subst hu
      rw [Function.update_self, hk]
      rfl
    · rw [Function.update_of_ne hu]
  have hsched := h.schedule
  refine ⟨hsched.sched, hsched.idle_awake, hsched.current,
    fun hcur => Or.inl (h.schedule_running hcur), ?_, ?_, hsched.timer⟩
  · intro u o
    rw [hsame]
    exact hsched.waiting u o
  · intro u hu
    by_cases hut : u = t
    · subst hut
      rw [Function.update_self]
      simp
    · rw [Function.update_of_ne hut]
      exact hsched.inside hu

/-- The lock count changes while the current thread runs. -/
theorem BlockInv.with_lockNest (h : BlockInv cfg idle s pc) (hcur : s.current = some t)
    (hrun : (s.thread t).stat = .running) (n : Nat) :
    BlockInv cfg idle { s with lockNest := n } pc where
  sched := h.sched.with_lockNest n
  idle_awake := h.idle_awake
  current := h.current
  current_stat {u} hu := by
    have hut : u = t := Option.some.inj (Eq.trans (Eq.symm hu) hcur)
    subst hut
    exact Or.inl hrun
  waiting := h.waiting
  inside := h.inside
  timer := h.timer

end Primitives

-- --------
-- Blocking
-- --------

/-- Where a thread goes in a suspend list. -/
def ipcInsert (priority : ThreadId → Nat) (flag : IpcFlag) (t : ThreadId) (list : List ThreadId) :
    List ThreadId :=
  match flag with
  | .fifo => list ++ [t]
  | .prio => list.orderedInsert (fun u v => priority u < priority v) t

theorem ipcInsert_perm (priority : ThreadId → Nat) (flag : IpcFlag) (t : ThreadId)
    (list : List ThreadId) : (ipcInsert priority flag t list).Perm (t :: list) := by
  cases flag with
  | fifo => exact List.perm_append_singleton _ _
  | prio => exact List.perm_orderedInsert _ _ _

section Suspend

variable {s : Sys} {pc : ThreadId → Pc} {t u : ThreadId} {o : IpcId}

theorem suspend_thread (ha : (s.thread t).Awake) :
    (rtThreadSuspend cfg s t).2.thread =
      Function.update s.thread t { s.thread t with stat := .suspend, timer := false } := by
  rw [rtThreadSuspend_eq ha]
  unfold Sys.setThread
  rw [rtScheduleRemoveThread_thread]

theorem suspend_current (ha : (s.thread t).Awake) :
    (rtThreadSuspend cfg s t).2.current = s.current := by
  rw [rtThreadSuspend_eq ha]
  exact rtScheduleRemoveThread_current s t

theorem suspend_lockNest (ha : (s.thread t).Awake) :
    (rtThreadSuspend cfg s t).2.lockNest = s.lockNest := by
  rw [rtThreadSuspend_eq ha]
  exact rtScheduleRemoveThread_lockNest s t

theorem suspend_wait (h : SchedInv cfg s) (ha : (s.thread t).Awake) (o : IpcId) :
    (rtThreadSuspend cfg s t).2.queue (.wait o) = s.queue (.wait o) := by
  rw [rtThreadSuspend_eq ha, Sys.setThread_queue, rtScheduleRemoveThread_queue]
  refine Queues.unlink_of_not_mem fun ht => ?_
  have hsus := h.wait ht
  rcases ha with ha | ha <;> rw [hsus] at ha <;> cases ha

/-- `_ipc_list_suspend` of a thread that is awake. -/
theorem ipcListSuspend_eq (h : SchedInv cfg s) (ha : (s.thread t).Awake) (flag : IpcFlag) :
    ipcListSuspend cfg s o t flag =
      (rtThreadSuspend cfg s t).2.setQueue (.wait o)
        (ipcInsert (fun u => (s.thread u).currentPriority) flag t (s.queue (.wait o))) := by
  have hprio : ∀ u, ((rtThreadSuspend cfg s t).2.thread u).currentPriority =
      (s.thread u).currentPriority := by
    intro u
    rw [suspend_thread ha]
    by_cases hu : u = t
    · subst hu
      rw [Function.update_self]
    · rw [Function.update_of_ne hu]
  unfold ipcListSuspend ipcInsert
  dsimp only
  rw [suspend_wait h ha]
  cases flag with
  | fifo => rfl
  | prio => simp only [hprio]

theorem SchedInv.ipcListSuspend (h : SchedInv cfg s) (ha : (s.thread t).Awake) (o : IpcId)
    (flag : IpcFlag) : SchedInv cfg (ipcListSuspend cfg s o t flag) := by
  have hmask := h.masked_of_awake ha
  have hthread : ((rtThreadSuspend cfg s t).2.thread t) =
      { s.thread t with stat := .suspend, timer := false } := by
    rw [suspend_thread ha, Function.update_self]
  rw [ipcListSuspend_eq h ha]
  have hqueues : ReadyQueues cfg ((rtThreadSuspend cfg s t).2.setQueue (.wait o)
      (ipcInsert (fun u => (s.thread u).currentPriority) flag t (s.queue (.wait o)))) := by
    refine (h.suspend_loose ha).enqueue ?_ (Or.inl ⟨⟨o, rfl⟩, ?_⟩) ?_ ?_
    · rw [suspend_wait h ha]
      exact ipcInsert_perm _ _ _ _
    · rw [hthread]
    · intro _
      rw [hthread]
      exact hmask.of_same rfl rfl rfl rfl
    · rw [hthread]
      exact h.bounded t
  refine h.of_touch (t := t) hqueues (suspend_current ha) ?_ ?_ ?_ ?_
  · intro u hu
    show (rtThreadSuspend cfg s t).2.thread u = s.thread u
    rw [suspend_thread ha, Function.update_of_ne hu]
  · intro hrun
    have hrun' : ((rtThreadSuspend cfg s t).2.thread t).stat = .running := hrun
    rw [hthread] at hrun'
    cases hrun'
  · intro _
    show ((rtThreadSuspend cfg s t).2.thread t).stat ≠ .ready
    rw [hthread]
    simp
  · intro _
    show ((rtThreadSuspend cfg s t).2.thread t).Masked cfg
    rw [hthread]
    exact hmask.of_same rfl rfl rfl rfl

/-- The current thread has gone to sleep, in the list of `k` or in none. -/
theorem BlockInv.of_suspend {s' : Sys} {k : Cont} (h : BlockInv cfg idle s pc)
    (hsched : SchedInv cfg s') (hcur : s.current = some t) (hrun : (s.thread t).stat = .running)
    (hlock : s.lockNest = 0) (hidle : t ≠ idle) (hcur' : s'.current = s.current)
    (hlock' : s'.lockNest = s.lockNest) (hself : (s'.thread t).stat = .suspend)
    (hother : ∀ u, u ≠ t → s'.thread u = s.thread u)
    (hwait : ∀ u o, u ∈ s'.queue (.wait o) ↔ u ∈ s.queue (.wait o) ∨ u = t ∧ k.queue = some o) :
    BlockInv cfg idle s' (Function.update pc t (.schedule k)) := by
  have hnot := h.not_waiting (t := t) (by
    rw [hrun]
    decide)
  refine ⟨hsched, ?_, ?_, ?_, ?_, ?_, ?_⟩
  · rw [hother idle (Ne.symm hidle)]
    exact h.idle_awake
  · rw [hcur']
    exact h.current
  · intro u hu
    rw [hcur', hcur, Option.some.injEq] at hu
    subst hu
    rw [Function.update_self, hlock']
    exact Or.inr ⟨hself, hlock, k, rfl⟩
  · intro u o
    rw [hwait]
    by_cases hut : u = t
    · subst hut
      simp [hself, Pc.cont, hnot o]
    · rw [hother u hut, Function.update_of_ne hut, ← h.waiting u o]
      simp [hut]
  · intro u hu
    by_cases hut : u = t
    · subst hut
      rw [Function.update_self]
      simp
    · rw [hother u hut] at hu
      rw [Function.update_of_ne hut]
      exact h.inside hu
  · intro u hu
    by_cases hut : u = t
    · subst hut
      exact hself
    · rw [hother u hut] at hu ⊢
      exact h.timer hu

end Suspend

section Block

variable {s : Kernel} {t u : ThreadId} {o o' : IpcId} {flag : IpcFlag} {timeout : Int} {k : Cont}

/-- A call that blocks its thread, field by field. -/
theorem Kernel.block_fields (h : SchedInv cfg s.sys) (ha : (s.sys.thread t).Awake) :
    (s.block cfg t o flag timeout k).sys.thread =
        Function.update s.sys.thread t
          { s.sys.thread t with stat := .suspend, timer := decide (0 < timeout) } ∧
      (s.block cfg t o flag timeout k).sys.queue =
        Function.update (rtThreadSuspend cfg s.sys t).2.queue (.wait o)
          (ipcInsert s.priority flag t (s.waiters o)) ∧
      (s.block cfg t o flag timeout k).sys.current = s.sys.current ∧
      (s.block cfg t o flag timeout k).sys.lockNest = s.sys.lockNest := by
  have hthread := @suspend_thread cfg s.sys t ha
  have hcurrent := @suspend_current cfg s.sys t ha
  have hlock := @suspend_lockNest cfg s.sys t ha
  unfold Kernel.block
  dsimp only
  rw [ipcListSuspend_eq h ha]
  by_cases ht : 0 < timeout
  · rw [if_pos ht, decide_eq_true ht]
    refine ⟨?_, rfl, hcurrent, hlock⟩
    unfold Sys.setTimer Sys.setThread Sys.setQueue
    dsimp only
    rw [hthread, Function.update_self, Function.update_idem]
  · rw [if_neg ht, decide_eq_false ht]
    exact ⟨hthread, rfl, hcurrent, hlock⟩

theorem Kernel.block_of_ne (h : SchedInv cfg s.sys) (ha : (s.sys.thread t).Awake) (hu : u ≠ t) :
    (s.block cfg t o flag timeout k).sys.thread u = s.sys.thread u := by
  rw [(Kernel.block_fields h ha).1, Function.update_of_ne hu]

theorem Kernel.block_self (h : SchedInv cfg s.sys) (ha : (s.sys.thread t).Awake) :
    (s.block cfg t o flag timeout k).sys.thread t =
      { s.sys.thread t with stat := .suspend, timer := decide (0 < timeout) } := by
  rw [(Kernel.block_fields h ha).1, Function.update_self]

theorem Kernel.block_waiters (h : SchedInv cfg s.sys) (ha : (s.sys.thread t).Awake) :
    (s.block cfg t o flag timeout k).waiters o = ipcInsert s.priority flag t (s.waiters o) := by
  unfold Kernel.waiters
  rw [(Kernel.block_fields h ha).2.1, Function.update_self]

theorem Kernel.block_waiters_of_ne (h : SchedInv cfg s.sys) (ha : (s.sys.thread t).Awake)
    (ho : o' ≠ o) : (s.block cfg t o flag timeout k).waiters o' = s.waiters o' := by
  unfold Kernel.waiters
  rw [(Kernel.block_fields h ha).2.1, Function.update_of_ne (by simpa using ho)]
  exact suspend_wait h ha o'

/-- **Blocking** keeps the invariant. -/
theorem BlockInv.block (h : BlockInv cfg idle s.sys s.pc) (hcur : s.sys.current = some t)
    (hrun : (s.sys.thread t).stat = .running) (hlock : s.sys.lockNest = 0) (hidle : t ≠ idle)
    (hk : k.queue = some o) :
    BlockInv cfg idle (s.block cfg t o flag timeout k).sys
      (s.block cfg t o flag timeout k).pc := by
  have ha : (s.sys.thread t).Awake := Or.inr hrun
  obtain ⟨-, -, hcurrent, hnest⟩ :=
    @Kernel.block_fields cfg s t o flag timeout k h.sched ha
  have hsched : SchedInv cfg (s.block cfg t o flag timeout k).sys := by
    unfold Kernel.block
    dsimp only
    split
    · exact SchedInv.edit (h.sched.ipcListSuspend ha o flag) rfl rfl rfl rfl rfl
    · exact h.sched.ipcListSuspend ha o flag
  refine h.of_suspend hsched hcur hrun hlock hidle hcurrent hnest ?_ ?_ ?_
  · rw [Kernel.block_self h.sched ha]
  · intro u hu
    exact Kernel.block_of_ne h.sched ha hu
  · intro u o'
    by_cases ho : o' = o
    · subst ho
      have heq := @Kernel.block_waiters cfg s t o' flag timeout k h.sched ha
      unfold Kernel.waiters at heq
      rw [heq, (ipcInsert_perm _ _ _ _).mem_iff, List.mem_cons, hk]
      simp only [and_true]
      exact or_comm
    · have heq := @Kernel.block_waiters_of_ne cfg s t o o' flag timeout k h.sched ha ho
      unfold Kernel.waiters at heq
      rw [heq, hk]
      simp [Ne.symm ho]

end Block

-- --------
-- Waking all
-- --------

section ResumeAll

variable {s : Sys} {pc : ThreadId → Pc} {o : IpcId}

/-- What waking all threads of a list does. -/
structure ResumedAll (cfg : SchedCfg) (o : IpcId) (s s' : Sys) : Prop where
  empty : s'.queue (.wait o) = []
  others : ∀ o', o' ≠ o → s'.queue (.wait o') = s.queue (.wait o')
  woken : ∀ u, u ∈ s.queue (.wait o) → s'.thread u =
    { s.thread u with stat := s.readyStat u, error := .error, timer := false }
  kept : ∀ u, u ∉ s.queue (.wait o) → s'.thread u = s.thread u
  current : s'.current = s.current
  lockNest : s'.lockNest = s.lockNest

theorem resume_error_eq {t : ThreadId} (hs : (s.thread t).stat = .suspend) :
    (rtThreadResume cfg (s.setError t .error) t).2 =
      wake cfg s t { s.thread t with error := .error, timer := false } := by
  have hs' := (setError_stat s t .error t).trans hs
  rw [rtThreadResume_eq hs']
  unfold wake Sys.setError Sys.listRemove Sys.setThread
  dsimp only
  rw [Function.update_self, Function.update_idem]

/-- **The loop ends with an empty list**: each round takes the first thread out. -/
theorem resumeLoop_spec (n : Nat) : ∀ {s : Sys}, BlockInv cfg idle s pc →
    (s.queue (.wait o)).length ≤ n →
    BlockInv cfg idle (resumeLoop cfg o n s) pc ∧ ResumedAll cfg o s (resumeLoop cfg o n s) := by
  induction n with
  | zero =>
    intro s h hlen
    have hnil : s.queue (.wait o) = [] := List.length_eq_zero_iff.1 (Nat.le_zero.1 hlen)
    refine ⟨h, hnil, fun _ _ => rfl, ?_, fun _ _ => rfl, rfl, rfl⟩
    intro u hu
    rw [hnil] at hu
    cases hu
  | succ n ih =>
    intro s h hlen
    cases hq : s.queue (.wait o) with
    | nil =>
      have heq : resumeLoop cfg o (n + 1) s = s := by
        unfold resumeLoop
        rw [hq]
      rw [heq]
      refine ⟨h, hq, fun _ _ => rfl, ?_, fun _ _ => rfl, rfl, rfl⟩
      intro u hu
      rw [hq] at hu
      cases hu
    | cons t rest =>
      have ht : t ∈ s.queue (.wait o) := Queues.head_mem hq
      have hs := h.sched.wait ht
      have heq : resumeLoop cfg o (n + 1) s =
          resumeLoop cfg o n
            (wake cfg s t { s.thread t with error := .error, timer := false }) := by
        rw [← resume_error_eq hs]
        conv_lhs => unfold resumeLoop
        rw [hq]
      have hwake : BlockInv cfg idle
          (wake cfg s t { s.thread t with error := .error, timer := false }) pc :=
        h.wake (Or.inl hs) ((h.sched.masked_of_suspend hs).of_same rfl rfl rfl rfl)
          (h.sched.bounded t) rfl
      have hrest : (wake cfg s t { s.thread t with error := .error, timer := false }).queue
          (.wait o) = rest := by
        rw [wake_wait, hq, List.erase_cons_head]
      have hnodup : t ∉ rest := by
        have hnd := h.sched.apart.nodup (.wait o)
        rw [hq, List.nodup_cons] at hnd
        exact hnd.1
      have hlen' : ((wake cfg s t { s.thread t with error := .error, timer := false }).queue
          (.wait o)).length ≤ n := by
        rw [hrest]
        rw [hq, List.length_cons] at hlen
        omega
      obtain ⟨hinv, hall⟩ := ih hwake hlen'
      rw [heq]
      refine ⟨hinv, hall.empty, ?_, ?_, ?_, ?_, ?_⟩
      · intro o' ho
        rw [hall.others o' ho, wake_wait]
        exact List.erase_of_not_mem fun ht' =>
          ho (QueueId.wait.inj (h.sched.apart.same ht' ht))
      · intro u hu
        by_cases hut : u = t
        · subst hut
          rw [hall.kept u (by rwa [hrest]), wake_self]
        · have hu' : u ∈ rest := by
            rw [hq, List.mem_cons] at hu
            exact hu.resolve_left hut
          have hwoken := hall.woken u (by rwa [hrest])
          rw [hwoken, wake_of_ne _ hut]
          unfold Sys.readyStat
          rw [wake_current]
      · intro u hu
        rw [hq, List.mem_cons, not_or] at hu
        rw [hall.kept u (by rw [hrest]; exact hu.2), wake_of_ne _ hu.1]
      · rw [hall.current, wake_current]
      · rw [hall.lockNest, wake_lockNest]

/-- `rt_ipc_list_resume_all` keeps the invariant and empties the list. -/
theorem resumeAll_spec (h : BlockInv cfg idle s pc) (o : IpcId) :
    BlockInv cfg idle (ipcListResumeAll cfg s o) pc ∧
      ResumedAll cfg o s (ipcListResumeAll cfg s o) :=
  resumeLoop_spec _ h (Nat.le_refl _)

end ResumeAll

end RTThread
