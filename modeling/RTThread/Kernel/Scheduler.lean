import RTThread.Kernel.Schedule

/-!
# The calls that move threads

Every call of `thread.c` keeps the invariant of the scheduler. `rt_thread_resume`,
`rt_thread_startup` and `_thread_timeout` wake a thread: it leaves its list, is edited and is
inserted (`wake`); `rt_thread_suspend` and the calls that end a thread take it out of the lists.

## Main results

* `SchedInv.call` — every call that is one section keeps the invariant.
* `schedule_alone_none_running`, `schedule_two_take_turns` — `rt_schedule` without a thread to run,
  and between two threads of one priority.
-/

namespace RTThread

variable {cfg : SchedCfg} {s s' : Sys} {t u : ThreadId}

/-- A call that touches the thread `t` only keeps the invariant if it keeps the lists right and
does not make `t` run behind the scheduler's back. -/
theorem SchedInv.of_touch (h : SchedInv cfg s) (hqueues : ReadyQueues cfg s')
    (hcur : s'.current = s.current) (hother : ∀ u, u ≠ t → s'.thread u = s.thread u)
    (hrun : (s'.thread t).stat = .running → s.current = some t)
    (hready : s.current = some t → (s'.thread t).stat ≠ .ready)
    (hmask : s.current = some t → (s'.thread t).Masked cfg) :
    SchedInv cfg s' where
  toReadyQueues := hqueues
  running {u} hu := by
    rw [hcur]
    by_cases hut : u = t
    · subst hut
      exact hrun hu
    · rw [hother u hut] at hu
      exact h.running hu
  current_not_ready {u} hu := by
    rw [hcur] at hu
    by_cases hut : u = t
    · subst hut
      exact hready hu
    · rw [hother u hut]
      exact h.current_not_ready hu
  current_masked {u} hu := by
    rw [hcur] at hu
    by_cases hut : u = t
    · subst hut
      exact hmask hu
    · rw [hother u hut]
      exact h.current_masked hu

theorem SchedInv.with_lockNest (h : SchedInv cfg s) (n : Nat) :
    SchedInv cfg { s with lockNest := n } :=
  ⟨h.toReadyQueues.with_lockNest n, h.running, h.current_not_ready, h.current_masked⟩

/-- An edit that changes neither the status nor the priority nor the masks. -/
theorem SchedInv.edit (h : SchedInv cfg s) {x : Thread} (hstat : x.stat = (s.thread t).stat)
    (hp : x.currentPriority = (s.thread t).currentPriority) (hn : x.number = (s.thread t).number)
    (hm : x.numberMask = (s.thread t).numberMask) (hh : x.highMask = (s.thread t).highMask) :
    SchedInv cfg (s.setThread t x) := by
  refine h.of_touch (t := t) (h.toReadyQueues.edit hstat hp hn hm hh) rfl ?_ ?_ ?_ ?_
  · intro u hu
    exact Sys.setThread_of_ne s x hu
  · rw [Sys.setThread_self, hstat]
    exact h.running
  · intro hcur
    rw [Sys.setThread_self, hstat]
    exact h.current_not_ready hcur
  · intro hcur
    rw [Sys.setThread_self]
    exact (h.current_masked hcur).of_same hp hn hm hh

-- --------
-- Waking a thread
-- --------

/-- The thread leaves its list with the contents `x` and becomes ready. -/
def wake (cfg : SchedCfg) (s : Sys) (t : ThreadId) (x : Thread) : Sys :=
  rtScheduleInsertThread cfg ((s.listRemove t).setThread t x) t

@[simp] theorem wake_current (x : Thread) : (wake cfg s t x).current = s.current :=
  rtScheduleInsertThread_current _ _

@[simp] theorem wake_lockNest (x : Thread) : (wake cfg s t x).lockNest = s.lockNest :=
  rtScheduleInsertThread_lockNest _ _

theorem wake_thread (x : Thread) :
    (wake cfg s t x).thread = Function.update s.thread t { x with stat := s.readyStat t } := by
  unfold wake
  rw [rtScheduleInsertThread_thread, Sys.setThread_self]
  unfold Sys.setThread Sys.listRemove Sys.readyStat
  exact Function.update_idem _ _ _

@[simp] theorem wake_self (x : Thread) :
    (wake cfg s t x).thread t = { x with stat := s.readyStat t } := by
  rw [wake_thread, Function.update_self]

theorem wake_of_ne (x : Thread) (hu : u ≠ t) : (wake cfg s t x).thread u = s.thread u := by
  rw [wake_thread, Function.update_of_ne hu]

theorem wake_wait (x : Thread) (o : IpcId) :
    (wake cfg s t x).queue (.wait o) = (s.queue (.wait o)).erase t := by
  unfold wake
  by_cases hcur : ((s.listRemove t).setThread t x).current = some t
  · rw [rtScheduleInsertThread_queue_of_current _ _ hcur]
    rfl
  · rw [rtScheduleInsertThread_queue _ _ hcur, Function.update_of_ne (by simp)]
    rfl

theorem Sys.readyStat_awake (s : Sys) (t : ThreadId) :
    s.readyStat t = .ready ∨ s.readyStat t = .running := by
  unfold Sys.readyStat
  split
  · exact Or.inr rfl
  · exact Or.inl rfl

/-- **A thread is woken.** -/
theorem SchedInv.wake (h : SchedInv cfg s) (hr : (s.thread t).stat ≠ .ready) {x : Thread}
    (hm : x.Masked cfg) (hp : x.currentPriority < cfg.priorityMax) :
    SchedInv cfg (wake cfg s t x) := by
  have hqueues : ReadyQueues cfg (RTThread.wake cfg s t x) := by
    refine ((h.unlink hr).setThread x).insert ?_ ?_
    · rw [Sys.setThread_self]
      exact hm
    · rw [Sys.setThread_self]
      exact hp
  refine h.of_touch (t := t) hqueues (wake_current x) (fun u hu => wake_of_ne x hu) ?_ ?_ ?_
  · rw [wake_self]
    unfold Sys.readyStat
    intro hstat
    by_contra hcur
    rw [if_neg hcur] at hstat
    cases hstat
  · intro hcur
    rw [wake_self]
    unfold Sys.readyStat
    rw [if_pos hcur]
    simp
  · intro _
    rw [wake_self]
    exact hm.of_same rfl rfl rfl rfl

theorem rtThreadResume_eq (h : (s.thread t).stat = .suspend) :
    rtThreadResume cfg s t = (.eok, wake cfg s t { s.thread t with timer := false }) := by
  unfold rtThreadResume
  rw [if_neg (not_not_intro h)]
  rfl

theorem threadTimeout_eq :
    threadTimeout cfg s t = wake cfg s t { s.thread t with error := .etimeout } :=
  rfl

theorem SchedInv.masked_of_suspend (h : SchedInv cfg s) (hs : (s.thread t).stat = .suspend) :
    (s.thread t).Masked cfg := by
  refine h.masked ?_ ?_ <;> rw [hs] <;> decide

theorem SchedInv.resume (h : SchedInv cfg s) (t : ThreadId) :
    SchedInv cfg (rtThreadResume cfg s t).2 := by
  by_cases hs : (s.thread t).stat = .suspend
  · have hr : (s.thread t).stat ≠ .ready := by
      rw [hs]
      decide
    rw [rtThreadResume_eq hs]
    exact h.wake hr ((h.masked_of_suspend hs).of_same rfl rfl rfl rfl) (h.bounded t)
  · unfold rtThreadResume
    rw [if_pos hs]
    exact h

theorem SchedInv.timeout (h : SchedInv cfg s) (hs : (s.thread t).stat = .suspend) :
    SchedInv cfg (threadTimeout cfg s t) := by
  have hr : (s.thread t).stat ≠ .ready := by
    rw [hs]
    decide
  rw [threadTimeout_eq]
  exact h.wake hr ((h.masked_of_suspend hs).of_same rfl rfl rfl rfl) (h.bounded t)

/-- A thread that is started is woken with the masks of its priority. -/
theorem threadStartup_eq (h : SchedInv cfg s) (hi : (s.thread t).stat = .init) :
    threadStartup cfg s t = wake cfg s t
      { (s.thread t).withPriority cfg (s.thread t).currentPriority with
        stat := .suspend, yielding := false, timer := false } := by
  have hfree : Queues.Free s.queue t := by
    refine h.free ?_ ?_ ?_ <;> rw [hi] <;> decide
  unfold threadStartup
  dsimp only
  rw [rtThreadResume_eq (by rw [Sys.setThread_self]), Sys.setThread_self]
  unfold RTThread.wake Sys.listRemove Sys.setThread
  dsimp only
  rw [Function.update_idem]

theorem SchedInv.startup (h : SchedInv cfg s) (hi : (s.thread t).stat = .init) :
    SchedInv cfg (threadStartup cfg s t) := by
  have hr : (s.thread t).stat ≠ .ready := by
    rw [hi]
    decide
  rw [threadStartup_eq h hi]
  refine h.wake hr (Thread.Masked.of_same (Thread.masked_withPriority (s.thread t) _)
    rfl rfl rfl rfl) ?_
  rw [Thread.withPriority_currentPriority]
  exact h.bounded t

-- --------
-- Taking a thread out
-- --------

/-- `rt_thread_suspend` of a thread that is awake, field by field. -/
theorem rtThreadSuspend_eq (h : (s.thread t).Awake) :
    rtThreadSuspend cfg s t =
      (.eok, (rtScheduleRemoveThread cfg s t).setThread t
        { s.thread t with stat := .suspend, timer := false }) := by
  have hstat : ¬ ((s.thread t).stat ≠ .ready ∧ (s.thread t).stat ≠ .running) := by
    rcases h with h | h <;> rw [h] <;> decide
  unfold rtThreadSuspend Sys.setTimer Sys.setStat
  rw [if_neg hstat]
  dsimp only
  rw [Sys.setThread_self, rtScheduleRemoveThread_thread]
  unfold Sys.setThread
  dsimp only
  rw [Function.update_idem]

theorem ReadyQueues.suspend_loose (h : ReadyQueues cfg s) (ha : (s.thread t).Awake) :
    Loose cfg t (rtThreadSuspend cfg s t).2 := by
  rw [rtThreadSuspend_eq ha]
  exact (h.remove (h.masked_of_awake ha)).setThread _

theorem SchedInv.suspend (h : SchedInv cfg s) (t : ThreadId) :
    SchedInv cfg (rtThreadSuspend cfg s t).2 := by
  by_cases ha : (s.thread t).Awake
  · have hloose := h.suspend_loose ha
    have hmask := h.masked_of_awake ha
    rw [rtThreadSuspend_eq ha] at hloose ⊢
    have hqueues := hloose.settle (by simp)
      (fun _ => by
        rw [Sys.setThread_self]
        exact Or.inl (hmask.of_same rfl rfl rfl rfl))
      (by
        rw [Sys.setThread_self]
        exact h.bounded t)
    refine h.of_touch (t := t) hqueues ?_ ?_ ?_ ?_ ?_
    · exact rtScheduleRemoveThread_current s t
    · intro u hu
      rw [Sys.setThread_of_ne _ _ hu, rtScheduleRemoveThread_thread]
    · rw [Sys.setThread_self]
      intro hrun
      cases hrun
    · intro _
      rw [Sys.setThread_self]
      simp
    · intro _
      rw [Sys.setThread_self]
      exact hmask.of_same rfl rfl rfl rfl
  · unfold rtThreadSuspend
    rw [if_pos ⟨fun hr => ha (Or.inl hr), fun hr => ha (Or.inr hr)⟩]
    exact h

/-- Closing a thread that has been taken out of the lists. -/
theorem Loose.close (h : Loose cfg t s) (hp : (s.thread t).currentPriority < cfg.priorityMax) :
    ReadyQueues cfg (threadClose s t) := by
  have hedit := h.setThread
    { s.thread t with timer := false, stat := .close, yielding := false }
  refine hedit.enqueue (List.Perm.refl _) (Or.inr ⟨rfl, ?_⟩) ?_ ?_
  · rw [Sys.setThread_self]
  · rw [Sys.setThread_self]
    intro hstat
    cases hstat
  · rw [Sys.setThread_self]
    exact hp

theorem threadClose_of_ne (hu : u ≠ t) : (threadClose s t).thread u = s.thread u :=
  Sys.setThread_of_ne _ _ hu

theorem threadClose_self : (threadClose s t).thread t =
    { s.thread t with timer := false, stat := .close, yielding := false } :=
  Sys.setThread_self _ _ _

/-- A closed thread: the others and the current thread are as before. -/
theorem SchedInv.of_close (h : SchedInv cfg s) (hloose : Loose cfg t s')
    (hthread : s'.thread = s.thread) (hcur : s'.current = s.current) :
    SchedInv cfg (threadClose s' t) := by
  have hqueues : ReadyQueues cfg (threadClose s' t) := by
    refine hloose.close ?_
    rw [hthread]
    exact h.bounded t
  refine h.of_touch (t := t) hqueues hcur ?_ ?_ ?_ ?_
  · intro u hu
    rw [threadClose_of_ne hu, hthread]
  · rw [threadClose_self]
    intro hstat
    cases hstat
  · rw [threadClose_self]
    simp
  · intro ht
    rw [threadClose_self, hthread]
    exact (h.current_masked ht).of_same rfl rfl rfl rfl

theorem SchedInv.exit (h : SchedInv cfg s) (hcur : s.current = some t) :
    SchedInv cfg (threadExit cfg s t) :=
  h.of_close (h.remove (h.current_masked hcur)) (rtScheduleRemoveThread_thread s t)
    (rtScheduleRemoveThread_current s t)

theorem rtThreadDetach_thread : (rtThreadDetach cfg s t).thread = s.thread := by
  unfold rtThreadDetach
  split
  · exact rtScheduleRemoveThread_thread s t
  · rfl

theorem rtThreadDetach_current : (rtThreadDetach cfg s t).current = s.current := by
  unfold rtThreadDetach
  split
  · exact rtScheduleRemoveThread_current s t
  · rfl

/-- The first section of `rt_thread_detach`: the thread, which is in no list behind it, may be taken
for the thread `y`, where that is not ready. -/
theorem SchedInv.detach (h : SchedInv cfg s) {y : Thread} (hr : y.stat ≠ .ready)
    (hc : (s.thread t).stat ≠ .close) (hsame : y = { s.thread t with stat := y.stat })
    (hi : (s.thread t).stat = .init → y.stat = .init)
    (hrun : y.stat = .running → s.current = some t) :
    SchedInv cfg ((rtThreadDetach cfg s t).setThread t y) := by
  have hmask : (s.thread t).Masked cfg → y.Masked cfg := fun hm => by
    rw [hsame]
    exact hm.of_same rfl rfl rfl rfl
  have hloose : Loose cfg t (rtThreadDetach cfg s t) := by
    unfold rtThreadDetach
    split
    case isTrue hi => exact h.remove (h.masked hi hc)
    case isFalse hi =>
      -- a thread that was never started is in no list
      have hstat : (s.thread t).stat = .init := not_not.1 hi
      refine h.loose (h.free ?_ ?_ ?_) <;> rw [hstat] <;> decide
  have hqueues : ReadyQueues cfg ((rtThreadDetach cfg s t).setThread t y) := by
    refine (hloose.setThread y).settle ?_ (fun _ => ?_) ?_
    · rwa [Sys.setThread_self]
    · rw [Sys.setThread_self]
      by_cases hinit : (s.thread t).stat = .init
      · exact .inr (hi hinit)
      · exact .inl (hmask (h.masked hinit hc))
    · rw [Sys.setThread_self, hsame]
      exact h.bounded t
  refine h.of_touch (t := t) hqueues rtThreadDetach_current (fun u hu => ?_) ?_ (fun _ => ?_)
    (fun hcur => ?_)
  · rw [Sys.setThread_of_ne _ _ hu, rtThreadDetach_thread]
  · rw [Sys.setThread_self]
    exact hrun
  · rwa [Sys.setThread_self]
  · rw [Sys.setThread_self]
    exact hmask (h.current_masked hcur)

-- --------
-- Changing a priority
-- --------

theorem rtThreadControl_of_not_ready (p : Nat) (hr : (s.thread t).stat ≠ .ready) :
    rtThreadControl cfg s t p = s.setThread t ((s.thread t).withPriority cfg p) := by
  unfold rtThreadControl
  rw [if_neg hr]

/-- A change of priority, as far as the threads are concerned. -/
theorem SchedInv.control_thread (h : SchedInv cfg s) (t : ThreadId) (p : Nat) :
    (rtThreadControl cfg s t p).thread =
      Function.update s.thread t ((s.thread t).withPriority cfg p) := by
  by_cases hr : (s.thread t).stat = .ready
  · have hcur : s.current ≠ some t := fun hcur => h.current_not_ready hcur hr
    have hstat : (((rtScheduleRemoveThread cfg s t).setThread t
        ((s.thread t).withPriority cfg p)).readyStat t) = .ready := by
      unfold Sys.readyStat
      rw [if_neg]
      rwa [Sys.setThread_current, rtScheduleRemoveThread_current]
    have hsame : { (s.thread t).withPriority cfg p with stat := .ready } =
        (s.thread t).withPriority cfg p := by
      rw [← hr, ← @Thread.withPriority_stat cfg (s.thread t) p]
    unfold rtThreadControl
    rw [if_pos hr]
    dsimp only
    rw [rtScheduleInsertThread_thread, rtScheduleRemoveThread_thread, hstat, Sys.setThread_self,
      hsame]
    unfold Sys.setThread
    rw [rtScheduleRemoveThread_thread]
    exact Function.update_idem _ _ _
  · rw [rtThreadControl_of_not_ready p hr]
    rfl

@[simp] theorem rtThreadControl_current (t : ThreadId) (p : Nat) :
    (rtThreadControl cfg s t p).current = s.current := by
  unfold rtThreadControl
  split
  · exact (rtScheduleInsertThread_current _ _).trans (rtScheduleRemoveThread_current _ _)
  · rfl

@[simp] theorem rtThreadControl_lockNest (t : ThreadId) (p : Nat) :
    (rtThreadControl cfg s t p).lockNest = s.lockNest := by
  unfold rtThreadControl
  split
  · exact (rtScheduleInsertThread_lockNest _ _).trans (rtScheduleRemoveThread_lockNest _ _)
  · rfl

/-- A change of priority leaves the suspend lists alone: a waiting thread keeps its place. -/
theorem SchedInv.control_wait (h : SchedInv cfg s) (t : ThreadId) (p : Nat) (o : IpcId) :
    (rtThreadControl cfg s t p).queue (.wait o) = s.queue (.wait o) := by
  by_cases hr : (s.thread t).stat = .ready
  · have hcur : ((rtScheduleRemoveThread cfg s t).setThread t
        ((s.thread t).withPriority cfg p)).current ≠ some t := by
      rw [Sys.setThread_current, rtScheduleRemoveThread_current]
      exact fun hcur => h.current_not_ready hcur hr
    have hnot : t ∉ s.queue (.wait o) := by
      intro ht
      have hstat := h.wait ht
      rw [hr] at hstat
      cases hstat
    unfold rtThreadControl
    rw [if_pos hr]
    dsimp only
    rw [rtScheduleRemoveThread_thread, rtScheduleInsertThread_queue _ _ hcur,
      Function.update_of_ne (by simp), Sys.setThread_queue, rtScheduleRemoveThread_queue]
    exact Queues.unlink_of_not_mem hnot
  · rw [rtThreadControl_of_not_ready p hr]
    rfl

theorem SchedInv.control (h : SchedInv cfg s) (t : ThreadId) {p : Nat}
    (hp : p < cfg.priorityMax) : SchedInv cfg (rtThreadControl cfg s t p) := by
  have hmask : ((s.thread t).withPriority cfg p).Masked cfg := Thread.masked_withPriority _ _
  have hbound : ((s.thread t).withPriority cfg p).currentPriority < cfg.priorityMax := by
    rw [Thread.withPriority_currentPriority]
    exact hp
  have hqueues : ReadyQueues cfg (rtThreadControl cfg s t p) := by
    by_cases hr : (s.thread t).stat = .ready
    · unfold rtThreadControl
      rw [if_pos hr]
      dsimp only
      rw [rtScheduleRemoveThread_thread]
      refine ((h.remove (h.masked_of_awake (Or.inl hr))).setThread _).insert ?_ ?_
      · rw [Sys.setThread_self]
        exact hmask
      · rw [Sys.setThread_self]
        exact hbound
    · rw [rtThreadControl_of_not_ready p hr]
      exact h.toReadyQueues.revise (Thread.withPriority_stat _ _) (fun hready => absurd hready hr)
        (fun _ _ => hmask) hbound
  have hthread := h.control_thread t p
  refine h.of_touch (t := t) hqueues (rtThreadControl_current t p) ?_ ?_ ?_ ?_
  · intro u hu
    rw [hthread, Function.update_of_ne hu]
  · rw [hthread, Function.update_self, Thread.withPriority_stat]
    exact h.running
  · intro hcur
    rw [hthread, Function.update_self, Thread.withPriority_stat]
    exact h.current_not_ready hcur
  · intro _
    rw [hthread, Function.update_self]
    exact hmask

-- --------
-- Starting the scheduler
-- --------

theorem SchedInv.start (h : SchedInv cfg s) (hnone : s.current = none) :
    SchedInv cfg (rtSystemSchedulerStart cfg s) := by
  unfold rtSystemSchedulerStart
  split
  case h_1 => exact h
  case h_2 next hget =>
    have hmem : next ∈ s.queue (.ready (highestReadyPriority cfg s)) := List.mem_of_mem_head? hget
    have hready := ((h.ready _ _).1 hmem).1
    have hmask := h.masked_of_awake (Or.inl hready)
    -- nothing runs yet
    have hidle : ∀ u, (s.thread u).stat ≠ .running := by
      intro u hu
      have hcur := h.running hu
      rw [hnone] at hcur
      cases hcur
    dsimp only
    rw [rtScheduleRemoveThread_thread]
    have hqueues : ReadyQueues cfg
        ((rtScheduleRemoveThread cfg { s with current := some next } next).setThread next
          { s.thread next with stat := .running, yielding := false }) := by
      refine (((h.with_current (some next)).remove hmask).setThread _).settle ?_ ?_ ?_
      · rw [Sys.setThread_self]
        simp
      · intro _
        rw [Sys.setThread_self]
        exact Or.inl (hmask.of_same rfl rfl rfl rfl)
      · rw [Sys.setThread_self]
        exact h.bounded next
    refine ⟨hqueues, ?_, ?_, ?_⟩
    · intro u hu
      rw [Sys.setThread_current, rtScheduleRemoveThread_current]
      by_cases hun : u = next
      · rw [hun]
      · rw [Sys.setThread_of_ne _ _ hun, rtScheduleRemoveThread_thread] at hu
        exact absurd hu (hidle u)
    · intro u hu
      rw [Sys.setThread_current, rtScheduleRemoveThread_current, Option.some.injEq] at hu
      subst hu
      rw [Sys.setThread_self]
      simp
    · intro u hu
      rw [Sys.setThread_current, rtScheduleRemoveThread_current, Option.some.injEq] at hu
      subst hu
      rw [Sys.setThread_self]
      exact hmask.of_same rfl rfl rfl rfl

-- --------
-- The reachable states
-- --------

/-- **Every call that is one section keeps the invariant of the scheduler.** -/
theorem SchedInv.call {a : SchedAct} (h : SchedInv cfg s) (hs : s.call cfg a = some s') :
    SchedInv cfg s' := by
  cases a with
  | start =>
    obtain ⟨hnone, rfl⟩ := Runs.takeIf_eq_some.mp hs
    exact h.start hnone
  | startup t =>
    obtain ⟨hi, rfl⟩ := Runs.takeIf_eq_some.mp hs
    exact h.startup hi
  | suspend =>
    obtain ⟨t, -, rfl⟩ := Option.map_eq_some_iff.mp hs
    exact h.suspend t
  | resume t =>
    cases hs
    exact h.resume t
  | control t priority =>
    obtain ⟨hp, rfl⟩ := Runs.takeIf_eq_some.mp hs
    exact h.control t hp
  | yield =>
    obtain ⟨t, -, rfl⟩ := Option.map_eq_some_iff.mp hs
    exact SchedInv.schedule (h.edit rfl rfl rfl rfl rfl)
  | exit =>
    obtain ⟨t, hcur, rfl⟩ := Option.map_eq_some_iff.mp hs
    exact h.exit hcur
  | timeout t =>
    obtain ⟨hstat, rfl⟩ := Runs.takeIf_eq_some.mp hs
    exact h.timeout hstat
  | schedule =>
    cases hs
    exact h.schedule
  | enterCritical | exitCritical =>
    cases hs
    exact h.with_lockNest _
  | detach | close => cases hs

theorem SchedInv.started (h : SchedInv cfg s) (hi : (s.thread t).stat = .init) :
    SchedInv cfg (rtThreadStartup cfg s t) := by
  unfold rtThreadStartup
  dsimp only
  split
  · exact (h.startup hi).schedule
  · exact h.startup hi

/-- No thread has been started yet. -/
theorem SchedInv.initial {priority : ThreadId → Nat} (hp : ∀ t, priority t < cfg.priorityMax) :
    SchedInv cfg (Sys.initial priority) where
  apart := ⟨fun _ => List.nodup_nil, fun ht => absurd ht List.not_mem_nil⟩
  ready t p := by simp [Sys.initial, threadInit]
  wait ht := absurd ht List.not_mem_nil
  defunct ht := absurd ht List.not_mem_nil
  masked ht := absurd rfl ht
  bounded := hp
  bits := Bitmap.empty fun p => by simp [Sys.Occupied, Sys.initial]
  running ht := by cases ht
  current_not_ready ht := by cases ht
  current_masked ht := by cases ht

/-- The configuration with 32 priorities. -/
def schedCfg32 : SchedCfg := ⟨32, by decide, by decide⟩

/-- The configuration with 256 priorities. -/
def schedCfg256 : SchedCfg := ⟨256, by decide, by decide⟩

-- --------
-- `rt_schedule` without a thread to run
-- --------

/-- One thread is started, runs and suspends itself. -/
def suspendedAlone : Sys :=
  (rtThreadSuspend schedCfg32 (rtSystemSchedulerStart schedCfg32
    (rtThreadStartup schedCfg32 (Sys.initial fun _ => 5) 0)) 0).2

/-- **With no thread to run none is running after `rt_schedule`**: the suspended thread stays the
current one. -/
theorem schedule_alone_none_running :
    SchedInv schedCfg32 suspendedAlone ∧ suspendedAlone.lockNest = 0 ∧
      suspendedAlone.current = some 0 ∧
      ∀ u, ((rtSchedule schedCfg32 suspendedAlone).thread u).stat ≠ .running := by
  have hinv : SchedInv schedCfg32 suspendedAlone :=
    (((SchedInv.initial fun _ => by decide).started (t := 0) rfl).start (by decide)).suspend 0
  refine ⟨hinv, by decide, by decide, fun u hu => ?_⟩
  have hcur := hinv.schedule.running hu
  have hzero : (rtSchedule schedCfg32 suspendedAlone).current = some 0 := by decide
  rw [hzero, Option.some.injEq] at hcur
  subst hcur
  exact absurd hu (by decide)

/-- Two threads of one priority; the first runs and is about to give the processor up. -/
def twoTakeTurns : Sys :=
  let s := rtSystemSchedulerStart schedCfg32 (rtThreadStartup schedCfg32
    (rtThreadStartup schedCfg32 (Sys.initial fun _ => 5) 0) 1)
  s.setThread 0 { s.thread 0 with yielding := true }

theorem twoTakeTurns_inv : SchedInv schedCfg32 twoTakeTurns := by
  have hinit : SchedInv schedCfg32 (Sys.initial fun _ => 5) := SchedInv.initial fun _ => by decide
  have hinv := ((hinit.started (t := 0) rfl).started (t := 1) (by decide)).start (by decide)
  exact hinv.edit rfl rfl rfl rfl rfl

theorem schedule_two_take_turns :
    ∃ t, ScheduledTo twoTakeTurns (rtSchedule schedCfg32 twoTakeTurns) 0 t :=
  (schedule_most_urgent_fifo twoTakeTurns_inv (by decide) (by decide)).1

example : (rtSchedule schedCfg32 twoTakeTurns).current = some 1 ∧
    (rtSchedule schedCfg32 twoTakeTurns).queue (.ready 5) = [0] := by
  decide

end RTThread
