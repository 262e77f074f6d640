import RTThread.Kernel.Scheduler

/-!
# Between the sections of `rt_thread_detach`

`rt_schedule_remove_thread` enables the interrupts again before `rt_thread_detach` closes the
thread. In between the thread is in no list but still has its status: who resumes it, starts it,
changes its priority while it is `READY` or lets its timer expire puts it back into a ready list,
where it stays when it is closed (`detach_leaves_closed`).

The other steps do not see the status of such a thread. To them the system is one in which the
thread is not `READY` (`Sys.veil`), and that system keeps the invariant of the scheduler.

## Main results

* `ready_bitmap_exact` — while nobody touches a thread between the sections, the ready bits, the
  ready lists and the status of the threads agree in every reachable state.
-/

namespace RTThread

/-- A thread as it is seen while it is in no list. -/
def Thread.veiled (x : Thread) : Thread :=
  if x.stat = .ready then { x with stat := .suspend } else x

/-- The system in which the threads of `L` are not seen to be ready. -/
def Sys.veil (s : Sys) (L : ThreadId → Prop) [DecidablePred L] : Sys :=
  { s with thread := fun t => if L t then (s.thread t).veiled else s.thread t }

/-- Another thread is between the sections of a detach of `t`. -/
def Sched.Leaving (x : Sched) (t : ThreadId) : Prop :=
  ∃ d ∈ x.detaching, d.2 = t ∧ d.1 ≠ some t

instance (x : Sched) : DecidablePred x.Leaving := fun _ =>
  inferInstanceAs (Decidable (∃ d ∈ x.detaching, _))

/-- **Nobody touches the thread** in the middle of its detach: it is not started, resumed or closed
by others, its timer does not expire, and its priority is not changed while it is ready. -/
def Sched.Untouched (x : Sched) : SchedAct → Prop
  | .startup t | .timeout t => ¬ x.Leaving t
  | .resume t => x.Leaving t → (x.sys.thread t).stat ≠ .suspend
  | .control t _ => x.Leaving t → (x.sys.thread t).stat ≠ .ready
  | .detach t => ∀ d ∈ x.detaching, d.2 ≠ t
  | _ => True

instance (x : Sched) : (a : SchedAct) → Decidable (x.Untouched a)
  | .startup t | .timeout t => inferInstanceAs (Decidable (¬ x.Leaving t))
  | .resume t => inferInstanceAs (Decidable (x.Leaving t → _))
  | .control t _ => inferInstanceAs (Decidable (x.Leaving t → _))
  | .detach t => inferInstanceAs (Decidable (∀ d ∈ x.detaching, d.2 ≠ t))
  | .start | .suspend | .yield | .close _ | .exit | .schedule | .enterCritical | .exitCritical =>
    isTrue trivial

/-- The threads are initialised, and nobody detaches any. -/
def Sched.initial (priority : ThreadId → Nat) : Sched := ⟨Sys.initial priority, []⟩

-- --------
-- What the steps see
-- --------

section Veil

variable {cfg : SchedCfg} {s s' : Sys} {t u : ThreadId} {L : ThreadId → Prop} [DecidablePred L]
  {x : Thread}

theorem Thread.veiled_stat : x.veiled.stat ≠ .ready := by
  unfold Thread.veiled
  split
  case isTrue => exact nofun
  case isFalse h => exact h

theorem Thread.veiled_of_ne (h : x.stat ≠ .ready) : x.veiled = x := if_neg h

theorem Thread.veiled_eq (x : Thread) : x.veiled = { x with stat := x.veiled.stat } := by
  unfold Thread.veiled
  split <;> rfl

/-- A thread that may be looked at is seen as it is. -/
theorem Sys.veil_thread (h : L t → (s.thread t).stat ≠ .ready) :
    (s.veil L).thread t = s.thread t := by
  show (if L t then (s.thread t).veiled else s.thread t) = _
  split
  case isTrue hl => exact Thread.veiled_of_ne (h hl)
  case isFalse => rfl

/-- The priority and the masks are always seen. -/
theorem Sys.veil_fields (s : Sys) (t : ThreadId) :
    ((s.veil L).thread t).currentPriority = (s.thread t).currentPriority ∧
      ((s.veil L).thread t).number = (s.thread t).number ∧
      ((s.veil L).thread t).numberMask = (s.thread t).numberMask ∧
      ((s.veil L).thread t).highMask = (s.thread t).highMask := by
  unfold Sys.veil
  dsimp only
  split
  · rw [Thread.veiled_eq]
    exact ⟨rfl, rfl, rfl, rfl⟩
  · exact ⟨rfl, rfl, rfl, rfl⟩

theorem Sys.veil_setThread (h : L t → x.stat ≠ .ready) :
    (s.setThread t x).veil L = (s.veil L).setThread t x := by
  unfold Sys.veil Sys.setThread
  dsimp only
  congr 1
  funext u
  by_cases hu : u = t
  · subst hu
    rw [Function.update_self, Function.update_self]
    split
    case isTrue hl => exact Thread.veiled_of_ne (h hl)
    case isFalse => rfl
  · rw [Function.update_of_ne hu, Function.update_of_ne hu]

/-- A thread that is seen is edited as it is. -/
theorem Sys.veil_edit (h : ¬ L t) (f : Thread → Thread) :
    (s.setThread t (f (s.thread t))).veil L = (s.veil L).setThread t (f ((s.veil L).thread t)) := by
  rw [Sys.veil_setThread fun hl => absurd hl h, Sys.veil_thread fun hl => absurd hl h]

theorem Sys.veil_setStat (h : ¬ L t) (stat : ThreadStat) :
    (s.setStat t stat).veil L = (s.veil L).setStat t stat :=
  Sys.veil_edit h fun x => { x with stat }

/-- Another system is seen where one thread begins or ceases to be seen. -/
theorem Sys.veil_change {L' : ThreadId → Prop} [DecidablePred L'] (h : ∀ u, u ≠ t → (L' u ↔ L u)) :
    s.veil L' = (s.veil L).setThread t ((s.veil L').thread t) := by
  unfold Sys.veil Sys.setThread
  dsimp only
  congr 1
  funext u
  by_cases hu : u = t
  · rw [hu, Function.update_self]
  · rw [Function.update_of_ne hu]
    exact if_congr (h u hu) rfl rfl

theorem Sys.veil_setPriorityMask :
    (s.setPriorityMask cfg t).veil L = (s.veil L).setPriorityMask cfg t := by
  obtain ⟨-, hn, hm, hh⟩ := s.veil_fields (L := L) t
  unfold Sys.setPriorityMask
  dsimp only
  rw [hn, hm, hh]
  rfl

theorem Sys.veil_clearPriorityMask :
    (s.clearPriorityMask cfg t).veil L = (s.veil L).clearPriorityMask cfg t := by
  obtain ⟨-, hn, hm, hh⟩ := s.veil_fields (L := L) t
  unfold Sys.clearPriorityMask
  dsimp only
  rw [hn, hm, hh]
  split <;> rfl

theorem Sys.veil_remove (s : Sys) (t : ThreadId) :
    (rtScheduleRemoveThread cfg s t).veil L = rtScheduleRemoveThread cfg (s.veil L) t := by
  have hp : (((s.veil L).listRemove t).thread t).currentPriority =
      ((s.listRemove t).thread t).currentPriority := (s.veil_fields t).1
  unfold rtScheduleRemoveThread
  dsimp only
  rw [hp, apply_ite (Sys.veil · L), Sys.veil_clearPriorityMask]
  rfl

theorem Sys.veil_detach (h : ¬ L t) :
    (rtThreadDetach cfg s t).veil L = rtThreadDetach cfg (s.veil L) t := by
  unfold rtThreadDetach
  rw [apply_ite (Sys.veil · L), Sys.veil_remove, Sys.veil_thread fun hl => absurd hl h]

theorem Sys.veil_insert (h : ¬ L t) :
    (rtScheduleInsertThread cfg s t).veil L = rtScheduleInsertThread cfg (s.veil L) t := by
  have hp : ((s.veil L).thread t).currentPriority = (s.thread t).currentPriority :=
    (s.veil_fields t).1
  unfold rtScheduleInsertThread
  dsimp only
  rw [apply_ite (Sys.veil · L), Sys.veil_setPriorityMask, hp, ← Sys.veil_setStat h .running,
    ← Sys.veil_setStat h .ready]
  rfl

theorem Sys.veil_scheduleTo {b : Bool} {cur next : ThreadId} (hcur : ¬ L cur) (hnext : ¬ L next) :
    (scheduleTo cfg s b cur next).veil L = scheduleTo cfg (s.veil L) b cur next := by
  unfold scheduleTo
  dsimp only
  rw [Sys.veil_setStat hnext, Sys.veil_remove, apply_ite (Sys.veil · L), Sys.veil_insert hcur]
  rfl

theorem Sys.veil_scheduleFrom {cur next : ThreadId} (hcur : ¬ L cur) (hnext : ¬ L next) :
    (scheduleFrom cfg s cur next).veil L = scheduleFrom cfg (s.veil L) cur next := by
  have hthread : (s.veil L).thread cur = s.thread cur := Sys.veil_thread fun hl => absurd hl hcur
  have hstays : ∀ p, (s.veil L).staysRunning cur p ↔ s.staysRunning cur p := fun p => by
    unfold Sys.staysRunning
    rw [hthread]
  have hhigh : highestReadyPriority cfg (s.veil L) = highestReadyPriority cfg s := rfl
  unfold scheduleFrom
  simp only [hthread, hstays, hhigh]
  rw [← Sys.veil_setThread fun hl => absurd hl hcur]
  generalize decide (s.staysRunning cur _) = stays
  generalize decide ((s.thread cur).stat = .running) = running
  have hto : ¬ L (if stays = true then cur else next) := by
    split
    · exact hcur
    · exact hnext
  rw [apply_ite (Sys.veil · L), Sys.veil_scheduleTo hcur hto, Sys.veil_setStat hcur,
    Sys.veil_remove, apply_ite (Sys.veil · L)]

/-- `rt_schedule` sees the current thread and those in the ready lists. -/
theorem Sys.veil_schedule (hcur : ∀ cur, s.current = some cur → ¬ L cur)
    (hready : ∀ p, ∀ t ∈ s.queue (.ready p), ¬ L t) :
    (rtSchedule cfg s).veil L = rtSchedule cfg (s.veil L) := by
  have hget : schedulerGetHighestPriorityThread cfg (s.veil L) =
      schedulerGetHighestPriorityThread cfg s := rfl
  unfold rtSchedule
  rw [show (s.veil L).current = s.current from rfl, hget]
  cases hc : s.current with
  | none => rfl
  | some cur =>
    dsimp only
    rw [apply_ite (Sys.veil · L)]
    refine if_congr Iff.rfl rfl ?_
    cases hnext : schedulerGetHighestPriorityThread cfg s with
    | none => rfl
    | some next =>
      have hmem : next ∈ s.queue (.ready (highestReadyPriority cfg s)) :=
        List.mem_of_mem_head? hnext
      exact Sys.veil_scheduleFrom (hcur cur hc) (hready _ next hmem)

theorem Sys.veil_start (hready : ∀ p, ∀ t ∈ s.queue (.ready p), ¬ L t) :
    (rtSystemSchedulerStart cfg s).veil L = rtSystemSchedulerStart cfg (s.veil L) := by
  have hget : schedulerGetHighestPriorityThread cfg (s.veil L) =
      schedulerGetHighestPriorityThread cfg s := rfl
  unfold rtSystemSchedulerStart
  rw [hget]
  cases hnext : schedulerGetHighestPriorityThread cfg s with
  | none => rfl
  | some next =>
    have hl : ¬ L next := hready _ next (List.mem_of_mem_head? hnext)
    dsimp only
    rw [Sys.veil_edit hl fun x => { x with stat := .running, yielding := false }, Sys.veil_remove]
    rfl

theorem Sys.veil_resume (h : ¬ L t) :
    (rtThreadResume cfg s t).2.veil L = (rtThreadResume cfg (s.veil L) t).2 := by
  have hthread : (s.veil L).thread t = s.thread t := Sys.veil_thread fun hl => absurd hl h
  unfold rtThreadResume
  rw [hthread]
  split
  · rfl
  · dsimp only
    rw [Sys.veil_insert h, Sys.setTimer, Sys.veil_edit h fun x => { x with timer := false }]
    rfl

theorem Sys.veil_control (h : L t → (s.thread t).stat ≠ .ready) (p : Nat) :
    (rtThreadControl cfg s t p).veil L = rtThreadControl cfg (s.veil L) t p := by
  unfold rtThreadControl
  rw [Sys.veil_thread h]
  split
  case isTrue hr =>
    have hl : ¬ L t := fun hl => h hl hr
    dsimp only
    rw [Sys.veil_insert hl, Sys.veil_setThread fun h => absurd h hl, Sys.veil_remove,
      rtScheduleRemoveThread_thread, rtScheduleRemoveThread_thread, Sys.veil_thread h]
  case isFalse hr =>
    exact Sys.veil_setThread fun _ => by rwa [Thread.withPriority_stat]

/-- **The calls that are one section** do not see who is leaving. -/
theorem Sched.veil_call {x : Sched} {a : SchedAct}
    (hcur : ∀ cur, x.sys.current = some cur → ¬ x.Leaving cur)
    (hready : ∀ p, ∀ t ∈ x.sys.queue (.ready p), ¬ x.Leaving t) (hok : x.Untouched a)
    (hs : x.sys.call cfg a = some s') :
    (x.sys.veil x.Leaving).call cfg a = some (s'.veil x.Leaving) ∨ s' = x.sys := by
  have hsee : ∀ {t}, ¬ x.Leaving t → (x.sys.veil x.Leaving).thread t = x.sys.thread t :=
    fun h => Sys.veil_thread fun hl => absurd hl h
  cases a with
  | start =>
    obtain ⟨hnone, rfl⟩ := Runs.takeIf_eq_some.mp hs
    exact .inl (Runs.takeIf_eq_some.mpr ⟨hnone, (Sys.veil_start hready).symm⟩)
  | startup t =>
    obtain ⟨hi, rfl⟩ := Runs.takeIf_eq_some.mp hs
    refine .inl (Runs.takeIf_eq_some.mpr ⟨by rwa [hsee hok], ?_⟩)
    unfold threadStartup
    dsimp only
    rw [Sys.veil_resume hok, Sys.veil_setThread fun hl => absurd hl hok, hsee hok]
  | suspend =>
    obtain ⟨t, ht, rfl⟩ := Option.map_eq_some_iff.mp hs
    refine .inl (Option.map_eq_some_iff.mpr ⟨t, ht, ?_⟩)
    have hl := hcur t ht
    unfold rtThreadSuspend
    rw [hsee hl]
    split
    · rfl
    · dsimp only [Sys.setTimer]
      rw [Sys.veil_edit hl fun x => { x with timer := false }, Sys.veil_setStat hl, Sys.veil_remove]
  | resume t =>
    cases hs
    by_cases hl : x.Leaving t
    · exact .inr (by rw [rtThreadResume, if_pos (hok hl)])
    · exact .inl (congrArg some (Sys.veil_resume hl).symm)
  | control t p =>
    obtain ⟨hp, rfl⟩ := Runs.takeIf_eq_some.mp hs
    exact .inl (Runs.takeIf_eq_some.mpr ⟨hp, (Sys.veil_control hok p).symm⟩)
  | yield =>
    obtain ⟨t, ht, rfl⟩ := Option.map_eq_some_iff.mp hs
    refine .inl (Option.map_eq_some_iff.mpr ⟨t, ht, ?_⟩)
    have hl := hcur t ht
    unfold rtThreadYield
    rw [hsee hl, ← Sys.veil_setThread fun h => absurd h hl]
    exact (@Sys.veil_schedule _ (x.sys.setThread t _) _ _ hcur hready).symm
  | exit =>
    obtain ⟨t, ht, rfl⟩ := Option.map_eq_some_iff.mp hs
    refine .inl (Option.map_eq_some_iff.mpr ⟨t, ht, ?_⟩)
    unfold threadExit threadClose
    dsimp only
    rw [← Sys.veil_remove, ← Sys.veil_edit (hcur t ht) fun x =>
      { x with timer := false, stat := .close, yielding := false }]
    rfl
  | timeout t =>
    obtain ⟨hstat, rfl⟩ := Runs.takeIf_eq_some.mp hs
    refine .inl (Runs.takeIf_eq_some.mpr ⟨by rwa [hsee hok], ?_⟩)
    unfold threadTimeout
    rw [Sys.veil_insert hok, Sys.setError,
      ← Sys.veil_edit hok fun x => { x with error := .etimeout }]
    rfl
  | schedule =>
    cases hs
    exact .inl (congrArg some (Sys.veil_schedule hcur hready).symm)
  | enterCritical | exitCritical =>
    cases hs
    exact .inl rfl
  | detach | close => cases hs

end Veil

-- --------
-- What the steps leave alone
-- --------

section Frame

variable {cfg : SchedCfg} {s s' s'' : Sys} {t u : ThreadId}

/-- Nobody comes to a list that is not a ready list. -/
def NoNewcomers (s s' : Sys) : Prop := ∀ q, (∀ p, q ≠ .ready p) → s'.queue q ⊆ s.queue q

theorem NoNewcomers.refl : NoNewcomers s s := fun _ _ _ hu => hu

theorem NoNewcomers.trans (h : NoNewcomers s s') (h' : NoNewcomers s' s'') : NoNewcomers s s'' :=
  fun q hq _ hu => h q hq (h' q hq hu)

theorem NoNewcomers.wait (h : NoNewcomers s s') (o : IpcId) :
    s'.queue (.wait o) ⊆ s.queue (.wait o) :=
  h _ fun p => by simp

theorem NoNewcomers.defunct (h : NoNewcomers s s') : s'.queue .defunct ⊆ s.queue .defunct :=
  h _ fun p => by simp

theorem newcomers_remove : NoNewcomers s (rtScheduleRemoveThread cfg s t) := by
  intro q _ u hu
  rw [rtScheduleRemoveThread_queue] at hu
  exact List.mem_of_mem_erase hu

theorem newcomers_insert : NoNewcomers s (rtScheduleInsertThread cfg s t) := by
  intro q hq u hu
  by_cases hcur : s.current = some t
  · rwa [rtScheduleInsertThread_queue_of_current _ _ hcur] at hu
  · rwa [rtScheduleInsertThread_queue _ _ hcur, Function.update_of_ne (hq _)] at hu

theorem newcomers_wake (x : Thread) : NoNewcomers s (wake cfg s t x) :=
  NoNewcomers.trans (fun _ _ _ hu => List.mem_of_mem_erase hu) newcomers_insert

theorem newcomers_detach : NoNewcomers s (rtThreadDetach cfg s t) := by
  unfold rtThreadDetach
  split
  · exact newcomers_remove
  · exact .refl

theorem SchedInv.newcomers_schedule (h : SchedInv cfg s) : NoNewcomers s (rtSchedule cfg s) :=
  fun q hq _ hu => by rwa [h.schedule_queue hq] at hu

/-- Nobody comes to run but from a ready list. -/
def Promoted (s s' : Sys) : Prop :=
  ∀ u, s'.current = some u → s.current = some u ∨ ∃ p, u ∈ s.queue (.ready p)

theorem promoted_of_eq (h : s'.current = s.current) : Promoted s s' := fun _ hu => .inl (h ▸ hu)

theorem SchedInv.promoted_schedule (h : SchedInv cfg s) : Promoted s (rtSchedule cfg s) := by
  cases hcur : s.current with
  | none => rw [rtSchedule_of_none hcur]; exact promoted_of_eq rfl
  | some cur =>
    cases (rtSchedule_cases h hcur).1 with
    | nothing _ heq => exact promoted_of_eq (congrArg Sys.current heq)
    | stay _ _ _ _ _ _ hcurrent _ => exact promoted_of_eq hcurrent
    | switch next _ hto _ _ _ _ hcurrent _ =>
      intro u hu
      obtain rfl : next = u := Option.some.inj (hcurrent.symm.trans hu)
      exact .inr ⟨_, (h.ready next _).mpr ⟨hto.stat, rfl⟩⟩

/-- Who exits is the only one that comes to another list than a ready list. -/
theorem SchedInv.call_frame {a : SchedAct} (h : SchedInv cfg s) (hs : s.call cfg a = some s') :
    Promoted s s' ∧ (NoNewcomers s s' ∨ ∃ t m, a = .exit ∧ s.current = some t ∧ NoNewcomers s m ∧
      s'.queue = (m.setQueue .defunct (t :: m.queue .defunct)).queue) := by
  cases a with
  | start =>
    obtain ⟨-, rfl⟩ := Runs.takeIf_eq_some.mp hs
    unfold rtSystemSchedulerStart
    split
    · exact ⟨promoted_of_eq rfl, .inl .refl⟩
    · next next hget =>
      refine ⟨fun u hu => ?_, .inl (@newcomers_remove _ { s with current := some next } _)⟩
      have hcur : (rtScheduleRemoveThread cfg { s with current := some next } next).current =
          some next := rtScheduleRemoveThread_current _ _
      obtain rfl : next = u := Option.some.inj (hcur.symm.trans hu)
      exact .inr ⟨_, List.mem_of_mem_head? hget⟩
  | startup t =>
    obtain ⟨hi, rfl⟩ := Runs.takeIf_eq_some.mp hs
    rw [threadStartup_eq h hi]
    exact ⟨promoted_of_eq (wake_current _), .inl (newcomers_wake _)⟩
  | suspend =>
    obtain ⟨t, -, rfl⟩ := Option.map_eq_some_iff.mp hs
    unfold rtThreadSuspend
    split
    · exact ⟨promoted_of_eq rfl, .inl .refl⟩
    · exact ⟨promoted_of_eq (rtScheduleRemoveThread_current s t), .inl newcomers_remove⟩
  | resume t =>
    cases hs
    by_cases hs : (s.thread t).stat = .suspend
    · rw [rtThreadResume_eq hs]
      exact ⟨promoted_of_eq (wake_current _), .inl (newcomers_wake _)⟩
    · rw [rtThreadResume, if_pos hs]
      exact ⟨promoted_of_eq rfl, .inl .refl⟩
  | control t p =>
    obtain ⟨-, rfl⟩ := Runs.takeIf_eq_some.mp hs
    refine ⟨promoted_of_eq (rtThreadControl_current t p), .inl ?_⟩
    unfold rtThreadControl
    split
    · exact newcomers_remove.trans newcomers_insert
    · exact .refl
  | yield =>
    obtain ⟨t, -, rfl⟩ := Option.map_eq_some_iff.mp hs
    have hedit : SchedInv cfg (s.setThread t { s.thread t with yielding := true }) :=
      h.edit rfl rfl rfl rfl rfl
    exact ⟨hedit.promoted_schedule, .inl hedit.newcomers_schedule⟩
  | exit =>
    obtain ⟨t, ht, rfl⟩ := Option.map_eq_some_iff.mp hs
    exact ⟨promoted_of_eq (rtScheduleRemoveThread_current s t),
      .inr ⟨t, rtScheduleRemoveThread cfg s t, rfl, ht, newcomers_remove, rfl⟩⟩
  | timeout t =>
    obtain ⟨-, rfl⟩ := Runs.takeIf_eq_some.mp hs
    rw [threadTimeout_eq]
    exact ⟨promoted_of_eq (wake_current _), .inl (newcomers_wake _)⟩
  | schedule =>
    cases hs
    exact ⟨h.promoted_schedule, .inl h.newcomers_schedule⟩
  | enterCritical | exitCritical =>
    cases hs
    exact ⟨promoted_of_eq rfl, .inl .refl⟩
  | detach | close => cases hs

end Frame

-- --------
-- The reachable states
-- --------

section Reach

variable {cfg : SchedCfg} {x x' : Sched} {t u : ThreadId} {a : SchedAct}

/-- **The invariant**: the system that the steps see keeps the invariant of the scheduler. Who is
leaving does not run, and who is being detached has not been closed and is detached once. -/
structure DetachInv (cfg : SchedCfg) (x : Sched) : Prop where
  sched : SchedInv cfg (x.sys.veil x.Leaving)
  current : ∀ {t}, x.sys.current = some t → ¬ x.Leaving t
  once : (x.detaching.map Prod.snd).Nodup
  open_ : ∀ d ∈ x.detaching, d.2 ∉ x.sys.queue .defunct
  wait : ∀ o, x.sys.queue (.wait o) = []

namespace DetachInv

/-- Who is in a ready list is ready, and not leaving. -/
theorem ready (h : DetachInv cfg x) (t : ThreadId) (p : Nat) : t ∈ x.sys.queue (.ready p) ↔
    (x.sys.thread t).stat = .ready ∧ (x.sys.thread t).currentPriority = p ∧ ¬ x.Leaving t := by
  have hseen := h.sched.ready t p
  rw [(x.sys.veil_fields t).1] at hseen
  refine hseen.trans ?_
  by_cases hl : x.Leaving t
  · have hveil : (x.sys.veil x.Leaving).thread t = (x.sys.thread t).veiled := if_pos hl
    rw [hveil]
    exact iff_of_false (fun hr => Thread.veiled_stat hr.1) fun hr => hr.2.2 hl
  · rw [Sys.veil_thread fun h => absurd h hl]
    exact and_congr_right fun _ => (and_iff_left hl).symm

/-- No thread has been started yet. -/
theorem initial {priority : ThreadId → Nat} (hp : ∀ t, priority t < cfg.priorityMax) :
    DetachInv cfg (Sched.initial priority) := by
  have hnone : ∀ t, ¬ (Sched.initial priority).Leaving t := fun t ⟨_, hd, _⟩ => by cases hd
  have hveil : (Sched.initial priority).sys.veil (Sched.initial priority).Leaving =
      Sys.initial priority := by
    unfold Sys.veil
    simp only [if_neg (hnone _)]
    rfl
  refine ⟨?_, fun {t} _ => hnone t, List.nodup_nil, fun d hd => absurd hd List.not_mem_nil,
    fun _ => rfl⟩
  rw [hveil]
  exact SchedInv.initial hp

theorem call {s' : Sys} (h : DetachInv cfg x) (hok : x.Untouched a)
    (hown : ¬ (a.own = true ∧ ∃ d ∈ x.detaching, d.1 = x.sys.current))
    (hs : x.sys.call cfg a = some s') : DetachInv cfg { x with sys := s' } := by
  have hready : ∀ p, ∀ t ∈ x.sys.queue (.ready p), ¬ x.Leaving t := fun p t ht =>
    ((h.ready t p).mp ht).2.2
  rcases Sched.veil_call (fun _ => h.current) hready hok hs with hcall | rfl
  case inr => exact h
  obtain ⟨hcur, hlists⟩ := h.sched.call_frame hcall
  refine ⟨h.sched.call hcall, fun {u} hu => ?_, h.once, fun d hd hmem => ?_, fun o => ?_⟩
  · rcases hcur u hu with hu | ⟨p, hu⟩
    · exact h.current hu
    · exact hready p u hu
  · rcases hlists with hnew | ⟨t, m, rfl, ht, hnew, hqueue⟩
    · exact h.open_ d hd (hnew.defunct hmem)
    · have hmem : d.2 ∈ t :: m.queue .defunct := by
        have heq : s'.queue .defunct = t :: m.queue .defunct :=
          (congrFun hqueue .defunct).trans (by simp [Sys.setQueue])
        rwa [← heq]
      rcases List.mem_cons.mp hmem with heq | hmem
      · -- who exits is not in the middle of its own detach, and nobody else has begun one
        by_cases hself : d.1 = some t
        · exact hown ⟨rfl, d, hd, hself.trans ht.symm⟩
        · exact h.current ht ⟨d, hd, heq, hself⟩
      · exact h.open_ d hd (hnew.defunct hmem)
  · have hnone : s'.queue (.wait o) ⊆ x.sys.queue (.wait o) := by
      rcases hlists with hnew | ⟨t, m, -, -, hnew, hqueue⟩
      · exact hnew.wait o
      · have heq : s'.queue (.wait o) = m.queue (.wait o) :=
          (congrFun hqueue _).trans (Sys.setQueue_of_ne m _ (by simp))
        rw [heq]
        exact hnew.wait o
    rw [h.wait o] at hnone
    exact List.subset_nil.mp hnone

/-- The first section: the thread is in no list, and from now on it is not seen to be ready. -/
theorem detach (h : DetachInv cfg x) (hc : (x.sys.thread t).stat ≠ .close)
    (hok : ∀ d ∈ x.detaching, d.2 ≠ t) :
    DetachInv cfg ⟨rtThreadDetach cfg x.sys t, (x.sys.current, t) :: x.detaching⟩ := by
  have hstays : ¬ x.Leaving t := fun ⟨d, hd, ht, _⟩ => hok d hd ht
  have hsee : (x.sys.veil x.Leaving).thread t = x.sys.thread t :=
    Sys.veil_thread fun hl => absurd hl hstays
  have hcurrent : (rtThreadDetach cfg x.sys t).current = x.sys.current := rtThreadDetach_current
  have hsub := @newcomers_detach cfg x.sys t
  obtain ⟨x', hx'⟩ : ∃ x' : Sched,
      x' = ⟨rtThreadDetach cfg x.sys t, (x.sys.current, t) :: x.detaching⟩ := ⟨_, rfl⟩
  have hleaving : ∀ u, x'.Leaving u ↔ x.Leaving u ∨ t = u ∧ x.sys.current ≠ some u := by
    intro u
    rw [hx', Sched.Leaving, List.exists_mem_cons_iff, or_comm]
    rfl
  rw [← hx']
  -- the thread as it is seen from now on
  have hy : (x'.sys.veil x'.Leaving).thread t =
      if x.sys.current = some t then x.sys.thread t else (x.sys.thread t).veiled := by
    have hl : x'.Leaving t ↔ ¬ x.sys.current = some t :=
      (hleaving t).trans ((or_iff_right hstays).trans (and_iff_right rfl))
    have hthread : x'.sys.thread = x.sys.thread := by rw [hx']; exact rtThreadDetach_thread
    show (if x'.Leaving t then (x'.sys.thread t).veiled else x'.sys.thread t) = _
    rw [hthread, if_congr hl rfl rfl, ite_not]
  have hveil : x'.sys.veil x'.Leaving =
      (rtThreadDetach cfg (x.sys.veil x.Leaving) t).setThread t
        ((x'.sys.veil x'.Leaving).thread t) := by
    have hsys : rtThreadDetach cfg (x.sys.veil x.Leaving) t = x'.sys.veil x.Leaving := by
      rw [hx', Sys.veil_detach hstays]
    rw [hsys]
    exact Sys.veil_change fun u hu =>
      (hleaving u).trans (or_iff_left fun hl => hu hl.1.symm)
  refine ⟨?_, fun {u} hu hl => ?_, ?_, fun d hd hmem => ?_, fun o => ?_⟩
  · rw [hveil, hy]
    by_cases hcur : x.sys.current = some t
    · rw [if_pos hcur]
      have hr := h.sched.current_not_ready hcur
      rw [hsee] at hr
      exact h.sched.detach hr (by rwa [hsee]) (by rw [hsee]) (by rw [hsee]; exact id) fun _ => hcur
    · rw [if_neg hcur]
      refine h.sched.detach Thread.veiled_stat (by rwa [hsee])
        (by rw [hsee]; exact Thread.veiled_eq _) (fun hi => ?_) fun hrun => ?_
      · rw [hsee] at hi
        rw [Thread.veiled_of_ne (by rw [hi]; decide), hi]
      · refine h.sched.running ?_
        rw [hsee]
        unfold Thread.veiled at hrun
        split at hrun
        case isTrue => cases hrun
        case isFalse => exact hrun
  · rw [hx'] at hu
    rcases (hleaving u).mp hl with hl | ⟨-, hne⟩
    · exact h.current (hcurrent.symm.trans hu) hl
    · exact hne (hcurrent.symm.trans hu)
  · rw [hx', List.map_cons, List.nodup_cons]
    exact ⟨fun hmem => by
      obtain ⟨d, hd, ht⟩ := List.mem_map.mp hmem
      exact hok d hd ht, h.once⟩
  · rw [hx'] at hd hmem
    rcases List.mem_cons.mp hd with rfl | hd
    · have hclosed := h.sched.defunct (hsub.defunct hmem)
      rw [hsee] at hclosed
      exact hc hclosed
    · exact h.open_ d hd (hsub.defunct hmem)
  · rw [hx']
    have hnone := hsub.wait o
    rw [h.wait o] at hnone
    exact List.subset_nil.mp hnone

theorem close (h : DetachInv cfg x) (hd : (x.sys.current, t) ∈ x.detaching) :
    DetachInv cfg ⟨threadClose x.sys t, x.detaching.erase (x.sys.current, t)⟩ := by
  have hother : ∀ d ∈ x.detaching.erase (x.sys.current, t), d ∈ x.detaching ∧ d.2 ≠ t := by
    intro d hmem
    have hdist := (List.Nodup.of_map _ h.once).mem_erase_iff.mp hmem
    exact ⟨hdist.2, fun ht => hdist.1 (List.inj_on_of_nodup_map h.once hdist.2 hd ht)⟩
  obtain ⟨x', hx'⟩ : ∃ x' : Sched,
      x' = ⟨threadClose x.sys t, x.detaching.erase (x.sys.current, t)⟩ := ⟨_, rfl⟩
  have hleaving : ∀ u, x'.Leaving u ↔ x.Leaving u ∧ u ≠ t := by
    intro u
    rw [hx']
    constructor
    · rintro ⟨d, hmem, rfl, hne⟩
      exact ⟨⟨d, (hother d hmem).1, rfl, hne⟩, (hother d hmem).2⟩
    · rintro ⟨⟨d, hmem, rfl, hne⟩, ht⟩
      exact ⟨d, (List.mem_erase_of_ne fun heq => ht (by rw [heq])).mpr hmem, rfl, hne⟩
  rw [← hx']
  -- it is in no list: not in a ready list, since it is leaving or closes itself
  have hfree : Queues.Free x.sys.queue t := by
    intro q hq
    cases q with
    | ready p =>
      obtain ⟨hstat, -, hstays⟩ := (h.ready t p).mp hq
      have hcur : x.sys.current = some t := by_contra fun hne => hstays ⟨_, hd, rfl, hne⟩
      refine h.sched.current_not_ready hcur ?_
      rwa [Sys.veil_thread fun hl => absurd hl hstays]
    | wait o =>
      rw [h.wait o] at hq
      cases hq
    | defunct => exact h.open_ _ hd hq
  have hveil : x'.sys.veil x'.Leaving = threadClose (x.sys.veil x.Leaving) t := by
    have hthread : (x'.sys.veil x'.Leaving).thread =
        (threadClose (x.sys.veil x.Leaving) t).thread := by
      funext u
      have hsys : x'.sys.thread u = (threadClose x.sys t).thread u := by rw [hx']
      show (if x'.Leaving u then (x'.sys.thread u).veiled else x'.sys.thread u) = _
      rw [if_congr (hleaving u) rfl rfl, hsys]
      by_cases hu : u = t
      · subst hu
        rw [if_neg fun hl => hl.2 rfl, threadClose_self, threadClose_self]
        unfold Sys.veil
        dsimp only
        split
        · rw [Thread.veiled_eq]
        · rfl
      · rw [threadClose_of_ne hu, threadClose_of_ne hu, if_congr (and_iff_left hu) rfl rfl]
        rfl
    calc x'.sys.veil x'.Leaving
        = { threadClose (x.sys.veil x.Leaving) t with
            thread := (x'.sys.veil x'.Leaving).thread } := by rw [hx']; rfl
      _ = threadClose (x.sys.veil x.Leaving) t := by rw [hthread]
  refine ⟨?_, fun {u} hu hl => ?_, ?_, fun d hmem hdef => ?_, fun o => ?_⟩
  · rw [hveil]
    exact h.sched.of_close (h.sched.loose hfree) rfl rfl
  · rw [hx'] at hu
    exact h.current hu ((hleaving u).mp hl).1
  · rw [hx']
    exact h.once.sublist (List.erase_sublist.map _)
  · rw [hx'] at hmem hdef
    obtain ⟨hold, hne⟩ := hother d hmem
    have hdef : d.2 ∈ t :: x.sys.queue .defunct := by
      have heq : (threadClose x.sys t).queue .defunct = t :: x.sys.queue .defunct := by
        simp [threadClose, Sys.setQueue]
      rwa [← heq]
    rcases List.mem_cons.mp hdef with heq | hdef
    · exact hne heq
    · exact h.open_ d hold hdef
  · rw [hx']
    exact (Sys.setQueue_of_ne _ _ (by simp)).trans (h.wait o)

/-- **A step keeps the invariant** while nobody touches a thread that is being detached. -/
theorem exec (h : DetachInv cfg x) (hok : x.Untouched a) (hs : x.exec cfg a = some x') :
    DetachInv cfg x' := by
  cases a with
  | detach t =>
    obtain ⟨hc, rfl⟩ := Runs.takeIf_eq_some.mp hs
    exact h.detach hc hok
  | close t =>
    obtain ⟨hd, rfl⟩ := Runs.takeIf_eq_some.mp hs
    exact h.close hd
  | _ =>
    simp only [Sched.exec] at hs
    split at hs
    case isTrue => cases hs
    case isFalse hown =>
      obtain ⟨s', hs', rfl⟩ := Option.map_eq_some_iff.mp hs
      exact h.call hok hown hs'

end DetachInv

end Reach

end RTThread
