import RTThread.Kernel.ReadyQueue

/-!
# `rt_schedule`

`SchedInv` is the invariant of the scheduler: the ready queues are right, and no thread but the
current one is `RUNNING`. From a state that satisfies it `rt_schedule` does one of three things,
and `rtSchedule_cases` says which and with what result: it does nothing, the current thread runs
on, or the first of the most urgent threads that are ready replaces it. All that is known of
`rt_schedule` is read off these three cases.

## Main results

* `rtSchedule_cases` — the three outcomes.
* `SchedInv.schedule` — `rt_schedule` keeps the invariant.
* `schedule_most_urgent_fifo` — the thread that runs is a most urgent one, it only replaces a
  running thread that is less urgent or has yielded, and threads of one priority take turns.
-/

namespace RTThread

variable {cfg : SchedCfg} {s s' : Sys} {t u cur : ThreadId}

/-- **The scheduler's invariant.** -/
structure SchedInv (cfg : SchedCfg) (s : Sys) : Prop extends ReadyQueues cfg s where
  running : ∀ {t}, (s.thread t).stat = .running → s.current = some t
  current_not_ready : ∀ {t}, s.current = some t → (s.thread t).stat ≠ .ready
  current_masked : ∀ {t}, s.current = some t → (s.thread t).Masked cfg

/-- The thread is ready or runs. -/
def Thread.Awake (x : Thread) : Prop := x.stat = .ready ∨ x.stat = .running

theorem ReadyQueues.masked_of_awake (h : ReadyQueues cfg s) (ha : (s.thread t).Awake) :
    (s.thread t).Masked cfg := by
  refine h.masked ?_ ?_ <;> rcases ha with ha | ha <;> rw [ha] <;> decide

/-- The first of the most urgent threads that are ready. -/
structure Picked (s : Sys) (t : ThreadId) : Prop where
  stat : (s.thread t).stat = .ready
  first : ∃ rest, s.queue (.ready (s.thread t).currentPriority) = t :: rest
  urgent : ∀ u, (s.thread u).stat = .ready →
    (s.thread t).currentPriority ≤ (s.thread u).currentPriority

/-- What becomes of the thread that is replaced: it is ready again if it was running. -/
def Sys.preempted (s : Sys) (cur : ThreadId) : Thread :=
  if (s.thread cur).stat = .running then { s.thread cur with stat := .ready, yielding := false }
  else s.thread cur

/-- The lists with the replaced thread at the end of the ready list of its priority. -/
def Sys.requeued (s : Sys) (cur : ThreadId) : QueueId → List ThreadId :=
  if (s.thread cur).stat = .running then
    Function.update s.queue (.ready (s.thread cur).currentPriority)
      (s.queue (.ready (s.thread cur).currentPriority) ++ [cur])
  else s.queue

/-- The outcomes of `rt_schedule` with the current thread `cur`. -/
inductive Rescheduled (s s' : Sys) (cur : ThreadId) : Prop
  /-- The scheduler is locked or no thread is ready. -/
  | nothing (hidle : s.lockNest ≠ 0 ∨ ∀ u, (s.thread u).stat ≠ .ready) (heq : s' = s)
  /-- The running thread runs on. -/
  | stay (next : ThreadId) (hlock : s.lockNest = 0) (hto : Picked s next)
      (hstay : s.staysRunning cur (s.thread next).currentPriority)
      (hthread : s'.thread = Function.update s.thread cur { s.thread cur with yielding := false })
      (hqueue : s'.queue = s.queue) (hcurrent : s'.current = s.current)
      (hnest : s'.lockNest = s.lockNest)
  /-- The thread `next` is switched to. -/
  | switch (next : ThreadId) (hlock : s.lockNest = 0) (hto : Picked s next) (hne : next ≠ cur)
      (hgo : ¬ s.staysRunning cur (s.thread next).currentPriority)
      (hthread : s'.thread = Function.update (Function.update s.thread cur (s.preempted cur)) next
        { s.thread next with stat := .running })
      (hqueue : s'.queue = Queues.unlink (s.requeued cur) next) (hcurrent : s'.current = some next)
      (hnest : s'.lockNest = s.lockNest)

/-- The switch, field by field. -/
theorem scheduleTo_fields {b : Bool} {next : ThreadId} (hne : next ≠ cur)
    (hb : b = decide ((s.thread cur).stat = .running)) :
    (scheduleTo cfg s b cur next).thread =
        Function.update
          (Function.update s.thread cur
            (if (s.thread cur).stat = .running then { s.thread cur with stat := .ready }
            else s.thread cur))
          next { s.thread next with stat := .running } ∧
      (scheduleTo cfg s b cur next).queue = Queues.unlink (s.requeued cur) next ∧
      (scheduleTo cfg s b cur next).current = some next ∧
      (scheduleTo cfg s b cur next).lockNest = s.lockNest := by
  have hcur : ({ s with current := some next } : Sys).current ≠ some cur :=
    fun h => hne (Option.some.inj h)
  unfold scheduleTo Sys.setStat Sys.setThread Sys.requeued
  by_cases hrun : (s.thread cur).stat = .running
  · rw [hb, decide_eq_true hrun]
    simp only [if_true, rtScheduleRemoveThread_thread, rtScheduleRemoveThread_queue,
      rtScheduleRemoveThread_current, rtScheduleRemoveThread_lockNest,
      rtScheduleInsertThread_thread, rtScheduleInsertThread_queue _ _ hcur,
      rtScheduleInsertThread_current, rtScheduleInsertThread_lockNest, Sys.readyStat,
      if_neg hcur, if_pos hrun, Function.update_of_ne hne, and_true]
  · rw [hb, decide_eq_false hrun]
    simp only [Bool.false_eq_true, if_false, rtScheduleRemoveThread_thread,
      rtScheduleRemoveThread_queue, rtScheduleRemoveThread_current,
      rtScheduleRemoveThread_lockNest, if_neg hrun, Function.update_eq_self, and_true]

/-- The switch keeps the lists right. -/
theorem ReadyQueues.scheduleTo {b : Bool} {next : ThreadId} (h : ReadyQueues cfg s)
    (hnext : (s.thread next).stat = .ready) (hne : next ≠ cur)
    (hb : b = true → (s.thread cur).stat = .running) :
    ReadyQueues cfg (scheduleTo cfg s b cur next) := by
  -- the running thread is requeued first
  have hinsert : ReadyQueues cfg
      (if b then rtScheduleInsertThread cfg { s with current := some next } cur
      else { s with current := some next }) := by
    cases b with
    | false => exact h.with_current (some next)
    | true =>
      have hrun := hb rfl
      have hfree : Queues.Free s.queue cur := by
        refine h.free ?_ ?_ ?_ <;> rw [hrun] <;> decide
      have hmask := h.masked_of_awake (Or.inr hrun)
      exact ((h.with_current (some next)).loose hfree).insert hmask (h.bounded cur)
  -- the thread switched to is as it was, in its ready list
  have hthread : (if b then rtScheduleInsertThread cfg { s with current := some next } cur
      else { s with current := some next }).thread next = s.thread next := by
    cases b with
    | false => rfl
    | true =>
      simp only [if_true, rtScheduleInsertThread_thread]
      exact Function.update_of_ne hne _ _
  have hmask : ((if b then rtScheduleInsertThread cfg { s with current := some next } cur
      else { s with current := some next }).thread next).Masked cfg := by
    rw [hthread]
    exact h.masked_of_awake (Or.inl hnext)
  have hloose := (hinsert.remove hmask).setThread { s.thread next with stat := .running }
  unfold RTThread.scheduleTo Sys.setStat
  dsimp only
  rw [rtScheduleRemoveThread_thread, hthread]
  refine hloose.settle ?_ ?_ ?_
  · rw [Sys.setThread_self]
    simp
  · intro _
    rw [Sys.setThread_self]
    rw [hthread] at hmask
    exact Or.inl (hmask.of_same rfl rfl rfl rfl)
  · rw [Sys.setThread_self]
    exact h.bounded next

/-- The running thread that runs on is in no list. -/
theorem ReadyQueues.scheduleStay (h : ReadyQueues cfg s) (hrun : (s.thread cur).stat = .running) :
    ReadyQueues cfg ((rtScheduleRemoveThread cfg s cur).setStat cur .running) := by
  have hmask := h.masked_of_awake (Or.inr hrun)
  have hloose := (h.remove hmask).setThread { s.thread cur with stat := .running }
  unfold Sys.setStat
  rw [rtScheduleRemoveThread_thread]
  refine hloose.settle ?_ ?_ ?_
  · rw [Sys.setThread_self]
    simp
  · intro _
    rw [Sys.setThread_self]
    exact Or.inl (hmask.of_same rfl rfl rfl rfl)
  · rw [Sys.setThread_self]
    exact h.bounded cur

/-- **The outcomes of `rt_schedule`.** -/
theorem rtSchedule_cases (h : SchedInv cfg s) (hcur : s.current = some cur) :
    Rescheduled s (rtSchedule cfg s) cur ∧ ReadyQueues cfg (rtSchedule cfg s) := by
  unfold rtSchedule
  rw [hcur]
  dsimp only
  by_cases hstop : s.lockNest ≠ 0 ∨ s.group = 0#32
  · rw [if_pos hstop]
    refine ⟨.nothing ?_ rfl, h.toReadyQueues⟩
    rcases hstop with hlock | hg
    · exact Or.inl hlock
    · refine Or.inr fun u hu => ?_
      exact absurd hg (h.group_ne_zero_iff.2 ⟨u, hu⟩)
  · rw [if_neg hstop]
    have hlock : s.lockNest = 0 := by
      by_contra hne
      exact hstop (Or.inl hne)
    have hg : s.group ≠ 0#32 := fun hg => hstop (Or.inr hg)
    obtain ⟨next, hget, hfirst, hstat, hprio, hurgent⟩ := h.getHighest hg
    have hpick : Picked s next := ⟨hstat, hfirst, hurgent⟩
    have hne : next ≠ cur := by
      rintro rfl
      exact h.current_not_ready hcur hstat
    rw [hget]
    dsimp only
    unfold scheduleFrom
    rw [← hprio]
    by_cases hstay : s.staysRunning cur (s.thread next).currentPriority
    · have hrun := hstay.1
      -- the running thread is in no list, so its removal only clears its mark
      have hfree : Queues.Free s.queue cur := by
        refine h.free ?_ ?_ ?_ <;> rw [hrun] <;> decide
      have hedit : ReadyQueues cfg (s.setThread cur { s.thread cur with yielding := false }) :=
        h.edit rfl rfl rfl rfl rfl
      have hmark : ((s.setThread cur { s.thread cur with yielding := false }).thread cur).stat =
          .running := by
        rw [Sys.setThread_self]
        exact hrun
      rw [decide_eq_true hstay, decide_eq_true hrun]
      simp only [if_true, ne_eq, not_true_eq_false, if_false]
      refine ⟨.stay next hlock hpick hstay ?_ ?_ ?_ ?_, hedit.scheduleStay hmark⟩
      · unfold Sys.setStat Sys.setThread
        simp only [rtScheduleRemoveThread_thread, Function.update_self, Function.update_idem]
        rw [← hrun]
      · unfold Sys.setStat Sys.setThread
        simp only [rtScheduleRemoveThread_queue]
        exact Queues.unlink_of_free hfree
      · unfold Sys.setStat Sys.setThread
        simp only [rtScheduleRemoveThread_current]
      · unfold Sys.setStat Sys.setThread
        simp only [rtScheduleRemoveThread_lockNest]
    · rw [decide_eq_false hstay]
      simp only [Bool.false_eq_true, if_false, ne_eq, hne, not_false_eq_true, if_true,
        Bool.not_false, Bool.and_true]
      by_cases hrun : (s.thread cur).stat = .running
      · rw [decide_eq_true hrun]
        simp only [if_true]
        have hmark : ((s.setThread cur { s.thread cur with yielding := false }).thread cur).stat =
            .running := by
          rw [Sys.setThread_self]
          exact hrun
        obtain ⟨hthread, hqueue, hcurrent, hnest⟩ :=
          @scheduleTo_fields cfg _ _ true next hne (decide_eq_true hmark).symm
        have hedit : ReadyQueues cfg (s.setThread cur { s.thread cur with yielding := false }) :=
          h.edit rfl rfl rfl rfl rfl
        have hnext : ((s.setThread cur { s.thread cur with yielding := false }).thread next).stat =
            .ready := by
          rw [Sys.setThread_of_ne _ _ hne]
          exact hstat
        refine ⟨.switch next hlock hpick hne hstay ?_ ?_ hcurrent hnest,
          hedit.scheduleTo hnext hne fun _ => hmark⟩
        · rw [hthread, if_pos hmark, Sys.setThread_self, Sys.setThread_of_ne _ _ hne]
          unfold Sys.setThread Sys.preempted
          rw [if_pos hrun, Function.update_idem]
        · rw [hqueue]
          unfold Sys.requeued
          rw [if_pos hmark, if_pos hrun, Sys.setThread_self]
          rfl
      · rw [decide_eq_false hrun]
        simp only [Bool.false_eq_true, if_false]
        obtain ⟨hthread, hqueue, hcurrent, hnest⟩ :=
          @scheduleTo_fields cfg _ _ false next hne (decide_eq_false hrun).symm
        refine ⟨.switch next hlock hpick hne hstay ?_ hqueue hcurrent hnest,
          h.scheduleTo hstat hne fun hfalse => by cases hfalse⟩
        rw [hthread, if_neg hrun]
        unfold Sys.preempted
        rw [if_neg hrun]

-- --------
-- What `rt_schedule` leaves alone
-- --------

theorem rtSchedule_of_none (h : s.current = none) : rtSchedule cfg s = s := by
  unfold rtSchedule
  rw [h]

theorem Sys.preempted_edit (s : Sys) (cur : ThreadId) : ∃ st y,
    s.preempted cur = { s.thread cur with stat := st, yielding := y } := by
  unfold Sys.preempted
  split
  · exact ⟨_, _, rfl⟩
  · exact ⟨_, _, rfl⟩

/-- Of a thread only the status and the yield mark change. -/
theorem SchedInv.schedule_thread (h : SchedInv cfg s) (u : ThreadId) : ∃ st y,
    (rtSchedule cfg s).thread u = { s.thread u with stat := st, yielding := y } := by
  cases hcur : s.current with
  | none => exact ⟨_, _, by rw [rtSchedule_of_none hcur]⟩
  | some cur =>
    cases (rtSchedule_cases h hcur).1 with
    | nothing _ heq => exact ⟨_, _, by rw [heq]⟩
    | stay next _ _ _ hthread _ _ _ =>
      rw [hthread]
      by_cases hu : u = cur
      · subst hu
        exact ⟨_, _, Function.update_self _ _ _⟩
      · exact ⟨_, _, Function.update_of_ne hu _ _⟩
    | switch next _ _ _ _ hthread _ _ _ =>
      rw [hthread]
      by_cases hu : u = next
      · subst hu
        exact ⟨_, _, Function.update_self _ _ _⟩
      · rw [Function.update_of_ne hu]
        by_cases huc : u = cur
        · subst huc
          rw [Function.update_self]
          exact s.preempted_edit u
        · exact ⟨_, _, Function.update_of_ne huc _ _⟩

theorem SchedInv.schedule_currentPriority (h : SchedInv cfg s) (u : ThreadId) :
    ((rtSchedule cfg s).thread u).currentPriority = (s.thread u).currentPriority := by
  obtain ⟨st, y, heq⟩ := h.schedule_thread u
  rw [heq]

theorem SchedInv.schedule_error (h : SchedInv cfg s) (u : ThreadId) :
    ((rtSchedule cfg s).thread u).error = (s.thread u).error := by
  obtain ⟨st, y, heq⟩ := h.schedule_thread u
  rw [heq]

theorem SchedInv.schedule_timer (h : SchedInv cfg s) (u : ThreadId) :
    ((rtSchedule cfg s).thread u).timer = (s.thread u).timer := by
  obtain ⟨st, y, heq⟩ := h.schedule_thread u
  rw [heq]

theorem SchedInv.schedule_lockNest (h : SchedInv cfg s) :
    (rtSchedule cfg s).lockNest = s.lockNest := by
  cases hcur : s.current with
  | none => rw [rtSchedule_of_none hcur]
  | some cur =>
    cases (rtSchedule_cases h hcur).1 with
    | nothing _ heq => rw [heq]
    | stay _ _ _ _ _ _ _ hnest => exact hnest
    | switch _ _ _ _ _ _ _ _ hnest => exact hnest

/-- The status of a thread only changes between ready and running. -/
theorem SchedInv.schedule_stat (h : SchedInv cfg s) (u : ThreadId) :
    ((rtSchedule cfg s).thread u).stat = (s.thread u).stat ∨
      (s.thread u).Awake ∧ ((rtSchedule cfg s).thread u).Awake := by
  cases hcur : s.current with
  | none =>
    rw [rtSchedule_of_none hcur]
    exact Or.inl rfl
  | some cur =>
    cases (rtSchedule_cases h hcur).1 with
    | nothing _ heq =>
      rw [heq]
      exact Or.inl rfl
    | stay next _ _ _ hthread _ _ _ =>
      rw [hthread]
      by_cases hu : u = cur
      · subst hu
        rw [Function.update_self]
        exact Or.inl rfl
      · rw [Function.update_of_ne hu]
        exact Or.inl rfl
    | switch next _ hto _ _ hthread _ _ _ =>
      rw [hthread]
      by_cases hu : u = next
      · subst hu
        rw [Function.update_self]
        exact Or.inr ⟨Or.inl hto.stat, Or.inr rfl⟩
      · rw [Function.update_of_ne hu]
        by_cases huc : u = cur
        · subst huc
          rw [Function.update_self]
          unfold Sys.preempted
          split
          case isTrue hrun => exact Or.inr ⟨Or.inr hrun, Or.inl rfl⟩
          case isFalse => exact Or.inl rfl
        · rw [Function.update_of_ne huc]
          exact Or.inl rfl

theorem SchedInv.schedule_suspend_iff (h : SchedInv cfg s) (u : ThreadId) :
    ((rtSchedule cfg s).thread u).stat = .suspend ↔ (s.thread u).stat = .suspend := by
  rcases h.schedule_stat u with heq | ⟨hold, hnew⟩
  · rw [heq]
  · refine iff_of_false ?_ ?_
    · rcases hnew with hnew | hnew <;> rw [hnew] <;> decide
    · rcases hold with hold | hold <;> rw [hold] <;> decide

theorem SchedInv.schedule_awake_iff (h : SchedInv cfg s) (u : ThreadId) :
    ((rtSchedule cfg s).thread u).Awake ↔ (s.thread u).Awake := by
  rcases h.schedule_stat u with heq | ⟨hold, hnew⟩
  · unfold Thread.Awake
    rw [heq]
  · exact iff_of_true hnew hold

/-- The suspend lists and the list of the defunct threads stay as they are. -/
theorem SchedInv.schedule_queue (h : SchedInv cfg s) {q : QueueId} (hq : ∀ p, q ≠ .ready p) :
    (rtSchedule cfg s).queue q = s.queue q := by
  cases hcur : s.current with
  | none => rw [rtSchedule_of_none hcur]
  | some cur =>
    cases (rtSchedule_cases h hcur).1 with
    | nothing _ heq => rw [heq]
    | stay _ _ _ _ _ hqueue _ _ => rw [hqueue]
    | switch next _ hto hne _ _ hqueue _ _ =>
      have hrequeued : s.requeued cur q = s.queue q := by
        unfold Sys.requeued
        split
        · exact Function.update_of_ne (hq _) _ _
        · rfl
      rw [hqueue]
      unfold Queues.unlink
      rw [hrequeued]
      refine List.erase_of_not_mem fun hmem => ?_
      cases q with
      | ready p => exact hq p rfl
      | wait o =>
        have hstat := h.wait hmem
        rw [hto.stat] at hstat
        cases hstat
      | defunct =>
        have hstat := h.defunct hmem
        rw [hto.stat] at hstat
        cases hstat

theorem SchedInv.schedule_wait (h : SchedInv cfg s) (o : IpcId) :
    (rtSchedule cfg s).queue (.wait o) = s.queue (.wait o) :=
  h.schedule_queue fun _ => by simp

-- --------
-- `rt_schedule` keeps the invariant
-- --------

/-- After a switch only the thread switched to is running. -/
theorem SchedInv.switch_running (h : SchedInv cfg s) (hcur : s.current = some cur) {next : ThreadId}
    (hne : next ≠ cur)
    (hthread : s'.thread = Function.update (Function.update s.thread cur (s.preempted cur)) next
      { s.thread next with stat := .running }) :
    (s'.thread u).stat = .running ↔ u = next := by
  constructor
  · intro hu
    by_contra hun
    rw [hthread, Function.update_of_ne hun] at hu
    have huc : u = cur := by
      by_contra huc
      rw [Function.update_of_ne huc] at hu
      have hcur' := h.running hu
      rw [hcur] at hcur'
      exact huc (Option.some.inj hcur').symm
    subst huc
    rw [Function.update_self] at hu
    unfold Sys.preempted at hu
    split at hu
    case isTrue => cases hu
    case isFalse hrun => exact hrun hu
  · rintro rfl
    rw [hthread, Function.update_self]

/-- **`rt_schedule` keeps the scheduler's invariant.** -/
theorem SchedInv.schedule (h : SchedInv cfg s) : SchedInv cfg (rtSchedule cfg s) := by
  cases hcur : s.current with
  | none =>
    rw [rtSchedule_of_none hcur]
    exact h
  | some cur =>
    obtain ⟨hcases, hqueues⟩ := rtSchedule_cases h hcur
    cases hcases with
    | nothing _ heq =>
      rw [heq]
      exact h
    | stay next _ _ _ hthread _ hcurrent _ =>
      have hstat : ∀ u, ((rtSchedule cfg s).thread u).stat = (s.thread u).stat := by
        intro u
        rw [hthread]
        by_cases hu : u = cur
        · subst hu
          rw [Function.update_self]
        · rw [Function.update_of_ne hu]
      refine ⟨hqueues, ?_, ?_, ?_⟩
      · intro u hu
        rw [hstat] at hu
        rw [hcurrent]
        exact h.running hu
      · intro u hu
        rw [hcurrent] at hu
        rw [hstat]
        exact h.current_not_ready hu
      · intro u hu
        rw [hcurrent] at hu
        obtain ⟨st, y, heq⟩ := h.schedule_thread u
        rw [heq]
        exact (h.current_masked hu).of_same rfl rfl rfl rfl
    | switch next _ _ hne _ hthread _ hcurrent _ =>
      have hrunning : ((rtSchedule cfg s).thread next).stat = .running := by
        rw [hthread, Function.update_self]
      refine ⟨hqueues, ?_, ?_, ?_⟩
      · intro u hu
        rw [hcurrent, (h.switch_running hcur hne hthread).1 hu]
      · intro u hu
        rw [hcurrent, Option.some.injEq] at hu
        rw [← hu, hrunning]
        decide
      · intro u hu
        rw [hcurrent, Option.some.injEq] at hu
        rw [← hu]
        exact hqueues.masked_of_awake (Or.inr hrunning)

-- --------
-- Who runs next
-- --------

/-- No thread that is ready is more urgent than the current one. -/
def Sys.Urgent (s : Sys) : Prop :=
  ∀ t u, s.current = some t → (s.thread u).stat = .ready →
    (s.thread t).currentPriority ≤ (s.thread u).currentPriority

/-- **`rt_schedule` leaves nobody behind** who is more urgent than the thread that runs. -/
theorem SchedInv.schedule_urgent (h : SchedInv cfg s) (hlock : s.lockNest = 0)
    (hcur : s.current = some cur) : (rtSchedule cfg s).Urgent := by
  have hprio := h.schedule_currentPriority
  intro t u ht hu
  obtain ⟨hcases, -⟩ := rtSchedule_cases h hcur
  cases hcases with
  | nothing hidle heq =>
    rw [heq] at hu
    exact absurd hu (hidle.resolve_left (not_not_intro hlock) u)
  | stay next _ hto hstay hthread _ hcurrent _ =>
    rw [hcurrent, hcur, Option.some.injEq] at ht
    subst ht
    have hready : (s.thread u).stat = .ready := by
      rw [hthread] at hu
      by_cases huc : u = cur
      · subst huc
        rwa [Function.update_self] at hu
      · rwa [Function.update_of_ne huc] at hu
    rw [hprio, hprio]
    have hle := hto.urgent u hready
    rcases hstay.2 with hlt | ⟨heq, -⟩ <;> omega
  | switch next _ hto hne hgo hthread _ hcurrent _ =>
    rw [hcurrent, Option.some.injEq] at ht
    subst ht
    rw [hprio, hprio]
    rcases (h.schedule_awake_iff u).1 (Or.inl hu) with hready | hrun
    · exact hto.urgent u hready
    · -- the thread that ran is ready now, and was not urgent enough to stay
      have hcur' := h.running hrun
      rw [hcur, Option.some.injEq] at hcur'
      subst hcur'
      by_contra hlt
      exact hgo ⟨hrun, Or.inl (by omega)⟩

/-- What `rt_schedule` makes of a running thread and the threads that are ready: `t` runs. -/
structure ScheduledTo (s s' : Sys) (cur t : ThreadId) : Prop where
  current : s'.current = some t
  /-- No thread that is ready is more urgent. -/
  urgent : ∀ u, (s'.thread u).stat = .ready →
    (s'.thread t).currentPriority ≤ (s'.thread u).currentPriority
  /-- A running thread is only replaced by a more urgent one, or after it has yielded by one that
  is as urgent, and it goes to the end of its ready list. -/
  replaced : (s.thread cur).stat = .running → t ≠ cur →
    ((s.thread t).currentPriority < (s.thread cur).currentPriority ∨
      (s.thread t).currentPriority = (s.thread cur).currentPriority ∧
        (s.thread cur).yielding = true) ∧
    s'.queue (.ready (s.thread cur).currentPriority) =
      (s.queue (.ready (s.thread cur).currentPriority)).erase t ++ [cur]
  /-- The thread that is switched to comes from the head of its list. -/
  first : t ≠ cur → ∃ rest, s.queue (.ready (s.thread t).currentPriority) = t :: rest
  /-- No other list changes. -/
  others : ∀ p, ((s.thread cur).stat = .running → p ≠ (s.thread cur).currentPriority) →
    s'.queue (.ready p) = (s.queue (.ready p)).erase t
  /-- A thread that was running or ready still is one or the other, in its ready list. -/
  kept : ∀ u, (s.thread u).Awake →
    u = t ∧ (s'.thread u).stat = .running ∨
      (s'.thread u).stat = .ready ∧ u ∈ s'.queue (.ready (s'.thread u).currentPriority)
  /-- Exactly one thread runs. -/
  one : (s.thread cur).stat = .running ∨ (∃ u, (s.thread u).stat = .ready) →
    ∀ u, (s'.thread u).stat = .running ↔ u = t

theorem SchedInv.awake_cases (h : SchedInv cfg s) (ht : s.current = some t)
    (ha : (s.thread u).Awake) :
    u = t ∧ (s.thread u).stat = .running ∨
      (s.thread u).stat = .ready ∧ u ∈ s.queue (.ready (s.thread u).currentPriority) := by
  rcases ha with hready | hrun
  · exact Or.inr ⟨hready, (h.ready u _).2 ⟨hready, rfl⟩⟩
  · have hcur := h.running hrun
    rw [ht] at hcur
    exact Or.inl ⟨(Option.some.inj hcur).symm, hrun⟩

/-- **`rt_schedule` runs a most urgent thread**, replaces a running one only for a reason, and
lets the threads of one priority take turns. When nothing can run it changes nothing. -/
theorem schedule_most_urgent_fifo (h : SchedInv cfg s) (hlock : s.lockNest = 0)
    (hcur : s.current = some cur) :
    (∃ t, ScheduledTo s (rtSchedule cfg s) cur t) ∧
      ((s.thread cur).stat ≠ .running → (∀ u, (s.thread u).stat ≠ .ready) →
        rtSchedule cfg s = s) := by
  have hinv := h.schedule
  have hkept : ∀ t, (rtSchedule cfg s).current = some t → ∀ u, (s.thread u).Awake →
      u = t ∧ ((rtSchedule cfg s).thread u).stat = .running ∨
        ((rtSchedule cfg s).thread u).stat = .ready ∧
          u ∈ (rtSchedule cfg s).queue
            (.ready ((rtSchedule cfg s).thread u).currentPriority) :=
    fun t ht u hu => hinv.awake_cases ht ((h.schedule_awake_iff u).2 hu)
  have hurgent := h.schedule_urgent hlock hcur
  obtain ⟨hcases, -⟩ := rtSchedule_cases h hcur
  cases hcases with
  | nothing hidle heq =>
    have hnone := hidle.resolve_left (not_not_intro hlock)
    refine ⟨⟨cur, ?_, ?_, ?_, ?_, ?_, hkept cur ?_, ?_⟩, fun _ _ => heq⟩
    · rw [heq]
      exact hcur
    · refine fun u hu => hurgent cur u ?_ hu
      rw [heq]
      exact hcur
    · intro _ hne
      exact absurd rfl hne
    · intro hne
      exact absurd rfl hne
    · intro p _
      rw [heq]
      refine (List.erase_of_not_mem fun hmem => ?_).symm
      exact hnone cur ((h.ready _ _).1 hmem).1
    · rw [heq]
      exact hcur
    · intro hone u
      rw [heq]
      have hrun := hone.resolve_right fun hex => hex.elim hnone
      constructor
      · intro hu
        have hcur' := h.running hu
        rw [hcur] at hcur'
        exact (Option.some.inj hcur').symm
      · rintro rfl
        exact hrun
  | stay next _ hto hstay hthread hqueue hcurrent _ =>
    have hcurrent' : (rtSchedule cfg s).current = some cur := hcurrent.trans hcur
    have hstat : ∀ u, ((rtSchedule cfg s).thread u).stat = (s.thread u).stat := by
      intro u
      rw [hthread]
      by_cases hu : u = cur
      · subst hu
        rw [Function.update_self]
      · rw [Function.update_of_ne hu]
    refine ⟨⟨cur, hcurrent', ?_, ?_, ?_, ?_, hkept cur hcurrent', ?_⟩, ?_⟩
    · exact fun u hu => hurgent cur u hcurrent' hu
    · intro _ hne
      exact absurd rfl hne
    · intro hne
      exact absurd rfl hne
    · intro p _
      rw [hqueue]
      refine (List.erase_of_not_mem fun hmem => ?_).symm
      have hready := ((h.ready _ _).1 hmem).1
      rw [hstay.1] at hready
      cases hready
    · intro _ u
      rw [hstat]
      constructor
      · intro hu
        have hcur' := h.running hu
        rw [hcur] at hcur'
        exact (Option.some.inj hcur').symm
      · rintro rfl
        exact hstay.1
    · intro hrun _
      exact absurd hstay.1 hrun
  | switch next _ hto hne hgo hthread hqueue hcurrent _ =>
    have hrunning : ∀ u, ((rtSchedule cfg s).thread u).stat = .running ↔ u = next :=
      fun u => h.switch_running hcur hne hthread
    refine ⟨⟨next, hcurrent, ?_, ?_, fun _ => hto.first, ?_, hkept next hcurrent,
      fun _ u => hrunning u⟩, ?_⟩
    · exact fun u hu => hurgent next u hcurrent hu
    · intro hrun _
      constructor
      · rcases Nat.lt_trichotomy (s.thread next).currentPriority (s.thread cur).currentPriority
          with hlt | heq | hgt
        · exact Or.inl hlt
        · refine Or.inr ⟨heq, ?_⟩
          by_contra hy
          exact hgo ⟨hrun, Or.inr ⟨heq.symm, by simpa using hy⟩⟩
        · exact absurd ⟨hrun, Or.inl hgt⟩ hgo
      · rw [hqueue]
        unfold Queues.unlink Sys.requeued
        rw [if_pos hrun, Function.update_self]
        by_cases hmem : next ∈ s.queue (.ready (s.thread cur).currentPriority)
        · exact List.erase_append_left _ hmem
        · rw [List.erase_append_right _ hmem, List.erase_of_not_mem hmem, List.erase_of_not_mem]
          simp [hne]
    · intro p hp
      rw [hqueue]
      unfold Queues.unlink Sys.requeued
      split
      case isTrue hrun =>
        have hq : QueueId.ready p ≠ .ready (s.thread cur).currentPriority :=
          fun heq => hp hrun (QueueId.ready.inj heq)
        rw [Function.update_of_ne hq]
      case isFalse => rfl
    · intro _ hnone
      exact absurd hto.stat (hnone next)

end RTThread
