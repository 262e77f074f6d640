import RTThread.Kernel.Priorities
import RTThread.Lib.StableOrder

/-!
# The order of the suspend lists

`_ipc_list_suspend` puts a thread before the first less urgent one of a `RT_IPC_FLAG_PRIO` list,
so the list is sorted when the thread goes in. `RT_THREAD_CTRL_CHANGE_PRIORITY` moves a `READY`
thread to the list of its new priority and leaves a suspended one where it is. An observer stamps
the threads in the order in which they block; with these stamps the lists stay in order as long
as no change of priority concerns the place of a thread that waits in one of them.

## Main results

* `suspend_lists_in_order` — the lists are sorted by priority and then by arrival, so the thread
  that is resumed is a most urgent one.
* `suspend_list_out_of_order` — a boost by `rt_mutex_take` leaves a list unsorted.
-/

namespace RTThread

open StableOrder

variable {cfg : SchedCfg} {idle : ThreadId}

/-- The observer of the arrivals. -/
structure Arrivals where
  /-- The number of times a thread has been suspended on an object. -/
  now : Nat
  /-- When a thread was suspended last. -/
  arrived : ThreadId → Nat

namespace Arrivals

def start : Arrivals := ⟨0, fun _ => 0⟩

def observe (g : Arrivals) (s : Kernel) (a : KernelAct) : Arrivals :=
  match a.enqueued s with
  | some (t, _) => ⟨g.now + 1, Function.update g.arrived t g.now⟩
  | none => g

end Arrivals

/-- A thread that waits in a sorted list keeps its place when the action changes its priority: it
compares to the other threads of the list as before. -/
def KeepsPlace (p : Kernel × Arrivals) (a : KernelAct) : Prop :=
  ∀ u q, a.reprioritised p.1 = some (u, q) → ∀ o, p.1.flagOf o = .prio → u ∈ p.1.waiters o →
    ∀ v ∈ p.1.waiters o, v ≠ u →
      (Before (Function.update p.1.priority u q) p.2.arrived u v ↔
        Before p.1.priority p.2.arrived u v) ∧
      (Before (Function.update p.1.priority u q) p.2.arrived v u ↔
        Before p.1.priority p.2.arrived v u)

/-- The sorted lists are in order, and everybody in a list has arrived. -/
structure SuspendOrder (s : Kernel) (g : Arrivals) : Prop where
  order : ∀ o, s.flagOf o = .prio → InOrder s.priority g.arrived (s.waiters o)
  past : ∀ o u, u ∈ s.waiters o → g.arrived u < g.now

section Step

variable {s s' : Kernel} {g : Arrivals} {a : KernelAct} {t u : ThreadId} {o : IpcId}

theorem Kernel.setSem_flag {i j : Nat} {x : Sem} (hx : x.flag = (s.sem i).flag) :
    ((s.setSem i x).sem j).flag = (s.sem j).flag := by
  by_cases hj : j = i
  · subst hj
    rw [Kernel.setSem_self, hx]
  · show (Function.update s.sem i x j).flag = _
    rw [Function.update_of_ne hj]

/-- A step changes neither the flag of a semaphore nor those of the other objects. -/
theorem KernelStep.flags_eq (h : KernelInv cfg idle s) (hs : KernelStep cfg idle s a s') :
    (∀ i, (s'.sem i).flag = (s.sem i).flag) ∧ s'.flag = s.flag := by
  cases hs with
  | @semTake t i timeout =>
    rcases @rtSemTake_cases cfg s t i timeout with
      ⟨-, heq⟩ | ⟨-, -, heq⟩ | ⟨-, -, heq⟩ <;> rw [heq]
    · exact ⟨fun _ => Kernel.setSem_flag rfl, rfl⟩
    · exact ⟨fun _ => rfl, rfl⟩
    · exact ⟨fun _ => rfl, rfl⟩
  | @semTrytake t i =>
    unfold rtSemTrytake
    rcases @rtSemTake_cases cfg s t i 0 with
      ⟨-, heq⟩ | ⟨-, -, heq⟩ | ⟨-, -, heq⟩ <;> rw [heq]
    · exact ⟨fun _ => Kernel.setSem_flag rfl, rfl⟩
    · exact ⟨fun _ => rfl, rfl⟩
    · exact ⟨fun _ => rfl, rfl⟩
  | @semRelease c i =>
    rcases @rtSemRelease_cases cfg s i with ⟨w, rest, -, heq⟩ | ⟨-, -, heq⟩ | ⟨-, -, heq⟩ <;>
      rw [heq]
    · cases c <;> exact ⟨fun _ => rfl, rfl⟩
    · exact ⟨fun _ => Kernel.setSem_flag rfl, rfl⟩
    · exact ⟨fun _ => rfl, rfl⟩
  | @semReset c i value =>
    have hflag := fun j => @Kernel.setSem_flag
      { s with sys := ipcListResumeAll cfg s.sys (.sem i) } i j
      { s.sem i with value := value % 2 ^ 16 } rfl
    cases c <;> exact ⟨hflag, rfl⟩
  | @mutexTake t m timeout =>
    have hcase := @rtMutexTake_cases cfg s t m timeout
    generalize rtMutexTake cfg s t m timeout = r at hcase ⊢
    cases hcase <;> exact ⟨fun _ => rfl, rfl⟩
  | @mutexRelease t m =>
    have hcase := @rtMutexRelease_cases cfg s t m h.sched
    generalize rtMutexRelease cfg s t m = r at hcase ⊢
    cases hcase <;> exact ⟨fun _ => rfl, rfl⟩
  | @signal c => cases c <;> exact ⟨fun _ => rfl, rfl⟩
  | @exitCritical =>
    dsimp only
    split <;> exact ⟨fun _ => rfl, rfl⟩
  | @ret t k =>
    rcases @Kernel.leave_eq s t k with heq | heq <;> rw [heq] <;> exact ⟨fun _ => rfl, rfl⟩
  | _ => exact ⟨fun _ => rfl, rfl⟩

theorem KernelStep.flagOf_eq (h : KernelInv cfg idle s) (hs : KernelStep cfg idle s a s')
    (o : IpcId) : s'.flagOf o = s.flagOf o := by
  obtain ⟨hsem, hflag⟩ := hs.flags_eq h
  cases o with
  | sem i => exact hsem i
  | mutex m => rfl
  | other i => exact congrFun hflag i

/-- **A change of priority that keeps the places keeps the order.** -/
theorem SuspendOrder.reprioritise (hord : SuspendOrder s g) (h : KernelInv cfg idle s)
    (hs : KernelStep cfg idle s a s') (hok : KeepsPlace (s, g) a) (ho : s.flagOf o = .prio) :
    InOrder s'.priority g.arrived (s.waiters o) := by
  have hprio := hs.priority_eq h
  have hold := hord.order o ho
  unfold KernelAct.priorityAfter at hprio
  cases hr : a.reprioritised s with
  | none =>
    rw [hr] at hprio
    exact hold.congr (fun v _ => hprio v) fun _ _ => rfl
  | some change =>
    obtain ⟨u, q⟩ := change
    rw [hr] at hprio
    have heq : s'.priority = Function.update s.priority u q := by
      funext v
      rw [hprio v, Function.update_apply]
    by_cases hu : u ∈ s.waiters o
    · refine hold.rekey (x := u) ?_ ?_ (h.sched.apart.nodup _)
      · intro v hv
        rw [heq, Function.update_of_ne hv]
      · rw [heq]
        exact hok u q hr o ho hu
    · -- nobody in the list has a new priority
      refine hold.congr (fun v hv => ?_) fun _ _ => rfl
      have hne : v ≠ u := by
        rintro rfl
        exact hu hv
      rw [heq, Function.update_of_ne hne]

/-- **Every step keeps the order**, if it keeps the places. -/
theorem SuspendOrder.step (hord : SuspendOrder s g) (h : KernelInv cfg idle s)
    (hs : KernelStep cfg idle s a s') (hok : KeepsPlace (s, g) a) :
    SuspendOrder s' (g.observe s a) := by
  -- the threads that waited keep their stamps: the one that blocks now was not among them
  have hstamp : ∀ o' v, v ∈ s.waiters o' →
      (g.observe s a).arrived v = g.arrived v ∧ g.now ≤ (g.observe s a).now := by
    intro o' v hv
    unfold Arrivals.observe
    cases he : a.enqueued s with
    | none => exact ⟨rfl, Nat.le_refl _⟩
    | some entry =>
      obtain ⟨t, o''⟩ := entry
      have hne : v ≠ t := by
        rintro rfl
        exact h.not_waiting_of_run (hs.enqueued_run he) o' hv
      exact ⟨Function.update_of_ne hne _ _, Nat.le_succ _⟩
  have hpast : ∀ o' v, v ∈ s.waiters o' → (g.observe s a).arrived v < (g.observe s a).now := by
    intro o' v hv
    obtain ⟨heq, hle⟩ := hstamp o' v hv
    have hlt := hord.past o' v hv
    omega
  have hold : ∀ o', s.flagOf o' = .prio →
      InOrder s'.priority (g.observe s a).arrived (s.waiters o') := fun o' ho =>
    (hord.reprioritise h hs hok ho).congr (fun _ _ => rfl) fun v hv => (hstamp o' v hv).1
  refine ⟨fun o' ho => ?_, fun o' v hv => ?_⟩
  · rw [hs.flagOf_eq h] at ho
    rcases hs.waiters_cases h o' with hsub | ⟨t, he, heq⟩
    · exact (hold o' ho).sublist hsub
    · rw [heq, ho]
      refine (hold o' ho).insert fun v hv => ?_
      -- the thread that blocks has the newest stamp
      rw [(hstamp o' v hv).1]
      unfold Arrivals.observe
      rw [he]
      dsimp only
      rw [Function.update_self]
      exact hord.past o' v hv
  · rcases hs.waiters_cases h o' with hsub | ⟨t, he, heq⟩
    · exact hpast o' v (hsub.subset hv)
    · rw [heq, (ipcInsert_perm _ _ _ _).mem_iff, List.mem_cons] at hv
      rcases hv with rfl | hv
      · unfold Arrivals.observe
        rw [he]
        dsimp only
        rw [Function.update_self]
        exact Nat.lt_succ_self _
      · exact hpast o' v hv

theorem SuspendOrder.start (h : s.Booted cfg idle) : SuspendOrder s Arrivals.start := by
  have hnone : ∀ o, s.waiters o = [] := fun o =>
    List.eq_nil_iff_forall_not_mem.2 fun t ht => h.none_suspended t (h.sched.wait ht)
  refine ⟨fun o _ => ?_, fun o u hu => ?_⟩
  · rw [hnone o]
    exact InOrder.nil
  · rw [hnone o] at hu
    cases hu

/-- **The suspend lists.** After any run in which no change of priority concerns the place of a
suspended thread, the list of every mutex, and of every other object created with
`RT_IPC_FLAG_PRIO`, is sorted by the present priorities of its threads and, where they are equal,
by arrival; its first thread is a most urgent one. -/
theorem suspend_lists_in_order {s₀ : Kernel} (h0 : s₀.Booted cfg idle)
    (hrun : Runs (Runs.Observed (KernelStep cfg idle) Arrivals.observe) KeepsPlace
      (s₀, Arrivals.start) (s, g)) (ho : s.flagOf o = .prio) :
    ((s.waiters o).Pairwise fun u v => s.priority u < s.priority v ∨
      s.priority u = s.priority v ∧ g.arrived u < g.arrived v) ∧
    ∀ w rest, s.waiters o = w :: rest → ∀ u ∈ s.waiters o, s.priority w ≤ s.priority u := by
  have hinv : KernelInv cfg idle s ∧ SuspendOrder s g :=
    @Runs.invariant _ _ _ _ _ _
      (fun p : Kernel × Arrivals => KernelInv cfg idle p.1 ∧ SuspendOrder p.1 p.2)
      (by
        rintro ⟨s, g⟩ a ⟨s', g'⟩ ⟨h, hord⟩ hok ⟨hs, hg⟩
        dsimp only at hs hg
        subst hg
        exact ⟨h.step hs, hord.step h hs hok⟩)
      hrun ⟨KernelInv.booted h0, SuspendOrder.start h0⟩
  have hord := hinv.2.order o ho
  refine ⟨hord, fun w rest hq u hu => ?_⟩
  rw [hq] at hord hu
  exact hord.head_le hu

end Step

-- --------
-- Two runs
-- --------

/-- The thread that gets a new priority does not wait for anything. -/
def RaisesAwake (p : Kernel × Arrivals) (a : KernelAct) : Prop :=
  match a.reprioritised p.1 with
  | some (u, _) => (p.1.sys.thread u).stat ≠ .suspend
  | none => True

instance (p : Kernel × Arrivals) (a : KernelAct) : Decidable (RaisesAwake p a) := by
  unfold RaisesAwake
  cases a.reprioritised p.1 with
  | none => exact isTrue trivial
  | some change => exact inferInstanceAs (Decidable (_ ≠ _))

theorem RaisesAwake.keepsPlace {p : Kernel × Arrivals} {a : KernelAct}
    (h : KernelInv cfg idle p.1) (hok : RaisesAwake p a) : KeepsPlace p a := by
  intro u q hr o _ hu
  unfold RaisesAwake at hok
  rw [hr] at hok
  exact absurd (h.sched.wait hu) hok

/-- Two threads wait for a mutex, the more urgent one in front although it came last; the owner
has been raised twice. -/
theorem suspend_lists_in_order_two : ∃ s g,
    Runs (Runs.Observed (KernelStep schedCfg32 0) Arrivals.observe) KeepsPlace
      (bootKernel32 [31, 20, 10, 5], Arrivals.start) (s, g) ∧
    s.waiters (.mutex 0) = [3, 2] ∧ s.priority 3 ≤ s.priority 2 := by
  have hreplay : (Runs.replay
      (Kernel.execOk schedCfg32 0 Arrivals.observe RaisesAwake)
      (bootKernel32 [31, 20, 10, 5], Arrivals.start)
      [.startup 0 1, .reschedule 0, .mutexTake 1 0 (-1), .startup 1 2, .reschedule 1,
        .mutexTake 2 0 (-1), .reschedule 2, .ret 1, .startup 1 3, .reschedule 1,
        .mutexTake 3 0 (-1)]).any
      (fun q => decide (q.1.waiters (.mutex 0) = [3, 2])) = true := by
    decide +kernel
  obtain ⟨⟨s, g⟩, hrun, hend⟩ := Kernel.observed_of_replay hreplay
  have hbooted := @bootKernel32_booted [31, 20, 10, 5] (by decide)
  have hrun' : Runs (Runs.Observed (KernelStep schedCfg32 0) Arrivals.observe) KeepsPlace
      (bootKernel32 [31, 20, 10, 5], Arrivals.start) (s, g) :=
    @Runs.mono _ _ _ _ _ _ _ (fun p : Kernel × Arrivals => KernelInv schedCfg32 0 p.1)
      (fun _ _ hinv hok => hok.keepsPlace hinv) (fun _ _ _ hinv _ hs => hinv.step hs.1) hrun
      (KernelInv.booted hbooted)
  have hwaiters : s.waiters (.mutex 0) = [3, 2] := of_decide_eq_true hend
  refine ⟨s, g, hrun', hwaiters, ?_⟩
  refine (suspend_lists_in_order (o := .mutex 0) hbooted hrun' rfl).2 3 [2] hwaiters 2 ?_
  rw [hwaiters]
  decide

/-- **A boost reaches a thread that waits.** The threads 3 and 2 wait for the mutex 0 in this
order; then the thread 4 waits for the mutex 1, which the thread 2 owns, and this one becomes the
most urgent at the end of the list. -/
theorem suspend_list_out_of_order : ∃ s,
    Runs (KernelStep schedCfg32 0) Runs.always (bootKernel32 [31, 20, 15, 12, 5]) s ∧
    s.flagOf (.mutex 0) = .prio ∧ s.waiters (.mutex 0) = [3, 2] ∧ s.priority 3 = 12 ∧
    s.priority 2 = 5 := by
  have hreplay : (Runs.replay (Kernel.exec schedCfg32 0) (bootKernel32 [31, 20, 15, 12, 5])
      [.startup 0 1, .reschedule 0, .mutexTake 1 0 (-1), .startup 1 2, .reschedule 1,
        .mutexTake 2 1 (-1), .mutexTake 2 0 (-1), .reschedule 2, .ret 1, .startup 1 3,
        .reschedule 1, .mutexTake 3 0 (-1), .reschedule 3, .ret 1, .startup 1 4, .reschedule 1,
        .mutexTake 4 1 (-1)]).any
      (fun s => decide (s.waiters (.mutex 0) = [3, 2] ∧ s.priority 3 = 12 ∧ s.priority 2 = 5)) =
        true := by
    decide +kernel
  obtain ⟨s, -, hrun, hend⟩ := Kernel.run_of_replay hreplay
  exact ⟨s, hrun, rfl, of_decide_eq_true hend⟩

end RTThread
