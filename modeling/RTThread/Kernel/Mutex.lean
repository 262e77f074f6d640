import RTThread.Kernel.KernelExec
import RTThread.Kernel.Unseen

/-!
# Mutexes exclude each other's threads

An observer counts, for every mutex and every thread, the takes that were granted, the releases
that returned `RT_EOK`, and the takes that returned `RT_EOK`. A take that blocks is granted when
a release makes its thread the owner; it returns later. `MutexOk` ties these counts to the
fields of the mutex.

## Main results

* `mutex_exclusive` — a mutex is free or held, its hold is what its owner took and did not give
  back, the final release passes it to the first thread that waits, and a thread that believes it
  holds the mutex is its owner.
-/

namespace RTThread

variable {cfg : SchedCfg} {idle : ThreadId}

/-- Nobody has the mutex. -/
structure Kernel.MutexFree (s : Kernel) (m : Nat) : Prop where
  value : (s.mutex m).value = 1
  owner : (s.mutex m).owner = none
  hold : (s.mutex m).hold = 0
  waiters : s.waiters (.mutex m) = []

/-- The thread `t` has the mutex. -/
structure Kernel.MutexHeld (s : Kernel) (m : Nat) (t : ThreadId) : Prop where
  value : (s.mutex m).value = 0
  owner : (s.mutex m).owner = some t
  hold : 1 ≤ (s.mutex m).hold
  hold_le : (s.mutex m).hold ≤ rtMutexHoldMax

/-- The observer of the mutexes. -/
structure MutexCount where
  /-- The takes that were granted. -/
  taken : Nat × ThreadId → Nat
  /-- The releases that returned `RT_EOK`. -/
  given : Nat × ThreadId → Nat
  /-- The takes that returned `RT_EOK`. -/
  returned : Nat × ThreadId → Nat

namespace MutexCount

def start : MutexCount where
  taken _ := 0
  given _ := 0
  returned _ := 0

/-- One more of the thread `t` at the mutex `m`. -/
def add (f : Nat × ThreadId → Nat) (m : Nat) (t : ThreadId) : Nat × ThreadId → Nat :=
  Function.update f (m, t) (f (m, t) + 1)

/-- A take is granted and returns at once. -/
def take (g : MutexCount) (m : Nat) (t : ThreadId) : MutexCount :=
  { g with taken := add g.taken m t, returned := add g.returned m t }

/-- The take of a thread that waits is granted, if one waits. -/
def grant (f : Nat × ThreadId → Nat) (m : Nat) : Option ThreadId → Nat × ThreadId → Nat
  | none => f
  | some w => add f m w

/-- A release, which may grant the take of a thread that waits. -/
def release (g : MutexCount) (m : Nat) (t : ThreadId) (waiter : Option ThreadId) : MutexCount :=
  { g with given := add g.given m t, taken := grant g.taken m waiter }

/-- What the observer makes of an action in the state `s`. -/
def observe (cfg : SchedCfg) (g : MutexCount) (s : Kernel) : KernelAct → MutexCount
  | .mutexTake t m timeout =>
    if (rtMutexTake cfg s t m timeout).1 = some .eok then g.take m t else g
  | .mutexRelease t m =>
    if (rtMutexRelease cfg s t m).1 = .eok then
      -- the release calls `rt_schedule` when it has resumed a thread
      g.release m t
        (if (rtMutexRelease cfg s t m).2.1 then (s.waiters (.mutex m)).head? else none)
    else g
  | .ret t =>
    match s.pc t with
    | .woken (.mutexTake m) =>
      if (s.leave t (.mutexTake m)).1 = .eok then { g with returned := add g.returned m t } else g
    | _ => g
  | _ => g

theorem add_self (f : Nat × ThreadId → Nat) (m : Nat) (t : ThreadId) :
    add f m t (m, t) = f (m, t) + 1 :=
  Function.update_self _ _ _

theorem add_of_ne (f : Nat × ThreadId → Nat) (m : Nat) {t u : ThreadId} (hu : u ≠ t) :
    add f m t (m, u) = f (m, u) :=
  Function.update_of_ne (fun h => hu (Prod.mk.inj h).2) _ _

theorem add_elsewhere (f : Nat × ThreadId → Nat) {m m' : Nat} (hm : m ≠ m') (t u : ThreadId) :
    add f m' t (m, u) = f (m, u) :=
  Function.update_of_ne (fun h => hm (Prod.mk.inj h).1) _ _

theorem grant_elsewhere (f : Nat × ThreadId → Nat) {m m' : Nat} (hm : m ≠ m')
    (waiter : Option ThreadId) (u : ThreadId) : grant f m' waiter (m, u) = f (m, u) := by
  cases waiter with
  | none => rfl
  | some w => exact add_elsewhere f hm w u

end MutexCount

/-- The part of the hold of a mutex that is the thread's. -/
def Mutex.holdOf (x : Mutex) (t : ThreadId) : Nat := if x.owner = some t then x.hold else 0

/-- **One mutex and its record.** -/
structure MutexOk (m : Nat) (s : Kernel) (g : MutexCount) : Prop where
  shape : s.MutexFree m ∨ ∃ t, s.MutexHeld m t
  count : ∀ t, g.taken (m, t) = g.given (m, t) + (s.mutex m).holdOf t
  waiting : ∀ u, u ∈ s.waiters (.mutex m) →
    (s.mutex m).owner ≠ some u ∧ (s.sys.thread u).error = .eok ∧
      g.taken (m, u) = g.returned (m, u)
  decided : ∀ u, s.InCall u (.mutex m) → u ∉ s.waiters (.mutex m) →
    ((s.sys.thread u).error = .eok → (s.mutex m).owner = some u) ∧
      g.taken (m, u) = g.returned (m, u) + (decide ((s.sys.thread u).error = .eok)).toNat
  outside : ∀ u, ¬ s.InCall u (.mutex m) → g.taken (m, u) = g.returned (m, u)

section Step

variable {s s' : Kernel} {g g' : MutexCount} {t u : ThreadId} {m : Nat}

theorem MutexOk.held (hok : MutexOk m s g) (ht : (s.mutex m).owner = some t) : s.MutexHeld m t := by
  rcases hok.shape with hfree | ⟨t', hheld⟩
  · have hnone := hfree.owner
    rw [ht] at hnone
    cases hnone
  · have howner := hheld.owner
    rw [ht, Option.some.injEq] at howner
    subst howner
    exact hheld

theorem MutexOk.free (hok : MutexOk m s g) (hv : 0 < (s.mutex m).value) : s.MutexFree m := by
  rcases hok.shape with hfree | ⟨t', hheld⟩
  · exact hfree
  · have hzero := hheld.value
    omega

/-- Only its own calls change a mutex. -/
theorem KernelStep.mutex_other {a : KernelAct} (h : KernelInv cfg idle s)
    (hs : KernelStep cfg idle s a s') (ha : ¬ a.Concerns s (.mutex m)) :
    s'.mutex m = s.mutex m := by
  cases a with
  | mutexTake t m' timeout =>
    have hm : m ≠ m' := fun heq => ha (heq ▸ rfl)
    cases hs with
    | mutexTake =>
      have hcase := @rtMutexTake_cases cfg s t m' timeout
      generalize rtMutexTake cfg s t m' timeout = r at hcase ⊢
      cases hcase with
      | again => exact Function.update_of_ne hm _ _
      | full => rfl
      | first => exact Function.update_of_ne hm _ _
      | stuck => exact Function.update_of_ne hm _ _
      | refused => rfl
      | blocked => rfl
  | mutexRelease t m' =>
    have hm : m ≠ m' := fun heq => ha (heq ▸ rfl)
    cases hs with
    | mutexRelease =>
      have hcase := @rtMutexRelease_cases cfg s t m' h.sched
      generalize rtMutexRelease cfg s t m' = r at hcase ⊢
      cases hcase with
      | notOwner => rfl
      | keep => exact Function.update_of_ne hm _ _
      | handOver => exact Function.update_of_ne hm _ _
      | free => exact Function.update_of_ne hm _ _
      | overflow => exact Function.update_of_ne hm _ _
  | _ => rw [hs.mutex_eq (fun _ _ _ h => by cases h) (fun _ _ h => by cases h)]

/-- The record of a mutex only changes by its own calls. -/
theorem MutexCount.observe_elsewhere {a : KernelAct} (ha : ¬ a.Concerns s (.mutex m))
    (t : ThreadId) :
    (g.observe cfg s a).taken (m, t) = g.taken (m, t) ∧
      (g.observe cfg s a).given (m, t) = g.given (m, t) ∧
      (g.observe cfg s a).returned (m, t) = g.returned (m, t) := by
  cases a with
  | mutexTake t' m' timeout =>
    have hm : m ≠ m' := fun heq => ha (heq ▸ rfl)
    unfold MutexCount.observe
    dsimp only
    split
    · exact ⟨MutexCount.add_elsewhere _ hm _ _, rfl, MutexCount.add_elsewhere _ hm _ _⟩
    · exact ⟨rfl, rfl, rfl⟩
  | mutexRelease t' m' =>
    have hm : m ≠ m' := fun heq => ha (heq ▸ rfl)
    unfold MutexCount.observe MutexCount.release
    dsimp only
    split
    · exact ⟨MutexCount.grant_elsewhere _ hm _ _, MutexCount.add_elsewhere _ hm _ _, rfl⟩
    · exact ⟨rfl, rfl, rfl⟩
  | ret t' =>
    unfold MutexCount.observe
    dsimp only
    split
    case h_1 m' hpc =>
      have hm : m ≠ m' := by
        rintro rfl
        refine ha ⟨.mutexTake m, ?_, rfl⟩
        rw [hpc]
        rfl
      split
      · exact ⟨rfl, rfl, MutexCount.add_elsewhere _ hm _ _⟩
      · exact ⟨rfl, rfl, rfl⟩
    case h_2 => exact ⟨rfl, rfl, rfl⟩
  | _ => exact ⟨rfl, rfl, rfl⟩

/-- Nothing happens to the mutex, the threads in its calls and its record. -/
theorem MutexOk.frame (h : BlockInv cfg idle s.sys s.pc) (hok : MutexOk m s g)
    (hun : Unseen (.mutex m) s s') (hmutex : s'.mutex m = s.mutex m)
    (hg : ∀ t, g'.taken (m, t) = g.taken (m, t) ∧ g'.given (m, t) = g.given (m, t) ∧
      g'.returned (m, t) = g.returned (m, t)) : MutexOk m s' g' := by
  obtain ⟨hwaiters, hcall, herror⟩ := hun
  refine ⟨?_, ?_, ?_, ?_, ?_⟩
  · refine hok.shape.imp (fun hfree => ?_) fun ⟨t, hheld⟩ => ⟨t, ?_⟩
    · exact ⟨by rw [hmutex]; exact hfree.value, by rw [hmutex]; exact hfree.owner,
        by rw [hmutex]; exact hfree.hold, by rw [hwaiters]; exact hfree.waiters⟩
    · exact ⟨by rw [hmutex]; exact hheld.value, by rw [hmutex]; exact hheld.owner,
        by rw [hmutex]; exact hheld.hold, by rw [hmutex]; exact hheld.hold_le⟩
  · intro t
    rw [(hg t).1, (hg t).2.1, hmutex]
    exact hok.count t
  · intro u hu
    rw [hwaiters] at hu
    rw [hmutex, herror u ((h.waiting u _).1 hu).2, (hg u).1, (hg u).2.2]
    exact hok.waiting u hu
  · intro u hu hnot
    rw [hcall] at hu
    rw [hwaiters] at hnot
    rw [hmutex, herror u hu, (hg u).1, (hg u).2.2]
    exact hok.decided u hu hnot
  · intro u hu
    rw [hcall] at hu
    rw [(hg u).1, (hg u).2.2]
    exact hok.outside u hu

/-- **A take that is granted at once**: the mutex was free or the thread had it. -/
theorem MutexOk.take_now {x : Mutex} (h : BlockInv cfg idle s.sys s.pc) (hok : MutexOk m s g)
    (hpc : s.pc t = .run) (hvalue : x.value = 0) (howner : x.owner = some t)
    (hhold : x.hold = (s.mutex m).holdOf t + 1) (hle : x.hold ≤ rtMutexHoldMax)
    (hother : ∀ u, u ≠ t → (s.mutex m).owner ≠ some u) :
    MutexOk m ((s.resetError t).setMutex m x) (g.take m t) := by
  have hmutex : ((s.resetError t).setMutex m x).mutex m = x := Kernel.setMutex_self m x
  have herror : ∀ u, u ≠ t →
      ((s.resetError t).setMutex m x).sys.thread u = s.sys.thread u :=
    fun u hu => setError_of_ne _ hu
  refine ⟨Or.inr ⟨t, ?_, ?_, ?_, ?_⟩, ?_, ?_, ?_, ?_⟩
  · rw [hmutex, hvalue]
  · rw [hmutex, howner]
  · rw [hmutex]
    omega
  · rw [hmutex]
    exact hle
  · intro u
    have hcount := hok.count u
    rw [hmutex]
    by_cases hu : u = t
    · subst hu
      have hself : x.holdOf u = x.hold := if_pos howner
      have htaken : (g.take m u).taken (m, u) = g.taken (m, u) + 1 := MutexCount.add_self _ _ _
      rw [htaken, hself]
      show _ = g.given (m, u) + x.hold
      omega
    · have hold : (s.mutex m).holdOf u = 0 := if_neg (hother u hu)
      have hnew : x.holdOf u = 0 := by
        refine if_neg ?_
        rw [howner]
        exact fun heq => hu (Option.some.inj heq).symm
      have htaken : (g.take m t).taken (m, u) = g.taken (m, u) := MutexCount.add_of_ne _ _ hu
      rw [htaken, hnew, hcount, hold]
      rfl
  · intro u hu
    have hut := ne_of_inCall hpc (h.inCall_of_waits (o := .mutex m) hu)
    have htaken : (g.take m t).taken (m, u) = g.taken (m, u) := MutexCount.add_of_ne _ _ hut
    have hret : (g.take m t).returned (m, u) = g.returned (m, u) := MutexCount.add_of_ne _ _ hut
    rw [hmutex, herror u hut, htaken, hret, howner]
    exact ⟨fun heq => hut (Option.some.inj heq).symm, (hok.waiting u hu).2⟩
  · intro u hu hnot
    have hut := ne_of_inCall hpc hu
    have htaken : (g.take m t).taken (m, u) = g.taken (m, u) := MutexCount.add_of_ne _ _ hut
    have hret : (g.take m t).returned (m, u) = g.returned (m, u) := MutexCount.add_of_ne _ _ hut
    have hold := hok.decided u hu hnot
    rw [hmutex, herror u hut, htaken, hret]
    exact ⟨fun heok => absurd (hold.1 heok) (hother u hut), hold.2⟩
  · intro u hu
    have hold := hok.outside u hu
    by_cases hut : u = t
    · subst hut
      have htaken : (g.take m u).taken (m, u) = g.taken (m, u) + 1 := MutexCount.add_self _ _ _
      have hret : (g.take m u).returned (m, u) = g.returned (m, u) + 1 := MutexCount.add_self _ _ _
      rw [htaken, hret, hold]
    · have htaken : (g.take m t).taken (m, u) = g.taken (m, u) := MutexCount.add_of_ne _ _ hut
      have hret : (g.take m t).returned (m, u) = g.returned (m, u) := MutexCount.add_of_ne _ _ hut
      rw [htaken, hret, hold]

/-- **A take that blocks**: its thread waits, and does not own the mutex. -/
theorem MutexOk.block {timeout : Int} (h : SchedInv cfg s.sys) (hok : MutexOk m s g)
    (ha : (s.sys.thread t).Awake) (hpc : s.pc t = .run) (herr : (s.sys.thread t).error = .eok)
    (howner : (s.mutex m).owner ≠ some t) (hzero : (s.mutex m).value = 0) :
    MutexOk m (s.block cfg t (.mutex m) .prio timeout (.mutexTake m)) g := by
  have hwaiters := @Kernel.block_waiters cfg s t (.mutex m) .prio timeout (.mutexTake m) h ha
  have hmem : ∀ u, u ∈ (s.block cfg t (.mutex m) .prio timeout (.mutexTake m)).waiters (.mutex m) ↔
      u = t ∨ u ∈ s.waiters (.mutex m) := by
    intro u
    rw [hwaiters, (ipcInsert_perm _ _ _ _).mem_iff, List.mem_cons]
  have hself := @Kernel.block_self cfg s t (.mutex m) .prio timeout (.mutexTake m) h ha
  have hother : ∀ u, u ≠ t →
      (s.block cfg t (.mutex m) .prio timeout (.mutexTake m)).sys.thread u = s.sys.thread u :=
    fun u hu => Kernel.block_of_ne h ha hu
  have hcall : ∀ u, u ≠ t → ((s.block cfg t (.mutex m) .prio timeout (.mutexTake m)).InCall u
      (.mutex m) ↔ s.InCall u (.mutex m)) := by
    intro u hu
    unfold Kernel.InCall
    rw [show (s.block cfg t (.mutex m) .prio timeout (.mutexTake m)).pc u = s.pc u from
      Function.update_of_ne hu _ _]
  have hin : (s.block cfg t (.mutex m) .prio timeout (.mutexTake m)).InCall t (.mutex m) := by
    refine ⟨.mutexTake m, ?_, rfl⟩
    rw [show (s.block cfg t (.mutex m) .prio timeout (.mutexTake m)).pc t =
      .schedule (.mutexTake m) from Function.update_self _ _ _]
    rfl
  refine ⟨Or.inr ?_, hok.count, ?_, ?_, ?_⟩
  · -- without a unit somebody has it
    rcases hok.shape with hfree | hheld
    · have hone := hfree.value
      omega
    · exact hheld.imp fun t' ht' => ⟨ht'.value, ht'.owner, ht'.hold, ht'.hold_le⟩
  · intro u hu
    by_cases hut : u = t
    · subst hut
      rw [hself]
      exact ⟨howner, herr, hok.outside u (not_inCall_of_run hpc)⟩
    · rw [hother u hut]
      exact hok.waiting u (((hmem u).1 hu).resolve_left hut)
  · intro u hu hnot
    rw [hmem, not_or] at hnot
    rw [hother u hnot.1]
    exact hok.decided u ((hcall u hnot.1).1 hu) hnot.2
  · intro u hu
    have hut : u ≠ t := by
      rintro rfl
      exact hu hin
    exact hok.outside u fun hu' => hu ((hcall u hut).2 hu')

/-- **A release that keeps the mutex or frees it.** -/
theorem MutexOk.give_now {x : Mutex} (hok : MutexOk m s g) (hpc : s.pc t = .run)
    (howner : (s.mutex m).owner = some t)
    (hshape : (s.setMutex m x).MutexFree m ∨ (s.setMutex m x).MutexHeld m t)
    (hhold : (s.mutex m).hold = x.holdOf t + 1) :
    MutexOk m (s.setMutex m x) (g.release m t none) := by
  have hmutex : (s.setMutex m x).mutex m = x := Kernel.setMutex_self m x
  have hothers : ∀ u, u ≠ t → x.owner ≠ some u := by
    intro u hu heq
    rcases hshape with hfree | hheld
    · have hnone := hfree.owner
      rw [hmutex, heq] at hnone
      cases hnone
    · have hsome := hheld.owner
      rw [hmutex, heq] at hsome
      exact hu (Option.some.inj hsome)
  refine ⟨hshape.imp id fun hheld => ⟨t, hheld⟩, ?_, ?_, ?_, hok.outside⟩
  · intro u
    have hcount := hok.count u
    rw [hmutex]
    by_cases hu : u = t
    · subst hu
      have hself : (s.mutex m).holdOf u = (s.mutex m).hold := if_pos howner
      have hgiven : (g.release m u none).given (m, u) = g.given (m, u) + 1 :=
        MutexCount.add_self _ _ _
      rw [hgiven]
      show g.taken (m, u) = _
      omega
    · have hold : (s.mutex m).holdOf u = 0 := by
        refine if_neg ?_
        rw [howner]
        exact fun heq => hu (Option.some.inj heq).symm
      have hnew : x.holdOf u = 0 := if_neg (hothers u hu)
      have hgiven : (g.release m t none).given (m, u) = g.given (m, u) :=
        MutexCount.add_of_ne _ _ hu
      rw [hgiven, hnew, ← hold]
      exact hcount
  · intro u hu
    have hold := hok.waiting u hu
    have hut : u ≠ t := by
      rintro rfl
      exact hold.1 howner
    rw [hmutex]
    exact ⟨hothers u hut, hold.2⟩
  · intro u hu hnot
    have hut := ne_of_inCall hpc hu
    have hold := hok.decided u hu hnot
    refine ⟨fun heok => ?_, hold.2⟩
    have howner' := hold.1 heok
    rw [howner] at howner'
    exact absurd (Option.some.inj howner').symm hut

/-- **The final release with waiters**: the first of them is the owner now, and on its way out
of its take. -/
theorem MutexOk.hand_over {x : Mutex} {w : ThreadId} {rest : List ThreadId}
    (h : BlockInv cfg idle s.sys s.pc) (hok : MutexOk m s g) (hc : s.Caller (some t))
    (howner : (s.mutex m).owner = some t) (hhold : (s.mutex m).hold = 1)
    (hq : s.waiters (.mutex m) = w :: rest) (hx : x.value = 0 ∧ x.owner = some w ∧ x.hold = 1)
    (hs' : s' = ({ s with
      mutex := Function.update s.mutex m x
      sys := (rtThreadResume cfg s.sys w).2 } : Kernel).goSchedule (some t)) :
    MutexOk m s' (g.release m t (some w)) := by
  have hw : w ∈ s.waiters (.mutex m) := Queues.head_mem hq
  have hwt : w ≠ t := by
    rintro rfl
    exact (hok.waiting w hw).1 howner
  have hmutex : s'.mutex m = x := by
    rw [hs', Kernel.goSchedule_mutex]
    exact Function.update_self _ _ _
  have hsys : s'.sys = (rtThreadResume cfg s.sys w).2 := by
    rw [hs', Kernel.goSchedule_sys]
  have hmem : ∀ u, u ∈ s'.waiters (.mutex m) ↔ u ≠ w ∧ u ∈ s.waiters (.mutex m) := by
    intro u
    unfold Kernel.waiters
    rw [hsys, resume_wait (h.sched.wait hw)]
    exact (h.sched.apart.nodup _).mem_erase_iff
  have herror : ∀ u, (s'.sys.thread u).error = (s.sys.thread u).error := by
    intro u
    rw [hsys]
    exact resume_error (h.sched.wait hw) u
  have hcall : ∀ u, s'.InCall u (.mutex m) ↔ s.InCall u (.mutex m) := by
    intro u
    rw [hs']
    exact inCall_goSchedule rfl hc u
  have hgivent : (g.release m t (some w)).given (m, t) = g.given (m, t) + 1 :=
    MutexCount.add_self _ _ _
  have hgiven : ∀ u, u ≠ t → (g.release m t (some w)).given (m, u) = g.given (m, u) :=
    fun u hu => MutexCount.add_of_ne _ _ hu
  have htakenw : (g.release m t (some w)).taken (m, w) = g.taken (m, w) + 1 :=
    MutexCount.add_self _ _ _
  have htaken : ∀ u, u ≠ w → (g.release m t (some w)).taken (m, u) = g.taken (m, u) :=
    fun u hu => MutexCount.add_of_ne _ _ hu
  refine ⟨Or.inr ⟨w, ?_, ?_, ?_, ?_⟩, ?_, ?_, ?_, ?_⟩
  · rw [hmutex, hx.1]
  · rw [hmutex, hx.2.1]
  · rw [hmutex, hx.2.2]
  · rw [hmutex, hx.2.2]
    decide
  · intro u
    have hcount := hok.count u
    rw [hmutex]
    by_cases huw : u = w
    · subst huw
      have hold : (s.mutex m).holdOf u = 0 := if_neg (hok.waiting u hw).1
      have hnew : x.holdOf u = 1 := (if_pos hx.2.1).trans hx.2.2
      rw [htakenw, hgiven u hwt, hnew]
      omega
    · have hnew : x.holdOf u = 0 := by
        refine if_neg ?_
        rw [hx.2.1]
        exact fun heq => huw (Option.some.inj heq).symm
      rw [htaken u huw, hnew]
      by_cases hut : u = t
      · subst hut
        have hold : (s.mutex m).holdOf u = 1 := (if_pos howner).trans hhold
        rw [hgivent]
        omega
      · have hold : (s.mutex m).holdOf u = 0 := by
          refine if_neg ?_
          rw [howner]
          exact fun heq => hut (Option.some.inj heq).symm
        rw [hgiven u hut]
        omega
  · intro u hu
    obtain ⟨huw, hu⟩ := (hmem u).1 hu
    have hold := hok.waiting u hu
    rw [hmutex, herror, htaken u huw, hx.2.1]
    exact ⟨fun heq => huw (Option.some.inj heq).symm, hold.2⟩
  · intro u hu hnot
    rw [hcall] at hu
    rw [hmutex, herror]
    by_cases huw : u = w
    · -- the thread that was resumed has no error, and the mutex
      subst huw
      have hold := hok.waiting u hw
      rw [htakenw, hold.2.1, hold.2.2]
      exact ⟨fun _ => hx.2.1, by rw [decide_eq_true rfl]; rfl⟩
    · rw [hmem] at hnot
      have hold := hok.decided u hu fun hu' => hnot ⟨huw, hu'⟩
      rw [htaken u huw]
      refine ⟨fun heok => ?_, hold.2⟩
      have howner' := hold.1 heok
      rw [howner] at howner'
      exact absurd (Option.some.inj howner').symm (ne_of_inCall hc.pc hu)
  · intro u hu
    rw [hcall] at hu
    have huw : u ≠ w := by
      rintro rfl
      exact hu (h.inCall_of_waits hw)
    rw [htaken u huw]
    exact hok.outside u hu

/-- **A thread that waits for the mutex times out.** -/
theorem MutexOk.timeOut (h : BlockInv cfg idle s.sys s.pc) (hok : MutexOk m s g)
    (hs : (s.sys.thread u).stat = .suspend) (hin : s.InCall u (.mutex m)) :
    MutexOk m
      { s with sys := threadTimeout cfg (s.sys.setTimer u false) u, pending := true } g := by
  have hmem : u ∈ s.waiters (.mutex m) := (h.waiting u _).2 ⟨hs, hin⟩
  have hself : ((threadTimeout cfg (s.sys.setTimer u false) u).thread u).error = .etimeout := by
    rw [threadTimeout_eq, wake_self]
  have hother : ∀ v, v ≠ u →
      (threadTimeout cfg (s.sys.setTimer u false) u).thread v = s.sys.thread v := by
    intro v hv
    rw [threadTimeout_eq, wake_of_ne _ hv]
    exact Sys.setThread_of_ne _ _ hv
  have hmem' : ∀ v, v ∈ (threadTimeout cfg (s.sys.setTimer u false) u).queue (.wait (.mutex m)) ↔
      v ≠ u ∧ v ∈ s.waiters (.mutex m) := by
    intro v
    rw [threadTimeout_eq, wake_wait]
    exact (h.sched.apart.nodup _).mem_erase_iff
  refine ⟨?_, hok.count, ?_, ?_, hok.outside⟩
  · rcases hok.shape with hfree | ⟨t, hheld⟩
    · have hnil := hfree.waiters
      rw [hnil] at hmem
      cases hmem
    · exact Or.inr ⟨t, hheld.value, hheld.owner, hheld.hold, hheld.hold_le⟩
  · intro v hv
    obtain ⟨hne, hv⟩ := (hmem' v).1 hv
    show _ ∧ ((threadTimeout cfg (s.sys.setTimer u false) u).thread v).error = .eok ∧ _
    rw [hother v hne]
    exact hok.waiting v hv
  · intro v hv hnot
    show (((threadTimeout cfg (s.sys.setTimer u false) u).thread v).error = .eok → _) ∧
      _ = _ + (decide
        (((threadTimeout cfg (s.sys.setTimer u false) u).thread v).error = .eok)).toNat
    by_cases hvu : v = u
    · subst hvu
      rw [hself, (hok.waiting v hmem).2.2]
      simp
    · rw [hother v hvu]
      exact hok.decided v hv fun hv' => hnot ((hmem' v).2 ⟨hvu, hv'⟩)

/-- **A take returns**: with `RT_EOK` if it was granted. -/
theorem MutexOk.leave (h : BlockInv cfg idle s.sys s.pc) (hok : MutexOk m s g)
    (hat : s.At t (.woken (.mutexTake m))) :
    MutexOk m (s.leave t (.mutexTake m)).2 (g.observe cfg s (.ret t)) := by
  have hin : s.InCall t (.mutex m) := by
    refine ⟨.mutexTake m, ?_, rfl⟩
    rw [hat.pc]
    rfl
  have hnot : t ∉ s.waiters (.mutex m) := by
    refine h.not_waiting ?_ _
    rw [h.running hat.current (by simp [hat.pc])]
    decide
  have hcall : ∀ u, u ≠ t → ((s.setPc t .run).InCall u (.mutex m) ↔ s.InCall u (.mutex m)) := by
    intro u hu
    unfold Kernel.InCall
    rw [Kernel.setPc_of_ne _ hu]
  have hout : ¬ (s.setPc t .run).InCall t (.mutex m) := not_inCall_of_run (Kernel.setPc_self _ _)
  have hobs : g.observe cfg s (.ret t) =
      if (s.sys.thread t).error = .eok then { g with returned := MutexCount.add g.returned m t }
      else g := by
    unfold MutexCount.observe
    dsimp only
    rw [hat.pc]
    rfl
  have htaken : (g.observe cfg s (.ret t)).taken = g.taken := by
    rw [hobs]
    split <;> rfl
  have hgiven : (g.observe cfg s (.ret t)).given = g.given := by
    rw [hobs]
    split <;> rfl
  have hself : (g.observe cfg s (.ret t)).returned (m, t) =
      g.returned (m, t) + (decide ((s.sys.thread t).error = .eok)).toNat := by
    rw [hobs]
    split
    case isTrue heok =>
      rw [decide_eq_true heok]
      exact MutexCount.add_self _ _ _
    case isFalse herr =>
      rw [decide_eq_false herr]
      rfl
  have hret : ∀ u, u ≠ t → (g.observe cfg s (.ret t)).returned (m, u) = g.returned (m, u) := by
    intro u hu
    rw [hobs]
    split
    · exact MutexCount.add_of_ne _ _ hu
    · rfl
  refine ⟨hok.shape.imp (fun hfree => ⟨hfree.1, hfree.2, hfree.3, hfree.4⟩)
    fun ⟨u, hheld⟩ => ⟨u, hheld.1, hheld.2, hheld.3, hheld.4⟩, ?_, ?_, ?_, ?_⟩
  · intro u
    rw [htaken, hgiven]
    exact hok.count u
  · intro u hu
    have hut : u ≠ t := by
      rintro rfl
      exact hnot hu
    rw [htaken, hret u hut]
    exact hok.waiting u hu
  · intro u hu hu'
    have hut : u ≠ t := by
      rintro rfl
      exact hout hu
    rw [htaken, hret u hut]
    exact hok.decided u ((hcall u hut).1 hu) hu'
  · intro u hu
    rw [htaken]
    by_cases hut : u = t
    · subst hut
      rw [hself]
      exact (hok.decided u hin hnot).2
    · rw [hret u hut]
      exact hok.outside u fun hu' => hu ((hcall u hut).2 hu')

/-- `rt_mutex_take` keeps the mutex and its record. -/
theorem MutexOk.take {timeout : Int} (h : KernelInv cfg idle s) (hok : MutexOk m s g)
    (hat : s.At t .run) :
    MutexOk m (rtMutexTake cfg s t m timeout).2 (g.observe cfg s (.mutexTake t m timeout)) := by
  have hb := h.toBlockInv
  have hcase := @rtMutexTake_cases cfg s t m timeout
  have hreset : Unseen (.mutex m) s (s.resetError t) := setError_unseen .eok hat.pc
  have hsame : ∀ u, g.taken (m, u) = g.taken (m, u) ∧ g.given (m, u) = g.given (m, u) ∧
      g.returned (m, u) = g.returned (m, u) := fun _ => ⟨rfl, rfl, rfl⟩
  unfold MutexCount.observe
  dsimp only
  generalize rtMutexTake cfg s t m timeout = r at hcase ⊢
  cases hcase with
  | again howner hhold =>
    have hheld := hok.held howner
    have hself : (s.mutex m).holdOf t = (s.mutex m).hold := if_pos howner
    rw [if_pos rfl]
    refine hok.take_now hb hat.pc hheld.value howner ?_ hhold fun u hu heq => ?_
    · rw [hself]
    · rw [howner] at heq
      exact hu (Option.some.inj heq).symm
  | full =>
    rw [if_neg (by simp)]
    exact hok.frame hb hreset rfl hsame
  | first howner hvalue hhold =>
    have hfree := hok.free hvalue
    have hself : (s.mutex m).holdOf t = 0 := if_neg howner
    rw [if_pos rfl]
    refine hok.take_now hb hat.pc ?_ rfl ?_ hhold fun u _ heq => ?_
    · show (s.mutex m).value - 1 = 0
      rw [hfree.value]
    · rw [hself, hfree.hold]
    · rw [hfree.owner] at heq
      cases heq
  | stuck howner hvalue hhold =>
    -- a free mutex has no hold
    have hzero := (hok.free hvalue).hold
    rw [hzero] at hhold
    exact absurd hhold (by decide)
  | refused =>
    rw [if_neg (by simp)]
    exact hok.frame hb (hreset.trans (setError_unseen .etimeout hat.pc)) rfl hsame
  | blocked howner hvalue =>
    rw [if_neg (by simp)]
    have herr := hb.setError t .eok
    have hchange := herr.changeOwner t (s.mutex m).owner
    have hself : (s.sys.setError t .eok).thread t = { s.sys.thread t with error := .eok } := by
      unfold Sys.setError
      rw [Sys.setThread_self]
    have hun : Unseen (.mutex m) s { s with
        sys := changeOwnerPriority cfg (s.sys.setError t .eok) t (s.mutex m).owner } :=
      hreset.trans (Unseen.of_sys (herr.sched.changeOwner_wait _ _ _)
        fun u _ => herr.sched.changeOwner_error _ u _)
    refine (hok.frame hb hun rfl hsame).block hchange.sched ?_ hat.pc ?_ howner hvalue
    · show (_ : Thread).Awake
      unfold Thread.Awake
      rw [changeOwnerPriority_stat herr.sched, hself]
      exact Or.inr (hb.at_run hat)
    · show ((changeOwnerPriority cfg (s.sys.setError t .eok) t _).thread t).error = .eok
      rw [herr.sched.changeOwner_error, hself]

/-- `rt_mutex_release` keeps the mutex and its record. -/
theorem MutexOk.give (h : KernelInv cfg idle s) (hok : MutexOk m s g) (hat : s.At t .run) :
    MutexOk m
      (if (rtMutexRelease cfg s t m).2.1 then (rtMutexRelease cfg s t m).2.2.goSchedule (some t)
      else (rtMutexRelease cfg s t m).2.2) (g.observe cfg s (.mutexRelease t m)) := by
  have hb := h.toBlockInv
  have hcase := @rtMutexRelease_cases cfg s t m h.sched
  have hsame : ∀ u, g.taken (m, u) = g.taken (m, u) ∧ g.given (m, u) = g.given (m, u) ∧
      g.returned (m, u) = g.returned (m, u) := fun _ => ⟨rfl, rfl, rfl⟩
  have hrestored : ∀ p, MutexOk m { s with sys := restorePriority cfg s.sys t p } g := fun p =>
    hok.frame hb (Unseen.of_sys (h.sched.restore_wait _ _ _)
      fun u _ => h.sched.restore_error _ u _) rfl hsame
  unfold MutexCount.observe
  dsimp only
  generalize rtMutexRelease cfg s t m = r at hcase ⊢
  cases hcase with
  | notOwner howner =>
    rw [if_neg (by simp)]
    exact hok.frame hb (setError_unseen .error hat.pc) rfl hsame
  | keep howner hhold =>
    have hheld := hok.held howner
    have hpos := hheld.hold
    have hle : (s.mutex m).hold ≤ 255 := hheld.hold_le
    have hnew : ((s.mutex m).hold + 255) % 2 ^ 8 = (s.mutex m).hold - 1 := by omega
    rw [if_pos rfl]
    refine hok.give_now hat.pc howner (Or.inr ⟨?_, ?_, ?_, ?_⟩) ?_
    · rw [Kernel.setMutex_self]
      exact hheld.value
    · rw [Kernel.setMutex_self]
      exact howner
    · rw [Kernel.setMutex_self]
      show 1 ≤ ((s.mutex m).hold + 255) % 2 ^ 8
      omega
    · rw [Kernel.setMutex_self]
      show ((s.mutex m).hold + 255) % 2 ^ 8 ≤ 255
      omega
    · have hself : Mutex.holdOf
          { s.mutex m with hold := ((s.mutex m).hold + 255) % 2 ^ 8 } t =
          ((s.mutex m).hold + 255) % 2 ^ 8 := if_pos howner
      rw [hself]
      omega
  | handOver howner hhold w rest hq =>
    have hheld := hok.held howner
    have hpos := hheld.hold
    have hle : (s.mutex m).hold ≤ 255 := hheld.hold_le
    have hone : (s.mutex m).hold = 1 := by omega
    have hwait := h.sched.restore_wait t (s.mutex m).originalPriority (.mutex m)
    have hc : ({ s with sys := restorePriority cfg s.sys t (s.mutex m).originalPriority } :
        Kernel).Caller (some t) := by
      refine ⟨?_, hat.pc, hat.settled⟩
      show (restorePriority cfg s.sys t _).current = some t
      rw [restorePriority_current]
      exact hat.current
    have hq' : ({ s with sys := restorePriority cfg s.sys t (s.mutex m).originalPriority } :
        Kernel).waiters (.mutex m) = w :: rest := hwait.trans hq
    rw [if_pos rfl, if_pos rfl, if_pos rfl, hq]
    exact (hrestored (s.mutex m).originalPriority).hand_over
      (hb.restore t (h.original _ _ howner)) hc howner hone hq' (x := {
        s.mutex m with
        owner := some w, hold := 1
        originalPriority := ((restorePriority cfg s.sys t
          (s.mutex m).originalPriority).thread w).currentPriority }) ⟨hheld.value, rfl, rfl⟩ rfl
  | free howner hhold hq hvalue =>
    have hheld := hok.held howner
    have hpos := hheld.hold
    have hle : (s.mutex m).hold ≤ 255 := hheld.hold_le
    have hwait := h.sched.restore_wait t (s.mutex m).originalPriority (.mutex m)
    rw [if_pos rfl]
    refine (hrestored (s.mutex m).originalPriority).give_now hat.pc howner
      (Or.inl ⟨?_, ?_, ?_, ?_⟩) ?_
    · rw [Kernel.setMutex_self]
      show (s.mutex m).value + 1 = 1
      rw [hheld.value]
    · rw [Kernel.setMutex_self]
    · rw [Kernel.setMutex_self]
    · unfold Kernel.waiters at hq ⊢
      exact hwait.trans hq
    · show (s.mutex m).hold = 0 + 1
      omega
  | overflow howner hhold hq hvalue =>
    have hzero := (hok.held howner).value
    rw [hzero] at hvalue
    exact absurd hvalue (by decide)

/-- **Every step keeps every mutex and its record.** -/
theorem MutexOk.step {a : KernelAct} (h : KernelInv cfg idle s) (hok : MutexOk m s g)
    (hs : KernelStep cfg idle s a s') : MutexOk m s' (g.observe cfg s a) := by
  by_cases ha : a.Concerns s (.mutex m)
  · cases hs with
    | @mutexTake t m' timeout hat =>
      cases (IpcId.mutex.inj ha : m = m')
      exact hok.take h hat
    | @mutexRelease t m' hat =>
      cases (IpcId.mutex.inj ha : m = m')
      exact hok.give h hat
    | @timeout u htimer hassert => exact hok.timeOut h.toBlockInv hassert ha
    | @ret t k hat =>
      obtain ⟨k', hk', hq⟩ := (ha : s.InCall t (.mutex m))
      rw [hat.pc] at hk'
      cases hk'
      cases k with
      | mutexTake m' =>
        cases (IpcId.mutex.inj (Option.some.inj hq) : m' = m)
        exact hok.leave h.toBlockInv hat
      | done => cases hq
      | semTake i => cases hq
      | wait i => cases hq
      | sleep => cases hq
    | semTake => cases ha
    | semTrytake => cases ha
    | semRelease => cases ha
    | semReset => cases ha
    | wait => cases ha
    | signal => cases ha
    | sleep => cases ha
    | control => cases ha
    | startup => cases ha
    | yield => cases ha
    | enterCritical => cases ha
    | exitCritical => cases ha
    | reschedule => cases ha
    | tick => cases ha
    | schedule => cases ha
  · exact hok.frame h.toBlockInv (hs.unseen h ha) (hs.mutex_other h ha)
      (MutexCount.observe_elsewhere ha)

/-- When the scheduler is started all mutexes are free. -/
theorem MutexOk.start (h : s.Booted cfg idle) (m : Nat) : MutexOk m s MutexCount.start where
  shape := by
    refine Or.inl ⟨?_, ?_, ?_, ?_⟩
    · rw [h.mutexes]
      rfl
    · rw [h.mutexes]
      rfl
    · rw [h.mutexes]
      rfl
    · exact List.eq_nil_iff_forall_not_mem.2 fun u hu => h.none_suspended u (h.sched.wait hu)
  count t := by
    rw [h.mutexes]
    rfl
  waiting u hu := absurd (h.sched.wait hu) (h.none_suspended u)
  decided u hu := absurd hu (not_inCall_of_run (h.outside u))
  outside _ _ := rfl

/-- **Nobody takes a mutex from its owner**: only a release of its own lets it go. -/
theorem Kernel.MutexHeld.stays {a : KernelAct} (hheld : s.MutexHeld m t)
    (h : KernelInv cfg idle s) (hs : KernelStep cfg idle s a s') (hrel : a ≠ .mutexRelease t m) :
    s'.MutexHeld m t := by
  have hsame : ∀ {s'' : Kernel}, s''.mutex m = s.mutex m → s''.MutexHeld m t := by
    intro s'' heq
    exact ⟨by rw [heq]; exact hheld.value, by rw [heq]; exact hheld.owner,
      by rw [heq]; exact hheld.hold, by rw [heq]; exact hheld.hold_le⟩
  by_cases ha : a.Concerns s (.mutex m)
  · cases a with
    | mutexTake u m' timeout =>
      cases (IpcId.mutex.inj ha : m = m')
      cases hs with
      | mutexTake hat =>
        have hcase := @rtMutexTake_cases cfg s u m timeout
        generalize rtMutexTake cfg s u m timeout = r at hcase ⊢
        have hnone : ¬ 0 < (s.mutex m).value := by
          rw [hheld.value]
          decide
        cases hcase with
        | again howner hhold =>
          rw [hheld.owner] at howner
          exact ⟨by rw [Kernel.setMutex_self]; exact hheld.value,
            by rw [Kernel.setMutex_self]; exact hheld.owner,
            by rw [Kernel.setMutex_self]; exact Nat.succ_pos _,
            by rw [Kernel.setMutex_self]; exact hhold⟩
        | full => exact hsame rfl
        | first _ hvalue => exact absurd hvalue hnone
        | stuck _ hvalue => exact absurd hvalue hnone
        | refused => exact hsame rfl
        | blocked => exact hsame rfl
    | mutexRelease u m' =>
      cases (IpcId.mutex.inj ha : m = m')
      have hu : (s.mutex m).owner ≠ some u := by
        rw [hheld.owner]
        exact fun heq => hrel (by rw [Option.some.inj heq])
      cases hs with
      | mutexRelease hat =>
        have hcase := @rtMutexRelease_cases cfg s u m h.sched
        generalize rtMutexRelease cfg s u m = r at hcase ⊢
        cases hcase with
        | notOwner => exact hsame rfl
        | keep howner => exact absurd howner hu
        | handOver howner => exact absurd howner hu
        | free howner => exact absurd howner hu
        | overflow howner => exact absurd howner hu
    | _ => exact hsame (by rw [hs.mutex_eq (fun _ _ _ h => by cases h) (fun _ _ h => by cases h)])
  · exact hsame (hs.mutex_other h ha)

/-- The final release, where a thread waits. -/
theorem Kernel.MutexHeld.handed_over {w : ThreadId} {rest : List ThreadId}
    (hheld : s.MutexHeld m t) (h : KernelInv cfg idle s) (hhold : (s.mutex m).hold = 1)
    (hq : s.waiters (.mutex m) = w :: rest)
    (hs : KernelStep cfg idle s (.mutexRelease t m) s') :
    s'.MutexHeld m w ∧ (s'.mutex m).hold = 1 ∧ s'.waiters (.mutex m) = rest := by
  cases hs with
  | mutexRelease hat =>
    have hcase := @rtMutexRelease_cases cfg s t m h.sched
    generalize rtMutexRelease cfg s t m = r at hcase ⊢
    cases hcase with
    | notOwner howner => exact absurd hheld.owner howner
    | keep _ hne =>
      rw [hhold] at hne
      exact absurd rfl hne
    | handOver howner _ w' rest' hq' =>
      rw [hq, List.cons.injEq] at hq'
      obtain ⟨rfl, rfl⟩ := hq'
      have hwait := h.sched.restore_wait t (s.mutex m).originalPriority (.mutex m)
      have hw := h.sched.first_restored hq t (s.mutex m).originalPriority
      rw [if_pos rfl]
      refine ⟨⟨?_, ?_, ?_, ?_⟩, ?_, ?_⟩
      · simp [hheld.value]
      · simp
      · simp
      · simp
      · simp
      · unfold Kernel.waiters at hq ⊢
        rw [Kernel.goSchedule_sys]
        refine (resume_wait hw _).trans ?_
        rw [hwait, hq, List.erase_cons_head]
    | free _ _ hnil =>
      rw [hq] at hnil
      cases hnil
    | overflow _ _ hnil =>
      rw [hq] at hnil
      cases hnil

/-- **Mutexes.** After any run of takes, releases, time-outs and whatever else the threads and
the interrupt handlers do, every mutex is free or held; a release of a thread that does not hold
it only sets the error of this thread; the hold is what the owner took and did not give back; the
final release passes the mutex to the first thread that waits; nobody takes it from its owner;
and a thread whose takes returned `RT_EOK` more often than it released has it, alone. -/
theorem mutex_exclusive {s₀ : Kernel} (h0 : s₀.Booted cfg idle)
    (hrun : Runs (Runs.Observed (KernelStep cfg idle) (MutexCount.observe cfg)) Runs.always
      (s₀, MutexCount.start) (s, g)) (m : Nat) :
    (s.MutexFree m ∨ ∃ t, s.MutexHeld m t) ∧
    (∀ t, (s.mutex m).owner ≠ some t → rtMutexRelease cfg s t m =
      (.error, false, { s with sys := s.sys.setError t .error })) ∧
    (∀ t, s.MutexHeld m t → g.taken (m, t) = g.given (m, t) + (s.mutex m).hold) ∧
    (∀ t w rest s', s.MutexHeld m t → (s.mutex m).hold = 1 → s.waiters (.mutex m) = w :: rest →
      KernelStep cfg idle s (.mutexRelease t m) s' →
      s'.MutexHeld m w ∧ (s'.mutex m).hold = 1 ∧ s'.waiters (.mutex m) = rest) ∧
    (∀ t a s', s.MutexHeld m t → KernelStep cfg idle s a s' → a ≠ .mutexRelease t m →
      s'.MutexHeld m t) ∧
    (∀ t, g.given (m, t) < g.returned (m, t) →
      s.MutexHeld m t ∧ ∀ u, s.MutexHeld m u → u = t) := by
  have hinv : KernelInv cfg idle s ∧ MutexOk m s g :=
    @Runs.invariant _ _ _ _ _ _
      (fun p : Kernel × MutexCount => KernelInv cfg idle p.1 ∧ MutexOk m p.1 p.2)
      (by
        rintro ⟨s, g⟩ a ⟨s', g'⟩ ⟨h, hok⟩ - ⟨hs, hg⟩
        dsimp only at hs hg
        subst hg
        exact ⟨h.step hs, hok.step h hs⟩)
      hrun ⟨KernelInv.booted h0, MutexOk.start h0 m⟩
  obtain ⟨h, hok⟩ := hinv
  refine ⟨hok.shape, ?_, ?_, ?_, ?_, ?_⟩
  · intro t howner
    unfold rtMutexRelease
    dsimp only
    exact if_pos howner
  · intro t hheld
    have hcount := hok.count t
    have hself : (s.mutex m).holdOf t = (s.mutex m).hold := if_pos hheld.owner
    rw [hself] at hcount
    exact hcount
  · intro t w rest s' hheld hhold hq hs
    exact hheld.handed_over h hhold hq hs
  · intro t a s' hheld hs hrel
    exact hheld.stays h hs hrel
  · intro t hbelieves
    have hcount := hok.count t
    -- the takes that returned are among those that were granted
    have hle : g.returned (m, t) ≤ g.taken (m, t) := by
      by_cases hin : s.InCall t (.mutex m)
      · by_cases hw : t ∈ s.waiters (.mutex m)
        · exact Nat.le_of_eq (hok.waiting t hw).2.2.symm
        · rw [(hok.decided t hin hw).2]
          exact Nat.le_add_right _ _
      · exact Nat.le_of_eq (hok.outside t hin).symm
    have howner : (s.mutex m).owner = some t := by
      by_contra hne
      have hzero : (s.mutex m).holdOf t = 0 := if_neg hne
      omega
    refine ⟨hok.held howner, fun u hu => ?_⟩
    have howner' := hu.owner
    rw [howner] at howner'
    exact (Option.some.inj howner').symm

end Step

/-- A thread waits for a mutex and gets it from its owner: when its take returns, it has it. -/
theorem mutex_exclusive_handed_over :
    ∃ s g, Runs (Runs.Observed (KernelStep schedCfg32 0) (MutexCount.observe schedCfg32)) Runs.always
        (bootKernel32 [31, 20, 5], MutexCount.start) (s, g) ∧
      g.returned (0, 2) = 1 ∧ s.MutexHeld 0 2 := by
  have hreplay : (Runs.replay
      (Kernel.execOk schedCfg32 0 (MutexCount.observe schedCfg32) Runs.always)
      (bootKernel32 [31, 20, 5], MutexCount.start)
      [.startup 0 1, .reschedule 0, .mutexTake 1 0 (-1), .startup 1 2, .reschedule 1,
        .mutexTake 2 0 (-1), .reschedule 2, .ret 1, .mutexRelease 1 0, .reschedule 1, .ret 2]).any
      (fun q => decide (q.2.returned (0, 2) = 1 ∧ q.2.given (0, 2) = 0)) = true := by
    decide +kernel
  obtain ⟨⟨s, g⟩, hrun, hend⟩ := Kernel.observed_of_replay hreplay
  obtain ⟨hreturned, hgiven⟩ := of_decide_eq_true hend
  have hbooted := @bootKernel32_booted [31, 20, 5] (by decide)
  have hbelieves : g.given (0, 2) < g.returned (0, 2) := by
    rw [hreturned, hgiven]
    decide
  exact ⟨s, g, hrun, hreturned, ((mutex_exclusive hbooted hrun 0).2.2.2.2.2 2 hbelieves).1⟩

end RTThread
