import RTThread.Kernel.Priorities

/-!
# Threads without a mutex run at their base priority

A mutex remembers the priority its owner had when it got the mutex, and the last release gives
this priority back. When the owner had been raised through another mutex by then, the mutex
remembers the raised priority; whether the thread gets back to its base priority depends on which
mutex it gives up last. An observer notes of every mutex whether its owner got it at the base
priority.

## Main results

* `mutex_base_priority` — if the mutex a thread gives up last is always one it got at its base
  priority, a thread that owns no mutex runs at its base priority.
* `mutex_base_priority_lost` — two mutexes given up in the order in which they were taken leave
  their thread raised for good.
-/

namespace RTThread

variable {cfg : SchedCfg} {idle : ThreadId}

/-- What the observer makes of an action: did the thread that gets the mutex run at its base
priority? -/
def observeBase (base : ThreadId → Nat) (g : Nat → Bool) (s : Kernel) : KernelAct → Nat → Bool
  | .mutexTake t m _ =>
    if (s.mutex m).owner ≠ some t ∧ 0 < (s.mutex m).value then
      Function.update g m (decide (s.priority t = base t))
    else g
  | .mutexRelease t m =>
    if s.LastRelease t m then
      match s.waiters (.mutex m) with
      | w :: _ => Function.update g m (decide (s.priority w = base w))
      | [] => g
    else g
  | _ => g

/-- The mutex a thread gives up last is one it got at its base priority, and the threads take
and release mutexes without changing priorities themselves. -/
def KeepsBase (p : Kernel × (Nat → Bool)) : KernelAct → Prop
  | .mutexRelease t m =>
    p.1.LastRelease t m → (∀ m', m' ≠ m → (p.1.mutex m').owner ≠ some t) → p.2 m = true
  | .control _ _ _ => False
  | _ => True

/-- The priorities and what the mutexes remember of them. -/
structure Based (base : ThreadId → Nat) (s : Kernel) (g : Nat → Bool) : Prop where
  free : ∀ t, (∀ m, (s.mutex m).owner ≠ some t) → s.priority t = base t
  remembered : ∀ m t, (s.mutex m).owner = some t → g m = true →
    (s.mutex m).originalPriority = base t

section Step

variable {s s' : Kernel} {a : KernelAct} {base : ThreadId → Nat} {g : Nat → Bool} {t u : ThreadId}
  {m : Nat}

/-- The mutex `m` does not change hands, and only an owner may get another priority. -/
theorem Based.keep (hbase : Based base s g)
    (hprio : ∀ u, (∀ m, (s.mutex m).owner ≠ some u) → s'.priority u = s.priority u)
    (hother : ∀ m', m' ≠ m → s'.mutex m' = s.mutex m')
    (howner : (s'.mutex m).owner = (s.mutex m).owner)
    (horiginal : (s'.mutex m).originalPriority = (s.mutex m).originalPriority) :
    Based base s' g := by
  have howners : ∀ m', (s'.mutex m').owner = (s.mutex m').owner := by
    intro m'
    by_cases hm : m' = m
    · rw [hm, howner]
    · rw [hother m' hm]
  refine ⟨fun u hu => ?_, fun m' u hu hg => ?_⟩
  · have hnone : ∀ m, (s.mutex m).owner ≠ some u := fun m => by
      rw [← howners m]
      exact hu m
    rw [hprio u hnone]
    exact hbase.free u hnone
  · rw [howners] at hu
    have hold := hbase.remembered m' u hu hg
    by_cases hm : m' = m
    · subst hm
      rw [horiginal, hold]
    · rw [hother m' hm, hold]

/-- The mutex `m` goes to the thread `w` and remembers its priority. -/
theorem Based.acquire {w : ThreadId} (hbase : Based base s g)
    (hother : ∀ m', m' ≠ m → s'.mutex m' = s.mutex m')
    (howner : (s'.mutex m).owner = some w)
    (horiginal : (s'.mutex m).originalPriority = s.priority w)
    (hfree : ∀ u, (∀ m', (s'.mutex m').owner ≠ some u) → s'.priority u = base u) :
    Based base s' (Function.update g m (decide (s.priority w = base w))) := by
  refine ⟨hfree, fun m' u hu hg => ?_⟩
  by_cases hm : m' = m
  · subst hm
    rw [Function.update_self] at hg
    rw [howner, Option.some.injEq] at hu
    subst hu
    rw [horiginal]
    exact of_decide_eq_true hg
  · rw [Function.update_of_ne hm] at hg
    rw [hother m' hm] at hu ⊢
    exact hbase.remembered m' u hu hg

/-- A take keeps the base priorities. -/
theorem Based.take {time : Int} (hbase : Based base s g) (h : MutexInv cfg idle s)
    (hs : KernelStep cfg idle s (.mutexTake t m time) s') :
    Based base s' (observeBase base g s (.mutexTake t m time)) := by
  -- only an owner is raised
  have hprio : ∀ u, (∀ m, (s.mutex m).owner ≠ some u) → s'.priority u = s.priority u := by
    intro u hu
    rw [hs.priority_eq h.toKernelInv u]
    exact KernelAct.priorityAfter_take_of_ne (hu m)
  have hother : ∀ m', m' ≠ m → s'.mutex m' = s.mutex m' := fun m' hm =>
    h.mutex_other hs (Or.inl ⟨time, rfl⟩) hm
  unfold observeBase
  dsimp only
  cases h.taken hs with
  | acquired hget hfree howner horiginal =>
    rw [if_pos hget]
    refine hbase.acquire hother howner horiginal fun u hu => ?_
    have hnone : ∀ m', (s.mutex m').owner ≠ some u := by
      intro m'
      by_cases hm : m' = m
      · rw [hm, hfree.owner]
        simp
      · rw [← hother m' hm]
        exact hu m'
    exact (hprio u hnone).trans (hbase.free u hnone)
  | same hnot howner horiginal =>
    rw [if_neg hnot]
    exact hbase.keep hprio hother howner horiginal

/-- A release keeps the base priorities, if the last one gives back the base priority. -/
theorem Based.release (hbase : Based base s g) (h : MutexInv cfg idle s)
    (hs : KernelStep cfg idle s (.mutexRelease t m) s')
    (hok : KeepsBase (s, g) (.mutexRelease t m)) :
    Based base s' (observeBase base g s (.mutexRelease t m)) := by
  have hprio := hs.priority_eq h.toKernelInv
  have hother : ∀ m', m' ≠ m → s'.mutex m' = s.mutex m' := fun m' hm =>
    h.mutex_other hs (Or.inr rfl) hm
  -- behind the last release, who owns no mutex runs at the base priority
  have hfree : s.LastRelease t m → ∀ u, (∀ m', (s'.mutex m').owner ≠ some u) →
      s'.priority u = base u := by
    intro hlast u hu
    have hnone : ∀ m', m' ≠ m → (s.mutex m').owner ≠ some u := fun m' hm => by
      rw [← hother m' hm]
      exact hu m'
    rw [hprio u, KernelAct.priorityAfter_release (h.lastRelease_iff.2 hlast)]
    by_cases hut : u = t
    · subst hut
      rw [if_pos rfl]
      exact hbase.remembered m u hlast.1 (hok hlast hnone)
    · rw [if_neg hut]
      refine hbase.free u fun m' => ?_
      by_cases hm : m' = m
      · rw [hm, hlast.1]
        exact fun heq => hut (Option.some.inj heq).symm
      · exact hnone m' hm
  unfold observeBase
  dsimp only
  cases h.released hs with
  | same hnot howner horiginal =>
    rw [if_neg hnot]
    refine hbase.keep (fun u _ => ?_) hother howner horiginal
    rw [hprio u]
    exact KernelAct.priorityAfter_release_of_not (fun hn => hnot (h.lastRelease_iff.1 hn)) u
  | passed w rest hlast hq _ howner horiginal =>
    rw [if_pos hlast, hq]
    exact hbase.acquire hother howner horiginal (hfree hlast)
  | freed hlast hq howner =>
    rw [if_pos hlast, hq]
    refine ⟨hfree hlast, fun m' u hu hg => ?_⟩
    by_cases hm : m' = m
    · rw [hm, howner] at hu
      cases hu
    · rw [hother m' hm] at hu ⊢
      exact hbase.remembered m' u hu hg

/-- **Every step keeps the base priorities**, if the mutex given up last is right. -/
theorem Based.step (hbase : Based base s g) (h : MutexInv cfg idle s)
    (hs : KernelStep cfg idle s a s') (hok : KeepsBase (s, g) a) :
    Based base s' (observeBase base g s a) := by
  cases a with
  | mutexTake t m time => exact hbase.take h hs
  | mutexRelease t m => exact hbase.release h hs hok
  | control => exact absurd hok id
  | _ =>
    have hmutex := hs.mutex_eq (fun _ _ _ h => by cases h) (fun _ _ h => by cases h)
    refine @Based.keep _ _ _ _ 0 hbase (fun u _ => hs.priority_eq h.toKernelInv u) ?_ ?_ ?_
    · exact fun m' _ => congrFun hmutex m'
    · rw [hmutex]
    · rw [hmutex]

/-- **Base priorities.** After any run of takes, releases and time-outs in which the mutex that a
thread gives up last is always one it got at its base priority, a thread that owns no mutex has
the priority it was started with. -/
theorem mutex_base_priority {s₀ : Kernel} (h0 : s₀.Booted cfg idle)
    (hrun : Runs (Runs.Observed (KernelStep cfg idle) (observeBase s₀.priority)) KeepsBase
      (s₀, fun _ => false) (s, g)) (hnone : ∀ m, (s.mutex m).owner ≠ some t) :
    s.priority t = s₀.priority t := by
  have hstart : Based s₀.priority s₀ fun _ => false :=
    ⟨fun _ _ => rfl, fun _ _ _ hg => by cases hg⟩
  have hinv : MutexInv cfg idle s ∧ Based s₀.priority s g :=
    @Runs.invariant _ _ _ _ _ _
      (fun p : Kernel × (Nat → Bool) => MutexInv cfg idle p.1 ∧ Based s₀.priority p.1 p.2)
      (by
        rintro ⟨s, g⟩ a ⟨s', g'⟩ ⟨h, hbase⟩ hok ⟨hs, hg⟩
        dsimp only at hs hg
        subst hg
        exact ⟨h.step hs, hbase.step h hs hok⟩)
      hrun ⟨MutexInv.booted h0, hstart⟩
  exact hinv.2.free t hnone

-- --------
-- Two runs
-- --------

/-- The mutex that the action is about. -/
def KernelAct.mutexOf : KernelAct → Option Nat
  | .mutexTake _ m _ => some m
  | .mutexRelease _ m => some m
  | _ => none

theorem KernelStep.mutex_unnamed (h : KernelInv cfg idle s) (hs : KernelStep cfg idle s a s')
    (ha : a.mutexOf ≠ some m) : s'.mutex m = s.mutex m := by
  cases a with
  | mutexTake t m' time =>
    exact hs.mutex_other h fun hc => ha (congrArg some (IpcId.mutex.inj hc).symm)
  | mutexRelease t m' =>
    exact hs.mutex_other h fun hc => ha (congrArg some (IpcId.mutex.inj hc).symm)
  | _ => rw [hs.mutex_eq (fun _ _ _ h => by cases h) (fun _ _ h => by cases h)]

/-- With only the mutexes 0 and 1 in use, the others are free. -/
theorem owner_unnamed {s₀ : Kernel} {Ok : Kernel → KernelAct → Prop} (h0 : s₀.Booted cfg idle)
    (hok : ∀ s a, Ok s a → ∀ m ∈ a.mutexOf, m < 2) (hrun : Runs (KernelStep cfg idle) Ok s₀ s)
    (hm : 2 ≤ m) : (s.mutex m).owner ≠ some t := by
  have hinv : KernelInv cfg idle s ∧ s.mutex m = mutexInit :=
    @Runs.invariant _ _ _ _ _ _ (fun s : Kernel => KernelInv cfg idle s ∧ s.mutex m = mutexInit)
      (by
        rintro s a s' ⟨h, hinit⟩ ha hs
        refine ⟨h.step hs, (hs.mutex_unnamed h fun hname => ?_).trans hinit⟩
        exact absurd (hok s a ha m hname) (by omega))
      hrun ⟨KernelInv.booted h0, h0.mutexes m⟩
  rw [hinv.2]
  simp [mutexInit]

end Step

/-- The actions on the mutexes 0 and 1. -/
def TwoMutexes (_ : Kernel) (a : KernelAct) : Prop := ∀ m ∈ a.mutexOf, m < 2

instance (s : Kernel) (a : KernelAct) : Decidable (TwoMutexes s a) :=
  inferInstanceAs (Decidable (∀ m ∈ a.mutexOf, m < 2))

/-- The actions on the mutexes 0 and 1, with a release only of a mutex that was taken at the base
priority. -/
def TwoAtBase (p : Kernel × (Nat → Bool)) : KernelAct → Prop
  | .mutexTake _ m _ => m < 2
  | .mutexRelease _ m => m < 2 ∧ p.2 m = true
  | .control _ _ _ => False
  | _ => True

instance (p : Kernel × (Nat → Bool)) (a : KernelAct) : Decidable (TwoAtBase p a) := by
  cases a with
  | mutexTake t m time => exact inferInstanceAs (Decidable (m < 2))
  | mutexRelease t m => exact inferInstanceAs (Decidable (m < 2 ∧ p.2 m = true))
  | control => exact isFalse id
  | _ => exact isTrue trivial

theorem TwoAtBase.keepsBase {p : Kernel × (Nat → Bool)} {a : KernelAct} (h : TwoAtBase p a) :
    KeepsBase p a := by
  cases a with
  | mutexRelease t m => exact fun _ _ => h.2
  | control => exact h
  | _ => trivial

theorem TwoAtBase.twoMutexes {p : Kernel × (Nat → Bool)} {a : KernelAct} (h : TwoAtBase p a) :
    TwoMutexes p.1 a := by
  intro m hm
  cases a with
  | mutexTake t m' time =>
    cases hm
    exact h
  | mutexRelease t m' =>
    cases hm
    exact h.1
  | _ => cases hm

/-- Two mutexes taken at the base priority: the thread 1 is raised, gives both up, and has its
priority back. -/
theorem mutex_base_priority_back : ∃ s g,
    Runs (Runs.Observed (KernelStep schedCfg32 0) (observeBase (bootKernel32 [31, 20, 5]).priority))
      KeepsBase (bootKernel32 [31, 20, 5], fun _ => false) (s, g) ∧
    (s.mutex 0).owner = some 2 ∧ s.priority 1 = (bootKernel32 [31, 20, 5]).priority 1 := by
  have hreplay : (Runs.replay
      (Kernel.execOk schedCfg32 0 (observeBase (bootKernel32 [31, 20, 5]).priority) TwoAtBase)
      (bootKernel32 [31, 20, 5], fun _ => false)
      [.startup 0 1, .reschedule 0, .mutexTake 1 0 (-1), .mutexTake 1 1 (-1), .startup 1 2,
        .reschedule 1, .mutexTake 2 0 (-1), .reschedule 2, .ret 1, .mutexRelease 1 1,
        .mutexRelease 1 0]).any
      (fun q => decide ((q.1.mutex 0).owner = some 2 ∧ (q.1.mutex 1).owner = none)) = true := by
    decide +kernel
  obtain ⟨⟨s, g⟩, hrun, hend⟩ := Kernel.observed_of_replay hreplay
  obtain ⟨hzero, hone⟩ := of_decide_eq_true hend
  have hbooted := @bootKernel32_booted [31, 20, 5] (by decide)
  have hrun' := @Runs.mono _ _ _ _ KeepsBase _ _ (fun _ => True)
    (fun _ _ _ hok => TwoAtBase.keepsBase hok) (fun _ _ _ _ _ _ => trivial) hrun trivial
  have hplain := Runs.of_observed (fun _ _ hok => TwoAtBase.twoMutexes hok) hrun
  refine ⟨s, g, hrun', hzero, mutex_base_priority hbooted hrun' fun m => ?_⟩
  rcases Nat.lt_or_ge m 2 with hlt | hge
  · obtain rfl | rfl : m = 0 ∨ m = 1 := by omega
    · rw [hzero]
      simp
    · rw [hone]
      simp
  · exact owner_unnamed hbooted (fun _ _ hok => hok) hplain hge

/-- **Given up in the order in which they were taken.** The thread 1 takes the mutex 0, is raised
by the thread 2, which waits for it, and takes the mutex 1; it releases the mutex 0 and then the
mutex 1, which gives it back the raised priority. -/
theorem mutex_base_priority_lost : ∃ s,
    Runs (KernelStep schedCfg32 0) Runs.always (bootKernel32 [31, 20, 5]) s ∧
    (∀ m, (s.mutex m).owner ≠ some 1) ∧ (bootKernel32 [31, 20, 5]).priority 1 = 20 ∧
    s.priority 1 = 5 := by
  have hreplay : (Runs.replay (Runs.execOk (Kernel.exec schedCfg32 0) TwoMutexes)
      (bootKernel32 [31, 20, 5])
      [.startup 0 1, .reschedule 0, .mutexTake 1 0 (-1), .startup 1 2, .reschedule 1,
        .mutexTake 2 0 (-1), .reschedule 2, .ret 1, .mutexTake 1 1 (-1), .mutexRelease 1 0,
        .reschedule 1, .ret 2, .mutexRelease 2 0, .mutexTake 2 1 (-1), .reschedule 2, .ret 1,
        .mutexRelease 1 1, .reschedule 1]).any
      (fun s => decide ((s.mutex 0).owner ≠ some 1 ∧ (s.mutex 1).owner ≠ some 1 ∧
        s.priority 1 = 5)) = true := by
    decide +kernel
  obtain ⟨s, hrun, hend⟩ := Kernel.allowed_of_replay hreplay
  obtain ⟨hzero, hone, hprio⟩ := of_decide_eq_true hend
  have hbooted := @bootKernel32_booted [31, 20, 5] (by decide)
  refine ⟨s, ?_, fun m => ?_, by decide, hprio⟩
  · exact @Runs.mono _ _ _ _ _ _ _ (fun _ => True) (fun _ _ _ _ => trivial)
      (fun _ _ _ _ _ _ => trivial) hrun trivial
  · rcases Nat.lt_or_ge m 2 with hlt | hge
    · obtain rfl | rfl : m = 0 ∨ m = 1 := by omega
      · exact hzero
      · exact hone
    · exact owner_unnamed hbooted (fun _ _ hok => hok) hrun hge

end RTThread
