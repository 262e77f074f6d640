import RTThread.Kernel.Priorities

/-!
# Priority inheritance

A thread that has to wait for a mutex raises the owner to its own priority, so that no owner is
less urgent than a thread it keeps waiting. The kernel does this once, when the thread starts to
wait. Three later steps can undo it: an owner that waits itself for another mutex is raised
without the owner of that one; the last release of a mutex restores a priority without regard to
the other mutexes of the thread; and the first thread of a list need not be the most urgent one
when it becomes the owner. `KeepsInheritance` says of an action that it does none of this.

## Main results

* `mutex_owner_urgent` — in every run without these steps no owner is less urgent than a thread
  that waits for its mutex.
* `mutex_owner_less_urgent` — the release of one mutex lowers the owner of another.
-/

namespace RTThread

variable {cfg : SchedCfg} {idle : ThreadId}

/-- No owner of a mutex is less urgent than a thread that waits for it. -/
def Kernel.Inherits (s : Kernel) : Prop :=
  ∀ m o w, (s.mutex m).owner = some o → w ∈ s.waiters (.mutex m) → s.priority o ≤ s.priority w

/-- The action leaves the owners as urgent as the threads that wait for them. -/
def KeepsInheritance (s : Kernel) : KernelAct → Prop
  | .mutexTake t m time =>
    -- an owner that is raised does not wait for a thread that is then less urgent
    ∀ o, (s.mutex m).owner = some o → (s.mutex m).value = 0 → time ≠ 0 →
      s.priority t < s.priority o → ∀ m' o', o ∈ s.waiters (.mutex m') →
        (s.mutex m').owner = some o' → s.priority o' ≤ s.priority t
  | .mutexRelease t m =>
    s.LastRelease t m →
      -- the priority given back is urgent enough for the other mutexes of the thread
      (∀ m', m' ≠ m → (s.mutex m').owner = some t → ∀ w ∈ s.waiters (.mutex m'),
        (s.mutex m).originalPriority ≤ s.priority w) ∧
      -- the new owner is a most urgent one of those that wait
      ∀ w rest, s.waiters (.mutex m) = w :: rest → ∀ u ∈ rest, s.priority w ≤ s.priority u
  | .control _ u p =>
    (∀ m, (s.mutex m).owner = some u → ∀ w ∈ s.waiters (.mutex m), p ≤ s.priority w) ∧
      ∀ m o, u ∈ s.waiters (.mutex m) → (s.mutex m).owner = some o → s.priority o ≤ p
  | _ => True

section Step

variable {s s' : Kernel} {a : KernelAct} {t u o w : ThreadId} {m m' : Nat}

/-- One priority changes: what remains to be seen of an owner and a thread that waits for it. -/
theorem le_of_reprioritised {prio : ThreadId → Nat} {p : Nat} (hne : o ≠ w)
    (hle : prio o ≤ prio w) (hown : o = u → p ≤ prio w) (hwait : w = u → prio o ≤ p) :
    (if o = u then p else prio o) ≤ if w = u then p else prio w := by
  by_cases ho : o = u
  · have hw : w ≠ u := by
      rintro rfl
      exact hne ho
    rw [if_pos ho, if_neg hw]
    exact hown ho
  · rw [if_neg ho]
    by_cases hw : w = u
    · rw [if_pos hw]
      exact hwait hw
    · rw [if_neg hw]
      exact hle

/-- A take changes the owner only of a mutex for which nobody waits. -/
theorem MutexInv.take_owner {time : Int} (h : MutexInv cfg idle s)
    (hs : KernelStep cfg idle s (.mutexTake t m time) s')
    (ho : (s'.mutex m').owner = some o) :
    (s.mutex m').owner = some o ∨ m' = m ∧ o = t ∧ s.MutexFree m := by
  by_cases hm : m' = m
  case neg =>
    rw [h.mutex_other hs (Or.inl ⟨time, rfl⟩) hm] at ho
    exact Or.inl ho
  subst hm
  cases h.taken hs with
  | acquired _ hfree howner =>
    rw [howner, Option.some.injEq] at ho
    exact Or.inr ⟨rfl, ho.symm, hfree⟩
  | same _ howner =>
    rw [howner] at ho
    exact Or.inl ho

/-- A thread joins the list of a mutex only when its take blocks. -/
theorem KernelAct.enqueued_mutex (ha : a.enqueued s = some (t, .mutex m)) :
    ∃ time, a = .mutexTake t m time ∧ (s.mutex m).owner ≠ some t ∧ (s.mutex m).value = 0 ∧
      time ≠ 0 := by
  unfold KernelAct.enqueued at ha
  split at ha
  case h_1 =>
    split at ha <;> cases ha
  case h_2 t' m' time =>
    split at ha
    case isTrue hblock =>
      cases ha
      exact ⟨time, rfl, hblock⟩
    case isFalse => cases ha
  case h_3 => cases ha
  case h_4 => cases ha

theorem KernelStep.waiters_subset (h : KernelInv cfg idle s) (hs : KernelStep cfg idle s a s')
    (ha : ∀ t m time, a ≠ .mutexTake t m time) (hw : w ∈ s'.waiters (.mutex m)) :
    w ∈ s.waiters (.mutex m) := by
  rcases hs.waiters_cases h (.mutex m) with hsub | ⟨t, he, -⟩
  · exact hsub.subset hw
  · obtain ⟨time, heq, -⟩ := KernelAct.enqueued_mutex he
    exact absurd heq (ha _ _ _)

/-- **A take keeps the inheritance** unless it raises a thread that waits for a less urgent one. -/
theorem Kernel.Inherits.take {time : Int} (hin : s.Inherits) (h : MutexInv cfg idle s)
    (hs : KernelStep cfg idle s (.mutexTake t m time) s')
    (hok : KeepsInheritance s (.mutexTake t m time)) : s'.Inherits := by
  intro m' o w ho hw
  have hprio := hs.priority_eq h.toKernelInv
  rw [hprio o, hprio w]
  -- `w` waited before, or it is the thread of the call and blocks now
  have hcases : w ∈ s.waiters (.mutex m') ∨ w = t ∧ m' = m ∧ (s.mutex m).owner ≠ some t ∧
      (s.mutex m).value = 0 ∧ time ≠ 0 := by
    rcases hs.waiters_cases h.toKernelInv (.mutex m') with hsub | ⟨v, he, heq⟩
    · exact Or.inl (hsub.subset hw)
    · rw [heq, (ipcInsert_perm _ _ _ _).mem_iff, List.mem_cons] at hw
      obtain ⟨_, hact, hblock⟩ := KernelAct.enqueued_mutex he
      cases hact
      exact hw.symm.imp id fun hwt => ⟨hwt, rfl, hblock⟩
  have hold : (s.mutex m').owner = some o := by
    rcases h.take_owner hs ho with hold | ⟨rfl, -, hfree⟩
    · exact hold
    · -- nobody waits for a mutex that is free, and it does not block
      rcases hcases with hw' | ⟨-, -, -, hzero, -⟩
      · rw [hfree.waiters] at hw'
        cases hw'
      · rw [hfree.value] at hzero
        cases hzero
  by_cases hblock : (s.mutex m).owner ≠ some t ∧ (s.mutex m).value = 0 ∧ time ≠ 0
  case neg =>
    rw [KernelAct.priorityAfter_take_of_not hblock, KernelAct.priorityAfter_take_of_not hblock]
    exact hin m' o w hold (hcases.resolve_right fun hb => hblock hb.2.2)
  obtain ⟨v, howner⟩ : ∃ v, (s.mutex m).owner = some v := by
    rcases h.shape m with hfree | ⟨v, hheld⟩
    · exact absurd hfree.value (by omega)
    · exact ⟨v, hheld.owner⟩
  rw [KernelAct.priorityAfter_take hblock howner, KernelAct.priorityAfter_take hblock howner]
  by_cases hlt : s.priority t < s.priority v
  · simp only [hlt, and_true]
    rcases hcases with hw' | ⟨rfl, rfl, -⟩
    · refine le_of_reprioritised ?_ (hin m' o w hold hw') ?_ ?_
      · rintro rfl
        exact h.not_owner hw' hold
      · rintro rfl
        exact Nat.le_trans (Nat.le_of_lt hlt) (hin m' o w hold hw')
      · rintro rfl
        exact hok w howner hblock.2.1 hblock.2.2 hlt m' o hw' hold
    · -- the owner gets the priority of the thread that starts to wait
      rw [hold, Option.some.injEq] at howner
      have hne : w ≠ v := by
        rintro rfl
        exact hblock.1 (howner ▸ hold)
      rw [if_pos howner, if_neg hne]
  · simp only [hlt, and_false, if_false]
    rcases hcases with hw' | ⟨rfl, rfl, -⟩
    · exact hin m' o w hold hw'
    · rw [hold, Option.some.injEq] at howner
      subst howner
      omega

/-- **A release keeps the inheritance** if the priority it restores and the new owner are urgent
enough. -/
theorem Kernel.Inherits.release (hin : s.Inherits) (h : MutexInv cfg idle s)
    (hs : KernelStep cfg idle s (.mutexRelease t m) s')
    (hok : KeepsInheritance s (.mutexRelease t m)) : s'.Inherits := by
  intro m' o w ho hw
  have hw' : w ∈ s.waiters (.mutex m') :=
    hs.waiters_subset h.toKernelInv (fun _ _ _ heq => by cases heq) hw
  have hprio := hs.priority_eq h.toKernelInv
  -- the thread of the call runs, so it waits for nothing
  have hrun : ∀ o', t ∉ s.waiters o' := by
    intro o'
    cases hs with
    | mutexRelease hat => exact h.not_waiting_of_run hat.pc o'
  have hwt : w ≠ t := by
    rintro rfl
    exact hrun _ hw'
  rw [hprio o, hprio w]
  by_cases hlast : s.LastRelease t m
  case neg =>
    have hnot : ¬ ((s.mutex m).owner = some t ∧ ((s.mutex m).hold + 255) % 2 ^ 8 = 0) :=
      fun hn => hlast (h.lastRelease_iff.1 hn)
    rw [KernelAct.priorityAfter_release_of_not hnot, KernelAct.priorityAfter_release_of_not hnot]
    refine hin m' o w ?_ hw'
    by_cases hm : m' = m
    case neg => rwa [h.mutex_other hs (Or.inr rfl) hm] at ho
    subst hm
    cases h.released hs with
    | same _ howner => rwa [howner] at ho
    | passed _ _ hyes => exact absurd hyes hlast
    | freed hyes => exact absurd hyes hlast
  obtain ⟨hothers, hfirst⟩ := hok hlast
  have hfinal := h.lastRelease_iff.2 hlast
  rw [KernelAct.priorityAfter_release hfinal, KernelAct.priorityAfter_release hfinal, if_neg hwt]
  by_cases hm : m' = m
  case neg =>
    rw [h.mutex_other hs (Or.inr rfl) hm] at ho
    by_cases hot : o = t
    · subst hot
      rw [if_pos rfl]
      exact hothers m' hm ho w hw'
    · rw [if_neg hot]
      exact hin m' o w ho hw'
  subst hm
  cases h.released hs with
  | same hno => exact absurd hlast hno
  | passed v rest _ hq hne howner _ hrest =>
    rw [howner, Option.some.injEq] at ho
    subst ho
    rw [hrest] at hw
    rw [if_neg hne]
    exact hfirst v rest hq w hw
  | freed _ _ howner =>
    rw [howner] at ho
    cases ho

/-- **Every step keeps the inheritance**, unless it is one that undoes it. -/
theorem Kernel.Inherits.step (hin : s.Inherits) (h : MutexInv cfg idle s)
    (hs : KernelStep cfg idle s a s') (hok : KeepsInheritance s a) : s'.Inherits := by
  cases a with
  | mutexTake t m time => exact hin.take h hs hok
  | mutexRelease t m => exact hin.release h hs hok
  | control t u p =>
    intro m o w ho hw
    rw [hs.mutex_eq (fun _ _ _ h => by cases h) (fun _ _ h => by cases h)] at ho
    have hw' := hs.waiters_subset h.toKernelInv (fun _ _ _ heq => by cases heq) hw
    have hprio := hs.priority_eq h.toKernelInv
    rw [hprio o, hprio w]
    refine le_of_reprioritised ?_ (hin m o w ho hw') ?_ ?_
    · rintro rfl
      exact h.not_owner hw' ho
    · rintro rfl
      exact hok.1 m ho w hw'
    · rintro rfl
      exact hok.2 m o hw' ho
  | _ =>
    intro m o w ho hw
    rw [hs.mutex_eq (fun _ _ _ h => by cases h) (fun _ _ h => by cases h)] at ho
    have hw' := hs.waiters_subset h.toKernelInv (fun _ _ _ heq => by cases heq) hw
    have hprio := hs.priority_eq h.toKernelInv
    rw [hprio o, hprio w]
    exact hin m o w ho hw'

theorem Kernel.Inherits.booted (h : s.Booted cfg idle) : s.Inherits := by
  intro m o w ho
  rw [h.mutexes] at ho
  cases ho

/-- **Priority inheritance.** In every run in which no owner is raised while it waits for a less
urgent thread, every priority that is restored is urgent enough for the mutexes the thread still
owns, every new owner is a most urgent one of those that waited, and `rt_thread_control` respects
the mutexes: no owner of a mutex is less urgent than a thread that waits for it. -/
theorem mutex_owner_urgent {s₀ : Kernel} (h0 : s₀.Booted cfg idle)
    (hrun : Runs (KernelStep cfg idle) KeepsInheritance s₀ s)
    (ho : (s.mutex m).owner = some o) (hw : w ∈ s.waiters (.mutex m)) :
    s.priority o ≤ s.priority w := by
  have hinv : MutexInv cfg idle s ∧ s.Inherits :=
    @Runs.invariant _ _ _ _ _ _ (fun s : Kernel => MutexInv cfg idle s ∧ s.Inherits)
      (by
        rintro s a s' ⟨h, hin⟩ hok hs
        exact ⟨h.step hs, hin.step h hs hok⟩)
      hrun ⟨MutexInv.booted h0, Kernel.Inherits.booted h0⟩
  exact hinv.2 m o w ho hw

end Step

-- --------
-- Two runs
-- --------

/-- No release, no user's change of priority, and no owner is raised while it is suspended. -/
def RaisesRunner (s : Kernel) : KernelAct → Prop
  | .mutexTake _ m _ => ∀ o ∈ (s.mutex m).owner, (s.sys.thread o).stat ≠ .suspend
  | .mutexRelease _ _ => False
  | .control _ _ _ => False
  | _ => True

instance (s : Kernel) : ∀ a : KernelAct, Decidable (RaisesRunner s a)
  | .mutexTake _ m _ =>
    inferInstanceAs (Decidable (∀ o ∈ (s.mutex m).owner, (s.sys.thread o).stat ≠ .suspend))
  | .mutexRelease .. | .control .. => isFalse id
  | .semTake .. | .semTrytake _ | .semRelease .. | .semReset .. | .wait .. | .signal .. | .sleep ..
  | .startup .. | .yield _ | .enterCritical _ | .exitCritical _ | .reschedule _ | .ret _
  | .timeout _ | .tick | .schedule => isTrue trivial

theorem RaisesRunner.keepsInheritance {s : Kernel} {a : KernelAct} (h : KernelInv cfg idle s)
    (hok : RaisesRunner s a) : KeepsInheritance s a := by
  cases a with
  | mutexTake t m time =>
    intro o ho _ _ _ m' o' hwait _
    exact absurd (h.sched.wait hwait) (hok o ho)
  | mutexRelease => exact absurd hok id
  | control => exact absurd hok id
  | _ => trivial

/-- The owner of a mutex has been raised twice, and is as urgent as both threads that wait. -/
theorem mutex_owner_urgent_two : ∃ s,
    Runs (KernelStep schedCfg32 0) KeepsInheritance (bootKernel32 [31, 20, 10, 5]) s ∧
    (s.mutex 0).owner = some 1 ∧ s.waiters (.mutex 0) = [3, 2] ∧ s.priority 1 ≤ s.priority 3 := by
  have hreplay : (Runs.replay (Runs.execOk (Kernel.exec schedCfg32 0) RaisesRunner)
      (bootKernel32 [31, 20, 10, 5])
      [.startup 0 1, .reschedule 0, .mutexTake 1 0 (-1), .startup 1 2, .reschedule 1,
        .mutexTake 2 0 (-1), .reschedule 2, .ret 1, .startup 1 3, .reschedule 1,
        .mutexTake 3 0 (-1)]).any
      (fun s => decide ((s.mutex 0).owner = some 1 ∧ s.waiters (.mutex 0) = [3, 2])) = true := by
    decide +kernel
  obtain ⟨s, hrun, hend⟩ := Kernel.allowed_of_replay hreplay
  have hbooted := @bootKernel32_booted [31, 20, 10, 5] (by decide)
  have hrun' : Runs (KernelStep schedCfg32 0) KeepsInheritance (bootKernel32 [31, 20, 10, 5]) s :=
    @Runs.mono _ _ _ _ _ _ _ (KernelInv schedCfg32 0)
      (fun _ _ hinv hok => hok.keepsInheritance hinv) (fun _ _ _ hinv _ hs => hinv.step hs) hrun
      (KernelInv.booted hbooted)
  obtain ⟨howner, hwaiters⟩ := of_decide_eq_true hend
  refine ⟨s, hrun', howner, hwaiters, ?_⟩
  refine mutex_owner_urgent (m := 0) hbooted hrun' howner ?_
  rw [hwaiters]
  decide

/-- **A release forgets the other mutex.** The thread 1 owns the mutexes 0 and 1 and has been
raised by the thread 2, which waits for the mutex 0; the release of the mutex 1 gives it back its
own priority. -/
theorem mutex_owner_less_urgent : ∃ s,
    Runs (KernelStep schedCfg32 0) Runs.always (bootKernel32 [31, 20, 5]) s ∧
    (s.mutex 0).owner = some 1 ∧ 2 ∈ s.waiters (.mutex 0) ∧ s.priority 1 = 20 ∧
    s.priority 2 = 5 := by
  have hreplay : (Runs.replay (Kernel.exec schedCfg32 0) (bootKernel32 [31, 20, 5])
      [.startup 0 1, .reschedule 0, .mutexTake 1 0 (-1), .mutexTake 1 1 (-1), .startup 1 2,
        .reschedule 1, .mutexTake 2 0 (-1), .reschedule 2, .ret 1, .mutexRelease 1 1]).any
      (fun s => decide ((s.mutex 0).owner = some 1 ∧ 2 ∈ s.waiters (.mutex 0) ∧
        s.priority 1 = 20 ∧ s.priority 2 = 5)) = true := by
    decide +kernel
  obtain ⟨s, -, hrun, hend⟩ := Kernel.run_of_replay hreplay
  exact ⟨s, hrun, of_decide_eq_true hend⟩

end RTThread
