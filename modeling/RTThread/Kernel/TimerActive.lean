import RTThread.Kernel.TimerFrame
import RTThread.Lib.Runs

/-!
# Timers: the activated flag and the lists

`TimerInv` says that a linked timer is activated. The converse is what can go
wrong: a check takes an expired periodic timer out of its list without clearing
its flag, and decides after the timeout function from the flags whether to
start it again. If the function made its own timer a one-shot one
(`RT_TIMER_CTRL_SET_ONESHOT`) and neither stopped nor started it, the check
drops the timer and leaves the flag.

## Main results

* `activated_iff_linked` : in every run in which no timeout function returns in
  that way, the activated timers are the linked ones whenever no timeout
  function is running.
* `activated_not_linked` : the run that shows the defect.
-/

namespace RTThread

/-- Every activated timer is in a list or with the check that took it out. -/
def ActiveFound (cfg : SkipListCfg) (s : TimerSys) : Prop :=
  ∀ t, (s.timer t).flag.activated = true →
    (∃ k, t ∈ s.list k cfg.bottom) ∨ ∃ k, t ∈ s.held k

-- --------
-- The pieces of the interface
-- --------

namespace ActiveFound

variable {cfg : SkipListCfg} {s s' : TimerSys} {t u : TimerId} {k : TimerKind}

theorem setTimer (h : ActiveFound cfg s) {x : Timer}
    (hx : x.flag.activated = true → (s.timer t).flag.activated = true) :
    ActiveFound cfg (s.setTimer t x) := by
  intro u hu
  by_cases hut : u = t
  · subst hut
    exact h u (hx (by simpa using hu))
  · rw [s.setTimer_timer_of_ne t x hut] at hu
    exact h u hu

theorem stopped (h : ActiveFound cfg s) (t : TimerId) : ActiveFound cfg (s.stopped t) := by
  intro u hu
  by_cases hut : u = t
  · subst hut
    simp at hu
  · rw [s.stopped_timer_of_ne t hut] at hu
    rcases h u hu with ⟨k, hk⟩ | ⟨k, hk⟩
    · exact Or.inl ⟨k, (List.mem_erase_of_ne hut).mpr hk⟩
    · exact Or.inr ⟨k, (List.mem_erase_of_ne hut).mpr hk⟩

theorem timerStart (hinv : TimerInv cfg s) (h : ActiveFound cfg (s.stopped t)) :
    ActiveFound cfg (timerStart cfg s t) := by
  intro u hu
  by_cases hut : u = t
  · exact Or.inl ⟨_, (timerStart_mem hinv).mpr (Or.inl ⟨hut, rfl⟩)⟩
  · rw [timerStart_timer_of_ne hut, ← s.stopped_timer_of_ne t hut] at hu
    rcases h u hu with ⟨k, hk⟩ | ⟨k, hk⟩
    · have hk : u ∈ s.list k cfg.bottom := List.mem_of_mem_erase hk
      exact Or.inl ⟨k, (timerStart_mem hinv).mpr (Or.inr ⟨hut, hk⟩)⟩
    · exact Or.inr ⟨k, hk⟩

/-- The head of the loop moves the first timer to the stack variable, or deactivates it. -/
theorem checkHead (h : ActiveFound cfg s) (k : TimerKind) :
    ActiveFound cfg (checkHead cfg s k) := by
  rcases TimerInv.checkHead_cases cfg s k with ⟨heq, -⟩ | ⟨t, rest, hl, -, heq⟩
  · rw [heq]
    exact h
  · rw [heq]
    intro u hu
    by_cases hut : u = t
    · refine Or.inr ⟨k, ?_⟩
      simp [TimerSys.hold, hut]
    · have hu : ((s.fired t).timer u).flag.activated = true := hu
      rw [TimerInv.fired_timer_of_ne s hut] at hu
      rcases h u hu with ⟨k', hk⟩ | ⟨k', hk⟩
      · refine Or.inl ⟨k', ?_⟩
        show u ∈ (s.fired t).list k' cfg.bottom
        rw [TimerInv.fired_list]
        exact (List.mem_erase_of_ne hut).mpr hk
      · refine Or.inr ⟨k', ?_⟩
        have hk : u ∈ (s.fired t).held k' := by
          rw [TimerInv.fired_held]
          exact (List.mem_erase_of_ne hut).mpr hk
        by_cases hkk : k' = k
        · subst hkk
          simp [TimerSys.hold, hk]
        · simpa [TimerSys.hold, Function.update_of_ne hkk] using hk

end ActiveFound

-- --------
-- The step and the run
-- --------

/-- No timeout function returns while its own timer is still with the check, activated and
no longer periodic. -/
def ReturnInStep (s : TimerSys) : TimerAct → Prop
  | .ret k => ∀ t, s.running k = some t → t ∈ s.held k → (s.timer t).flag.activated = true →
      (s.timer t).flag.periodic = true
  | _ => True

section Step

variable {cfg : SkipListCfg} {s s' : TimerSys} {t : TimerId} {k : TimerKind}

theorem bottomRemove_found (hinv : TimerInv cfg s) (h : ActiveFound cfg s) (ht : t ∈ s.held k)
    {u : TimerId} (hut : u ≠ t) (hu : (s.timer u).flag.activated = true) :
    (∃ k, u ∈ (s.bottomRemove cfg t).list k cfg.bottom) ∨
      ∃ k, u ∈ (s.bottomRemove cfg t).held k := by
  rw [hinv.bottomRemove_list ht]
  rcases h u hu with hl | ⟨k', hk'⟩
  · exact Or.inl hl
  · exact Or.inr ⟨k', (List.mem_erase_of_ne hut).mpr hk'⟩

theorem ActiveFound.checkReturn (hinv : TimerInv cfg s) (h : ActiveFound cfg s)
    (hrun : s.running k = some t) (hret : checkReturn cfg s k t = .ok s')
    (hok : t ∈ s.held k → (s.timer t).flag.activated = true →
      (s.timer t).flag.periodic = true) : ActiveFound cfg s' := by
  rcases hinv.checkReturn_cases hrun hret with ⟨hk, rfl⟩ | ⟨hk, -, -, rfl⟩ | ⟨hk, hflag, rfl⟩
  · exact h.checkHead k
  · have hmem : t ∈ s.held k := by rw [hk]; simp
    apply (ActiveFound.timerStart (hinv.released hmem) _).checkHead
    apply ActiveFound.stopped
    intro u hu
    by_cases hut : u = t
    · subst hut
      simp at hu
    · rw [TimerSys.setActivated_timer_of_ne _ t false hut] at hu
      exact bottomRemove_found hinv h hmem hut hu
  · -- the timer is dropped, so it must not be activated
    have hmem : t ∈ s.held k := by rw [hk]; simp
    apply ActiveFound.checkHead
    intro u hu
    by_cases hut : u = t
    · subst hut
      exact absurd ⟨hok hmem hu, hu⟩ hflag
    · exact bottomRemove_found hinv h hmem hut hu

/-- **A step** keeps the active timers linked. -/
theorem ActiveFound.step (hinv : TimerInv cfg s) (h : ActiveFound cfg s) {a : TimerAct}
    (hok : ReturnInStep s a) (hs : TimerStep cfg s a s') : ActiveFound cfg s' := by
  cases hs with
  | tick n => exact h
  | init hinit =>
    obtain ⟨_, _, hinit⟩ := except_bind_ok hinit
    obtain ⟨_, _, hinit⟩ := except_bind_ok hinit
    obtain rfl := Except.ok.inj hinit
    exact h.setTimer (by simp [timerInit])
  | detach hdet =>
    obtain ⟨_, _, hdet⟩ := except_bind_ok hdet
    obtain rfl := Except.ok.inj hdet
    exact (h.stopped _).setTimer (by simp)
  | start hstart =>
    obtain ⟨_, _, hstart⟩ := except_bind_ok hstart
    obtain rfl := Except.ok.inj hstart
    exact ActiveFound.timerStart hinv (h.stopped _)
  | stop hstop =>
    rcases TimerInv.stop_cases hstop with ⟨-, rfl⟩ | ⟨-, rfl, -⟩
    · exact h.stopped _
    · exact h
  | stopLate t => exact h.stopped t
  | control hctl =>
    obtain ⟨-, rfl | ⟨x, rfl, -, hact, -⟩⟩ := TimerInv.control_cases hctl
    · exact h
    · exact h.setTimer (by simp [hact])
  | check hrun => exact h.checkHead _
  | ret hrun _ hret => exact h.checkReturn hinv hrun hret (hok _ hrun)

/-- **Flag and list in step.** As long as no timeout function returns with its own timer still
held by the check, activated and no longer periodic, the activated timers are exactly the
linked ones whenever no timeout function is running. -/
theorem activated_iff_linked (cfg : SkipListCfg) (s : TimerSys)
    (hrun : Runs (TimerStep cfg) ReturnInStep TimerSys.initial s)
    (hidle : ∀ k, s.running k = none) (t : TimerId) :
    (s.timer t).flag.activated = true ↔ s.Linked cfg t := by
  have hboth : TimerInv cfg s ∧ ActiveFound cfg s := by
    refine @Runs.invariant _ _ _ _ _ _ (fun s => TimerInv cfg s ∧ ActiveFound cfg s) ?_ hrun
      ⟨TimerInv.initial cfg, ?_⟩
    · intro s a s' hs hok hstep
      exact ⟨hs.1.step hstep, hs.2.step hs.1 hok hstep⟩
    · intro t ht
      cases ht
  obtain ⟨hinv, hfound⟩ := hboth
  constructor
  · intro hact
    rcases hfound t hact with ⟨k, hk⟩ | ⟨k, hk⟩
    · exact ⟨k, cfg.bottom, Nat.sub_lt cfg.level_pos Nat.one_pos, hk⟩
    · rw [hinv.held_of_idle (hidle k)] at hk
      cases hk
  · intro hlinked
    exact hinv.activated (hinv.linked_iff.mp hlinked)

/-- A periodic timer that its timeout function leaves alone is started again. -/
theorem activated_iff_linked_run : ∃ s : TimerSys,
    (s.timer 7).flag.activated = true ∧ s.Linked ⟨2, 3, by decide⟩ 7 := by
  have hrun : Runs (TimerStep ⟨2, 3, by decide⟩) ReturnInStep TimerSys.initial _ :=
    ((((Runs.refl.snoc trivial (@TimerStep.init _ _ _ 7 5 ⟨false, true, false⟩ rfl)).snoc
      trivial (.start (t := 7) rfl)).snoc trivial (.tick 5)).snoc trivial
        (.check (k := .hard) rfl (by simp))).snoc
          (by intro t ht _ _; obtain rfl := Option.some.inj ht; rfl)
          (.ret (k := .hard) (t := 7) rfl (by simp) rfl)
  exact ⟨_, rfl, (activated_iff_linked _ _ hrun (by intro k; cases k <;> rfl) 7).mp rfl⟩

/-- **The flag stays behind.** The timeout function of a periodic timer makes it a one-shot
timer and returns: the timer keeps its flag and is in no list. -/
theorem activated_not_linked : ∃ s : TimerSys,
    Runs (TimerStep ⟨1, 3, by decide⟩) Runs.always TimerSys.initial s ∧
    (∀ k, s.running k = none) ∧ (s.timer 7).flag.activated = true ∧
    ¬ s.Linked ⟨1, 3, by decide⟩ 7 := by
  have hrun : Runs (TimerStep ⟨1, 3, by decide⟩) Runs.always TimerSys.initial _ :=
    (((((Runs.refl.snoc trivial
      (@TimerStep.init _ _ _ 7 5 ⟨false, true, false⟩ rfl)).snoc
      trivial (.start (t := 7) rfl)).snoc trivial (.tick 5)).snoc trivial
        (.check (k := .hard) rfl (by simp))).snoc trivial
          (@TimerStep.control _ _ _ 7 .setOneshot _ rfl)).snoc trivial
            (.ret (k := .hard) (t := 7) rfl (by simp) rfl)
  refine ⟨_, hrun, by intro k; cases k <;> rfl, rfl, ?_⟩
  rintro ⟨k, r, hr, hmem⟩
  obtain rfl : r = 0 := by
    have hr : r < 1 := hr
    omega
  cases k <;> cases hmem

end Step

end RTThread
