import RTThread.Kernel.TimerFrame
import RTThread.Lib.Runs

/-!
# Timers: the order of the rows

`rt_timer_start` compares time-outs by the difference of two 32-bit words
against half their range, which is no order. It is one on every window of half
the range: as long as the time-outs of the linked timers lie between one tick
before and `RT_TICK_MAX / 2 - 1` ticks after the current tick, the test of the
search says that a timer has more time left (`stopsAt_iff`), and it is late in
the sense the skip list needs.

## Main results

* `rows_sorted` : in every run with the time-outs in the window the rows are
  nested and sorted by the remaining time, then by the order of the starts, and
  the first timer of a list has the least time left.
-/

namespace RTThread

-- --------
-- Time left
-- --------

namespace TimerSys

/-- Ticks from one tick ago to the time-out of a timer, modulo `2 ^ 32`. -/
def lead (s : TimerSys) (t : TimerId) : Nat :=
  Word32.sub (s.timer t).timeoutTick (Word32.sub s.rtTickGet 1)

/-- The remaining time of a timer: `-1` if it ran out one tick ago. -/
def remaining (s : TimerSys) (t : TimerId) : Int := s.lead t - 1

/-- The first timer has less time left, or as much and was started earlier. -/
def Earlier (s : TimerSys) (t u : TimerId) : Prop :=
  s.remaining t < s.remaining u ∨
    s.remaining t = s.remaining u ∧ (s.timer t).startNo < (s.timer u).startNo

/-- The time-outs of the linked timers lie in `[now - 1, now + RT_TICK_MAX / 2 - 1]`. -/
def InWindow (cfg : SkipListCfg) (s : TimerSys) : Prop :=
  ∀ k, ∀ t ∈ s.list k cfg.bottom, s.remaining t ≤ rtTickMax / 2 - 1

instance (cfg : SkipListCfg) (s : TimerSys) : Decidable (s.InWindow cfg) :=
  decidable_of_iff ((∀ t ∈ s.list .hard cfg.bottom, s.remaining t ≤ rtTickMax / 2 - 1) ∧
      ∀ t ∈ s.list .soft cfg.bottom, s.remaining t ≤ rtTickMax / 2 - 1)
    ⟨fun h k => match k with | .hard => h.1 | .soft => h.2, fun h => ⟨h .hard, h .soft⟩⟩

/-- The bottom rows are sorted. -/
def Ordered (cfg : SkipListCfg) (s : TimerSys) : Prop :=
  ∀ k, (s.list k cfg.bottom).Pairwise s.Earlier

/-- The linked timers were started before now. -/
def Numbered (cfg : SkipListCfg) (s : TimerSys) : Prop :=
  ∀ k, ∀ t ∈ s.list k cfg.bottom, (s.timer t).startNo ≤ s.starts

end TimerSys

section Time

variable {cfg : SkipListCfg} {s s' : TimerSys} {t u : TimerId} {k : TimerKind}

theorem lead_congr (hticks : s'.ticks = s.ticks)
    (htime : (s'.timer t).timeoutTick = (s.timer t).timeoutTick) : s'.lead t = s.lead t := by
  rw [TimerSys.lead, TimerSys.lead, TimerSys.rtTickGet, TimerSys.rtTickGet, hticks, htime]

theorem Shrunk.lead (h : Shrunk cfg s s') (ht : t ∈ s'.list k cfg.bottom) :
    s'.lead t = s.lead t :=
  lead_congr h.ticks (h.timeoutTick ht)

theorem Shrunk.inWindow (h : Shrunk cfg s s') (hw : s.InWindow cfg) : s'.InWindow cfg := by
  intro k t ht
  rw [TimerSys.remaining, h.lead ht]
  exact hw k t ((h.list k).subset ht)

theorem Shrunk.ordered (h : Shrunk cfg s s') (ho : s.Ordered cfg) : s'.Ordered cfg := by
  intro k
  have hsub := List.Pairwise.sublist (h.list k) (ho k)
  apply List.Pairwise.imp_of_mem _ hsub
  intro a b ha hb hab
  rw [TimerSys.Earlier, TimerSys.remaining, TimerSys.remaining, h.lead ha, h.lead hb,
    h.startNo ha, h.startNo hb]
  exact hab

theorem Shrunk.numbered (h : Shrunk cfg s s') (hn : s.Numbered cfg) : s'.Numbered cfg := by
  intro k t ht
  rw [h.startNo ht, h.starts]
  exact hn k t ((h.list k).subset ht)

-- --------
-- Time goes on
-- --------

theorem lead_tick (s : TimerSys) (t : TimerId) (n : Nat) :
    ({ s with ticks := s.ticks + n } : TimerSys).lead t = Word32.sub (s.lead t) n :=
  Word32.sub_sub_add _ _ _

theorem lead_of_remaining (h : s.remaining t ≤ rtTickMax / 2 - 1) : s.lead t < 2 ^ 31 := by
  rw [TimerSys.remaining, show ((rtTickMax : Nat) : Int) / 2 = 2147483647 by decide] at h
  omega

/-- While two timers stay in the window they do not change places. -/
theorem earlier_tick {n : Nat} (hu : s.remaining u ≤ rtTickMax / 2 - 1)
    (ht' : ({ s with ticks := s.ticks + n } : TimerSys).remaining t ≤ rtTickMax / 2 - 1)
    (hu' : ({ s with ticks := s.ticks + n } : TimerSys).remaining u ≤ rtTickMax / 2 - 1)
    (h : s.Earlier t u) : ({ s with ticks := s.ticks + n } : TimerSys).Earlier t u := by
  have hlu := lead_of_remaining hu
  have hlt' := lead_of_remaining ht'
  have hlu' := lead_of_remaining hu'
  rw [lead_tick] at hlt' hlu'
  rcases h with h | ⟨h, hno⟩
  · have hlt : s.lead t < s.lead u := by
      unfold TimerSys.remaining at h
      omega
    have := Word32.sub_lt_sub hlu hlu' hlt hlt'
    refine Or.inl ?_
    rw [TimerSys.remaining, TimerSys.remaining, lead_tick, lead_tick]
    omega
  · have heq : s.lead t = s.lead u := by
      unfold TimerSys.remaining at h
      omega
    refine Or.inr ⟨?_, hno⟩
    rw [TimerSys.remaining, TimerSys.remaining, lead_tick, lead_tick, heq]

theorem ordered_tick {n : Nat} (hw : s.InWindow cfg)
    (hw' : ({ s with ticks := s.ticks + n } : TimerSys).InWindow cfg) (ho : s.Ordered cfg) :
    ({ s with ticks := s.ticks + n } : TimerSys).Ordered cfg := by
  intro k
  apply List.Pairwise.imp_of_mem _ (ho k)
  intro a b ha hb hab
  exact earlier_tick (hw k b hb) (hw' k a ha) (hw' k b hb) hab

-- --------
-- A timer is started
-- --------

theorem timerArm_timeoutTick (s : TimerSys) (t : TimerId) : ((timerArm s t).timer t).timeoutTick =
    Word32.add s.rtTickGet (s.timer t).initTick := by
  rw [timerArm, TimerSys.setTimer_timer_self, TimerSys.stopped_timer_self]
  rfl

theorem timerArm_lead (hinit : (s.timer t).initTick < rtTickMax / 2) :
    (timerArm s t).lead t = (s.timer t).initTick + 1 := by
  have hget : (timerArm s t).rtTickGet = s.rtTickGet := rfl
  have hmax : rtTickMax / 2 < 2 ^ 31 := by decide
  rw [TimerSys.lead, timerArm_timeoutTick, hget]
  exact Word32.sub_add_sub_one (by omega)

theorem timerArm_lead_of_ne (h : u ≠ t) : (timerArm s t).lead u = s.lead u :=
  lead_congr rfl (by rw [timerArm_timer_of_ne h])

/-- **The test of the search.** In the window it says that a timer has more time left. -/
theorem stopsAt_iff (hinit : (s.timer t).initTick < rtTickMax / 2) (hut : u ≠ t)
    (hu : s.remaining u ≤ rtTickMax / 2 - 1) :
    (timerArm s t).stopsAt t u = true ↔ (s.timer t).initTick + 1 < s.lead u := by
  have hlu := lead_of_remaining hu
  have hmax : rtTickMax / 2 = 2147483647 := by decide
  -- both time-outs are seen from one tick ago
  have hdiff : Word32.sub ((timerArm s t).timer u).timeoutTick
      ((timerArm s t).timer t).timeoutTick = Word32.sub (s.lead u) ((s.timer t).initTick + 1) := by
    rw [← timerArm_lead hinit, ← timerArm_lead_of_ne hut]
    exact (Word32.sub_sub_sub _ _ _).symm
  rw [TimerSys.stopsAt, hdiff, hmax]
  rw [hmax] at hinit
  by_cases hle : (s.timer t).initTick + 1 ≤ s.lead u
  · rw [Word32.sub_of_le hle (by omega)]
    by_cases heq : s.lead u - ((s.timer t).initTick + 1) = 0
    · rw [if_pos heq]
      simp only [Bool.false_eq_true, false_iff]
      omega
    · rw [if_neg heq, decide_eq_true_eq]
      omega
  · rw [Word32.sub_of_lt (by omega) (by omega), if_neg (by omega), decide_eq_true_eq]
    omega

theorem timerStart_lead_of_ne (h : u ≠ t) : (timerStart cfg s t).lead u = s.lead u :=
  lead_congr rfl (by rw [timerStart_timer_of_ne h])

theorem timerStart_lead (hinit : (s.timer t).initTick < rtTickMax / 2) :
    (timerStart cfg s t).lead t = (s.timer t).initTick + 1 := by
  have hticks : (timerStart cfg s t).ticks = (timerArm s t).ticks := rfl
  rw [← timerArm_lead hinit]
  apply lead_congr hticks
  rw [timerStart_timer_self, timerArm_timeoutTick]

theorem timerStart_earlier {a b : TimerId} (ha : a ≠ t) (hb : b ≠ t) (h : s.Earlier a b) :
    (timerStart cfg s t).Earlier a b := by
  rw [TimerSys.Earlier, TimerSys.remaining, TimerSys.remaining, timerStart_lead_of_ne ha,
    timerStart_lead_of_ne hb, timerStart_timer_of_ne ha, timerStart_timer_of_ne hb]
  exact h

/-- **Starting a timer.** In the window the lists stay in order. -/
theorem ordered_timerStart (hinv : TimerInv cfg s) (hobj : (s.timer t).object = true)
    (hw : s.InWindow cfg) (hn : s.Numbered cfg) (ho : s.Ordered cfg) :
    (timerStart cfg s t).Ordered cfg := by
  intro k
  have hinit := hinv.initTick hobj
  have hnd := hinv.bottom_nodup k
  -- what the search sees of the timers in the row
  have hne : ∀ a ∈ (s.list k cfg.bottom).erase t, a ≠ t := fun a ha => (hnd.mem_erase_iff.mp ha).1
  have hin : ∀ a ∈ (s.list k cfg.bottom).erase t, a ∈ s.list k cfg.bottom :=
    fun a ha => List.mem_of_mem_erase ha
  have hstop : ∀ a ∈ (s.list k cfg.bottom).erase t, (timerArm s t).stopsAt t a = true ↔
      (s.timer t).initTick + 1 < s.lead a :=
    fun a ha => stopsAt_iff hinit (hne a ha) (hw k a (hin a ha))
  have hrow : ((s.list k cfg.bottom).erase t).Pairwise s.Earlier :=
    List.Pairwise.sublist List.erase_sublist (ho k)
  apply timerStart_pairwise hinv (fun _ => rfl)
  · apply List.Pairwise.imp_of_mem _ hrow
    intro a b ha hb hab
    exact timerStart_earlier (hne a ha) (hne b hb) hab
  · apply List.Pairwise.imp_of_mem _ hrow
    intro a b ha hb hab hsa
    rw [hstop a ha] at hsa
    rw [hstop b hb]
    have hle : s.lead a ≤ s.lead b := by
      unfold TimerSys.Earlier TimerSys.remaining at hab
      omega
    omega
  · -- with equal time-outs the new timer was started later
    intro a ha hsa
    have hle : ¬ (s.timer t).initTick + 1 < s.lead a := by
      rw [← hstop a ha, hsa]
      simp
    have hno := hn k a (hin a ha)
    rw [TimerSys.Earlier, TimerSys.remaining, TimerSys.remaining, timerStart_lead hinit,
      timerStart_lead_of_ne (hne a ha), timerStart_timer_of_ne (hne a ha), timerStart_timer_self]
    dsimp only
    omega
  · intro b hb hsb
    rw [hstop b hb] at hsb
    rw [TimerSys.Earlier, TimerSys.remaining, TimerSys.remaining, timerStart_lead hinit,
      timerStart_lead_of_ne (hne b hb)]
    omega

theorem numbered_timerStart (hinv : TimerInv cfg s) (hn : s.Numbered cfg) :
    (timerStart cfg s t).Numbered cfg := by
  intro k u hu
  have hstarts : (timerStart cfg s t).starts = s.starts + 1 := rfl
  rw [hstarts]
  rcases (timerStart_mem hinv).mp hu with ⟨rfl, -⟩ | ⟨hut, hu⟩
  · rw [timerStart_timer_self]
  · rw [timerStart_timer_of_ne hut]
    have := hn k u hu
    omega

-- --------
-- The step and the run
-- --------

/-- The invariant of the runs: in the window the lists are in order. -/
structure OrderInv (cfg : SkipListCfg) (s : TimerSys) : Prop where
  nodes : TimerInv cfg s
  numbered : s.Numbered cfg
  ordered : s.InWindow cfg → s.Ordered cfg

/-- **A step** in the window keeps the rows in order. -/
theorem OrderInv.step (h : OrderInv cfg s) {a : TimerAct} (hw : s.InWindow cfg)
    (hs : TimerStep cfg s a s') : OrderInv cfg s' := by
  have ho := h.ordered hw
  have hnodes := h.nodes.step hs
  rcases step_cases h.nodes hs with ⟨n, -, rfl⟩ | hsh | ⟨s₁, t, -, hsame, hinv₁, hobj, hsh⟩
  · exact ⟨hnodes, h.numbered, fun hw' => ordered_tick hw hw' ho⟩
  · exact ⟨hnodes, hsh.numbered h.numbered, fun _ => hsh.ordered ho⟩
  · have hsh₁ : Shrunk cfg s s₁ := hsame.shrunk
    have hn₁ := hsh₁.numbered h.numbered
    have ho₁ := ordered_timerStart hinv₁ hobj (hsh₁.inWindow hw) hn₁ (hsh₁.ordered ho)
    exact ⟨hnodes, hsh.numbered (numbered_timerStart hinv₁ hn₁), fun _ => hsh.ordered ho₁⟩

/-- **The rows are sorted.** In every run in which the time-outs of the linked timers stay in
the window, each row is sorted by the remaining time and then by the order of the starts, each
row is a sublist of the row below, and the first timer of a list has the least time left. -/
theorem rows_sorted (cfg : SkipListCfg) (s : TimerSys)
    (hrun : Runs (TimerStep cfg) (fun s _ => s.InWindow cfg) TimerSys.initial s)
    (hw : s.InWindow cfg) (k : TimerKind) :
    (∀ r < cfg.level, (s.list k r).Pairwise s.Earlier) ∧
    (∀ r, r + 1 < cfg.level → (s.list k r).Sublist (s.list k (r + 1))) ∧
    ∀ t ∈ (s.list k cfg.bottom).head?, ∀ u ∈ s.list k cfg.bottom,
      s.remaining t ≤ s.remaining u := by
  have hinv : OrderInv cfg s := by
    apply Runs.invariant _ hrun
    · refine ⟨TimerInv.initial cfg, ?_, fun _ _ => List.Pairwise.nil⟩
      intro k t ht
      cases ht
    · intro s a s' hs hok hstep
      exact hs.step hok hstep
  have hsorted := hinv.ordered hw k
  refine ⟨fun r hr => ?_, (hinv.nodes.rows k).nested, ?_⟩
  · exact List.Pairwise.sublist ((hinv.nodes.rows k).sublist_bottom hr) hsorted
  · intro t ht u hu
    cases hl : s.list k cfg.bottom with
    | nil =>
      rw [hl] at hu
      cases hu
    | cons v rest =>
      rw [hl] at ht hu hsorted
      obtain rfl : v = t := Option.some.inj ht
      rcases List.mem_cons.mp hu with rfl | hu
      · exact le_refl _
      · have := (List.pairwise_cons.mp hsorted).1 u hu
        unfold TimerSys.Earlier at this
        omega

/-- Two timers across the wrap of the tick counter: the one with less time left goes first. -/
theorem rows_sorted_run : ∃ s : TimerSys, s.rtTickGet = 2 ^ 32 - 2 ∧
    s.list .hard 0 = [2, 1] ∧ s.remaining 2 ≤ s.remaining 1 := by
  have hrun : Runs (TimerStep ⟨1, 3, by decide⟩) (fun s _ => s.InWindow ⟨1, 3, by decide⟩)
      TimerSys.initial _ :=
    ((((Runs.refl.snoc (by decide)
      (@TimerStep.init _ _ _ 1 5 ⟨false, false, false⟩ rfl)).snoc (by decide)
      (@TimerStep.init _ _ _ 2 1 ⟨false, false, false⟩ rfl)).snoc
      (by decide) (.tick (2 ^ 32 - 2))).snoc (by decide) (.start (t := 1) rfl)).snoc
      (by decide) (.start (t := 2) rfl)
  have hsorted := rows_sorted _ _ hrun (by decide) .hard
  exact ⟨_, by decide, by decide, hsorted.2.2 2 (by decide) 1 (by decide)⟩

end Time

end RTThread
