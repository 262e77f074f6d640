import RTThread.Kernel.TimerFrame
import RTThread.Lib.Runs

/-!
# Soft timers that are late

A soft timer stays linked after it has run out until the timer thread gets to
it, at most `RT_TICK_MAX / 2` ticks later. A timer started in the meantime runs
out at most `RT_TICK_MAX / 2` ticks from now, so the two time-outs may be almost
`RT_TICK_MAX` ticks apart, and the test of `rt_timer_start` takes distances from
`2 ^ 32 - RT_TICK_MAX / 2` on for negative ones: the new timer goes in front of
the one that is due, and `rt_soft_timer_check` stops at it.

## Main results

* `soft_due_first` : if every start finds the first timer it has to walk over
  less than that distance behind, no due timer is behind one that is not, and
  `rt_soft_timer_check` leaves no due timer.
* `soft_due_behind` : a run in which it leaves one.
-/

namespace RTThread

section Soft

variable {cfg : SkipListCfg} {s s' : TimerSys} {t u : TimerId}

/-- Half the range of the tick counter. -/
abbrev halfRange : Nat := rtTickMax / 2

/-- The time at which a timer runs out if it is started now. -/
def TimerSys.newExpiry (s : TimerSys) (t : TimerId) : Nat := s.ticks + (s.timer t).initTick

/-- The timers behind a linked soft timer have not run out unless it has. -/
def DueFirst (cfg : SkipListCfg) (s : TimerSys) : Prop :=
  (s.list .soft cfg.bottom).Pairwise fun a b =>
    (s.timer b).expiry ≤ s.ticks → (s.timer a).expiry ≤ s.ticks

/-- The first timer of the topmost row that does not start with a later time-out runs out at
most `2 ^ 32 - RT_TICK_MAX / 2` ticks before the timer that is started. -/
def SearchFits (cfg : SkipListCfg) (s : TimerSys) (t : TimerId) : Prop :=
  ∀ r < cfg.level,
    (∀ r' < r, ∀ g ∈ ((s.list .soft r').erase t).head?, s.newExpiry t < (s.timer g).expiry) →
    ∀ f ∈ ((s.list .soft r).erase t).head?, (s.timer f).expiry ≤ s.newExpiry t →
      s.newExpiry t ≤ (s.timer f).expiry + (2 ^ 32 - halfRange)

instance (cfg : SkipListCfg) (s : TimerSys) (t : TimerId) : Decidable (SearchFits cfg s t) :=
  inferInstanceAs (Decidable (∀ r < cfg.level,
    (∀ r' < r, ∀ g ∈ ((s.list .soft r').erase t).head?, s.newExpiry t < (s.timer g).expiry) →
    ∀ f ∈ ((s.list .soft r).erase t).head?, (s.timer f).expiry ≤ s.newExpiry t →
      s.newExpiry t ≤ (s.timer f).expiry + (2 ^ 32 - halfRange)))

/-- The timer thread is delayed by less than `RT_TICK_MAX / 2` ticks. -/
def DelayBounded (cfg : SkipListCfg) (s : TimerSys) : TimerAct → Prop
  | .tick n => ∀ t ∈ s.list .soft cfg.bottom, s.ticks + n < (s.timer t).expiry + halfRange
  | _ => True

instance (cfg : SkipListCfg) (s : TimerSys) (n : Nat) : Decidable (DelayBounded cfg s (.tick n)) :=
  inferInstanceAs (Decidable
    (∀ t ∈ s.list .soft cfg.bottom, s.ticks + n < (s.timer t).expiry + halfRange))

/-- Every soft timer that is started finds the list as `SearchFits` says. -/
def StartFits (cfg : SkipListCfg) (s : TimerSys) (a : TimerAct) : Prop :=
  ∀ t, StartedBy s a t → (s.timer t).kind = .soft → SearchFits cfg s t

-- --------
-- The invariant
-- --------

/-- The linked soft timers: the time-out is a word of the unwrapped one, neither more than half
the range in the past nor in the future. -/
structure SoftTimes (cfg : SkipListCfg) (s : TimerSys) : Prop where
  word : ∀ t ∈ s.list .soft cfg.bottom, (s.timer t).timeoutTick = (s.timer t).expiry % 2 ^ 32
  lag : ∀ t ∈ s.list .soft cfg.bottom, s.ticks < (s.timer t).expiry + halfRange
  ahead : ∀ t ∈ s.list .soft cfg.bottom, (s.timer t).expiry < s.ticks + halfRange

/-- The soft timers are sorted by the unwrapped time-out. -/
def SoftOrdered (cfg : SkipListCfg) (s : TimerSys) : Prop :=
  (s.list .soft cfg.bottom).Pairwise fun a b => (s.timer a).expiry ≤ (s.timer b).expiry

theorem SoftOrdered.dueFirst (h : SoftOrdered cfg s) : DueFirst cfg s := by
  apply List.Pairwise.imp _ h
  intro a b hab hb
  omega

/-- The test of the check says that the timer has run out. -/
theorem isDue_iff (h : SoftTimes cfg s) (ht : t ∈ s.list .soft cfg.bottom) :
    s.isDue t = true ↔ (s.timer t).expiry ≤ s.ticks := by
  have hlag := h.lag t ht
  have hahead := h.ahead t ht
  have hhalf : halfRange = 2147483647 := by decide
  rw [hhalf] at hlag hahead
  rw [TimerSys.isDue, TimerSys.rtTickGet, h.word t ht, decide_eq_true_eq,
    show rtTickMax / 2 = 2147483647 from hhalf]
  by_cases hle : (s.timer t).expiry ≤ s.ticks
  · rw [Word32.sub_mod_of_le hle (by omega)]
    omega
  · rw [Word32.sub_mod_of_lt (by omega) (by omega)]
    omega

theorem Shrunk.softTimes (h : Shrunk cfg s s') (hs : SoftTimes cfg s) : SoftTimes cfg s' where
  word t ht := by
    rw [h.timeoutTick ht, h.expiry ht]
    exact hs.word t ((h.list .soft).subset ht)
  lag t ht := by
    rw [h.expiry ht, h.ticks]
    exact hs.lag t ((h.list .soft).subset ht)
  ahead t ht := by
    rw [h.expiry ht, h.ticks]
    exact hs.ahead t ((h.list .soft).subset ht)

theorem Shrunk.softOrdered (h : Shrunk cfg s s') (hs : SoftOrdered cfg s) : SoftOrdered cfg s' := by
  apply List.Pairwise.imp_of_mem _ (List.Pairwise.sublist (h.list .soft) hs)
  intro a b ha hb hab
  rw [h.expiry ha, h.expiry hb]
  exact hab

-- --------
-- Starting a timer
-- --------

theorem timerArm_word (s : TimerSys) (t : TimerId) :
    ((timerArm s t).timer t).timeoutTick = s.newExpiry t % 2 ^ 32 := by
  rw [timerArm, TimerSys.setTimer_timer_self, TimerSys.stopped_timer_self]
  exact Word32.add_mod _ _

/-- **The test of the search.** It stops at the timers that run out later, and at those that
ran out too long before. -/
theorem stopsAt_soft (hs : SoftTimes cfg s) (hinit : (s.timer t).initTick < halfRange)
    (hu : u ∈ s.list .soft cfg.bottom) (hut : u ≠ t) : (timerArm s t).stopsAt t u = true ↔
      s.newExpiry t < (s.timer u).expiry ∨
      (s.timer u).expiry + (2 ^ 32 - halfRange) < s.newExpiry t := by
  have hlag := hs.lag u hu
  have hahead := hs.ahead u hu
  have hhalf : halfRange = 2147483647 := by decide
  have hnew : s.newExpiry t = s.ticks + (s.timer t).initTick := rfl
  rw [TimerSys.stopsAt, timerArm_word, timerArm_timer_of_ne hut, hs.word u hu]
  rw [hhalf] at hlag hahead hinit
  rw [show rtTickMax / 2 = 2147483647 from hhalf, hhalf]
  by_cases hle : s.newExpiry t ≤ (s.timer u).expiry
  · rw [Word32.sub_mod_of_le hle (by omega)]
    by_cases heq : (s.timer u).expiry - s.newExpiry t = 0
    · rw [if_pos heq]
      simp only [Bool.false_eq_true, false_iff]
      omega
    · rw [if_neg heq, decide_eq_true_eq]
      omega
  · rw [Word32.sub_mod_of_lt (by omega) (by omega), if_neg (by omega), decide_eq_true_eq]
    omega

/-- Starting a timer keeps the time-outs near the current tick. -/
theorem softTimes_timerStart (hinv : TimerInv cfg s) (hs : SoftTimes cfg s)
    (hinit : (s.timer t).initTick < halfRange) : SoftTimes cfg (timerStart cfg s t) := by
  have hticks : (timerStart cfg s t).ticks = s.ticks := rfl
  have hpos : 0 < halfRange := by decide
  constructor
  · intro u hu
    rcases (timerStart_mem hinv).mp hu with ⟨rfl, -⟩ | ⟨hut, hu⟩
    · rw [timerStart_timer_self]
      exact Word32.add_mod _ _
    · rw [timerStart_timer_of_ne hut]
      exact hs.word u hu
  · intro u hu
    rw [hticks]
    rcases (timerStart_mem hinv).mp hu with ⟨rfl, -⟩ | ⟨hut, hu⟩
    · rw [timerStart_timer_self]
      dsimp only
      omega
    · rw [timerStart_timer_of_ne hut]
      exact hs.lag u hu
  · intro u hu
    rw [hticks]
    rcases (timerStart_mem hinv).mp hu with ⟨rfl, -⟩ | ⟨hut, hu⟩
    · rw [timerStart_timer_self]
      dsimp only
      omega
    · rw [timerStart_timer_of_ne hut]
      exact hs.ahead u hu

theorem soft_row (hinv : TimerInv cfg s) {a : TimerId}
    (ha : a ∈ (s.list .soft cfg.bottom).erase t) : a ≠ t ∧ a ∈ s.list .soft cfg.bottom :=
  (hinv.bottom_nodup .soft).mem_erase_iff.mp ha

/-- The search with the test of the code is the one by unwrapped time-outs. -/
theorem soft_search (hinv : TimerInv cfg s) (hs : SoftTimes cfg s) (ho : SoftOrdered cfg s)
    (hinit : (s.timer t).initTick < halfRange) (hfit : SearchFits cfg s t) :
    SkipList.rowHead ((timerArm s t).stopsAt t) (fun r => (s.list .soft r).erase t) cfg.bottom =
      SkipList.rowHead (fun u => decide (s.newExpiry t < (s.timer u).expiry))
        (fun r => (s.list .soft r).erase t) cfg.bottom := by
  have hbot := cfg.bottom_succ
  have hrows := (hinv.rows .soft).erase t
  have hstop : ∀ a ∈ (s.list .soft cfg.bottom).erase t, (timerArm s t).stopsAt t a = true ↔
      s.newExpiry t < (s.timer a).expiry ∨
      (s.timer a).expiry + (2 ^ 32 - halfRange) < s.newExpiry t := by
    intro a ha
    obtain ⟨hat, ha⟩ := soft_row hinv ha
    exact stopsAt_soft hs hinit ha hat
  apply hrows.rowHead_eq _ _ (by omega)
  · -- the timers it mistakes are the ones that ran out first
    constructor
    · intro a ha hlater
      exact (hstop a ha).mpr (Or.inl (of_decide_eq_true hlater))
    · apply List.Pairwise.imp_of_mem _ (List.Pairwise.sublist List.erase_sublist ho)
      intro a b ha hb hab hm
      have hb1 := (hstop b hb).mp hm.1
      have hb2 := of_decide_eq_false hm.2
      exact ⟨(hstop a ha).mpr (Or.inr (by omega)), decide_eq_false (by omega)⟩
  · intro r hr habove f hf hwalk
    have hmem : f ∈ (s.list .soft cfg.bottom).erase t :=
      (hrows.sublist_bottom hr).subset (List.mem_of_head? hf)
    have hle := of_decide_eq_false hwalk
    have hfit := hfit r hr (fun r' hr' g hg => of_decide_eq_true (habove r' hr' g hg)) f hf
      (by omega)
    rw [← Bool.not_eq_true, hstop f hmem]
    omega

/-- **A start keeps the order** if the search fits. -/
theorem softOrdered_timerStart (hinv : TimerInv cfg s) (hs : SoftTimes cfg s)
    (ho : SoftOrdered cfg s) (hinit : (s.timer t).initTick < halfRange)
    (hfit : (s.timer t).kind = .soft → SearchFits cfg s t) :
    SoftOrdered cfg (timerStart cfg s t) := by
  have hrow : ((s.list .soft cfg.bottom).erase t).Pairwise fun a b =>
      (s.timer a).expiry ≤ (s.timer b).expiry := List.Pairwise.sublist List.erase_sublist ho
  have hself : ((timerStart cfg s t).timer t).expiry = s.newExpiry t := by
    rw [timerStart_timer_self]
    rfl
  have hother : ∀ a ∈ (s.list .soft cfg.bottom).erase t,
      ((timerStart cfg s t).timer a).expiry = (s.timer a).expiry := by
    intro a ha
    rw [timerStart_timer_of_ne (soft_row hinv ha).1]
  apply timerStart_pairwise hinv
    (fun hk => soft_search hinv hs ho hinit (hfit hk.symm))
  · apply List.Pairwise.imp_of_mem _ hrow
    intro a b ha hb hab
    rw [hother a ha, hother b hb]
    exact hab
  · apply List.Pairwise.imp_of_mem _ hrow
    intro a b _ _ hab ha
    have ha := of_decide_eq_true ha
    exact decide_eq_true (by omega)
  · intro a ha hle
    have hle := of_decide_eq_false hle
    rw [hother a ha, hself]
    omega
  · intro b hb hlt
    have hlt := of_decide_eq_true hlt
    rw [hother b hb, hself]
    omega

theorem head_le {R : TimerId → TimerId → Prop} {l : List TimerId} (h : l.Pairwise R) {a b : TimerId}
    (ha : a ∈ l.head?) (hb : b ∈ l) : b = a ∨ R a b := by
  cases l with
  | nil => cases hb
  | cons c cs =>
    obtain rfl : c = a := Option.some.inj ha
    rcases List.mem_cons.mp hb with rfl | hb
    · exact Or.inl rfl
    · exact Or.inr ((List.pairwise_cons.mp h).1 b hb)

-- --------
-- The step and the run
-- --------

/-- The invariant of the runs. -/
structure SoftInv (cfg : SkipListCfg) (s : TimerSys) : Prop where
  nodes : TimerInv cfg s
  times : SoftTimes cfg s
  ordered : SoftOrdered cfg s

theorem SearchFits.of_sameTimes {s₁ : TimerSys} (h : SameTimes s s₁) (hfit : SearchFits cfg s t) :
    SearchFits cfg s₁ t := by
  intro r hr
  simp only [TimerSys.newExpiry, h.list, h.ticks, h.initTick, h.expiry]
  exact hfit r hr

/-- **A step** keeps the invariant of the soft timers. -/
theorem SoftInv.step (h : SoftInv cfg s) {a : TimerAct} (hdelay : DelayBounded cfg s a)
    (hfit : StartFits cfg s a) (hs : TimerStep cfg s a s') : SoftInv cfg s' := by
  have hnodes := h.nodes.step hs
  rcases step_cases h.nodes hs with ⟨n, rfl, rfl⟩ | hsh | ⟨s₁, t, hst, hsame, hinv₁, hobj, hsh⟩
  · refine ⟨hnodes, ⟨h.times.word, hdelay, fun t ht => ?_⟩, h.ordered⟩
    have := h.times.ahead t ht
    show (s.timer t).expiry < s.ticks + n + halfRange
    omega
  · exact ⟨hnodes, hsh.softTimes h.times, hsh.softOrdered h.ordered⟩
  · have hsh₁ : Shrunk cfg s s₁ := hsame.shrunk
    have htimes := hsh₁.softTimes h.times
    have hinit := hinv₁.initTick hobj
    have hfit₁ : (s₁.timer t).kind = .soft → SearchFits cfg s₁ t := fun hk =>
      (hfit t hst ((hsame.kind t).symm.trans hk)).of_sameTimes hsame
    have ho := softOrdered_timerStart hinv₁ htimes (hsh₁.softOrdered h.ordered) hinit hfit₁
    have htimes' := softTimes_timerStart hinv₁ htimes hinit
    exact ⟨hnodes, hsh.softTimes htimes', hsh.softOrdered ho⟩

/-- **Due timers come first.** The timer thread is delayed by less than half the range and every
start of a soft timer finds the list as `SearchFits` says: then no timer that has run out is
behind one that has not, and when the loop of `rt_soft_timer_check` ends no linked soft timer
has run out. -/
theorem soft_due_first (cfg : SkipListCfg) (s : TimerSys)
    (hrun : Runs (TimerStep cfg) (fun s a => DelayBounded cfg s a ∧ StartFits cfg s a)
      TimerSys.initial s) :
    DueFirst cfg s ∧ ((checkHead cfg s .soft).running .soft = none →
      ∀ t ∈ (checkHead cfg s .soft).list .soft cfg.bottom, s.ticks < (s.timer t).expiry) := by
  have hinv : SoftInv cfg s := by
    apply Runs.invariant _ hrun
    · refine ⟨TimerInv.initial cfg, ⟨?_, ?_, ?_⟩, List.Pairwise.nil⟩ <;>
        (intro t ht; cases ht)
    · intro s a s' hs hok hstep
      exact hs.step hok.1 hok.2 hstep
  refine ⟨hinv.ordered.dueFirst, fun hnone t ht => ?_⟩
  rcases TimerInv.checkHead_cases cfg s .soft with ⟨heq, hhead⟩ | ⟨u, rest, -, -, heq⟩
  · -- the loop stopped at the first timer, which has not run out
    rw [heq] at ht
    have ht : t ∈ s.list .soft cfg.bottom := ht
    obtain ⟨f, hf⟩ : ∃ f, f ∈ (s.list .soft cfg.bottom).head? := by
      cases hl : s.list .soft cfg.bottom with
      | nil =>
        rw [hl] at ht
        cases ht
      | cons f fs => exact ⟨f, rfl⟩
    have hnd := hhead f hf
    have hfe : ¬ (s.timer f).expiry ≤ s.ticks := by
      rw [← isDue_iff hinv.times (List.mem_of_head? hf), hnd]
      simp
    rcases head_le hinv.ordered hf ht with rfl | hle <;> omega
  · rw [heq] at hnone
    simp [TimerSys.hold] at hnone

/-- A timer four ticks late stays in front of one that starts with three ticks less than the
longest time-out. -/
theorem soft_due_first_run : ∃ s : TimerSys, s.list .soft 0 = [1, 2] ∧
    (s.timer 1).expiry ≤ s.ticks ∧ s.ticks < (s.timer 2).expiry ∧ DueFirst ⟨1, 3, by decide⟩ s := by
  have hstart : ∀ (s : TimerSys) (t : TimerId), SearchFits ⟨1, 3, by decide⟩ s t →
      StartFits ⟨1, 3, by decide⟩ s (.start t) := by
    rintro s t hfit u rfl -
    exact hfit
  have hno : ∀ (s : TimerSys) (a : TimerAct), (∀ t, ¬ StartedBy s a t) →
      StartFits ⟨1, 3, by decide⟩ s a := fun s a h t ht => absurd ht (h t)
  have hrun : Runs (TimerStep ⟨1, 3, by decide⟩)
      (fun s a => DelayBounded ⟨1, 3, by decide⟩ s a ∧ StartFits ⟨1, 3, by decide⟩ s a)
      TimerSys.initial _ :=
    ((((Runs.refl.snoc (by exact ⟨trivial, hno _ _ fun _ h => h⟩)
      (@TimerStep.init _ _ _ 1 1 ⟨false, false, true⟩ rfl)).snoc
      (by exact ⟨trivial, hno _ _ fun _ h => h⟩)
      (@TimerStep.init _ _ _ 2 (2 ^ 31 - 5) ⟨false, false, true⟩ rfl)).snoc
      (by exact ⟨trivial, hstart _ _ (by decide)⟩) (.start (t := 1) rfl)).snoc
      (by exact ⟨by decide, hno _ _ fun _ h => h⟩) (.tick 5)).snoc
      (by exact ⟨trivial, hstart _ _ (by decide)⟩) (.start (t := 2) rfl)
  exact ⟨_, by decide, by decide, by decide, (soft_due_first _ _ hrun).1⟩

/-- **A due timer behind one that is not.** Timer 1 is four ticks late when timer 2 starts with
the longest time-out there is: it goes in front, and `rt_soft_timer_check` stops at it. -/
theorem soft_due_behind : ∃ s : TimerSys,
    Runs (TimerStep ⟨1, 3, by decide⟩) (DelayBounded ⟨1, 3, by decide⟩) TimerSys.initial s ∧
    s.list .soft 0 = [2, 1] ∧ (s.timer 1).expiry ≤ s.ticks ∧ s.ticks < (s.timer 2).expiry ∧
    checkHead ⟨1, 3, by decide⟩ s .soft = s.leave .soft := by
  have hrun : Runs (TimerStep ⟨1, 3, by decide⟩) (DelayBounded ⟨1, 3, by decide⟩)
      TimerSys.initial _ :=
    ((((Runs.refl.snoc (by exact trivial)
      (@TimerStep.init _ _ _ 1 1 ⟨false, false, true⟩ rfl)).snoc (by exact trivial)
      (@TimerStep.init _ _ _ 2 (2 ^ 31 - 2) ⟨false, false, true⟩ rfl)).snoc (by exact trivial)
      (.start (t := 1) rfl)).snoc (by decide) (.tick 5)).snoc (by exact trivial)
      (.start (t := 2) rfl)
  exact ⟨_, hrun, by decide, by decide, by decide, rfl⟩

end Soft

end RTThread
