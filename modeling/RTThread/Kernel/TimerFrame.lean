import RTThread.Kernel.TimerList

/-!
# Timers: what a step leaves alone

Seen from the timers that stay linked a step does one of three things: time
goes on, timers leave the lists (`Shrunk`), or one timer is started, before and
after which timers may leave the lists. `step_cases` says so once; the orders of
the lists are proved from it.
-/

namespace RTThread

-- --------
-- What starting a timer changes
-- --------

section Start

variable {cfg : SkipListCfg} {s : TimerSys} {t u : TimerId} {k : TimerKind}

theorem timerArm_timer_of_ne (h : u ≠ t) : (timerArm s t).timer u = s.timer u := by
  rw [timerArm, TimerSys.setTimer_timer_of_ne _ t _ h, TimerSys.stopped_timer_of_ne s t h]

theorem timerArm_kind (s : TimerSys) (t : TimerId) :
    ((timerArm s t).timer t).kind = (s.timer t).kind := by
  rw [timerArm, TimerSys.setTimer_timer_self, TimerSys.stopped_timer_self]
  rfl

theorem timerStart_timer_of_ne (h : u ≠ t) : (timerStart cfg s t).timer u = s.timer u := by
  rw [timerStart, TimerSys.setActivated_timer_of_ne _ t true h]
  exact timerArm_timer_of_ne h

/-- The rows of a list after a start. -/
theorem timerStart_list (cfg : SkipListCfg) (s : TimerSys) (t : TimerId) (k : TimerKind) :
    (timerStart cfg s t).list k =
      if k = (s.timer t).kind then
        (timerArm s t).insertRows cfg t fun r => (s.list k r).erase t
      else fun r => (s.list k r).erase t := by
  show Function.update (timerArm s t).list _ _ k = _
  rw [timerArm_kind]
  by_cases hk : k = (s.timer t).kind
  · rw [if_pos hk, hk, Function.update_self]
    rfl
  · rw [if_neg hk, Function.update_of_ne hk]
    rfl

/-- The timer joins the list of its kind, the other timers stay where they are. -/
theorem timerStart_mem (h : TimerInv cfg s) : u ∈ (timerStart cfg s t).list k cfg.bottom ↔
    u = t ∧ k = (s.timer t).kind ∨ u ≠ t ∧ u ∈ s.list k cfg.bottom := by
  have hnd := h.bottom_nodup k
  rw [timerStart_list]
  split
  · rename_i hk
    rw [((insertRows_rows (timerArm s t) ((h.rows k).erase t) (h.not_linked_erase t k)).2 u),
      hnd.mem_erase_iff]
    by_cases hut : u = t
    · simp [hut, hk]
    · simp [hut]
  · rename_i hk
    rw [hnd.mem_erase_iff]
    by_cases hut : u = t
    · simp [hut, hk]
    · simp [hut]

theorem timerStart_timer_self (cfg : SkipListCfg) (s : TimerSys) (t : TimerId) :
    (timerStart cfg s t).timer t =
      { s.timer t with
        flag := { (s.timer t).flag with activated := true }
        timeoutTick := Word32.add s.rtTickGet (s.timer t).initTick
        expiry := s.ticks + (s.timer t).initTick
        startNo := s.starts + 1 } := by
  rw [timerStart, TimerSys.setActivated_timer_self]
  dsimp only
  rw [timerArm, TimerSys.setTimer_timer_self, TimerSys.stopped_timer_self]
  rfl

/-- **A start keeps an order** of the lists if the search is one with a test that agrees with
the order. -/
theorem timerStart_pairwise (h : TimerInv cfg s) {R : TimerId → TimerId → Prop}
    {stop : TimerId → Bool}
    (hsearch : k = (s.timer t).kind → SkipList.rowHead ((timerArm s t).stopsAt t)
      (fun r => (s.list k r).erase t) cfg.bottom =
        SkipList.rowHead stop (fun r => (s.list k r).erase t) cfg.bottom)
    (hrow : ((s.list k cfg.bottom).erase t).Pairwise R)
    (hlate : SkipList.Late stop ((s.list k cfg.bottom).erase t))
    (hbefore : ∀ a ∈ (s.list k cfg.bottom).erase t, stop a = false → R a t)
    (hbehind : ∀ b ∈ (s.list k cfg.bottom).erase t, stop b = true → R t b) :
    ((timerStart cfg s t).list k cfg.bottom).Pairwise R := by
  have hbot := cfg.bottom_succ
  have hrows := (h.rows k).erase t
  rw [timerStart_list]
  split
  · rename_i hk
    obtain ⟨k₀, hk₀, hin, -⟩ := insertRows_spec cfg (timerArm s t) t fun r => (s.list k r).erase t
    rw [hin cfg.bottom (by omega) (by omega), hsearch hk]
    exact hrows.pairwise_insertAfter (by omega) hlate hrow hbefore hbehind
  · exact hrow

end Start

-- --------
-- Timers leave the lists
-- --------

/-- From `s` to `s'` timers may have left the lists; those still there are as they were. -/
structure Shrunk (cfg : SkipListCfg) (s s' : TimerSys) : Prop where
  ticks : s'.ticks = s.ticks
  starts : s'.starts = s.starts
  list : ∀ k, (s'.list k cfg.bottom).Sublist (s.list k cfg.bottom)
  timeoutTick : ∀ {k u}, u ∈ s'.list k cfg.bottom →
    (s'.timer u).timeoutTick = (s.timer u).timeoutTick
  expiry : ∀ {k u}, u ∈ s'.list k cfg.bottom → (s'.timer u).expiry = (s.timer u).expiry
  startNo : ∀ {k u}, u ∈ s'.list k cfg.bottom → (s'.timer u).startNo = (s.timer u).startNo

/-- The lists are the same and the timers differ in their flags at most. -/
structure SameTimes (s s' : TimerSys) : Prop where
  ticks : s'.ticks = s.ticks
  starts : s'.starts = s.starts
  list : s'.list = s.list
  kind : ∀ u, (s'.timer u).kind = (s.timer u).kind
  timeoutTick : ∀ u, (s'.timer u).timeoutTick = (s.timer u).timeoutTick
  initTick : ∀ u, (s'.timer u).initTick = (s.timer u).initTick
  expiry : ∀ u, (s'.timer u).expiry = (s.timer u).expiry
  startNo : ∀ u, (s'.timer u).startNo = (s.timer u).startNo

theorem SameTimes.refl (s : TimerSys) : SameTimes s s :=
  ⟨rfl, rfl, rfl, fun _ => rfl, fun _ => rfl, fun _ => rfl, fun _ => rfl, fun _ => rfl⟩

theorem SameTimes.shrunk {cfg : SkipListCfg} {s s' : TimerSys} (h : SameTimes s s') :
    Shrunk cfg s s' where
  ticks := h.ticks
  starts := h.starts
  list k := by rw [h.list]
  timeoutTick {_ u} _ := h.timeoutTick u
  expiry {_ u} _ := h.expiry u
  startNo {_ u} _ := h.startNo u

theorem SameTimes.setActivated {s s' : TimerSys} (h : SameTimes s s') (t : TimerId) (b : Bool) :
    SameTimes s (s'.setActivated t b) := by
  have hproj : ∀ {α : Type} (f : Timer → α),
      (∀ x : Timer, f { x with flag := { x.flag with activated := b } } = f x) →
      ∀ u, f ((s'.setActivated t b).timer u) = f (s'.timer u) := by
    intro α f hf u
    by_cases hut : u = t
    · subst hut
      rw [TimerSys.setActivated_timer_self, hf]
    · rw [TimerSys.setActivated_timer_of_ne _ t b hut]
  refine ⟨h.ticks, h.starts, h.list, fun u => ?_, fun u => ?_, fun u => ?_, fun u => ?_,
    fun u => ?_⟩
  · rw [hproj Timer.kind (fun _ => rfl), h.kind]
  · rw [hproj Timer.timeoutTick (fun _ => rfl), h.timeoutTick]
  · rw [hproj Timer.initTick (fun _ => rfl), h.initTick]
  · rw [hproj Timer.expiry (fun _ => rfl), h.expiry]
  · rw [hproj Timer.startNo (fun _ => rfl), h.startNo]

namespace Shrunk

variable {cfg : SkipListCfg} {s s' s'' : TimerSys} {t : TimerId} {k : TimerKind}

theorem refl (cfg : SkipListCfg) (s : TimerSys) : Shrunk cfg s s := (SameTimes.refl s).shrunk

theorem trans (h : Shrunk cfg s s') (h' : Shrunk cfg s' s'') : Shrunk cfg s s'' where
  ticks := h'.ticks.trans h.ticks
  starts := h'.starts.trans h.starts
  list k := (h'.list k).trans (h.list k)
  timeoutTick {k _} hu := (h'.timeoutTick hu).trans (h.timeoutTick ((h'.list k).subset hu))
  expiry {k _} hu := (h'.expiry hu).trans (h.expiry ((h'.list k).subset hu))
  startNo {k _} hu := (h'.startNo hu).trans (h.startNo ((h'.list k).subset hu))

theorem timerRemove (cfg : SkipListCfg) (s : TimerSys) (t : TimerId) :
    Shrunk cfg s (s.timerRemove t) :=
  ⟨rfl, rfl, fun _ => List.erase_sublist, fun _ => rfl, fun _ => rfl, fun _ => rfl⟩

theorem setActivated (cfg : SkipListCfg) (s : TimerSys) (t : TimerId) (b : Bool) :
    Shrunk cfg s (s.setActivated t b) :=
  ((SameTimes.refl s).setActivated t b).shrunk

theorem stopped (cfg : SkipListCfg) (s : TimerSys) (t : TimerId) : Shrunk cfg s (s.stopped t) :=
  (timerRemove cfg s t).trans (setActivated cfg _ t false)

/-- Rewriting a timer that is in no list, or nothing of what the lists go by. -/
theorem setTimer {x : Timer} (h : ∀ k, t ∈ s.list k cfg.bottom →
      x.timeoutTick = (s.timer t).timeoutTick ∧ x.expiry = (s.timer t).expiry ∧
      x.startNo = (s.timer t).startNo) : Shrunk cfg s (s.setTimer t x) := by
  have hsame : ∀ {k u}, u ∈ s.list k cfg.bottom →
      ((s.setTimer t x).timer u).timeoutTick = (s.timer u).timeoutTick ∧
      ((s.setTimer t x).timer u).expiry = (s.timer u).expiry ∧
      ((s.setTimer t x).timer u).startNo = (s.timer u).startNo := by
    intro k u hu
    by_cases hut : u = t
    · subst hut
      simpa using h k hu
    · rw [s.setTimer_timer_of_ne t x hut]
      exact ⟨rfl, rfl, rfl⟩
  exact ⟨rfl, rfl, fun _ => List.Sublist.refl _, fun hu => (hsame hu).1, fun hu => (hsame hu).2.1,
    fun hu => (hsame hu).2.2⟩

theorem fired (cfg : SkipListCfg) (s : TimerSys) (t : TimerId) : Shrunk cfg s (s.fired t) := by
  rw [TimerSys.fired]
  split
  · exact timerRemove cfg s t
  · exact stopped cfg s t

theorem checkHead (cfg : SkipListCfg) (s : TimerSys) (k : TimerKind) :
    Shrunk cfg s (checkHead cfg s k) := by
  have hsame : ∀ s₁ s₂ : TimerSys, s₂.timer = s₁.timer → s₂.list = s₁.list →
      s₂.ticks = s₁.ticks → s₂.starts = s₁.starts → Shrunk cfg s₁ s₂ := by
    intro s₁ s₂ ht hl hn hm
    exact ⟨hn, hm, fun k => by rw [hl], fun _ => by rw [ht], fun _ => by rw [ht],
      fun _ => by rw [ht]⟩
  rcases TimerInv.checkHead_cases cfg s k with ⟨heq, -⟩ | ⟨t, rest, -, -, heq⟩
  · rw [heq]
    exact hsame s _ rfl rfl rfl rfl
  · rw [heq]
    exact (fired cfg s t).trans (hsame _ _ rfl rfl rfl rfl)

end Shrunk

-- --------
-- Every step
-- --------

/-- The timer a step starts, if it starts one: a check starts a periodic timer again. -/
def StartedBy (s : TimerSys) : TimerAct → TimerId → Prop
  | .start t, u => u = t
  | .ret k, u => u ∈ s.held k ∧ (s.timer u).flag.periodic = true ∧
      (s.timer u).flag.activated = true
  | _, _ => False

/-- **What a step does to the lists.** Time goes on, or timers leave the lists, or a timer is
started after nothing but flags has changed, and then timers leave the lists. -/
theorem step_cases {cfg : SkipListCfg} {s s' : TimerSys} {a : TimerAct} (hinv : TimerInv cfg s)
    (hs : TimerStep cfg s a s') :
    (∃ n, a = .tick n ∧ s' = { s with ticks := s.ticks + n }) ∨
    Shrunk cfg s s' ∨
    ∃ s₁ t, StartedBy s a t ∧ SameTimes s s₁ ∧ TimerInv cfg s₁ ∧
      (s₁.timer t).object = true ∧ Shrunk cfg (timerStart cfg s₁ t) s' := by
  cases hs with
  | tick n => exact Or.inl ⟨n, rfl, rfl⟩
  | init hinit =>
    obtain ⟨_, _, hinit⟩ := except_bind_ok hinit
    obtain ⟨_, hobj, hinit⟩ := except_bind_ok hinit
    obtain rfl := Except.ok.inj hinit
    have hfree := (hinv.free_of_object (of_rtAssert hobj)).1
    exact Or.inr (Or.inl (Shrunk.setTimer fun k hk => absurd hk (hfree k)))
  | @detach _ t hdet =>
    obtain ⟨_, _, hdet⟩ := except_bind_ok hdet
    obtain rfl := Except.ok.inj hdet
    refine Or.inr (Or.inl ((Shrunk.stopped cfg s t).trans (Shrunk.setTimer fun k hk => ?_)))
    exact absurd hk (hinv.not_linked_erase t k)
  | @start _ t hstart =>
    obtain ⟨_, hobj, hstart⟩ := except_bind_ok hstart
    obtain rfl := Except.ok.inj hstart
    exact Or.inr (Or.inr ⟨s, t, rfl, SameTimes.refl s, hinv, of_rtAssert hobj, Shrunk.refl _ _⟩)
  | @stop _ t _ hstop =>
    rcases TimerInv.stop_cases hstop with ⟨-, rfl⟩ | ⟨-, rfl, -⟩
    · exact Or.inr (Or.inl (Shrunk.stopped cfg s t))
    · exact Or.inr (Or.inl (Shrunk.refl _ _))
  | stopLate t => exact Or.inr (Or.inl (Shrunk.stopped cfg s t))
  | control hctl =>
    obtain ⟨-, rfl | ⟨x, rfl, -, -, -, hx1, hx2, hx3, -⟩⟩ := TimerInv.control_cases hctl
    · exact Or.inr (Or.inl (Shrunk.refl _ _))
    · exact Or.inr (Or.inl (Shrunk.setTimer fun _ _ => ⟨hx1, hx2, hx3⟩))
  | check => exact Or.inr (Or.inl (Shrunk.checkHead cfg s _))
  | @ret _ k t hrun _ hret =>
    have hrem : ∀ hmem : t ∈ s.held k, SameTimes s (s.bottomRemove cfg t) := fun hmem =>
      ⟨rfl, rfl, hinv.bottomRemove_list hmem, fun _ => rfl, fun _ => rfl, fun _ => rfl,
        fun _ => rfl, fun _ => rfl⟩
    rcases hinv.checkReturn_cases hrun hret with ⟨hk, rfl⟩ | ⟨hk, hp, ha, rfl⟩ | ⟨hk, -, rfl⟩
    · exact Or.inr (Or.inl (Shrunk.checkHead cfg s k))
    · have hmem : t ∈ s.held k := by rw [hk]; simp
      refine Or.inr (Or.inr ⟨_, t, ⟨hmem, hp, ha⟩, (hrem hmem).setActivated t false, ?_, ?_,
        Shrunk.checkHead cfg _ k⟩)
      · exact hinv.released hmem
      · simpa using hinv.held_object hmem
    · have hmem : t ∈ s.held k := by rw [hk]; simp
      exact Or.inr (Or.inl ((hrem hmem).shrunk.trans (Shrunk.checkHead cfg _ k)))

end RTThread
