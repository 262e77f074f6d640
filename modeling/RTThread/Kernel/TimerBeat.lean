import RTThread.Kernel.TimerTick

/-!
# Timers that nobody touches

A hard timer is started and then left alone: no one initialises, detaches,
starts, stops or reconfigures it, while the other timers are used in any way.
`calls_in_time` says that it is called when its time runs out, and since a
periodic timer is started again in the tick of its call, the calls of a run can
be listed: they do not drift, however the timeout functions of the other timers
use the lists the timer is in.

## Main results

* `timer_beats` : the timeout function of the timer is called once in each of the
  ticks its period gives, up to now, and at no other time; a one-shot timer is
  called once and is deactivated then.
-/

namespace RTThread

/-- The action is a call of the interface for the timer. -/
def TimerAct.Names (t : TimerId) : TimerAct → Prop
  | .init u _ _ | .detach u | .start u | .stop u | .stopLate u | .control u _ => u = t
  | .tick _ | .check _ | .ret _ => False

/-- The ticks in which the timeout function of a timer was called, the last one first. -/
def callTicks (t : TimerId) (calls : List TimerCall) : List Nat :=
  (calls.filter fun c => c.timer = t).map TimerCall.tick

/-- The first `n` ticks of a period, the last one first. -/
def beats (first period : Nat) : Nat → List Nat
  | 0 => []
  | n + 1 => (first + n * period) :: beats first period n

-- --------
-- Steps for other timers
-- --------

/-- The timer and its place in the lists are the same. -/
structure LeftAlone (cfg : SkipListCfg) (t : TimerId) (s s' : TimerSys) : Prop where
  timer : s'.timer t = s.timer t
  list : ∀ k, t ∈ s'.list k cfg.bottom ↔ t ∈ s.list k cfg.bottom
  held : ∀ k, t ∈ s'.held k ↔ t ∈ s.held k
  ticks : s'.ticks = s.ticks

namespace LeftAlone

variable {cfg : SkipListCfg} {s s' s'' : TimerSys} {t u : TimerId} {k : TimerKind}

theorem refl (cfg : SkipListCfg) (t : TimerId) (s : TimerSys) : LeftAlone cfg t s s :=
  ⟨rfl, fun _ => Iff.rfl, fun _ => Iff.rfl, rfl⟩

theorem trans (h : LeftAlone cfg t s s') (h' : LeftAlone cfg t s' s'') : LeftAlone cfg t s s'' :=
  ⟨h'.timer.trans h.timer, fun k => (h'.list k).trans (h.list k),
    fun k => (h'.held k).trans (h.held k), h'.ticks.trans h.ticks⟩

theorem setTimer (h : t ≠ u) (x : Timer) : LeftAlone cfg t s (s.setTimer u x) :=
  ⟨s.setTimer_timer_of_ne u x h, fun _ => Iff.rfl, fun _ => Iff.rfl, rfl⟩

theorem setActivated (h : t ≠ u) (b : Bool) : LeftAlone cfg t s (s.setActivated u b) :=
  setTimer h _

theorem timerRemove (h : t ≠ u) : LeftAlone cfg t s (s.timerRemove u) :=
  ⟨rfl, fun _ => List.mem_erase_of_ne h, fun _ => List.mem_erase_of_ne h, rfl⟩

theorem stopped (h : t ≠ u) : LeftAlone cfg t s (s.stopped u) :=
  (timerRemove h).trans (setActivated h false)

theorem timerStart (hinv : TimerInv cfg s) (h : t ≠ u) :
    LeftAlone cfg t s (timerStart cfg s u) where
  timer := timerStart_timer_of_ne h
  list k := by
    rw [timerStart_mem hinv]
    simp [h]
  held _ := List.mem_erase_of_ne h
  ticks := rfl

theorem fired (h : t ≠ u) : LeftAlone cfg t s (s.fired u) := by
  rw [TimerSys.fired]
  split
  · exact timerRemove h
  · exact (timerRemove h).trans (setActivated h false)

theorem hold (h : t ≠ u) (k : TimerKind) : LeftAlone cfg t s (s.hold k u) where
  timer := rfl
  list _ := Iff.rfl
  held k' := by
    by_cases hk : k' = k
    · subst hk
      simp [TimerSys.hold, h]
    · simp [TimerSys.hold, Function.update_of_ne hk]
  ticks := rfl

theorem bottomRemove (hinv : TimerInv cfg s) (hu : u ∈ s.held k) (h : t ≠ u) :
    LeftAlone cfg t s (s.bottomRemove cfg u) where
  timer := rfl
  list k := by rw [hinv.bottomRemove_list hu]
  held _ := List.mem_erase_of_ne h
  ticks := rfl

/-- The soft timers are checked. -/
theorem checkHead_soft (hinv : TimerInv cfg s) (hkind : (s.timer t).kind = .hard) :
    LeftAlone cfg t s (checkHead cfg s .soft) := by
  rcases TimerInv.checkHead_cases cfg s .soft with ⟨heq, -⟩ | ⟨u, rest, hl, -, heq⟩
  · rw [heq]
    exact ⟨rfl, fun _ => Iff.rfl, fun _ => Iff.rfl, rfl⟩
  · have hne : t ≠ u := by
      rintro rfl
      have hsoft := hinv.kind (k := .soft) (t := t) (by rw [hl]; simp)
      rw [hkind] at hsoft
      cases hsoft
    rw [heq]
    exact (fired hne).trans (hold hne .soft)

theorem checkReturn_soft (hinv : TimerInv cfg s) (hkind : (s.timer t).kind = .hard)
    (hrun : s.running .soft = some u) (hret : checkReturn cfg s .soft u = .ok s') :
    LeftAlone cfg t s s' := by
  rcases hinv.checkReturn_cases hrun hret with ⟨-, rfl⟩ | ⟨hheld, -, -, rfl⟩ | ⟨hheld, -, rfl⟩
  · exact checkHead_soft hinv hkind
  all_goals
    have hmem : u ∈ s.held .soft := by rw [hheld]; simp
    have hne : t ≠ u := by
      rintro rfl
      have hsoft := hinv.held_kind hmem
      rw [hkind] at hsoft
      cases hsoft
  · have hobj : (((s.bottomRemove cfg u).setActivated u false).timer u).object = true := by
      simpa using hinv.held_object hmem
    have hback := (bottomRemove hinv hmem hne).trans (setActivated hne false)
    have hstart := hback.trans (timerStart (hinv.released hmem) hne)
    exact hstart.trans (checkHead_soft ((hinv.released hmem).timerStart hobj)
      (by rw [hstart.timer]; exact hkind))
  · have hback := bottomRemove hinv hmem hne
    exact hback.trans (checkHead_soft (hinv.bottomRemove hmem) (by rw [hback.timer]; exact hkind))

/-- **The frame.** A step of the others that does not name the timer. -/
theorem step (hinv : TimerInv cfg s) (hkind : (s.timer t).kind = .hard) {a : TimerAct}
    (ha : a.IsOther) (hn : ¬ a.Names t) (hs : TimerStep cfg s a s') : LeftAlone cfg t s s' := by
  cases hs with
  | tick n => exact absurd ha not_false
  | init hinit =>
    obtain ⟨_, _, hinit⟩ := except_bind_ok hinit
    obtain ⟨_, _, hinit⟩ := except_bind_ok hinit
    obtain rfl := Except.ok.inj hinit
    exact setTimer (Ne.symm hn) _
  | detach hdet =>
    obtain ⟨_, _, hdet⟩ := except_bind_ok hdet
    obtain rfl := Except.ok.inj hdet
    exact (stopped (Ne.symm hn)).trans (setTimer (Ne.symm hn) _)
  | start hstart =>
    obtain ⟨_, _, hstart⟩ := except_bind_ok hstart
    obtain rfl := Except.ok.inj hstart
    exact timerStart hinv (Ne.symm hn)
  | stop hstop =>
    rcases TimerInv.stop_cases hstop with ⟨-, rfl⟩ | ⟨-, rfl, -⟩
    · exact stopped (Ne.symm hn)
    · exact refl cfg t _
  | stopLate u => exact stopped (Ne.symm hn)
  | control hctl =>
    obtain ⟨-, rfl | ⟨x, rfl, -⟩⟩ := TimerInv.control_cases hctl
    · exact refl cfg t _
    · exact setTimer (Ne.symm hn) x
  | @check k hrun hk =>
    cases k with
    | hard => exact absurd ha not_false
    | soft => exact checkHead_soft hinv hkind
  | @ret _ k u hrun hk hret =>
    cases k with
    | hard => exact absurd ha not_false
    | soft => exact checkReturn_soft hinv hkind hrun hret

end LeftAlone

-- --------
-- The timer from call to call
-- --------

/-- Where the timer is after `n` calls: it waits for the next beat, its timeout function is
running, or it was a one-shot timer and is done. -/
inductive Beating (cfg : SkipListCfg) (t : TimerId) (first period : Nat) (periodic : Bool) :
    Nat → TimerSys → Prop
  | waiting {n : Nat} {s : TimerSys} (hlist : t ∈ s.list .hard cfg.bottom)
      (hexp : (s.timer t).expiry = first + n * period) (hone : periodic = false → n = 0)
      (hpast : ∀ m < n, first + m * period ≤ s.ticks) :
      Beating cfg t first period periodic n s
  | called {n : Nat} {s : TimerSys} (hheld : t ∈ s.held .hard)
      (hnow : s.ticks = first + n * period) (hone : periodic = false → n = 0)
      (hact : (s.timer t).flag.activated = periodic) : Beating cfg t first period periodic (n + 1) s
  | done {s : TimerSys} (hone : periodic = false) (hlist : ∀ k, t ∉ s.list k cfg.bottom)
      (hheld : ∀ k, t ∉ s.held k) (hact : (s.timer t).flag.activated = false)
      (hpast : first ≤ s.ticks) : Beating cfg t first period periodic 1 s

/-- The settings of the timer. -/
structure SetTo (t : TimerId) (period : Nat) (periodic : Bool) (s : TimerSys) : Prop where
  kind : (s.timer t).kind = .hard
  initTick : (s.timer t).initTick = period
  periodic : (s.timer t).flag.periodic = periodic

section Beat

variable {cfg : SkipListCfg} {s s' : TimerSys} {t u : TimerId} {first period n : Nat}
  {periodic : Bool} {calls : List TimerCall}

theorem SetTo.kept (h : SetTo t period periodic s) (hk : LeftAlone cfg t s s') :
    SetTo t period periodic s' := by
  constructor <;> rw [hk.timer]
  · exact h.kind
  · exact h.initTick
  · exact h.periodic

theorem SetTo.fired (h : SetTo t period periodic s) : SetTo t period periodic (s.fired t) := by
  constructor <;> rw [TimerInv.fired_timer_self]
  · exact h.kind
  · exact h.initTick
  · exact h.periodic

theorem Beating.kept (h : Beating cfg t first period periodic n s) (hk : LeftAlone cfg t s s') :
    Beating cfg t first period periodic n s' := by
  cases h with
  | waiting hlist hexp hone hpast =>
    refine .waiting ((hk.list _).mpr hlist) (by rw [hk.timer, hexp]) hone ?_
    rw [hk.ticks]
    exact hpast
  | called hheld hnow hone hact =>
    exact .called ((hk.held _).mpr hheld) (hk.ticks.trans hnow) hone (by rw [hk.timer, hact])
  | done hone hlist hheld hact hpast =>
    refine .done hone (fun k => ?_) (fun k => ?_) (by rw [hk.timer, hact])
      (by rw [hk.ticks]; exact hpast)
    · rw [hk.list]
      exact hlist k
    · rw [hk.held]
      exact hheld k

/-- The calls of the other timers are not counted. -/
theorem callTicks_calling_of_ne (h : s.running .hard ≠ some t) :
    callTicks t (s.calling ++ calls) = callTicks t calls := by
  rw [callTicks, List.filter_append, TimerSys.calling]
  cases hrun : s.running .hard with
  | none => rfl
  | some u =>
    have hne : ¬ u = t := by
      rintro rfl
      exact h hrun
    simp [hne, callTicks]

theorem callTicks_calling (h : s.running .hard = some t) :
    callTicks t (s.calling ++ calls) = s.ticks :: callTicks t calls := by
  rw [callTicks, List.filter_append, TimerSys.calling, h]
  simp [callTicks]

/-- **The head of the loop.** It leaves the timer alone, or it is the tick of the next beat and
the timer is called. -/
theorem Beating.checkHead (h : Beating cfg t first period periodic n s)
    (hset : SetTo t period periodic s) (hcheck : Checking cfg 0 calls s)
    (hheld : s.held .hard = []) :
    SetTo t period periodic (checkHead cfg s .hard) ∧
    ∃ m, Beating cfg t first period periodic m (checkHead cfg s .hard) ∧
      ∀ old, callTicks t calls = beats first period n ++ old →
        callTicks t ((checkHead cfg s .hard).calling ++ calls) = beats first period m ++ old := by
  have hinv := hcheck.times.nodes
  rcases TimerInv.checkHead_cases cfg s .hard with ⟨heq, -⟩ | ⟨u, rest, hl, hdue, heq⟩
  · rw [heq]
    have hk : LeftAlone cfg t s (s.leave .hard) := ⟨rfl, fun _ => Iff.rfl, fun _ => Iff.rfl, rfl⟩
    have hnone : (s.leave .hard).running .hard ≠ some t := by simp [TimerSys.leave]
    refine ⟨hset.kept hk, n, h.kept hk, fun old hold => ?_⟩
    rw [callTicks_calling_of_ne hnone, hold]
  · have hmem : u ∈ s.list .hard cfg.bottom := by rw [hl]; simp
    have hrunning : ((s.fired u).hold .hard u).running .hard = some u := by
      simp [TimerSys.hold]
    rw [heq]
    by_cases hut : u = t
    · subst hut
      -- the timer waited, and it is called in time
      cases h with
      | waiting hlist hexp hone hpast =>
        have hfire := (hcheck.times.isDue_iff (Nat.zero_le 1) hmem).mp hdue
        have hlate := hcheck.times.late u hmem
        have hticks : ((s.fired u).hold .hard u).ticks = s.ticks := (Shrunk.fired cfg s u).ticks
        have hnow : s.ticks = first + n * period := by omega
        refine ⟨⟨hset.fired.kind, hset.fired.initTick, hset.fired.periodic⟩, n + 1,
          .called ?_ (hticks.trans hnow) hone ?_, fun old hold => ?_⟩
        · simp [TimerSys.hold]
        · show ((s.fired u).timer u).flag.activated = periodic
          rw [TimerInv.fired_timer_self]
          have hp := hset.periodic
          have ha := hinv.activated hmem
          simp [hp, ha]
        · rw [callTicks_calling hrunning, hticks, hnow, hold]
          rfl
      | called hh =>
        rw [hheld] at hh
        exact absurd hh List.not_mem_nil
      | done hone hlist => exact absurd hmem (hlist _)
    · have hk : LeftAlone cfg t s ((s.fired u).hold .hard u) :=
        (LeftAlone.fired (Ne.symm hut)).trans (LeftAlone.hold (Ne.symm hut) .hard)
      have hnot : ((s.fired u).hold .hard u).running .hard ≠ some t := by
        rw [hrunning]
        exact fun hsome => hut (Option.some.inj hsome)
      refine ⟨hset.kept hk, n, h.kept hk, fun old hold => ?_⟩
      rw [callTicks_calling_of_ne hnot, hold]

/-- The timer is in step with its calls. -/
structure InStep (cfg : SkipListCfg) (t : TimerId) (first period : Nat) (periodic : Bool)
    (old : List Nat) (calls : List TimerCall) (s : TimerSys) : Prop where
  setTo : SetTo t period periodic s
  beating : ∃ n, Beating cfg t first period periodic n s ∧
    callTicks t calls = beats first period n ++ old

variable {old : List Nat}

theorem InStep.checkHead (h : InStep cfg t first period periodic old calls s)
    (hcheck : Checking cfg 0 calls s) (hheld : s.held .hard = []) :
    InStep cfg t first period periodic old ((checkHead cfg s .hard).calling ++ calls)
      (checkHead cfg s .hard) := by
  obtain ⟨n, hn, hcalls⟩ := h.beating
  obtain ⟨hset, m, hm, hnext⟩ := hn.checkHead h.setTo hcheck hheld
  exact ⟨hset, m, hm, hnext old hcalls⟩

theorem InStep.kept (h : InStep cfg t first period periodic old calls s)
    (hk : LeftAlone cfg t s s') :
    InStep cfg t first period periodic old calls s' := by
  obtain ⟨n, hn, hcalls⟩ := h.beating
  exact ⟨h.setTo.kept hk, n, hn.kept hk, hcalls⟩

/-- The timeout function of a periodic timer has returned and the timer was started again. -/
theorem InStep.again (h : InStep cfg t first period periodic old calls s)
    (hinv : TimerInv cfg s) (hheld : t ∈ s.held .hard) (hp : (s.timer t).flag.periodic = true) :
    InStep cfg t first period periodic old calls
      (timerStart cfg ((s.bottomRemove cfg t).setActivated t false) t) := by
  obtain ⟨n, hn, hcalls⟩ := h.beating
  have hp : periodic = true := h.setTo.periodic.symm.trans hp
  have hstart := timerStart_timer_self cfg ((s.bottomRemove cfg t).setActivated t false) t
  have hinit := h.setTo.initTick
  refine ⟨⟨?_, ?_, ?_⟩, n, ?_, hcalls⟩
  · rw [hstart]
    simpa [Timer.kind] using h.setTo.kind
  · rw [hstart]
    simpa using hinit
  · rw [hstart]
    simpa using h.setTo.periodic
  · have hexp : ((timerStart cfg ((s.bottomRemove cfg t).setActivated t false) t).timer t).expiry =
        s.ticks + period := by
      rw [hstart, ← hinit]
      simp [TimerSys.bottomRemove]
    cases hn with
    | waiting hlist => exact absurd hlist (hinv.held_unlinked hheld)
    | @called m _ _ hnow =>
      refine .waiting ?_ ?_ (fun hone => absurd (hp.symm.trans hone) (by decide)) ?_
      · refine (timerStart_mem (hinv.released hheld)).mpr (Or.inl ⟨rfl, ?_⟩)
        simpa [Timer.kind] using h.setTo.kind.symm
      · rw [hexp, hnow, Nat.succ_mul, Nat.add_assoc]
      · intro i hi
        have hle : i * period ≤ m * period := Nat.mul_le_mul_right _ (Nat.le_of_lt_succ hi)
        show first + i * period ≤ s.ticks
        omega
    | done _ _ hnot => exact absurd hheld (hnot _)

/-- The timeout function of a one-shot timer has returned. -/
theorem InStep.finished (h : InStep cfg t first period periodic old calls s)
    (hinv : TimerInv cfg s) (hheld : t ∈ s.held .hard)
    (hp : ¬ ((s.timer t).flag.periodic = true ∧ (s.timer t).flag.activated = true)) :
    InStep cfg t first period periodic old calls (s.bottomRemove cfg t) := by
  obtain ⟨n, hn, hcalls⟩ := h.beating
  refine ⟨⟨h.setTo.kind, h.setTo.initTick, h.setTo.periodic⟩, n, ?_, hcalls⟩
  cases hn with
  | waiting hlist => exact absurd hlist (hinv.held_unlinked hheld)
  | @called m _ _ hnow hone hact =>
    have hno : periodic = false := by
      rw [h.setTo.periodic, hact] at hp
      simpa using hp
    obtain rfl := hone hno
    refine .done hno (fun k => ?_) (hinv.not_held_erase t) (hact.trans hno) ?_
    · rw [hinv.bottomRemove_list hheld]
      exact hinv.held_unlinked hheld
    · show first ≤ s.ticks
      omega
  | done _ _ hnot => exact absurd hheld (hnot _)

/-- A timeout function returns, that of the timer or another one. -/
theorem InStep.checkReturn (h : InStep cfg t first period periodic old calls s)
    (hcheck : Checking cfg 0 calls s) (hrun : s.running .hard = some u)
    (hret : checkReturn cfg s .hard u = .ok s') :
    InStep cfg t first period periodic old (s'.calling ++ calls) s' := by
  have hinv := hcheck.times.nodes
  rcases hcheck.times.nodes.checkReturn_cases hrun hret with
    ⟨hheld, rfl⟩ | ⟨hheld, hp, ha, rfl⟩ | ⟨hheld, hp, rfl⟩
  · exact h.checkHead hcheck hheld
  all_goals have hmem : u ∈ s.held .hard := by rw [hheld]; simp
  · obtain ⟨hnext, hempty⟩ := hcheck.restarted (Nat.zero_le 1) hmem hheld
    refine InStep.checkHead ?_ hnext hempty
    by_cases hut : u = t
    · subst hut
      exact h.again hinv hmem hp
    · have hne := Ne.symm hut
      have hback := LeftAlone.bottomRemove hinv hmem hne
      exact h.kept ((hback.trans (LeftAlone.setActivated hne false)).trans
        (LeftAlone.timerStart (hinv.released hmem) hne))
  · obtain ⟨hnext, hempty⟩ := hcheck.dropped hmem hheld
    refine InStep.checkHead ?_ hnext hempty
    by_cases hut : u = t
    · subst hut
      exact h.finished hinv hmem hp
    · exact h.kept (LeftAlone.bottomRemove hinv hmem (Ne.symm hut))

end Beat

-- --------
-- The step and the run
-- --------

section Run

variable {cfg : SkipListCfg} {s s' : TickSys} {t : TimerId} {first period : Nat}
  {periodic : Bool} {old : List Nat}

/-- **A step** that does not name the timer keeps it in step. -/
theorem InStep.step (h : InStep cfg t first period periodic old s.calls s.timers)
    (hinv : TickInv cfg 0 s) {a : TimerAct} (hn : ¬ a.Names t) (hs : TickStep cfg s a s') :
    InStep cfg t first period periodic old s'.calls s'.timers := by
  have hcheck := hinv.checking
  cases hs with
  | count hidle =>
    obtain ⟨n, hbeat, hcalls⟩ := h.beating
    refine ⟨⟨h.setTo.kind, h.setTo.initTick, h.setTo.periodic⟩, n, ?_, hcalls⟩
    cases hbeat with
    | waiting hlist hexp hone hpast =>
      exact .waiting hlist hexp hone fun m hm => Nat.le_succ_of_le (hpast m hm)
    | called hheld =>
      have hrun := hcheck.times.nodes.held_running hheld
      rw [hidle.2] at hrun
      cases hrun
    | done hone hlist hheld hact hpast =>
      exact .done hone hlist hheld hact (Nat.le_succ_of_le hpast)
  | check hs =>
    cases hs with
    | check hrun hk => exact h.checkHead hcheck (hcheck.times.nodes.held_of_idle hrun)
  | ret hs =>
    cases hs with
    | ret hrun hk hret => exact h.checkReturn hcheck hrun hret
  | other ha hs => exact h.kept (LeftAlone.step hcheck.times.nodes h.setTo.kind ha hn hs)

/-- What the calls of a timer look like between two checks. -/
theorem InStep.idle (h : InStep cfg t first period periodic old s.calls s.timers)
    (hinv : TickInv cfg 0 s) (hidle : s.Idle) :
    ∃ n, callTicks t s.calls = beats first period n ++ old ∧
      (∀ m, m < n ↔ first + m * period ≤ s.timers.ticks ∧ (periodic = true ∨ m = 0)) ∧
      ((s.timers.timer t).flag.activated = true ↔ periodic = true ∨ s.timers.ticks < first) := by
  have hnodes := hinv.checking.times.nodes
  obtain ⟨n, hbeat, hcalls⟩ := h.beating
  refine ⟨n, hcalls, ?_⟩
  cases hbeat with
  | waiting hlist hexp hone hpast =>
    have hsoon := hinv.idle hidle t hlist
    rw [hexp] at hsoon
    constructor
    · intro m
      constructor
      · intro hm
        refine ⟨hpast m hm, ?_⟩
        cases periodic with
        | true => exact Or.inl rfl
        | false =>
          have := hone rfl
          omega
      · rintro ⟨hle, -⟩
        by_contra hnot
        have : n * period ≤ m * period := Nat.mul_le_mul_right _ (Nat.le_of_not_lt hnot)
        omega
    · refine iff_of_true (hnodes.activated hlist) ?_
      cases periodic with
      | true => exact Or.inl rfl
      | false =>
        obtain rfl := hone rfl
        exact Or.inr (by omega)
  | called hheld =>
    have hrun := hnodes.held_running hheld
    rw [hidle.2] at hrun
    cases hrun
  | done hone hlist hheld hact hpast =>
    subst hone
    constructor
    · intro m
      constructor
      · intro hm
        obtain rfl : m = 0 := by omega
        exact ⟨by omega, Or.inr rfl⟩
      · rintro ⟨-, hm⟩
        rcases hm with hm | rfl
        · cases hm
        · exact Nat.one_pos
    · rw [hact]
      simp [hpast]

end Run

/-- **A timer that is left alone beats in time.** The hard timers are started with a time of at
least one tick, and from a state in which the timer is linked no one touches it, while the other
timers are used in any way. Then its timeout function was called once in each of the ticks its
period gives up to now, if it is periodic, and else in the tick of its time-out, and at no other
time, and it is deactivated if and only if it is a one-shot timer that was called. -/
theorem timer_beats (cfg : SkipListCfg) (s s' : TickSys) (t : TimerId)
    (hbefore : Runs (TickStep cfg) (StartsAhead 0) TickSys.initial s)
    (ht : t ∈ s.timers.list .hard cfg.bottom)
    (hrun : Runs (TickStep cfg) (fun s a => StartsAhead 0 s a ∧ ¬ a.Names t) s s')
    (hidle : s'.Idle) :
    ∃ n, callTicks t s'.calls =
        beats (s.timers.timer t).expiry (s.timers.timer t).initTick n ++ callTicks t s.calls ∧
      (∀ m, m < n ↔ (s.timers.timer t).expiry + m * (s.timers.timer t).initTick ≤ s'.timers.ticks ∧
        ((s.timers.timer t).flag.periodic = true ∨ m = 0)) ∧
      ((s'.timers.timer t).flag.activated = true ↔
        (s.timers.timer t).flag.periodic = true ∨ s'.timers.ticks < (s.timers.timer t).expiry) := by
  have hinv := TickInv.of_runs (Nat.zero_le 1) hbefore
  have hstart : InStep cfg t (s.timers.timer t).expiry (s.timers.timer t).initTick
      (s.timers.timer t).flag.periodic (callTicks t s.calls) s.calls s.timers := by
    refine ⟨⟨hinv.checking.times.nodes.kind ht, rfl, rfl⟩, 0, .waiting ht ?_ (fun _ => rfl) ?_, rfl⟩
    · omega
    · intro m hm
      omega
  have hboth : TickInv cfg 0 s' ∧ InStep cfg t (s.timers.timer t).expiry (s.timers.timer t).initTick
      (s.timers.timer t).flag.periodic (callTicks t s.calls) s'.calls s'.timers := by
    refine @Runs.invariant _ _ _ _ _ _ (fun s' => TickInv cfg 0 s' ∧
      InStep cfg t (s.timers.timer t).expiry (s.timers.timer t).initTick
        (s.timers.timer t).flag.periodic (callTicks t s.calls) s'.calls s'.timers) ?_ hrun
      ⟨hinv, hstart⟩
    intro s₁ a s₂ h hok hs
    exact ⟨h.1.step (Nat.zero_le 1) hok.1 hs, h.2.step h.1 hok.2 hs⟩
  exact hboth.2.idle hboth.1 hidle

/-- A periodic timer of one tick that is left alone while another one is set up and runs. -/
theorem timer_beats_run : ∃ s s' : TickSys, s.calls = [] ∧
    s'.calls.map TimerCall.timer = [2, 1] ∧ ∃ n, callTicks 1 s'.calls =
      beats (s.timers.timer 1).expiry (s.timers.timer 1).initTick n ++ callTicks 1 s.calls := by
  have hbefore : Runs (TickStep ⟨1, 3, by decide⟩) (StartsAhead 0) TickSys.initial _ :=
    (Runs.refl.snoc (by rintro _ ⟨⟩)
      (.other (a := .init 1 1 ⟨false, true, false⟩) trivial (.init rfl))).snoc
      (by rintro _ ⟨⟩ -; decide) (.other (a := .start 1) trivial (.start rfl))
  obtain ⟨n, hn, -⟩ := timer_beats _ _ _ 1 hbefore (by decide)
    ((((((Runs.refl.snoc ⟨by rintro _ ⟨⟩, by simp [TimerAct.Names]⟩
      (.other (a := .init 2 1 ⟨false, false, false⟩) trivial (.init rfl))).snoc
      ⟨by rintro _ ⟨⟩ -; decide, by simp [TimerAct.Names]⟩
      (.other (a := .start 2) trivial (.start rfl))).snoc
      ⟨by rintro _ ⟨⟩, id⟩ (.count (by decide))).snoc
      ⟨by rintro _ ⟨⟩, id⟩ (.check (.check rfl (by simp)))).snoc
      ⟨by rintro _ ⟨h, -⟩ -; obtain rfl := List.mem_singleton.mp h; decide, id⟩
      (.ret (.ret (t := 1) rfl (by simp) rfl))).snoc
      ⟨by rintro _ ⟨h, -⟩ -; obtain rfl := List.mem_singleton.mp h; decide, id⟩
      (.ret (.ret (t := 2) rfl (by simp) rfl))) (by decide)
  exact ⟨_, _, rfl, by decide, n, hn⟩

end RTThread
