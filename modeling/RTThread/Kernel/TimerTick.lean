import RTThread.Kernel.TimerFrame
import RTThread.Lib.Runs

/-!
# Timers and the tick interrupt (`clock.c`, `timer.c`)

`rt_tick_increase` counts one tick and calls `rt_timer_check`, which runs with
interrupts disabled: no tick is counted while a timeout function of a hard
timer runs, and none before the check of the last one. Everything else may come
in between: threads, the timer thread, and the timeout functions use the timers
as they like.

## Main results

* `calls_in_time` : the timeout functions of the hard timers are called in the
  tick in which the time of the timer runs out, in the order of the time-outs
  and then of the starts, over the whole run, and none is missed. A timer that
  was started with a time of no tick may be called one tick late.
-/

namespace RTThread

/-- A call of the timeout function of a hard timer: the timer, the tick, and the time-out and
the number of the start it was called for. -/
structure TimerCall where
  timer : TimerId
  tick : Nat
  expiry : Nat
  startNo : Nat
deriving DecidableEq

/-- The timers, whether `rt_tick_increase` has counted a tick it has not checked the timers
for, and the calls so far, the last one first. -/
structure TickSys where
  timers : TimerSys
  counted : Bool
  calls : List TimerCall

namespace TickSys

/-- Before the first tick. -/
def initial : TickSys := ⟨TimerSys.initial, false, []⟩

/-- The hard timers were checked for every tick that was counted. -/
def Idle (s : TickSys) : Prop := s.counted = false ∧ s.timers.running .hard = none

instance (s : TickSys) : Decidable s.Idle :=
  inferInstanceAs (Decidable (_ ∧ _))

end TickSys

/-- The call of a timeout function a check has come to, if it has come to one. -/
def TimerSys.calling (s : TimerSys) : List TimerCall :=
  (s.running .hard).toList.map fun t => ⟨t, s.ticks, (s.timer t).expiry, (s.timer t).startNo⟩

/-- Neither the tick counter nor `rt_timer_check`. -/
def TimerAct.IsOther : TimerAct → Prop
  | .tick _ | .check .hard | .ret .hard => False
  | _ => True

/-- The steps: a tick is counted when the last one was checked for, `rt_timer_check` begins, a
timeout function it called returns, and everything else. -/
inductive TickStep (cfg : SkipListCfg) : TickSys → TimerAct → TickSys → Prop
  | count {s : TickSys} (h : s.Idle) :
      TickStep cfg s (.tick 1) { s with
        timers := { s.timers with ticks := s.timers.ticks + 1 }
        counted := true }
  | check {s : TickSys} {s' : TimerSys} (h : TimerStep cfg s.timers (.check .hard) s') :
      TickStep cfg s (.check .hard) ⟨s', false, s'.calling ++ s.calls⟩
  | ret {s : TickSys} {s' : TimerSys} (h : TimerStep cfg s.timers (.ret .hard) s') :
      TickStep cfg s (.ret .hard) ⟨s', s.counted, s'.calling ++ s.calls⟩
  | other {s : TickSys} {s' : TimerSys} {a : TimerAct} (ha : a.IsOther)
      (h : TimerStep cfg s.timers a s') : TickStep cfg s a { s with timers := s' }

/-- The hard timers are started with a time of at least `1 - z` ticks. -/
def StartsAhead (z : Nat) (s : TickSys) (a : TimerAct) : Prop :=
  ∀ t, StartedBy s.timers a t → (s.timers.timer t).kind = .hard →
    0 < (s.timers.timer t).initTick + z

-- --------
-- Time-outs on the unwrapped clock
-- --------

/-- The order of the calls. -/
def Sooner (e n e' n' : Nat) : Prop := e < e' ∨ e = e' ∧ n < n'

/-- The first call is for an earlier time-out, or for an earlier start. -/
def TimerCall.Before (c d : TimerCall) : Prop := Sooner c.expiry c.startNo d.expiry d.startNo

/-- The hard timers when the time-outs of the linked ones are at most `z` ticks in the past. -/
structure HardTimes (cfg : SkipListCfg) (z : Nat) (s : TimerSys) : Prop where
  nodes : TimerInv cfg s
  word : ∀ t ∈ s.list .hard cfg.bottom, (s.timer t).timeoutTick = (s.timer t).expiry % 2 ^ 32
  late : ∀ t ∈ s.list .hard cfg.bottom, s.ticks ≤ (s.timer t).expiry + z
  ahead : ∀ t ∈ s.list .hard cfg.bottom, (s.timer t).expiry < s.ticks + rtTickMax / 2
  numbered : ∀ t ∈ s.list .hard cfg.bottom, (s.timer t).startNo ≤ s.starts
  ordered : (s.list .hard cfg.bottom).Pairwise fun a b =>
    Sooner (s.timer a).expiry (s.timer a).startNo (s.timer b).expiry (s.timer b).startNo

/-- The timers that are linked were not called for yet. -/
structure CallsBefore (cfg : SkipListCfg) (calls : List TimerCall) (s : TimerSys) : Prop where
  past : ∀ c ∈ calls, c.expiry ≤ s.ticks ∧ c.startNo ≤ s.starts
  sooner : ∀ c ∈ calls, ∀ t ∈ s.list .hard cfg.bottom,
    Sooner c.expiry c.startNo (s.timer t).expiry (s.timer t).startNo

section Times

variable {cfg : SkipListCfg} {z : Nat} {s s' : TimerSys} {t u : TimerId} {calls : List TimerCall}

theorem HardTimes.shrunk (h : HardTimes cfg z s) (hnodes : TimerInv cfg s')
    (hsh : Shrunk cfg s s') : HardTimes cfg z s' where
  nodes := hnodes
  word t ht := by
    rw [hsh.timeoutTick ht, hsh.expiry ht]
    exact h.word t ((hsh.list .hard).subset ht)
  late t ht := by
    rw [hsh.expiry ht, hsh.ticks]
    exact h.late t ((hsh.list .hard).subset ht)
  ahead t ht := by
    rw [hsh.expiry ht, hsh.ticks]
    exact h.ahead t ((hsh.list .hard).subset ht)
  numbered t ht := by
    rw [hsh.startNo ht, hsh.starts]
    exact h.numbered t ((hsh.list .hard).subset ht)
  ordered := by
    apply List.Pairwise.imp_of_mem _ (List.Pairwise.sublist (hsh.list .hard) h.ordered)
    intro a b ha hb hab
    rw [hsh.expiry ha, hsh.expiry hb, hsh.startNo ha, hsh.startNo hb]
    exact hab

theorem CallsBefore.shrunk (h : CallsBefore cfg calls s) (hsh : Shrunk cfg s s') :
    CallsBefore cfg calls s' where
  past c hc := by
    rw [hsh.ticks, hsh.starts]
    exact h.past c hc
  sooner c hc t ht := by
    rw [hsh.expiry ht, hsh.startNo ht]
    exact h.sooner c hc t ((hsh.list .hard).subset ht)

theorem timerStart_expiry (cfg : SkipListCfg) (s : TimerSys) (t : TimerId) :
    ((timerStart cfg s t).timer t).expiry = s.ticks + (s.timer t).initTick := by
  rw [timerStart_timer_self]

theorem timerStart_startNo (cfg : SkipListCfg) (s : TimerSys) (t : TimerId) :
    ((timerStart cfg s t).timer t).startNo = s.starts + 1 := by
  rw [timerStart_timer_self]

/-- **The test of the search.** It stops at the timers that run out later. -/
theorem HardTimes.stopsAt_iff (h : HardTimes cfg z s) (hz : z ≤ 1)
    (hinit : (s.timer t).initTick < rtTickMax / 2) (hu : u ∈ s.list .hard cfg.bottom)
    (hut : u ≠ t) : (timerArm s t).stopsAt t u = true ↔
      s.ticks + (s.timer t).initTick < (s.timer u).expiry := by
  have hlate := h.late u hu
  have hahead := h.ahead u hu
  have hhalf : rtTickMax / 2 = 2147483647 := by decide
  have hword : ((timerArm s t).timer t).timeoutTick =
      (s.ticks + (s.timer t).initTick) % 2 ^ 32 := by
    rw [timerArm, TimerSys.setTimer_timer_self, TimerSys.stopped_timer_self]
    exact Word32.add_mod _ _
  rw [TimerSys.stopsAt, hword, timerArm_timer_of_ne hut, h.word u hu, hhalf]
  rw [hhalf] at hahead hinit
  by_cases hle : s.ticks + (s.timer t).initTick ≤ (s.timer u).expiry
  · rw [Word32.sub_mod_of_le hle (by omega)]
    by_cases heq : (s.timer u).expiry - (s.ticks + (s.timer t).initTick) = 0
    · rw [if_pos heq]
      simp only [Bool.false_eq_true, false_iff]
      omega
    · rw [if_neg heq, decide_eq_true_eq]
      omega
  · rw [Word32.sub_mod_of_lt (by omega) (by omega), if_neg (by omega), decide_eq_true_eq]
    omega

/-- The order of the list and the search for the place of a new timer agree. -/
theorem HardTimes.ordered_start (h : HardTimes cfg z s) (hz : z ≤ 1)
    (hobj : (s.timer t).object = true) :
    ((timerStart cfg s t).list .hard cfg.bottom).Pairwise fun a b =>
      Sooner ((timerStart cfg s t).timer a).expiry ((timerStart cfg s t).timer a).startNo
        ((timerStart cfg s t).timer b).expiry ((timerStart cfg s t).timer b).startNo := by
  have hinit := h.nodes.initTick hobj
  have hrow : ∀ a ∈ (s.list .hard cfg.bottom).erase t, a ≠ t ∧ a ∈ s.list .hard cfg.bottom :=
    fun a ha => (h.nodes.bottom_nodup .hard).mem_erase_iff.mp ha
  have hstop : ∀ a ∈ (s.list .hard cfg.bottom).erase t, (timerArm s t).stopsAt t a = true ↔
      s.ticks + (s.timer t).initTick < (s.timer a).expiry :=
    fun a ha => h.stopsAt_iff hz hinit (hrow a ha).2 (hrow a ha).1
  have hsorted : ((s.list .hard cfg.bottom).erase t).Pairwise _ :=
    List.Pairwise.sublist List.erase_sublist h.ordered
  apply timerStart_pairwise h.nodes (fun _ => rfl)
  · apply List.Pairwise.imp_of_mem _ hsorted
    intro a b ha hb hab
    rw [timerStart_timer_of_ne (hrow a ha).1, timerStart_timer_of_ne (hrow b hb).1]
    exact hab
  · apply List.Pairwise.imp_of_mem _ hsorted
    intro a b ha hb hab hsa
    rw [hstop a ha] at hsa
    rw [hstop b hb]
    unfold Sooner at hab
    omega
  · -- with equal time-outs the new timer was started later
    intro a ha hsa
    have hle : ¬ s.ticks + (s.timer t).initTick < (s.timer a).expiry := by
      rw [← hstop a ha, hsa]
      simp
    have hno := h.numbered a (hrow a ha).2
    rw [timerStart_timer_of_ne (hrow a ha).1, timerStart_expiry, timerStart_startNo, Sooner]
    omega
  · intro b hb hsb
    rw [hstop b hb] at hsb
    rw [timerStart_timer_of_ne (hrow b hb).1, timerStart_expiry, Sooner]
    exact Or.inl hsb

theorem HardTimes.start (h : HardTimes cfg z s) (hz : z ≤ 1) (hobj : (s.timer t).object = true) :
    HardTimes cfg z (timerStart cfg s t) := by
  have hticks : (timerStart cfg s t).ticks = s.ticks := rfl
  have hstarts : (timerStart cfg s t).starts = s.starts + 1 := rfl
  have hmem : ∀ u ∈ (timerStart cfg s t).list .hard cfg.bottom,
      u = t ∨ u ≠ t ∧ u ∈ s.list .hard cfg.bottom := by
    intro u hu
    rcases (timerStart_mem h.nodes).mp hu with ⟨hut, -⟩ | hu
    · exact Or.inl hut
    · exact Or.inr hu
  refine ⟨h.nodes.timerStart hobj, ?_, ?_, ?_, ?_, h.ordered_start hz hobj⟩
  · intro u hu
    rcases hmem u hu with rfl | ⟨hut, hu⟩
    · rw [timerStart_timer_self]
      exact Word32.add_mod _ _
    · rw [timerStart_timer_of_ne hut]
      exact h.word u hu
  · intro u hu
    rcases hmem u hu with rfl | ⟨hut, hu⟩
    · rw [timerStart_expiry, hticks]
      omega
    · rw [timerStart_timer_of_ne hut, hticks]
      exact h.late u hu
  · intro u hu
    rcases hmem u hu with rfl | ⟨hut, hu⟩
    · have hinit := h.nodes.initTick hobj
      rw [timerStart_expiry, hticks]
      omega
    · rw [timerStart_timer_of_ne hut, hticks]
      exact h.ahead u hu
  · intro u hu
    rcases hmem u hu with rfl | ⟨hut, hu⟩
    · rw [timerStart_startNo, hstarts]
    · have hno := h.numbered u hu
      rw [timerStart_timer_of_ne hut, hstarts]
      omega

theorem CallsBefore.start (h : CallsBefore cfg calls s) (hnodes : TimerInv cfg s) (t : TimerId) :
    CallsBefore cfg calls (timerStart cfg s t) := by
  have hticks : (timerStart cfg s t).ticks = s.ticks := rfl
  have hstarts : (timerStart cfg s t).starts = s.starts + 1 := rfl
  constructor
  · intro c hc
    obtain ⟨hexp, hno⟩ := h.past c hc
    rw [hticks, hstarts]
    exact ⟨hexp, by omega⟩
  · intro c hc u hu
    rcases (timerStart_mem hnodes).mp hu with ⟨rfl, -⟩ | ⟨hut, hu⟩
    · obtain ⟨hexp, hno⟩ := h.past c hc
      rw [timerStart_expiry, timerStart_startNo, Sooner]
      omega
    · rw [timerStart_timer_of_ne hut]
      exact h.sooner c hc u hu

/-- The test of the check says that the timer has run out. -/
theorem HardTimes.isDue_iff (h : HardTimes cfg z s) (hz : z ≤ 1)
    (ht : t ∈ s.list .hard cfg.bottom) : s.isDue t = true ↔ (s.timer t).expiry ≤ s.ticks := by
  have hlate := h.late t ht
  have hahead := h.ahead t ht
  have hhalf : rtTickMax / 2 = 2147483647 := by decide
  rw [hhalf] at hahead
  rw [TimerSys.isDue, TimerSys.rtTickGet, h.word t ht, decide_eq_true_eq, hhalf]
  by_cases hle : (s.timer t).expiry ≤ s.ticks
  · rw [Word32.sub_mod_of_le hle (by omega)]
    omega
  · rw [Word32.sub_mod_of_lt (by omega) (by omega)]
    omega

end Times

-- --------
-- The loop of the check
-- --------

/-- The calls of a run are in order and in time. -/
structure CallsGood (z : Nat) (calls : List TimerCall) : Prop where
  ordered : calls.Pairwise fun later earlier => earlier.Before later
  inTime : ∀ c ∈ calls, c.expiry ≤ c.tick ∧ c.tick ≤ c.expiry + z

/-- What holds while the timers are checked. -/
structure Checking (cfg : SkipListCfg) (z : Nat) (calls : List TimerCall) (s : TimerSys) :
    Prop where
  times : HardTimes cfg z s
  before : CallsBefore cfg calls s
  good : CallsGood z calls

section Check

variable {cfg : SkipListCfg} {z : Nat} {s s' : TimerSys} {t : TimerId} {calls : List TimerCall}

theorem Checking.shrunk (h : Checking cfg z calls s) (hnodes : TimerInv cfg s')
    (hsh : Shrunk cfg s s') : Checking cfg z calls s' :=
  ⟨h.times.shrunk hnodes hsh, h.before.shrunk hsh, h.good⟩

theorem Checking.start (h : Checking cfg z calls s) (hz : z ≤ 1)
    (hobj : (s.timer t).object = true) : Checking cfg z calls (timerStart cfg s t) :=
  ⟨h.times.start hz hobj, h.before.start h.times.nodes t, h.good⟩

/-- The call of the first timer of the list, which has run out. -/
theorem Checking.call (h : Checking cfg z calls s) {rest : List TimerId}
    (hl : s.list .hard cfg.bottom = t :: rest) (hdue : (s.timer t).expiry ≤ s.ticks)
    (hnodes : TimerInv cfg ((s.fired t).hold .hard t)) :
    Checking cfg z (((s.fired t).hold .hard t).calling ++ calls) ((s.fired t).hold .hard t) := by
  have hmem : t ∈ s.list .hard cfg.bottom := by rw [hl]; simp
  have hfired : Shrunk cfg s ((s.fired t).hold .hard t) :=
    ⟨(Shrunk.fired cfg s t).ticks, (Shrunk.fired cfg s t).starts, (Shrunk.fired cfg s t).list,
      (Shrunk.fired cfg s t).timeoutTick, (Shrunk.fired cfg s t).expiry,
      (Shrunk.fired cfg s t).startNo⟩
  have hlist : ((s.fired t).hold .hard t).list .hard cfg.bottom = rest := by
    show (s.fired t).list .hard cfg.bottom = rest
    rw [TimerInv.fired_list, hl, List.erase_cons_head]
  have hcall : ((s.fired t).hold .hard t).calling =
      [⟨t, s.ticks, (s.timer t).expiry, (s.timer t).startNo⟩] := by
    have hrun : ((s.fired t).hold .hard t).running .hard = some t := by
      simp [TimerSys.hold]
    have hself : ((s.fired t).hold .hard t).timer t = _ := TimerInv.fired_timer_self s t
    simp [TimerSys.calling, hrun, hself, hfired.ticks]
  have hno := h.times.numbered t hmem
  have hlate := h.times.late t hmem
  have hshrunk := h.shrunk hnodes hfired
  have hord := h.times.ordered
  rw [hl] at hord
  rw [hcall]
  refine ⟨hshrunk.times, ⟨?_, ?_⟩, ⟨?_, ?_⟩⟩
  · intro c hc
    rcases List.mem_cons.mp hc with rfl | hc
    · rw [hfired.ticks, hfired.starts]
      exact ⟨hdue, hno⟩
    · exact hshrunk.before.past c hc
  · intro c hc u hu
    rcases List.mem_cons.mp hc with rfl | hc
    · rw [hfired.expiry hu, hfired.startNo hu]
      rw [hlist] at hu
      exact (List.pairwise_cons.mp hord).1 u hu
    · exact hshrunk.before.sooner c hc u hu
  · exact List.pairwise_cons.mpr ⟨fun c hc => h.before.sooner c hc t hmem, h.good.ordered⟩
  · intro c hc
    rcases List.mem_cons.mp hc with rfl | hc
    · exact ⟨hdue, hlate⟩
    · exact h.good.inTime c hc

/-- **The head of the loop** calls the next timeout function or ends, and then no linked timer
has run out. -/
theorem Checking.checkHead (h : Checking cfg z calls s) (hz : z ≤ 1) (hheld : s.held .hard = []) :
    Checking cfg z ((checkHead cfg s .hard).calling ++ calls) (checkHead cfg s .hard) ∧
    ((checkHead cfg s .hard).running .hard = none →
      ∀ t ∈ (checkHead cfg s .hard).list .hard cfg.bottom,
        (checkHead cfg s .hard).ticks < ((checkHead cfg s .hard).timer t).expiry) := by
  have hnodes := h.times.nodes.checkHead hheld
  rcases TimerInv.checkHead_cases cfg s .hard with ⟨heq, hhead⟩ | ⟨t, rest, hl, hdue, heq⟩
  · have hnone : (s.leave .hard).calling = [] := by
      simp [TimerSys.calling, TimerSys.leave]
    rw [heq] at hnodes ⊢
    rw [hnone]
    refine ⟨h.shrunk hnodes ⟨rfl, rfl, fun _ => List.Sublist.refl _, fun _ => rfl, fun _ => rfl,
      fun _ => rfl⟩, ?_⟩
    intro _ t ht
    have ht : t ∈ s.list .hard cfg.bottom := ht
    show s.ticks < (s.timer t).expiry
    -- the loop stopped at the first timer, which has not run out
    cases hl : s.list .hard cfg.bottom with
    | nil =>
      rw [hl] at ht
      cases ht
    | cons f fs =>
      have hf : f ∈ s.list .hard cfg.bottom := by rw [hl]; simp
      have hnot : ¬ (s.timer f).expiry ≤ s.ticks := by
        rw [← h.times.isDue_iff hz hf, hhead f (by rw [hl]; rfl)]
        simp
      have hord := h.times.ordered
      rw [hl] at hord ht
      rcases List.mem_cons.mp ht with rfl | ht
      · omega
      · have := (List.pairwise_cons.mp hord).1 t ht
        unfold Sooner at this
        omega
  · have hmem : t ∈ s.list .hard cfg.bottom := by rw [hl]; simp
    rw [heq] at hnodes ⊢
    refine ⟨h.call hl ((h.times.isDue_iff hz hmem).mp hdue) hnodes, ?_⟩
    intro hnone
    simp [TimerSys.hold] at hnone

/-- The check takes a timer back that is to start again. -/
theorem Checking.restarted (h : Checking cfg z calls s) (hz : z ≤ 1) (hmem : t ∈ s.held .hard)
    (hheld : s.held .hard = [t]) :
    Checking cfg z calls (timerStart cfg ((s.bottomRemove cfg t).setActivated t false) t) ∧
    (timerStart cfg ((s.bottomRemove cfg t).setActivated t false) t).held .hard = [] := by
  have hnodes := h.times.nodes
  have hsame : SameTimes s (s.bottomRemove cfg t) :=
    ⟨rfl, rfl, hnodes.bottomRemove_list hmem, fun _ => rfl, fun _ => rfl, fun _ => rfl,
      fun _ => rfl, fun _ => rfl⟩
  have hobj : (((s.bottomRemove cfg t).setActivated t false).timer t).object = true := by
    simpa using hnodes.held_object hmem
  refine ⟨(h.shrunk (hnodes.released hmem) (hsame.setActivated t false).shrunk).start hz hobj, ?_⟩
  show ((s.held .hard).erase t).erase t = []
  simp [hheld]

/-- The check takes a timer back that is not to start again. -/
theorem Checking.dropped (h : Checking cfg z calls s) (hmem : t ∈ s.held .hard)
    (hheld : s.held .hard = [t]) :
    Checking cfg z calls (s.bottomRemove cfg t) ∧ (s.bottomRemove cfg t).held .hard = [] := by
  have hnodes := h.times.nodes
  have hsame : SameTimes s (s.bottomRemove cfg t) :=
    ⟨rfl, rfl, hnodes.bottomRemove_list hmem, fun _ => rfl, fun _ => rfl, fun _ => rfl,
      fun _ => rfl, fun _ => rfl⟩
  exact ⟨h.shrunk (hnodes.bottomRemove hmem) hsame.shrunk, by simp [hheld]⟩

end Check

-- --------
-- The step and the run
-- --------

/-- The invariant of the runs. -/
structure TickInv (cfg : SkipListCfg) (z : Nat) (s : TickSys) : Prop where
  checking : Checking cfg z s.calls s.timers
  idle : s.Idle → ∀ t ∈ s.timers.list .hard cfg.bottom,
    s.timers.ticks < (s.timers.timer t).expiry + z

section Step

variable {cfg : SkipListCfg} {z : Nat} {s s' : TickSys}

/-- Only `rt_timer_check` changes which hard timer is running. -/
theorem running_other {s s' : TimerSys} {a : TimerAct} (ha : a.IsOther) (hinv : TimerInv cfg s)
    (h : TimerStep cfg s a s') : s'.running .hard = s.running .hard := by
  have hsoft : ∀ s : TimerSys, (checkHead cfg s .soft).running .hard = s.running .hard := by
    intro s
    rcases TimerInv.checkHead_cases cfg s .soft with ⟨heq, -⟩ | ⟨t, rest, -, -, heq⟩
    · rw [heq]
      rfl
    · have hfired : (s.fired t).running = s.running := by
        rw [TimerSys.fired]
        split <;> rfl
      rw [heq, TimerSys.hold]
      simp [hfired]
  cases h with
  | tick n => exact absurd ha not_false
  | init hinit =>
    obtain ⟨_, _, hinit⟩ := except_bind_ok hinit
    obtain ⟨_, _, hinit⟩ := except_bind_ok hinit
    obtain rfl := Except.ok.inj hinit
    rfl
  | detach hdet =>
    obtain ⟨_, _, hdet⟩ := except_bind_ok hdet
    obtain rfl := Except.ok.inj hdet
    rfl
  | start hstart =>
    obtain ⟨_, _, hstart⟩ := except_bind_ok hstart
    obtain rfl := Except.ok.inj hstart
    rfl
  | stop hstop =>
    rcases TimerInv.stop_cases hstop with ⟨-, rfl⟩ | ⟨-, rfl, -⟩ <;> rfl
  | stopLate t => rfl
  | control hctl =>
    obtain ⟨-, rfl | ⟨x, rfl, -⟩⟩ := TimerInv.control_cases hctl <;> rfl
  | @check k hrun hk =>
    cases k with
    | hard => exact absurd ha not_false
    | soft => exact hsoft s
  | @ret _ k t hrun hk hret =>
    cases k with
    | hard => exact absurd ha not_false
    | soft =>
      rcases hinv.checkReturn_cases hrun hret with ⟨-, rfl⟩ | ⟨-, -, -, rfl⟩ | ⟨-, -, rfl⟩
      · exact hsoft s
      · exact hsoft _
      · exact hsoft _

theorem TickInv.check (h : TickInv cfg z s) (hz : z ≤ 1) {s' : TimerSys}
    (hs : TimerStep cfg s.timers (.check .hard) s') :
    TickInv cfg z ⟨s', false, s'.calling ++ s.calls⟩ := by
  cases hs with
  | check hrun hk =>
    obtain ⟨hnext, hdone⟩ :=
      h.checking.checkHead hz (h.checking.times.nodes.held_of_idle hrun)
    refine ⟨hnext, fun hidle t ht => ?_⟩
    have := hdone hidle.2 t ht
    dsimp only
    omega

/-- A timeout function returns: its timer starts again if it is periodic, and the loop goes on. -/
theorem TickInv.ret (h : TickInv cfg z s) (hz : z ≤ 1) {s' : TimerSys}
    (hs : TimerStep cfg s.timers (.ret .hard) s') :
    TickInv cfg z ⟨s', s.counted, s'.calling ++ s.calls⟩ := by
  have hnodes := h.checking.times.nodes
  cases hs with
  | @ret _ _ t hrun hk hret =>
    obtain ⟨s₁, hs₁, hheld, hs'⟩ : ∃ s₁, Checking cfg z s.calls s₁ ∧ s₁.held .hard = [] ∧
        s' = checkHead cfg s₁ .hard := by
      rcases hnodes.checkReturn_cases hrun hret with
        ⟨hheld, hs'⟩ | ⟨hheld, -, -, hs'⟩ | ⟨hheld, -, hs'⟩
      · exact ⟨s.timers, h.checking, hheld, hs'⟩
      · obtain ⟨hnext, hempty⟩ := h.checking.restarted hz (by simp [hheld]) hheld
        exact ⟨_, hnext, hempty, hs'⟩
      · obtain ⟨hnext, hempty⟩ := h.checking.dropped (by simp [hheld]) hheld
        exact ⟨_, hnext, hempty, hs'⟩
    subst hs'
    obtain ⟨hnext, hdone⟩ := hs₁.checkHead hz hheld
    refine ⟨hnext, fun hidle t ht => ?_⟩
    have := hdone hidle.2 t ht
    dsimp only
    omega

theorem TickInv.other (h : TickInv cfg z s) (hz : z ≤ 1) {a : TimerAct} {s' : TimerSys}
    (hahead : StartsAhead z s a) (ha : a.IsOther) (hs : TimerStep cfg s.timers a s') :
    TickInv cfg z { s with timers := s' } := by
  have hnodes := h.checking.times.nodes
  have hidle : ({ s with timers := s' } : TickSys).Idle → s.Idle := by
    rintro ⟨hcount, hrun⟩
    exact ⟨hcount, (running_other ha hnodes hs).symm.trans hrun⟩
  rcases step_cases hnodes hs with ⟨n, rfl, -⟩ | hsh | ⟨s₁, t, hst, hsame, hinv₁, hobj, hsh⟩
  · exact absurd ha not_false
  · refine ⟨h.checking.shrunk (hnodes.step hs) hsh, fun hi t ht => ?_⟩
    show s'.ticks < (s'.timer t).expiry + z
    rw [hsh.ticks, hsh.expiry ht]
    exact h.idle (hidle hi) t ((hsh.list .hard).subset ht)
  · have hstart := (h.checking.shrunk hinv₁ hsame.shrunk).start hz hobj
    refine ⟨hstart.shrunk (hnodes.step hs) hsh, fun hi u hu => ?_⟩
    have hticks : (timerStart cfg s₁ t).ticks = s.timers.ticks := hsame.ticks
    show s'.ticks < (s'.timer u).expiry + z
    rw [hsh.ticks, hsh.expiry hu, hticks]
    rcases (timerStart_mem hinv₁).mp ((hsh.list .hard).subset hu) with ⟨rfl, hkind⟩ | ⟨hut, hu⟩
    · -- the timer that was started has its whole time left
      have hpos := hahead u hst ((hsame.kind u).symm.trans hkind.symm)
      rw [timerStart_expiry, hsame.ticks, hsame.initTick]
      omega
    · rw [timerStart_timer_of_ne hut, hsame.expiry]
      rw [hsame.list] at hu
      exact h.idle (hidle hi) u hu

/-- **A step** keeps the times of the calls. -/
theorem TickInv.step (h : TickInv cfg z s) (hz : z ≤ 1) {a : TimerAct}
    (hahead : StartsAhead z s a) (hs : TickStep cfg s a s') : TickInv cfg z s' := by
  cases hs with
  | count hidle =>
    have hsoon := h.idle hidle
    have hnodes : TimerInv cfg { s.timers with ticks := s.timers.ticks + 1 } :=
      h.checking.times.nodes.step (TimerStep.tick 1)
    refine ⟨⟨⟨hnodes, h.checking.times.word, ?_, ?_, h.checking.times.numbered,
      h.checking.times.ordered⟩, ⟨?_, h.checking.before.sooner⟩, h.checking.good⟩, ?_⟩
    · intro t ht
      exact hsoon t ht
    · intro t ht
      have := h.checking.times.ahead t ht
      dsimp only
      omega
    · intro c hc
      obtain ⟨hexp, hno⟩ := h.checking.before.past c hc
      exact ⟨Nat.le_succ_of_le hexp, hno⟩
    · intro hidle'
      exact absurd hidle'.1 (by simp)
  | check hs => exact h.check hz hs
  | ret hs => exact h.ret hz hs
  | other ha hs => exact h.other hz hahead ha hs

theorem TickInv.initial (cfg : SkipListCfg) (z : Nat) : TickInv cfg z TickSys.initial := by
  refine ⟨⟨⟨TimerInv.initial cfg, ?_, ?_, ?_, ?_, List.Pairwise.nil⟩, ⟨?_, ?_⟩,
    ⟨List.Pairwise.nil, ?_⟩⟩, fun _ => ?_⟩ <;> exact fun _ h => absurd h List.not_mem_nil

theorem TickInv.of_runs (hz : z ≤ 1)
    (hrun : Runs (TickStep cfg) (StartsAhead z) TickSys.initial s) : TickInv cfg z s :=
  Runs.invariant (fun _ _ _ h hok hs => h.step hz hok hs) hrun (TickInv.initial cfg z)

end Step

/-- **Timers run out in time.** Threads, interrupts and timeout functions use the timers as they
like, and the hard timers are started with a time of at least one tick (`z = 0`) or of any time
(`z = 1`). Then every timeout function was called when the time of its timer ran out, at most
`z` ticks later, and all the calls of the run were in the order of the time-outs and then of
the starts. Whenever the timers were checked for the last tick no linked timer has run out
more than `z` ticks ago. -/
theorem calls_in_time (cfg : SkipListCfg) {z : Nat} (hz : z ≤ 1) (s : TickSys)
    (hrun : Runs (TickStep cfg) (StartsAhead z) TickSys.initial s) :
    (∀ c ∈ s.calls, c.expiry ≤ c.tick ∧ c.tick ≤ c.expiry + z) ∧
    s.calls.Pairwise (fun later earlier => earlier.Before later) ∧
    (s.Idle → ∀ t ∈ s.timers.list .hard cfg.bottom,
      s.timers.ticks < (s.timers.timer t).expiry + z) := by
  have h := TickInv.of_runs hz hrun
  exact ⟨h.checking.good.inTime, h.checking.good.ordered, h.idle⟩

/-- Two timers that run out in the same tick: the one that was started first is called first. -/
theorem calls_in_time_run : ∃ s : TickSys,
    s.calls.map TimerCall.timer = [2, 1] ∧ s.calls.map TimerCall.tick = [1, 1] ∧
    s.calls.Pairwise fun later earlier => earlier.Before later := by
  have hrun : Runs (TickStep ⟨1, 3, by decide⟩) (StartsAhead 0) TickSys.initial _ :=
    ((((((Runs.refl.snoc (by rintro _ ⟨⟩)
      (.other (a := .init 1 1 ⟨false, true, false⟩) trivial (.init rfl))).snoc (by rintro _ ⟨⟩)
      (.other (a := .init 2 1 ⟨false, false, false⟩) trivial (.init rfl))).snoc
      (by rintro _ ⟨⟩ -; decide) (.other (a := .start 1) trivial (.start rfl))).snoc
      (by rintro _ ⟨⟩ -; decide) (.other (a := .start 2) trivial (.start rfl))).snoc
      (by rintro _ ⟨⟩) (.count (by decide))).snoc
      (by rintro _ ⟨⟩) (.check (.check rfl (by simp)))).snoc
      (by rintro _ ⟨h, -⟩ -; obtain rfl := List.mem_singleton.mp h; decide)
      (.ret (.ret (t := 1) rfl (by simp) rfl))
  exact ⟨_, by decide, by decide, (calls_in_time _ (by decide) _ hrun).2.1⟩

end RTThread
