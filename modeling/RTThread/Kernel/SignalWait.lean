import RTThread.Kernel.SignalHandle

/-!
# Waiting for a signal (`rt_signal_wait`)

To the signals come the error of a thread, its timer, and what a wait returns. A thread in a signal
wait is resumed by `_signal_deliver`, or by its timer. `_signal_deliver` looks at the mask of the
thread and not at the set that it waits for; and the wait tells a time-out from a signal by the
error of the thread, which may be one of a call before.

`signal_wait`: in a run whose steps are all as `WaitsFor` says, a wait returns a signal of its set
with its node taken, times out with none pending, and a signal of the set that is sent makes the
thread ready.
-/

namespace RTThread

-- --------
-- The code
-- --------

/-- The signals, `tid->error`, whether `tid->thread_timer` runs, what the last `rt_signal_wait` of a
call returned, and the number in the `*si` of the call. -/
structure SigWaits where
  sys : SigSys
  error : ThreadId → Int
  timer : ThreadId → Bool
  ret : SigCtx → Int
  si : SigCtx → Nat

/-- What happens next. -/
inductive SigWaitAct
  /-- A call begins that is no `rt_signal_wait`. -/
  | call (a : SigAct)
  /-- The next section of such a call. -/
  | next (c : SigCtx)
  /-- `rt_signal_wait(set, si, timeout)`, and its return from `rt_schedule`; whether `si` is null. -/
  | wait (c : SigCtx) (set : Option (BitVec 32)) (si : Bool) (timeout : Int)
  | woken (c : SigCtx)
  /-- `_thread_timeout` -/
  | timeout (t : ThreadId)
  /-- The rest of the kernel suspends or resumes a thread that is in no signal wait, and sets its
  error. -/
  | rest (t : ThreadId) (suspended : Bool) (error : Int)

/-- A call begins that is no `rt_signal_wait`. -/
def SigAct.begins : SigAct → Bool
  | .kill .. | .mask .. | .unmask .. | .install .. | .entry .. | .schedule .. => true
  | _ => false

namespace SigWaits

open SigSys

/-- `RT_EOK`, and the negated `RT_ETIMEOUT`, `RT_EINTR` and `RT_EINVAL`. -/
def rtEok : Int := 0

def rtEtimeout : Int := -2

def rtEintr : Int := -9

def rtEinval : Int := -10

/-- `RT_WAITING_FOREVER` -/
def waitingForever : Int := -1

/-- `RT_TICK_MAX / 2` -/
def tickMaxHalf : Int := 2 ^ 31 - 1

variable (cfg : SigCfg) (s : SigWaits) (c : SigCtx)

/-- The thread of a call. -/
def self : SigThread := s.sys.thread (cfg.self c)

/-- A call begins. -/
def call (a : SigAct) : Option SigWaits :=
  if a.begins then (step cfg s.sys a).map fun sys => { s with sys } else none

/-- The next section of a call. A handler that was interrupted by a signal wait has to wait for it,
`rt_thread_handle_sig` sets the error behind its handler, and `rt_thread_resume` stops the timer. -/
def next : Option SigWaits :=
  match s.sys.pc c with
  | .handling _ =>
    if (s.self cfg c).signalWait then none
    else (s.sys.next cfg c).map fun sys =>
      { s with sys, error := Function.update s.error (cfg.self c) rtEintr }
  | .deliver t => (s.sys.next cfg c).map fun sys =>
    { s with sys, timer := Function.update s.timer t (s.timer t && (sys.thread t).suspended) }
  | _ => (s.sys.next cfg c).map fun sys => { s with sys }

/-- `rt_signal_wait` returns. -/
def return' (ret : Int) (si : Nat) (sys : SigSys) : SigWaits :=
  { s with sys, ret := Function.update s.ret c ret, si := Function.update s.si c si }

/-- The number in the first node of the list that is for a signal of the set. -/
def found (set : BitVec 32) (si : Nat) : Nat :=
  ((s.sys.nodes (.list (cfg.self c))).find? fun n => set.getLsbD (s.sys.si n)).elim si s.sys.si

/-- `rt_signal_wait`: the thread is suspended. -/
def Suspends (set : Option (BitVec 32)) (si : Bool) (timeout : Int) : Prop :=
  set.getD 0#32 ≠ 0#32 ∧ si = true ∧ (s.self cfg c).sigPending &&& set.getD 0#32 = 0#32 ∧
    timeout ≠ 0

instance (set : Option (BitVec 32)) (si : Bool) (timeout : Int) :
    Decidable (s.Suspends cfg c set si timeout) :=
  inferInstanceAs (Decidable (_ ∧ _))

/-- The first section of `rt_signal_wait`. -/
def wait (set : Option (BitVec 32)) (si : Bool) (timeout : Int) : Option SigWaits :=
  let t := cfg.self c
  let set := set.getD 0#32
  if set = 0#32 ∨ si = false then some (s.return' c rtEinval (s.si c) s.sys)
  else if (s.self cfg c).sigPending &&& set ≠ 0#32 then
    some (s.return' c rtEok (s.found cfg c set 0) (s.sys.takeWaited t set))
  else if timeout = 0 then some (s.return' c rtEtimeout 0 s.sys)
  else if timeout = waitingForever ∨ (0 ≤ timeout ∧ timeout < tickMaxHalf) then
    some { s with
      sys := s.sys.wait cfg c set timeout
      timer := Function.update s.timer t (decide (timeout ≠ waitingForever))
      si := Function.update s.si c 0 }
  else none -- the assertion of `rt_timer_control`

/-- The second. -/
def woken (set : BitVec 32) : SigWaits :=
  let t := cfg.self c
  if s.error t = rtEtimeout then
    { s.return' c rtEtimeout (s.si c) (s.sys.woken cfg c set true) with
      error := Function.update s.error t rtEok }
  else s.return' c rtEok (s.found cfg c set (s.si c)) (s.sys.woken cfg c set false)

/-- `_thread_timeout` -/
def timedOut (t : ThreadId) : SigWaits where
  sys := s.sys.setThread t { s.sys.thread t with suspended := false }
  error := Function.update s.error t rtEtimeout
  timer := Function.update s.timer t false
  ret := s.ret
  si := s.si

/-- **A step.** A thread waits if it is running, and in no signal wait. -/
def exec (s : SigWaits) : SigWaitAct → Option SigWaits
  | .call a => s.call cfg a
  | .next c => s.next cfg c
  | .wait c set si timeout =>
    if s.sys.pc c = .idle ∧ (s.self cfg c).suspended = false ∧ (s.self cfg c).signalWait = false then
      s.wait cfg c set si timeout
    else none
  | .woken c =>
    match s.sys.pc c with
    | .waiting set => Runs.takeIf ((s.self cfg c).suspended = false) (s.woken cfg c set)
    | _ => none
  | .timeout t => Runs.takeIf (s.timer t = true) (s.timedOut t)
  | .rest t suspended error =>
    Runs.takeIf ((s.sys.thread t).signalWait = false)
      { s with
        sys := s.sys.setThread t { s.sys.thread t with suspended := suspended }
        error := Function.update s.error t error }

/-- Before anything happens. -/
def start : SigWaits where
  sys := init cfg.poolSize
  error := fun _ => rtEok
  timer := fun _ => false
  ret := fun _ => rtEok
  si := fun _ => 0

-- --------
-- What it is for
-- --------

/-- Which set a thread is in a signal wait for, and what was pending when it timed out. -/
structure SigNote where
  waiting : ThreadId → Option (BitVec 32)
  expired : ThreadId → Option (BitVec 32)

/-- What a step adds to the note. -/
def SigNote.after (g : SigNote) (s : SigWaits) : SigWaitAct → SigNote
  | .wait c set si timeout =>
    if s.Suspends cfg c set si timeout then
      { waiting := Function.update g.waiting (cfg.self c) (some (set.getD 0#32))
        expired := Function.update g.expired (cfg.self c) none }
    else g
  | .woken c => { g with waiting := Function.update g.waiting (cfg.self c) none }
  | .timeout t =>
    { g with expired := Function.update g.expired t (some (s.sys.thread t).sigPending) }
  | _ => g

/-- The steps, with the note. -/
abbrev SigWaitStep := Runs.Exec (Runs.execObserved (exec cfg) (SigNote.after cfg))

/-- Nobody waits. -/
def started : SigWaits × SigNote := (start cfg, ⟨fun _ => none, fun _ => none⟩)

/-- **What a run has to keep to.** A node is put in for a signal that is not pending. A call that
delivers to a thread suspended in a signal wait finds an unmasked signal if and only if one of the
set is pending. No time-out is left in the error of a thread that goes to wait. The timer does not
expire between the insertion of a node for the set and its delivery. -/
def WaitsFor (p : SigWaits × SigNote) : SigWaitAct → Prop
  | .next c =>
    match p.1.sys.pc c with
    | .insert t sig => (p.1.sys.thread t).sigPending.getLsbD sig = false
    | .deliver t => (p.1.sys.thread t).suspended = true → ∀ set ∈ p.2.waiting t,
      ((p.1.sys.thread t).sigPending &&& set ≠ 0#32 ↔ p.1.sys.deliverable t ≠ 0#32)
    | _ => True
  | .wait c set si timeout =>
    p.1.Suspends cfg c set si timeout → p.1.error (cfg.self c) ≠ rtEtimeout
  | .timeout t => (∃ c, p.1.sys.pc c = .deliver t) → ∀ set ∈ p.2.waiting t,
    (p.1.sys.thread t).sigPending &&& set = 0#32
  | _ => True

/-- The step is the end of a `rt_signal_wait` for the set. -/
def Returns (p : SigWaits × SigNote) (c : SigCtx) (set : BitVec 32) : SigWaitAct → Prop
  | .wait c' set' si timeout =>
    c' = c ∧ set'.getD 0#32 = set ∧ ¬ p.1.Suspends cfg c set' si timeout
  | .woken c' => c' = c ∧ p.1.sys.pc c = .waiting set
  | _ => False

/-- What was pending at the time-out: now if the wait is for no time at all. -/
def pendingAt (p : SigWaits × SigNote) (c : SigCtx) : SigWaitAct → Option (BitVec 32)
  | .woken _ => p.2.expired (cfg.self c)
  | _ => some (p.1.self cfg c).sigPending

/-- A signal of the set that was pending is in `*si`: one node for it is taken from the list and
freed, none is left, and its bit is cleared. -/
structure Takes (s : SigWaits) (c : SigCtx) (set : BitVec 32) (s' : SigWaits) : Prop where
  mem : set.getLsbD (s'.si c) = true
  pending : s.sys.Pending (cfg.self c) (s'.si c)
  node : ∃ n ∈ s.sys.nodes (.list (cfg.self c)), s.sys.si n = s'.si c ∧
    s'.sys.nodes (.list (cfg.self c)) = (s.sys.nodes (.list (cfg.self c))).erase n ∧
    n ∈ s'.sys.nodes .free
  gone : ∀ n ∈ s'.sys.nodes (.list (cfg.self c)), s'.sys.si n ≠ s'.si c
  cleared : (s'.self cfg c).sigPending =
    (s.self cfg c).sigPending &&& ~~~BitSet.mask 32 (s'.si c)

/-- **What a step is to do.** A wait that returns `RT_EOK` has taken a signal of its set. At a
time-out none of the set was pending. A signal of the set that is delivered to a thread makes it
ready, and there is a delivery for each that a thread sleeps over. -/
structure WaitMeets (p : SigWaits × SigNote) (a : SigWaitAct) (p' : SigWaits × SigNote) : Prop where
  ok {c : SigCtx} {set : BitVec 32} (h : Returns cfg p c set a) (hret : p'.1.ret c = rtEok) :
    Takes cfg p.1 c set p'.1
  timeout {c : SigCtx} {set : BitVec 32} (h : Returns cfg p c set a)
    (hret : p'.1.ret c = rtEtimeout) : ∃ pending ∈ pendingAt cfg p c a, pending &&& set = 0#32
  ready {c : SigCtx} {t : ThreadId} (ha : a = .next c) (hpc : p.1.sys.pc c = .deliver t) :
    ∀ set ∈ p.2.waiting t, (p.1.sys.thread t).sigPending &&& set ≠ 0#32 →
      (p'.1.sys.thread t).suspended = false
  sent {t : ThreadId} : ∀ set ∈ p'.2.waiting t, (p'.1.sys.thread t).suspended = true →
    (p'.1.sys.thread t).sigPending &&& set ≠ 0#32 → ∃ c, p'.1.sys.pc c = .deliver t

end SigWaits

-- --------
-- What the calls do to a thread that waits
-- --------

/-- A call is in its signal wait. -/
def SigPc.waits : SigPc → Bool
  | .waiting _ => true
  | _ => false

namespace SigSys

variable {cfg : SigCfg} {s s' : SigSys} {c : SigCtx} {t t₀ : ThreadId}

/-- A thread is suspended, in a signal wait, and has signals pending, as it was. -/
structure Same (s s' : SigSys) (t : ThreadId) : Prop where
  suspended : (s'.thread t).suspended = (s.thread t).suspended
  signalWait : (s'.thread t).signalWait = (s.thread t).signalWait
  sigPending : (s'.thread t).sigPending = (s.thread t).sigPending

theorem Same.of_eq (h : s'.thread t = s.thread t) : Same s s' t := by
  refine ⟨?_, ?_, ?_⟩
  · rw [h]
  · rw [h]
  · rw [h]

theorem Same.of_thread {s₁ : SigSys} (h : s₁.thread = s.thread) (hsame : Same s₁ s' t) :
    Same s s' t :=
  ⟨h ▸ hsame.suspended, h ▸ hsame.signalWait, h ▸ hsame.sigPending⟩

theorem thread_update {th : SigThread} (h : s'.thread = Function.update s.thread t th) :
    s'.thread t = th := by
  rw [h, Function.update_self]

theorem Same.other {th : SigThread} (h : s'.thread = Function.update s.thread t₀ th)
    (hne : t ≠ t₀) : Same s s' t :=
  Same.of_eq (by rw [h, Function.update_of_ne hne])

theorem Same.update {th : SigThread} (h : s'.thread = Function.update s.thread t₀ th)
    (hsuspended : th.suspended = (s.thread t₀).suspended)
    (hwait : th.signalWait = (s.thread t₀).signalWait)
    (hpending : th.sigPending = (s.thread t₀).sigPending) : Same s s' t := by
  by_cases ht : t = t₀
  · subst ht
    have hth := thread_update h
    refine ⟨?_, ?_, ?_⟩
    · rw [hth, hsuspended]
    · rw [hth, hwait]
    · rw [hth, hpending]
  · exact Same.other h ht

/-- The call goes on, and not in a signal wait. -/
def GoesOn (s s' : SigSys) (c : SigCtx) : Prop :=
  ∃ pc : SigPc, s'.pc = Function.update s.pc c pc ∧ pc.waits = false

theorem GoesOn.other (h : GoesOn s s' c) {c' : SigCtx} (hne : c' ≠ c) : s'.pc c' = s.pc c' := by
  obtain ⟨pc, hpc, -⟩ := h
  rw [hpc, Function.update_of_ne hne]

/-- Who waits, waited before. -/
theorem GoesOn.waiting (h : GoesOn s s' c) {c' : SigCtx} {set : BitVec 32}
    (hwait : s'.pc c' = .waiting set) : s.pc c' = .waiting set := by
  by_cases hc : c' = c
  · obtain ⟨pc, hpc, hno⟩ := h
    rw [hc, hpc, Function.update_self] at hwait
    rw [hwait] at hno
    cases hno
  · rw [← h.other hc]
    exact hwait

theorem goesOn_handled {cleanState : Bool} : GoesOn s (s.handled c t cleanState) c := by
  simp only [handled]
  split
  · exact ⟨_, rfl, rfl⟩
  · exact ⟨_, rfl, rfl⟩

theorem goesOn_handleRound {cleanState : Bool} : GoesOn s (s.handleRound c t cleanState) c := by
  simp only [handleRound]
  split
  · exact goesOn_handled
  split
  · exact goesOn_handled
  split
  · exact ⟨_, rfl, rfl⟩
  · exact ⟨_, rfl, rfl⟩

theorem goesOn_deliver : GoesOn s (s.deliver cfg c t) c := by
  simp only [deliver]
  split
  · exact ⟨_, rfl, rfl⟩
  split
  · exact ⟨_, rfl, rfl⟩
  split
  · refine ⟨_, rfl, ?_⟩
    split
    · rfl
    · rfl
  split
  · exact ⟨_, rfl, rfl⟩
  · exact ⟨_, rfl, rfl⟩

theorem handlerReturn_eq : (s.handlerReturn c).thread = s.thread ∧ (s.handlerReturn c).pc = s.pc := by
  simp only [handlerReturn]
  split
  · exact ⟨rfl, rfl⟩
  · exact ⟨rfl, rfl⟩

/-- **The next section of a call.** -/
theorem next_goesOn (hs : s.next cfg c = some s') : GoesOn s s' c := by
  unfold SigSys.next at hs
  split at hs
  case h_1 t₀ sig hpc =>
    obtain rfl := Option.some.inj hs
    simp only [killLookup]
    split
    · exact ⟨_, rfl, rfl⟩
    · exact ⟨_, rfl, rfl⟩
  case h_2 t₀ sig hpc =>
    obtain rfl := Option.some.inj hs
    simp only [killAlloc]
    split
    · exact ⟨_, rfl, rfl⟩
    · exact ⟨_, rfl, rfl⟩
  case h_3 t₀ sig hpc =>
    unfold killInsert at hs
    split at hs
    · cases hs
    · obtain rfl := Option.some.inj hs
      exact ⟨_, rfl, rfl⟩
  case h_4 t₀ hpc =>
    obtain rfl := Option.some.inj hs
    exact goesOn_deliver
  case h_5 cleanState hpc =>
    obtain rfl := Option.some.inj hs
    simp only [handleStart]
    split
    · exact goesOn_handleRound
    split
    · exact ⟨_, rfl, rfl⟩
    · exact goesOn_handled
  case h_6 cleanState hpc =>
    obtain rfl := Option.some.inj hs
    obtain ⟨pc, hpc', hno⟩ := @goesOn_handleRound (s.handlerReturn c) c (cfg.self c) cleanState
    exact ⟨pc, by rw [hpc', handlerReturn_eq.2], hno⟩
  case h_7 => cases hs
  case h_8 => cases hs
  case h_9 => cases hs

theorem same_handled {cleanState : Bool} : Same s (s.handled c t₀ cleanState) t := by
  simp only [handled]
  split
  · exact Same.update rfl rfl rfl rfl
  · exact Same.update rfl rfl rfl rfl

theorem same_handleRound (hne : t ≠ t₀) {cleanState : Bool} :
    Same s (s.handleRound c t₀ cleanState) t := by
  simp only [handleRound]
  split
  · exact same_handled
  split
  · exact same_handled
  split
  · exact Same.of_eq rfl
  · exact Same.other rfl hne

theorem same_deliver (hne : t ≠ t₀) : Same s (s.deliver cfg c t₀) t := by
  simp only [deliver]
  split
  · exact Same.of_eq rfl
  split
  · exact Same.other rfl hne
  split
  · exact Same.other rfl hne
  split
  · exact Same.other rfl hne
  · exact Same.of_eq rfl

/-- A call that neither puts in a node for the waiting thread nor delivers to it leaves it so. -/
theorem next_same (hs : s.next cfg c = some s') (hwait : (s.thread t).signalWait = true)
    (hhandling : ∀ cleanState, s.pc c = .handling cleanState → cfg.self c ≠ t)
    (hinsert : ∀ sig, s.pc c ≠ .insert t sig) (hdeliver : s.pc c ≠ .deliver t) : Same s s' t := by
  unfold SigSys.next at hs
  split at hs
  case h_1 t₀ sig hpc =>
    obtain rfl := Option.some.inj hs
    simp only [killLookup]
    split
    · exact Same.of_eq rfl
    · exact Same.of_eq rfl
  case h_2 t₀ sig hpc =>
    obtain rfl := Option.some.inj hs
    simp only [killAlloc]
    split
    · exact Same.of_eq rfl
    · exact Same.of_eq rfl
  case h_3 t₀ sig hpc =>
    have hne : t ≠ t₀ := by
      rintro rfl
      exact hinsert sig hpc
    unfold killInsert at hs
    split at hs
    · cases hs
    · obtain rfl := Option.some.inj hs
      exact Same.other rfl hne
  case h_4 t₀ hpc =>
    obtain rfl := Option.some.inj hs
    refine same_deliver ?_
    rintro rfl
    exact hdeliver hpc
  case h_5 cleanState hpc =>
    obtain rfl := Option.some.inj hs
    simp only [handleStart]
    split
    case isTrue hround =>
      -- a thread in a signal wait has no round
      refine same_handleRound ?_
      rintro rfl
      rw [hwait] at hround
      cases hround.2
    split
    · exact Same.of_eq rfl
    · exact same_handled
  case h_6 cleanState hpc =>
    obtain rfl := Option.some.inj hs
    exact (same_handleRound (hhandling cleanState hpc).symm).of_thread handlerReturn_eq.1
  case h_7 => cases hs
  case h_8 => cases hs
  case h_9 => cases hs

/-- The node is put in, and its delivery comes next. -/
theorem killInsert_sent {sig : Nat} (hs : s.killInsert c t sig = some s') :
    (s'.thread t).suspended = (s.thread t).suspended ∧
      (s'.thread t).signalWait = (s.thread t).signalWait ∧ s'.pc c = .deliver t := by
  unfold killInsert at hs
  split at hs
  · cases hs
  · obtain rfl := Option.some.inj hs
    rw [@thread_update s _ t _ rfl]
    exact ⟨rfl, rfl, Function.update_self _ _ _⟩

/-- A suspended thread is resumed if it has an unmasked signal pending. -/
theorem deliver_suspended (hsuspended : (s.thread t).suspended = true) :
    ((s.deliver cfg c t).thread t).signalWait = (s.thread t).signalWait ∧
      ((s.deliver cfg c t).thread t).sigPending = (s.thread t).sigPending ∧
      ((s.deliver cfg c t).thread t).suspended = decide (s.deliverable t = 0#32) := by
  simp only [deliver]
  by_cases hnone : s.deliverable t = 0#32
  · rw [if_pos hnone, decide_eq_true hnone]
    exact ⟨rfl, rfl, hsuspended⟩
  · rw [if_neg hnone, if_pos hsuspended, decide_eq_false hnone, @thread_update s _ t _ rfl]
    exact ⟨rfl, rfl, rfl⟩

/-- And one that is ready stays so. -/
theorem deliver_ready (hready : (s.thread t).suspended = false) :
    Same s (s.deliver cfg c t) t := by
  simp only [deliver]
  split
  · exact Same.of_eq rfl
  split
  case isTrue hsuspended => cases hready.symm.trans hsuspended
  split
  · exact Same.update rfl rfl rfl rfl
  split
  · exact Same.update rfl rfl rfl rfl
  · exact Same.of_eq rfl

/-- What a section of a call makes of a thread that is in a signal wait for the set. -/
inductive Passes (s s' : SigSys) (c : SigCtx) (t : ThreadId) (set : BitVec 32) : Prop
  | same (h : Same s s' t) (hdelivered : s.pc c = .deliver t → (s.thread t).suspended = true →
      (s.thread t).sigPending &&& set = 0#32)
  | sent (hpc : s.pc c ≠ .deliver t)
      (hsuspended : (s'.thread t).suspended = (s.thread t).suspended)
      (hwait : (s'.thread t).signalWait = (s.thread t).signalWait)
      (hkeeps : s.KeepsPending s') (hpc' : s'.pc c = .deliver t)
  | resumed (hpc : s.pc c = .deliver t) (hsuspended : (s.thread t).suspended = true)
      (hready : (s'.thread t).suspended = false)
      (hwait : (s'.thread t).signalWait = (s.thread t).signalWait)
      (hpending : (s'.thread t).sigPending = (s.thread t).sigPending)
      (hset : (s.thread t).sigPending &&& set ≠ 0#32)

theorem next_passes {set : BitVec 32} (hs : s.next cfg c = some s')
    (hwait : (s.thread t).signalWait = true)
    (hhandling : ∀ cleanState, s.pc c = .handling cleanState → cfg.self c ≠ t)
    (hdeliver : s.pc c = .deliver t → (s.thread t).suspended = true →
      ((s.thread t).sigPending &&& set ≠ 0#32 ↔ s.deliverable t ≠ 0#32)) :
    Passes s s' c t set := by
  by_cases hd : s.pc c = .deliver t
  · have hs' : s.deliver cfg c t = s' := by
      rw [SigSys.next, hd] at hs
      exact Option.some.inj hs
    subst hs'
    cases hsuspended : (s.thread t).suspended with
    | false =>
      refine .same (deliver_ready hsuspended) fun _ h => ?_
      cases hsuspended.symm.trans h
    | true =>
      obtain ⟨hw, hp, hsusp⟩ := @deliver_suspended cfg s c t hsuspended
      have hiff := hdeliver hd hsuspended
      by_cases hnone : s.deliverable t = 0#32
      · rw [decide_eq_true hnone, ← hsuspended] at hsusp
        exact .same ⟨hsusp, hw, hp⟩ fun _ _ => not_not.1 (mt hiff.1 (not_not.2 hnone))
      · rw [decide_eq_false hnone] at hsusp
        exact .resumed hd hsuspended hsusp hw hp (hiff.2 hnone)
  · by_cases hi : ∃ sig, s.pc c = .insert t sig
    · obtain ⟨sig, hi⟩ := hi
      rw [SigSys.next, hi] at hs
      obtain ⟨hsusp, hw, hpc⟩ := killInsert_sent hs
      exact .sent hd hsusp hw (killInsert_keeps hs) hpc
    · have hsame := next_same hs hwait hhandling (fun sig hsig => hi ⟨sig, hsig⟩) hd
      exact .same hsame fun h => absurd h hd

/-- **A call begins.** -/
theorem step_begins {a : SigAct} (hs : step cfg s a = some s') (ha : a.begins = true) :
    ∃ c, s.pc c = .idle ∧ GoesOn s s' c ∧ ∀ t, Same s s' t := by
  have hstays (c : SigCtx) (hpc : s.pc c = .idle) (s₁ : SigSys) (h : s₁.pc = s.pc) :
      GoesOn s s₁ c := ⟨.idle, by rw [h, ← hpc, Function.update_eq_self], rfl⟩
  cases a with
  | wait c set timeout => cases ha
  | woken c timedOut => cases ha
  | next c => cases ha
  | suspend t suspended => cases ha
  | kill c t sig =>
    obtain ⟨hpc, rfl⟩ := Runs.takeIf_eq_some.1 hs
    refine ⟨c, hpc, ?_, fun t' => ?_⟩
    · split
      · exact ⟨_, rfl, rfl⟩
      · exact hstays c hpc s rfl
    · split
      · exact Same.of_eq rfl
      · exact Same.of_eq rfl
  | mask c signo =>
    obtain ⟨hpc, rfl⟩ := Runs.takeIf_eq_some.1 hs
    exact ⟨c, hpc, hstays c hpc _ rfl, fun t' => Same.update rfl rfl rfl rfl⟩
  | unmask c signo =>
    obtain ⟨hpc, rfl⟩ := Runs.takeIf_eq_some.1 hs
    refine ⟨c, hpc, ?_, fun t' => ?_⟩
    · split
      · exact ⟨_, rfl, rfl⟩
      · exact hstays c hpc _ rfl
    · split
      · exact Same.update rfl rfl rfl rfl
      · exact Same.update rfl rfl rfl rfl
  | install c signo handler =>
    obtain ⟨hpc, rfl⟩ := Runs.takeIf_eq_some.1 hs
    simp only [install]
    refine ⟨c, hpc, ?_, fun t' => ?_⟩
    · split
      · exact hstays c hpc _ rfl
      · exact hstays c hpc _ rfl
    · split
      · exact Same.update rfl rfl rfl rfl
      · exact Same.of_eq rfl
  | entry c =>
    simp only [step] at hs
    split at hs
    · obtain ⟨hpc, rfl⟩ := Runs.takeIf_eq_some.1 hs
      exact ⟨c, hpc, ⟨_, rfl, rfl⟩, fun t' => Same.of_eq rfl⟩
    · cases hs
  | schedule c =>
    simp only [step] at hs
    split at hs
    · obtain ⟨hpc, rfl⟩ := Runs.takeIf_eq_some.1 hs
      exact ⟨c, hpc, ⟨_, rfl, rfl⟩, fun t' => Same.update rfl rfl rfl rfl⟩
    · cases hs

end SigSys

-- --------
-- Every run
-- --------

namespace SigWaits

open SigSys

variable {cfg : SigCfg} {s s' : SigWaits} {g g' : SigNote} {c : SigCtx} {t : ThreadId}
variable {set : BitVec 32}

/-- A thread that sleeps in its wait has no time-out in its error, and a delivery comes for what it
waits for; one that is awake has timed out with none of the set pending, or has one pending. -/
structure ThreadOk (s : SigWaits) (g : SigNote) (t : ThreadId) : Prop where
  flag {set : BitVec 32} (h : g.waiting t = some set) : (s.sys.thread t).signalWait = true
  asleep {set : BitVec 32} (h : g.waiting t = some set)
    (hsuspended : (s.sys.thread t).suspended = true) : s.error t ≠ rtEtimeout ∧
      ((s.sys.thread t).sigPending &&& set ≠ 0#32 → ∃ c, s.sys.pc c = .deliver t)
  awake {set : BitVec 32} (h : g.waiting t = some set)
    (hsuspended : (s.sys.thread t).suspended = false) :
    (s.error t = rtEtimeout ∧ ∃ pending ∈ g.expired t, pending &&& set = 0#32) ∨
      (s.error t ≠ rtEtimeout ∧ (s.sys.thread t).sigPending &&& set ≠ 0#32)
  timer (h : s.timer t = true) :
    (s.sys.thread t).suspended = true ∧ ∃ set, g.waiting t = some set

/-- **What holds in every run.** The note has the waiting calls, one for a thread. -/
structure WaitInv (cfg : SigCfg) (p : SigWaits × SigNote) : Prop where
  sound : p.1.sys.Sound True cfg.poolSize
  noted {c : SigCtx} {set : BitVec 32} (h : p.1.sys.pc c = .waiting set) :
    p.2.waiting (cfg.self c) = some set
  alone {c c' : SigCtx} {set set' : BitVec 32} (h : p.1.sys.pc c = .waiting set)
    (h' : p.1.sys.pc c' = .waiting set') (hself : cfg.self c = cfg.self c') : c = c'
  thread (t : ThreadId) : ThreadOk p.1 p.2 t

/-- Nothing happens to a thread. -/
theorem ThreadOk.frame (h : ThreadOk s g t) (hthread : s'.sys.thread t = s.sys.thread t)
    (herror : s'.error t = s.error t) (htimer : s'.timer t = s.timer t)
    (hwaiting : g'.waiting t = g.waiting t) (hexpired : g'.expired t = g.expired t)
    (hcomes : ∀ c, s.sys.pc c = .deliver t → s'.sys.pc c = .deliver t) : ThreadOk s' g' t where
  flag {set} hw := by
    rw [hthread]
    exact h.flag (hwaiting.symm.trans hw)
  asleep {set} hw hsuspended := by
    rw [hthread] at hsuspended
    rw [hthread, herror]
    refine (h.asleep (hwaiting.symm.trans hw) hsuspended).imp_right fun hc hset => ?_
    obtain ⟨c, hc⟩ := hc hset
    exact ⟨c, hcomes c hc⟩
  awake {set} hw hsuspended := by
    rw [hthread] at hsuspended
    rw [hthread, herror, hexpired]
    exact h.awake (hwaiting.symm.trans hw) hsuspended
  timer ht := by
    rw [hthread, hwaiting]
    exact h.timer (htimer.symm.trans ht)

/-- A thread that is in no signal wait. -/
theorem ThreadOk.of_none (hw : g.waiting t = none) (htimer : s.timer t = false) :
    ThreadOk s g t where
  flag hw' := by cases hw.symm.trans hw'
  asleep hw' := by cases hw.symm.trans hw'
  awake hw' := by cases hw.symm.trans hw'
  timer ht := by cases htimer.symm.trans ht

theorem ThreadOk.not_waiting (h : ThreadOk s g t) (hno : (s.sys.thread t).signalWait = false) :
    g.waiting t = none ∧ s.timer t = false := by
  have hnone : g.waiting t = none := by
    refine Option.eq_none_iff_forall_ne_some.2 fun set hw => ?_
    cases hno.symm.trans (h.flag hw)
  refine ⟨hnone, Bool.eq_false_iff.2 fun ht => ?_⟩
  obtain ⟨-, set, hw⟩ := h.timer ht
  cases hnone.symm.trans hw

theorem and_ne_zero_mono {v v' : BitVec 32}
    (h : ∀ sig, v.getLsbD sig = true → v'.getLsbD sig = true) (hne : v &&& set ≠ 0#32) :
    v' &&& set ≠ 0#32 := by
  obtain ⟨sig, hsig⟩ := (BitSet.ne_zero_iff _).1 hne
  rw [BitVec.getLsbD_and, Bool.and_eq_true] at hsig
  refine (BitSet.ne_zero_iff _).2 ⟨sig, ?_⟩
  rw [BitVec.getLsbD_and, Bool.and_eq_true]
  exact ⟨h sig hsig.1, hsig.2⟩

/-- A section of a call that is no signal wait. -/
theorem ThreadOk.passes (h : ThreadOk s g t) (hgo : GoesOn s.sys s'.sys c)
    (herror : ∀ set, g.waiting t = some set → s'.error t = s.error t)
    (htimer : s'.timer t = true → s.timer t = true ∧ (s'.sys.thread t).suspended = true)
    (hpasses : ∀ set, g.waiting t = some set → Passes s.sys s'.sys c t set) :
    ThreadOk s' g t where
  flag {set} hw := by
    have hflag := h.flag hw
    cases hpasses set hw with
    | same hsame _ => exact hsame.signalWait.trans hflag
    | sent _ _ hwait _ _ => exact hwait.trans hflag
    | resumed _ _ _ hwait _ _ => exact hwait.trans hflag
  asleep {set} hw hsuspended := by
    rw [herror set hw]
    cases hpasses set hw with
    | same hsame hdelivered =>
      have hsuspended := hsame.suspended.symm.trans hsuspended
      refine (h.asleep hw hsuspended).imp_right fun hcomes hset => ?_
      rw [hsame.sigPending] at hset
      obtain ⟨c', hc'⟩ := hcomes hset
      by_cases hc : c' = c
      · subst hc
        exact absurd (hdelivered hc' hsuspended) hset
      · exact ⟨c', (hgo.other hc).trans hc'⟩
    | sent _ hsusp _ _ hpc =>
      exact ⟨(h.asleep hw (hsusp.symm.trans hsuspended)).1, fun _ => ⟨c, hpc⟩⟩
    | resumed _ _ hready _ _ _ => cases hready.symm.trans hsuspended
  awake {set} hw hsuspended := by
    rw [herror set hw]
    cases hpasses set hw with
    | same hsame _ =>
      rw [hsame.sigPending]
      exact h.awake hw (hsame.suspended.symm.trans hsuspended)
    | sent _ hsusp _ hkeeps _ =>
      refine (h.awake hw (hsusp.symm.trans hsuspended)).imp_right fun hsent => ?_
      exact ⟨hsent.1, and_ne_zero_mono (fun sig hsig => hkeeps t sig hsig) hsent.2⟩
    | resumed _ hsusp _ _ hpending hset =>
      rw [hpending]
      exact .inr ⟨(h.asleep hw hsusp).1, hset⟩
  timer ht := ⟨(htimer ht).2, (h.timer (htimer ht).1).2⟩

-- --------
-- A signal that is taken
-- --------

/-- The search changes one thread, and not whether it sleeps. -/
theorem takeWaited_frame (s : SigSys) (t : ThreadId) (set : BitVec 32) :
    (s.takeWaited t set).pc = s.pc ∧ ∃ th, (s.takeWaited t set).thread = Function.update s.thread t th ∧
      th.suspended = (s.thread t).suspended ∧ th.signalWait = (s.thread t).signalWait := by
  simp only [takeWaited]
  split
  · exact ⟨rfl, s.thread t, (Function.update_eq_self _ _).symm, rfl, rfl⟩
  · exact ⟨rfl, _, rfl, rfl, rfl⟩

/-- **The search**, where a signal of the set is pending. -/
theorem takeWaited_takes {s : SigSys} {poolSize : Nat} (h : s.Sound True poolSize)
    (hset : (s.thread t).sigPending &&& set ≠ 0#32) :
    ∃ n ∈ s.nodes (.list t), (s.nodes (.list t)).find? (fun n => set.getLsbD (s.si n)) = some n ∧
      set.getLsbD (s.si n) = true ∧ s.Pending t (s.si n) ∧
      (s.takeWaited t set).nodes (.list t) = (s.nodes (.list t)).erase n ∧
      n ∈ (s.takeWaited t set).nodes .free ∧
      (∀ m ∈ (s.takeWaited t set).nodes (.list t), (s.takeWaited t set).si m ≠ s.si n) ∧
      ((s.takeWaited t set).thread t).sigPending =
        (s.thread t).sigPending &&& ~~~BitSet.mask 32 (s.si n) := by
  obtain ⟨sig, hsig⟩ := (BitSet.ne_zero_iff _).1 hset
  rw [BitVec.getLsbD_and, Bool.and_eq_true] at hsig
  obtain ⟨m, hm, hsi⟩ := h.lists.shown hsig.1
  obtain ⟨n, hfind⟩ : ∃ n, (s.nodes (.list t)).find? (fun n => set.getLsbD (s.si n)) = some n := by
    refine Option.isSome_iff_exists.1 (List.find?_isSome.2 ⟨m, hm, ?_⟩)
    rw [hsi]
    exact hsig.2
  have hn : n ∈ s.nodes (.list t) := List.mem_of_find?_eq_some hfind
  have hin := List.find?_some hfind
  have hne : SigPlace.list t ≠ .free := by
    intro h
    cases h
  have herase : (s.takeWaited t set).nodes (.list t) = (s.nodes (.list t)).erase n := by
    simp only [takeWaited, hfind]
    rw [Function.update_of_ne hne]
    rfl
  have hsi' : (s.takeWaited t set).si = s.si := by
    simp only [takeWaited, hfind]
    rfl
  refine ⟨n, hn, hfind, hin, h.lists.pending trivial hn, herase, ?_, ?_, ?_⟩
  · simp only [takeWaited, hfind]
    rw [Function.update_self]
    exact List.mem_cons_self
  · intro m hm heq
    rw [herase, (h.apart.nodup _).mem_erase_iff] at hm
    rw [hsi'] at heq
    exact hm.1 (h.lists.single trivial hm.2 hn heq)
  · simp only [takeWaited, hfind]
    rw [@thread_update s _ t _ rfl]

-- --------
-- The steps of a wait
-- --------

/-- **The first section** returns at once, or the thread is suspended. -/
theorem wait_cases {set' : Option (BitVec 32)} {si : Bool} {timeout : Int}
    (hs : s.wait cfg c set' si timeout = some s') :
    (¬ s.Suspends cfg c set' si timeout ∧ s'.error = s.error ∧ s'.timer = s.timer ∧
      ((s'.sys = s.sys ∧ s'.ret c = rtEinval) ∨
        (s'.sys = s.sys ∧ s'.ret c = rtEtimeout ∧
          (s.self cfg c).sigPending &&& set'.getD 0#32 = 0#32) ∨
        (s'.sys = s.sys.takeWaited (cfg.self c) (set'.getD 0#32) ∧ s'.ret c = rtEok ∧
          (s.self cfg c).sigPending &&& set'.getD 0#32 ≠ 0#32 ∧
          s'.si c = s.found cfg c (set'.getD 0#32) 0))) ∨
    (s.Suspends cfg c set' si timeout ∧ s'.error = s.error ∧
      (∃ runs, s'.timer = Function.update s.timer (cfg.self c) runs) ∧
      s'.sys = (s.sys.setThread (cfg.self c)
        { s.self cfg c with suspended := true, signalWait := true }).goto c
          (.waiting (set'.getD 0#32))) := by
  simp only [wait] at hs
  split at hs
  case isTrue hinval =>
    obtain rfl := Option.some.inj hs
    refine .inl ⟨?_, rfl, rfl, .inl ⟨rfl, Function.update_self _ _ _⟩⟩
    rintro ⟨hset, hsi, -⟩
    rcases hinval with hzero | hnull
    · exact hset hzero
    · cases hnull.symm.trans hsi
  case isFalse hval =>
    obtain ⟨hset, hsi⟩ := not_or.1 hval
    split at hs
    case isTrue hpending =>
      obtain rfl := Option.some.inj hs
      exact .inl ⟨fun h => hpending h.2.2.1, rfl, rfl, .inr (.inr
        ⟨rfl, Function.update_self _ _ _, hpending, Function.update_self _ _ _⟩)⟩
    case isFalse hnone =>
      have hnone := not_not.1 hnone
      split at hs
      case isTrue hzero =>
        obtain rfl := Option.some.inj hs
        exact .inl ⟨fun h => h.2.2.2 hzero, rfl, rfl,
          .inr (.inl ⟨rfl, Function.update_self _ _ _, hnone⟩)⟩
      case isFalse hnow =>
        split at hs
        case isTrue hfits =>
          obtain rfl := Option.some.inj hs
          refine .inr ⟨⟨hset, Bool.of_not_eq_false hsi, hnone, hnow⟩, rfl, ⟨_, rfl⟩, ?_⟩
          have hnone' : (s.sys.thread (cfg.self c)).sigPending &&& set'.getD 0#32 = 0#32 := hnone
          simp only [SigSys.wait]
          rw [if_neg hset, if_neg (not_not.2 hnone'), if_neg hnow]
          rfl
        case isFalse => cases hs

/-- **The second section** comes back from `rt_schedule`. -/
theorem woken_cases (s : SigWaits) (cfg : SigCfg) (c : SigCtx) (set : BitVec 32) :
    (s.woken cfg c set).timer = s.timer ∧ (s.woken cfg c set).sys.pc = Function.update s.sys.pc c .idle ∧
    (∀ t ≠ cfg.self c, (s.woken cfg c set).error t = s.error t ∧
      (s.woken cfg c set).sys.thread t = s.sys.thread t) ∧
    ((s.error (cfg.self c) = rtEtimeout ∧ (s.woken cfg c set).ret c = rtEtimeout) ∨
      (s.error (cfg.self c) ≠ rtEtimeout ∧ (s.woken cfg c set).ret c = rtEok ∧
        (s.woken cfg c set).si c = s.found cfg c set (s.si c) ∧
        (s.woken cfg c set).sys = ((s.sys.setThread (cfg.self c)
          { s.self cfg c with signalWait := false }).goto c .idle).takeWaited (cfg.self c) set)) := by
  simp only [woken]
  split
  case isTrue herror =>
    refine ⟨rfl, rfl, fun t ht => ⟨Function.update_of_ne ht _ _, Function.update_of_ne ht _ _⟩,
      .inl ⟨herror, Function.update_self _ _ _⟩⟩
  case isFalse herror =>
    obtain ⟨hpc, th, hthread, -⟩ := takeWaited_frame ((s.sys.setThread (cfg.self c)
      { s.self cfg c with signalWait := false }).goto c .idle) (cfg.self c) set
    refine ⟨rfl, hpc, fun t ht => ⟨rfl, ?_⟩, .inr ⟨herror, Function.update_self _ _ _,
      Function.update_self _ _ _, rfl⟩⟩
    refine (congrFun hthread t).trans ?_
    rw [Function.update_of_ne ht]
    exact Function.update_of_ne ht _ _

/-- A thread that is in no signal wait goes to sleep in one. -/
theorem ThreadOk.suspended {set : BitVec 32} (hw : g.waiting t = some set)
    (hsuspended : (s.sys.thread t).suspended = true) (hflag : (s.sys.thread t).signalWait = true)
    (herror : s.error t ≠ rtEtimeout) (hnone : (s.sys.thread t).sigPending &&& set = 0#32) :
    ThreadOk s g t where
  flag _ := hflag
  asleep {set'} hw' _ := by
    obtain rfl := Option.some.inj (hw.symm.trans hw')
    exact ⟨herror, fun hset => absurd hnone hset⟩
  awake _ hready := by cases hsuspended.symm.trans hready
  timer _ := ⟨hsuspended, set, hw⟩

/-- The timer of a thread that sleeps in a signal wait has expired. -/
theorem ThreadOk.timedOut {set : BitVec 32} (h : ThreadOk s g t) (hw : g.waiting t = some set)
    (hset : (s.sys.thread t).sigPending &&& set = 0#32) :
    ThreadOk (s.timedOut t)
      { g with expired := Function.update g.expired t (some (s.sys.thread t).sigPending) } t := by
  have hthread : (s.timedOut t).sys.thread t = { s.sys.thread t with suspended := false } :=
    Function.update_self _ _ _
  have herror : (s.timedOut t).error t = rtEtimeout := Function.update_self _ _ _
  have htimer : (s.timedOut t).timer t = false := Function.update_self _ _ _
  refine ⟨fun hw' => ?_, fun hw' hsuspended => ?_, fun {set'} hw' _ => ?_, fun ht => ?_⟩
  · rw [hthread]
    exact h.flag hw'
  · rw [hthread] at hsuspended
    cases hsuspended
  · obtain rfl := Option.some.inj (hw.symm.trans hw')
    exact .inl ⟨herror, _, Function.update_self _ _ _, hset⟩
  · cases htimer.symm.trans ht

-- --------
-- One step
-- --------

theorem insertsFresh_of_begins {s : SigSys} {a : SigAct} (ha : a.begins = true) :
    s.InsertsFresh a := by
  cases a with
  | next c => cases ha
  | _ => trivial

theorem call_begins {a : SigAct} (hs : s.call cfg a = some s') :
    step cfg s.sys a = some s'.sys ∧ s' = { s with sys := s'.sys } ∧ s.sys.InsertsFresh a ∧
      ∃ c, s.sys.pc c = .idle ∧ GoesOn s.sys s'.sys c ∧ ∀ t, Same s.sys s'.sys t := by
  unfold SigWaits.call at hs
  split at hs
  case isTrue ha =>
    obtain ⟨sys, hstep, rfl⟩ := Option.map_eq_some_iff.1 hs
    exact ⟨hstep, rfl, insertsFresh_of_begins ha, step_begins hstep ha⟩
  case isFalse => cases hs

theorem WaitInv.call {a : SigAct} (h : WaitInv cfg (s, g)) (hs : s.call cfg a = some s') :
    WaitInv cfg (s', g) := by
  obtain ⟨hstep, hsame, hfresh, c, hidle, hgo, hthreads⟩ := call_begins hs
  have herror : s'.error = s.error := by rw [hsame]
  have htimer : s'.timer = s.timer := by rw [hsame]
  refine ⟨h.sound.step (fun _ => hfresh) hstep, fun hpc => h.noted (hgo.waiting hpc),
    fun hpc hpc' => h.alone (hgo.waiting hpc) (hgo.waiting hpc'), fun t => ?_⟩
  refine (h.thread t).passes hgo (fun _ _ => congrFun herror t) (fun ht => ?_) fun set _ => ?_
  · rw [htimer] at ht
    exact ⟨ht, (hthreads t).suspended.trans ((h.thread t).timer ht).1⟩
  · refine .same (hthreads t) fun hpc => ?_
    cases hidle.symm.trans hpc

/-- **The next section of a call**, and what comes to it from the rest of the thread. -/
theorem next_cases (hs : s.next cfg c = some s') :
    s.sys.next cfg c = some s'.sys ∧
      (∀ cleanState, s.sys.pc c = .handling cleanState → (s.self cfg c).signalWait = false) ∧
      (∀ t, s'.error t = s.error t ∨ (s.self cfg c).signalWait = false ∧ t = cfg.self c) ∧
      ∀ t, s'.timer t = true → s.timer t = true ∧
        (s.sys.pc c = .deliver t → (s'.sys.thread t).suspended = true) := by
  unfold SigWaits.next at hs
  split at hs
  case h_1 cleanState hpc =>
    split at hs
    case isTrue => cases hs
    case isFalse hno =>
      have hno := Bool.of_not_eq_true hno
      obtain ⟨sys, hnext, rfl⟩ := Option.map_eq_some_iff.1 hs
      refine ⟨hnext, fun _ _ => hno, fun t => ?_, fun t ht => ⟨ht, fun hd => ?_⟩⟩
      · by_cases ht : t = cfg.self c
        · exact .inr ⟨hno, ht⟩
        · exact .inl (Function.update_of_ne ht _ _)
      · cases hpc.symm.trans hd
  case h_2 t₀ hpc =>
    obtain ⟨sys, hnext, rfl⟩ := Option.map_eq_some_iff.1 hs
    refine ⟨hnext, fun _ hh => ?_, fun t => .inl rfl, fun t ht => ?_⟩
    · cases hpc.symm.trans hh
    by_cases htt : t = t₀
    · subst htt
      have hand : (s.timer t && (sys.thread t).suspended) = true :=
        (Function.update_self _ _ _).symm.trans ht
      rw [Bool.and_eq_true] at hand
      exact ⟨hand.1, fun _ => hand.2⟩
    · refine ⟨(Function.update_of_ne htt _ _).symm.trans ht, fun hd => ?_⟩
      exact absurd (SigPc.deliver.inj (hd.symm.trans hpc)) htt
  case h_3 hhandling hdeliver =>
    obtain ⟨sys, hnext, rfl⟩ := Option.map_eq_some_iff.1 hs
    exact ⟨hnext, fun cleanState hh => absurd hh (hhandling cleanState), fun t => .inl rfl,
      fun t ht => ⟨ht, fun hd => absurd hd (hdeliver t)⟩⟩

theorem WaitsFor.fresh (hok : WaitsFor cfg (s, g) (.next c)) : s.sys.InsertsFresh (.next c) := by
  simp only [InsertsFresh]
  split
  case h_1 t sig hpc =>
    simp only [WaitsFor, hpc] at hok
    exact hok
  case h_2 => trivial

theorem WaitsFor.deliver (hok : WaitsFor cfg (s, g) (.next c)) (hpc : s.sys.pc c = .deliver t)
    (hsuspended : (s.sys.thread t).suspended = true) (hw : g.waiting t = some set) :
    (s.sys.thread t).sigPending &&& set ≠ 0#32 ↔ s.sys.deliverable t ≠ 0#32 := by
  simp only [WaitsFor, hpc] at hok
  exact hok hsuspended set hw

theorem WaitInv.passes (h : WaitInv cfg (s, g)) (hok : WaitsFor cfg (s, g) (.next c))
    (hs : s.next cfg c = some s') (hw : g.waiting t = some set) :
    Passes s.sys s'.sys c t set := by
  obtain ⟨hnext, hhandling, -, -⟩ := next_cases hs
  have hflag := (h.thread t).flag hw
  refine next_passes hnext hflag (fun cleanState hpc => ?_) fun hpc hsuspended =>
    hok.deliver hpc hsuspended hw
  rintro rfl
  cases (hhandling cleanState hpc).symm.trans hflag

theorem WaitInv.next (h : WaitInv cfg (s, g)) (hok : WaitsFor cfg (s, g) (.next c))
    (hs : s.next cfg c = some s') : WaitInv cfg (s', g) := by
  obtain ⟨hnext, -, herror, htimer⟩ := next_cases hs
  have hgo := next_goesOn hnext
  have hsound : s'.sys.Sound True cfg.poolSize := h.sound.next (fun _ => hok.fresh) hnext
  refine ⟨hsound, fun hpc => h.noted (hgo.waiting hpc),
    fun hpc hpc' => h.alone (hgo.waiting hpc) (hgo.waiting hpc'), fun t => ?_⟩
  refine (h.thread t).passes hgo (fun set hw => ?_) (fun ht => ?_) fun set hw => h.passes hok hs hw
  · refine (herror t).resolve_right ?_
    rintro ⟨hno, rfl⟩
    cases hno.symm.trans ((h.thread _).flag hw)
  · obtain ⟨ht, hdelivered⟩ := htimer t ht
    obtain ⟨hsuspended, set, hw⟩ := (h.thread t).timer ht
    refine ⟨ht, ?_⟩
    cases h.passes hok hs hw with
    | same hsame _ => exact hsame.suspended.trans hsuspended
    | sent _ hsusp _ _ _ => exact hsusp.trans hsuspended
    | resumed hpc _ _ _ _ _ => exact hdelivered hpc

/-- A `rt_signal_wait` that returns at once. -/
theorem WaitInv.returns {sys : SigSys} (h : WaitInv cfg (s, g))
    (hno : (s.self cfg c).signalWait = false) (herror : s'.error = s.error)
    (htimer : s'.timer = s.timer) (hsys : s'.sys = sys) (hsound : sys.Sound True cfg.poolSize)
    (hpc : sys.pc = s.sys.pc) (hthread : ∀ t ≠ cfg.self c, sys.thread t = s.sys.thread t) :
    WaitInv cfg (s', g) := by
  subst hsys
  refine ⟨hsound, fun hc => ?_, fun hc hc' => ?_, fun t => ?_⟩
  · exact h.noted ((congrFun hpc _).symm.trans hc)
  · exact h.alone ((congrFun hpc _).symm.trans hc) ((congrFun hpc _).symm.trans hc')
  · by_cases ht : t = cfg.self c
    · subst ht
      obtain ⟨hw, hstopped⟩ := (h.thread _).not_waiting hno
      exact ThreadOk.of_none hw (htimer ▸ hstopped)
    · refine (h.thread t).frame (hthread t ht) (congrFun herror t) (congrFun htimer t) rfl rfl ?_
      exact fun c' hc' => (congrFun hpc c').trans hc'

/-- And one that goes to sleep. -/
theorem WaitInv.suspends {set' : Option (BitVec 32)} {si : Bool} {timeout : Int} {runs : Bool}
    (h : WaitInv cfg (s, g)) (hidle : s.sys.pc c = .idle)
    (hno : (s.self cfg c).signalWait = false) (hsuspends : s.Suspends cfg c set' si timeout)
    (hclean : s.error (cfg.self c) ≠ rtEtimeout) (herror : s'.error = s.error)
    (htimer : s'.timer = Function.update s.timer (cfg.self c) runs)
    (hsys : s'.sys = (s.sys.setThread (cfg.self c)
      { s.self cfg c with suspended := true, signalWait := true }).goto c
        (.waiting (set'.getD 0#32))) :
    WaitInv cfg (s', g.after cfg s (.wait c set' si timeout)) := by
  have hsound : s'.sys.Sound True cfg.poolSize := by
    have hhand := h.sound.hand c
    rw [hidle] at hhand
    rw [hsys]
    exact h.sound.setGoto rfl hhand
  have hpc : s'.sys.pc = Function.update s.sys.pc c (.waiting (set'.getD 0#32)) := by
    rw [hsys]
    rfl
  have hthread : s'.sys.thread = Function.update s.sys.thread (cfg.self c)
      { s.self cfg c with suspended := true, signalWait := true } := by
    rw [hsys]
    rfl
  rw [SigNote.after, if_pos hsuspends]
  -- the other calls that wait are of other threads
  have hwaits {c' : SigCtx} {set : BitVec 32} (hc' : s'.sys.pc c' = .waiting set) :
      (c' = c ∧ set = set'.getD 0#32) ∨ (cfg.self c' ≠ cfg.self c ∧ s.sys.pc c' = .waiting set) := by
    rw [hpc] at hc'
    by_cases hc : c' = c
    · rw [hc, Function.update_self] at hc'
      exact .inl ⟨hc, (SigPc.waiting.inj hc').symm⟩
    · rw [Function.update_of_ne hc] at hc'
      refine .inr ⟨fun hself => ?_, hc'⟩
      have hw := h.noted hc'
      rw [hself, ((h.thread _).not_waiting hno).1] at hw
      cases hw
  refine ⟨hsound, fun hc => ?_, fun hc hc' hself => ?_, fun t => ?_⟩
  · rcases hwaits hc with ⟨rfl, rfl⟩ | ⟨hne, hc⟩
    · exact Function.update_self _ _ _
    · exact (Function.update_of_ne hne _ _).trans (h.noted hc)
  · rcases hwaits hc with ⟨rfl, -⟩ | ⟨hne, hc⟩
    · rcases hwaits hc' with ⟨rfl, -⟩ | ⟨hne', -⟩
      · rfl
      · exact absurd hself.symm hne'
    · rcases hwaits hc' with ⟨rfl, -⟩ | ⟨-, hc'⟩
      · exact absurd hself hne
      · exact h.alone hc hc' hself
  · by_cases ht : t = cfg.self c
    · subst ht
      have hth : s'.sys.thread (cfg.self c) =
          { s.self cfg c with suspended := true, signalWait := true } := by
        rw [hthread, Function.update_self]
      refine ThreadOk.suspended (Function.update_self _ _ _) ?_ ?_ ?_ ?_
      · rw [hth]
      · rw [hth]
      · rw [herror]
        exact hclean
      · rw [hth]
        exact hsuspends.2.2.1
    · refine (h.thread t).frame ?_ (congrFun herror t) ?_ (Function.update_of_ne ht _ _)
        (Function.update_of_ne ht _ _) fun c' hc' => ?_
      · rw [hthread, Function.update_of_ne ht]
      · rw [htimer, Function.update_of_ne ht]
      · rw [hpc, Function.update_of_ne]
        · exact hc'
        · rintro rfl
          cases hidle.symm.trans hc'

theorem WaitInv.wait {set' : Option (BitVec 32)} {si : Bool} {timeout : Int}
    (h : WaitInv cfg (s, g)) (hok : WaitsFor cfg (s, g) (.wait c set' si timeout))
    (hidle : s.sys.pc c = .idle) (hno : (s.self cfg c).signalWait = false)
    (hs : s.wait cfg c set' si timeout = some s') :
    WaitInv cfg (s', g.after cfg s (.wait c set' si timeout)) := by
  rcases wait_cases hs with ⟨hreturns, herror, htimer, hcases⟩ | ⟨hsuspends, herror, ⟨runs, htimer⟩, hsys⟩
  · rw [SigNote.after, if_neg hreturns]
    rcases hcases with ⟨hsys, -⟩ | ⟨hsys, -⟩ | ⟨hsys, -⟩
    · exact h.returns hno herror htimer hsys h.sound rfl fun _ _ => rfl
    · exact h.returns hno herror htimer hsys h.sound rfl fun _ _ => rfl
    · obtain ⟨hpc, th, hthread, -⟩ := takeWaited_frame s.sys (cfg.self c) (set'.getD 0#32)
      refine h.returns hno herror htimer hsys h.sound.takeWaited hpc fun t ht => ?_
      rw [hthread, Function.update_of_ne ht]
  · exact h.suspends hidle hno hsuspends (hok hsuspends) herror htimer hsys

theorem WaitInv.woken (h : WaitInv cfg (s, g)) (hpc : s.sys.pc c = .waiting set)
    (hready : (s.self cfg c).suspended = false) :
    WaitInv cfg (s.woken cfg c set, g.after cfg s (.woken c)) := by
  obtain ⟨htimer, hpc', hother, -⟩ := woken_cases s cfg c set
  have hsound : (s.woken cfg c set).sys.Sound True cfg.poolSize := by
    have hhand := h.sound.hand c
    rw [hpc] at hhand
    simp only [SigWaits.woken]
    split
    · exact (h.sound.woken hhand : (s.sys.woken cfg c set true).Sound True cfg.poolSize)
    · exact (h.sound.woken hhand : (s.sys.woken cfg c set false).Sound True cfg.poolSize)
  have hwaits {c' : SigCtx} {set' : BitVec 32}
      (hc' : (s.woken cfg c set).sys.pc c' = .waiting set') :
      cfg.self c' ≠ cfg.self c ∧ s.sys.pc c' = .waiting set' := by
    rw [hpc'] at hc'
    by_cases hc : c' = c
    · rw [hc, Function.update_self] at hc'
      cases hc'
    · rw [Function.update_of_ne hc] at hc'
      exact ⟨fun hself => hc (h.alone hc' hpc hself), hc'⟩
  refine ⟨hsound, fun hc => ?_, fun hc hc' => ?_, fun t => ?_⟩
  · obtain ⟨hne, hc⟩ := hwaits hc
    exact (Function.update_of_ne hne _ _).trans (h.noted hc)
  · exact h.alone (hwaits hc).2 (hwaits hc').2
  · by_cases ht : t = cfg.self c
    · subst ht
      refine ThreadOk.of_none (Function.update_self _ _ _) (Bool.eq_false_iff.2 fun hruns => ?_)
      rw [htimer] at hruns
      cases hready.symm.trans ((h.thread _).timer hruns).1
    · refine (h.thread t).frame (hother t ht).2 (hother t ht).1 (congrFun htimer t)
        (Function.update_of_ne ht _ _) rfl fun c' hc' => ?_
      rw [hpc', Function.update_of_ne]
      · exact hc'
      · rintro rfl
        cases hpc.symm.trans hc'

theorem WaitInv.timeout (h : WaitInv cfg (s, g)) (hok : WaitsFor cfg (s, g) (.timeout t))
    (hruns : s.timer t = true) :
    WaitInv cfg (s.timedOut t, g.after cfg s (.timeout t)) := by
  obtain ⟨hsuspended, set, hw⟩ := (h.thread t).timer hruns
  have hset : (s.sys.thread t).sigPending &&& set = 0#32 := by
    by_contra hne
    exact hne (hok (((h.thread t).asleep hw hsuspended).2 hne) set hw)
  refine ⟨h.sound.setThread rfl, h.noted, h.alone, fun t' => ?_⟩
  by_cases ht : t' = t
  · subst ht
    exact (h.thread t').timedOut hw hset
  · exact (h.thread t').frame (Function.update_of_ne ht _ _) (Function.update_of_ne ht _ _)
      (Function.update_of_ne ht _ _) rfl (Function.update_of_ne ht _ _) fun _ hc => hc

theorem WaitInv.rest {suspended : Bool} {error : Int} (h : WaitInv cfg (s, g))
    (hno : (s.sys.thread t).signalWait = false) :
    WaitInv cfg ({ s with
      sys := s.sys.setThread t { s.sys.thread t with suspended := suspended }
      error := Function.update s.error t error }, g) := by
  refine ⟨h.sound.setThread rfl, h.noted, h.alone, fun t' => ?_⟩
  by_cases ht : t' = t
  · subst ht
    obtain ⟨hw, hstopped⟩ := (h.thread t').not_waiting hno
    exact ThreadOk.of_none hw hstopped
  · exact (h.thread t').frame (Function.update_of_ne ht _ _) (Function.update_of_ne ht _ _) rfl rfl
      rfl fun _ hc => hc

/-- **A step** that is as it should be. -/
theorem inv_step {p p' : SigWaits × SigNote} {a : SigWaitAct} (h : WaitInv cfg p)
    (hok : WaitsFor cfg p a) (hs : SigWaitStep cfg p a p') : WaitInv cfg p' := by
  obtain ⟨s, g⟩ := p
  obtain ⟨s', hexec, rfl⟩ := Option.map_eq_some_iff.1 hs
  cases a with
  | call a => exact h.call hexec
  | next c => exact h.next hok hexec
  | wait c set' si timeout =>
    simp only [exec] at hexec
    split at hexec
    case isTrue hguard => exact h.wait hok hguard.1 hguard.2.2 hexec
    case isFalse => cases hexec
  | woken c =>
    simp only [exec] at hexec
    split at hexec
    case h_1 set hpc =>
      obtain ⟨hready, rfl⟩ := Runs.takeIf_eq_some.1 hexec
      exact h.woken hpc hready
    case h_2 => cases hexec
  | timeout t =>
    obtain ⟨hruns, rfl⟩ := Runs.takeIf_eq_some.1 hexec
    exact h.timeout hok hruns
  | rest t suspended error =>
    obtain ⟨hno, rfl⟩ := Runs.takeIf_eq_some.1 hexec
    exact h.rest hno

/-- The search takes a signal, also where the thread has come back before. -/
theorem takes_of_takeWaited {s₁ : SigSys} {si : Nat} (h : s₁.Sound True cfg.poolSize)
    (hnodes : s₁.nodes = s.sys.nodes) (hsi : s₁.si = s.sys.si)
    (hpending : (s₁.thread (cfg.self c)).sigPending = (s.self cfg c).sigPending)
    (hset : (s.self cfg c).sigPending &&& set ≠ 0#32)
    (hsys : s'.sys = s₁.takeWaited (cfg.self c) set) (hfound : s'.si c = s.found cfg c set si) :
    Takes cfg s c set s' := by
  rw [← hpending] at hset
  obtain ⟨n, hn, hfind, hin, hp, herase, hfree, hgone, hcleared⟩ := takeWaited_takes h hset
  have hsi' : s'.si c = s₁.si n := by
    rw [hfound, found, ← hnodes, ← hsi, hfind]
    rfl
  have hself : (s.self cfg c).sigPending.getLsbD (s₁.si n) = true := by
    rw [← hpending]
    exact hp
  refine ⟨?_, ?_, ⟨n, hnodes ▸ hn, ?_, ?_, ?_⟩, ?_, ?_⟩
  · rw [hsi']
    exact hin
  · rw [hsi']
    exact hself
  · rw [hsi', hsi]
  · rw [hsys, herase, hnodes]
  · rw [hsys]
    exact hfree
  · rw [hsys, hsi']
    exact hgone
  · rw [hsi', ← hpending]
    exact (congrArg (fun sys : SigSys => (sys.thread (cfg.self c)).sigPending) hsys).trans hcleared

/-- A wait that returns. -/
theorem WaitInv.returned {p p' : SigWaits × SigNote} {a : SigWaitAct} (h : WaitInv cfg p)
    (hs : SigWaitStep cfg p a p') (hret : Returns cfg p c set a) :
    p'.1.ret c = rtEinval ∨
      (p'.1.ret c = rtEtimeout ∧ ∃ pending ∈ pendingAt cfg p c a, pending &&& set = 0#32) ∨
      (p'.1.ret c = rtEok ∧ Takes cfg p.1 c set p'.1) := by
  obtain ⟨s, g⟩ := p
  obtain ⟨s', hexec, rfl⟩ := Option.map_eq_some_iff.1 hs
  cases a with
  | wait c' set' si timeout =>
    obtain ⟨rfl, rfl, hreturns⟩ := hret
    simp only [exec] at hexec
    split at hexec
    case isTrue =>
      rcases wait_cases hexec with ⟨-, -, -, hcases⟩ | ⟨hsuspends, -⟩
      · rcases hcases with ⟨-, hr⟩ | ⟨-, hr, hnone⟩ | ⟨hsys, hr, hsome, hfound⟩
        · exact .inl hr
        · exact .inr (.inl ⟨hr, _, rfl, hnone⟩)
        · exact .inr (.inr ⟨hr, takes_of_takeWaited h.sound rfl rfl rfl hsome hsys hfound⟩)
      · exact absurd hsuspends hreturns
    case isFalse => cases hexec
  | woken c' =>
    obtain ⟨rfl, hpc⟩ := hret
    have hpc' : s.sys.pc c' = .waiting set := hpc
    simp only [exec, hpc'] at hexec
    obtain ⟨hready, rfl⟩ := Runs.takeIf_eq_some.1 hexec
    have hawake := (h.thread _).awake (h.noted hpc) hready
    obtain ⟨-, -, -, hcases⟩ := woken_cases s cfg c' set
    rcases hcases with ⟨herror, hr⟩ | ⟨herror, hr, hfound, hsys⟩
    · rcases hawake with ⟨-, hnone⟩ | ⟨hno, -⟩
      · exact .inr (.inl ⟨hr, hnone⟩)
      · exact absurd herror hno
    · rcases hawake with ⟨hyes, -⟩ | ⟨-, hsome⟩
      · exact absurd hyes herror
      · have hhand := h.sound.hand c'
        rw [hpc] at hhand
        have hback : ((s.sys.setThread (cfg.self c') { s.self cfg c' with signalWait := false }).goto
            c' .idle).Sound True cfg.poolSize := h.sound.setGoto rfl hhand
        refine .inr (.inr ⟨hr, takes_of_takeWaited hback rfl rfl ?_ hsome hsys hfound⟩)
        rw [@thread_update s.sys _ (cfg.self c') _ rfl]
  | call a => exact hret.elim
  | next c' => exact hret.elim
  | timeout t => exact hret.elim
  | rest t suspended error => exact hret.elim

/-- **A step** does what it is to do. -/
theorem WaitInv.meets {p p' : SigWaits × SigNote} {a : SigWaitAct} (h : WaitInv cfg p)
    (hok : WaitsFor cfg p a) (hs : SigWaitStep cfg p a p') : WaitMeets cfg p a p' where
  ok hret hr := by
    rcases h.returned hs hret with hr' | ⟨hr', -⟩ | ⟨-, htakes⟩
    · exact absurd (hr.symm.trans hr') (by decide)
    · exact absurd (hr.symm.trans hr') (by decide)
    · exact htakes
  timeout hret hr := by
    rcases h.returned hs hret with hr' | ⟨-, hnone⟩ | ⟨hr', -⟩
    · exact absurd (hr.symm.trans hr') (by decide)
    · exact hnone
    · exact absurd (hr.symm.trans hr') (by decide)
  ready {c t} ha hpc set hw hset := by
    subst ha
    obtain ⟨s', hexec, rfl⟩ := Option.map_eq_some_iff.1 hs
    cases h.passes hok hexec hw with
    | same hsame hdelivered =>
      rw [hsame.suspended]
      exact Bool.eq_false_iff.2 fun hsuspended => hset (hdelivered hpc hsuspended)
    | sent hno _ _ _ _ => exact absurd hpc hno
    | resumed _ _ hready _ _ _ => exact hready
  sent {t} set hw hsuspended := (((inv_step h hok hs).thread t).asleep hw hsuspended).2

/-- No signal is pending at the start. -/
theorem inv_started : WaitInv cfg (started cfg) where
  sound := Sound.start
  noted h := by cases h
  alone h := by cases h
  thread _ := ThreadOk.of_none rfl rfl

theorem replayed {Ok : SigWaits × SigNote → SigWaitAct → Prop} [∀ p a, Decidable (Ok p a)]
    {acts : List SigWaitAct} {a : SigWaitAct} {P : SigWaits × SigNote → SigWaits × SigNote → Bool}
    (h : (Runs.replay (Runs.execOk (Runs.execObserved (exec calls) (SigNote.after calls)) Ok)
      (started calls) acts).any (fun p =>
        (Runs.execObserved (exec calls) (SigNote.after calls) p a).any (P p)) = true) :
    ∃ p p', Runs (SigWaitStep calls) Ok (started calls) p ∧ SigWaitStep calls p a p' ∧
      P p p' = true := by
  obtain ⟨p, -, hrun, hp⟩ := Runs.exec_of_replay h
  cases hs : Runs.execObserved (exec calls) (SigNote.after calls) p a with
  | none =>
    rw [hs] at hp
    cases hp
  | some p' =>
    rw [hs] at hp
    exact ⟨p, p', hrun, hs, hp⟩

/-- No timer expires in the run. -/
def Untimed (p : SigWaits × SigNote) : SigWaitAct → Prop
  | .timeout _ => False
  | a => WaitsFor calls p a

instance (p : SigWaits × SigNote) (c : SigCtx) : Decidable (WaitsFor calls p (.next c)) := by
  unfold WaitsFor
  dsimp only
  split
  · infer_instance
  · exact @instDecidableForall _ _ inferInstance (Option.decidableForallMem _)
  · infer_instance

instance (p : SigWaits × SigNote) : (a : SigWaitAct) → Decidable (Untimed p a)
  | .timeout _ => isFalse id
  | .next c => inferInstanceAs (Decidable (WaitsFor calls p (.next c)))
  | .wait .. => inferInstanceAs (Decidable (_ → _))
  | .call _ | .woken _ | .rest .. => isTrue trivial

end SigWaits

end RTThread
