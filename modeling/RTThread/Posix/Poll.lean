import RTThread.Lib.Runs
import Mathlib.Data.List.Basic
import Mathlib.Logic.Function.Basic

/-!
# `poll` (`poll.c`, `waitqueue.c`)

The first scan of the descriptors puts a node into the wait queue of each driver. A driver makes a
condition true and then wakes its queue up: the first node that accepts the key is taken out, and its
thread is resumed. A thread that was woken scans again, and waits again when it finds nothing.

No later scan registers anything: whoever was woken for an event that is gone when it looks waits without
a node, and the next event finds nobody. Each wait starts the timer with the whole time-out anew.

`poll_keeps`: in every run in which a wake-up for an event that is awaited, and that was read as false,
finds a node of this call first if the round may still wait, in which no tick passes before a wait with
a timer, and no driver fails, no event is lost, the deadline is kept, and the result is the number of
descriptors that have something.
-/

namespace RTThread.Poll

-- --------
-- The code
-- --------

/-- A set of `POLLIN`, `POLLOUT`, ... -/
abbrev Events := BitVec 16

def pollIn : Events := 0x01
def pollOut : Events := 0x02
def pollErr : Events := 0x04
def pollHup : Events := 0x08
def pollNval : Events := 0x10

/-- `POLLMASK_DEFAULT` -/
def pollMaskDefault : Events := pollIn ||| pollOut

/-- What `do_pollfd` finds behind `fd`: a negative one, no open file, one whose operations have no
`poll`, or a driver with the queue that it registers. -/
inductive FdKind
  | negative
  | closed
  | plain
  | driver (queue : Nat)

/-- `struct pollfd` -/
structure PollFd where
  kind : FdKind
  events : Events

/-- `pollfd->events | POLLERR | POLLHUP` -/
def PollFd.req (f : PollFd) : Events := f.events ||| pollErr ||| pollHup

/-- The arguments of the call. -/
structure Cfg where
  fds : List PollFd
  msec : Int

/-- `RT_TICK_PER_SECOND` -/
def rtTickPerSecond : Int := 1000

/-- `rt_tick_from_millisecond` -/
def rtTickFromMillisecond (ms : Int) : Int :=
  if ms < 0 then -1
  else rtTickPerSecond * (ms / 1000) + (rtTickPerSecond * (ms % 1000) + 999) / 1000

/-- A node of a wait queue: of a descriptor of this call, or of another call, with its key. -/
inductive Entry
  | mine (n : Nat)
  | other (id : Nat) (key : Events)
deriving DecidableEq

/-- Where the thread is: at the head of the loop, before a descriptor, between the driver's
`rt_poll_add` and its mask, before `poll_wait_timeout`, suspended there, behind it, in
`poll_teardown`, or out. -/
inductive Pc
  | round
  | scan (n : Nat)
  | added (n : Nat)
  | wait
  | suspended
  | woken
  | teardown (ret : Int) (rest : List Nat)
  | returned (ret : Int)
deriving DecidableEq

/-- The call with its table, the wait queues, what the drivers would say, the time, and the time when the
thread timer ends. The record `issued` has the events of a descriptor that are true and whose wake-up
has been issued. -/
structure State where
  pc : Pc
  num : Nat
  registers : Bool
  triggered : Bool
  istimeout : Bool
  revents : Nat → Events
  nodes : List Nat
  queues : Nat → List Entry
  mask : Nat → Events
  error : Nat → Bool
  issued : Nat → Events
  now : Nat
  start : Nat
  timerEnd : Option Nat

namespace Cfg

variable (cfg : Cfg)

/-- The events that wake a descriptor up. -/
def req (n : Nat) : Events := (cfg.fds[n]?.map PollFd.req).getD 0

/-- The queue of the descriptor. -/
def queue (n : Nat) : Option Nat :=
  match cfg.fds[n]? with
  | some ⟨.driver q, _⟩ => some q
  | _ => none

/-- `__wqueue_pollwake` accepts the key, for the node of any call. -/
def accepts (key : Events) : Entry → Bool
  | .mine n => key = 0 ∨ key &&& cfg.req n ≠ 0
  | .other _ k => key = 0 ∨ key &&& k ≠ 0

end Cfg

namespace State

/-- The end of `do_pollfd`, and the count. -/
def finishFd (s : State) (n : Nat) (mask : Events) : State :=
  { s with
    revents := Function.update s.revents n mask
    num := if mask ≠ 0 then s.num + 1 else s.num
    registers := if mask ≠ 0 then false else s.registers
    pc := .scan (n + 1) }

/-- The end of `poll_wait_timeout`, and of the round. -/
def finishWait (s : State) : State :=
  { s with istimeout := if s.triggered = true then s.istimeout else true, pc := .round }

/-- `rt_wqueue_remove` of a node of this call. -/
def removeNode (s : State) (n : Nat) : State :=
  { s with queues := fun q => (s.queues q).filter fun e => e ≠ .mine n }

/-- The next step of the thread. -/
def step (cfg : Cfg) (s : State) : Option State :=
  match s.pc with
  | .round => some { s with num := 0, triggered := false, pc := .scan 0 }
  | .scan n =>
    match cfg.fds[n]? with
    | some ⟨.negative, _⟩ => some (s.finishFd n 0)
    | some ⟨.closed, _⟩ => some (s.finishFd n pollNval)
    | some ⟨.plain, events⟩ => some (s.finishFd n (pollMaskDefault &&& PollFd.req ⟨.plain, events⟩))
    | some ⟨.driver q, _⟩ =>
      if s.registers = true then
        some { s with
          queues := Function.update s.queues q (s.queues q ++ [.mine n])
          nodes := n :: s.nodes
          pc := .added n }
      else some { s with pc := .added n }
    | none =>
      if s.num ≠ 0 ∨ s.istimeout = true then
        some { s with registers := false, pc := .teardown s.num s.nodes }
      else some { s with registers := false, pc := .wait }
  | .added n =>
    if s.error n = true then
      some { s with
        revents := Function.update s.revents n 0
        registers := false
        pc := .teardown (-1) s.nodes }
    else some (s.finishFd n (s.mask n &&& cfg.req n))
  | .wait =>
    let timeout := rtTickFromMillisecond cfg.msec
    if timeout ≠ 0 ∧ s.triggered = false then
      some { s with
        pc := .suspended
        timerEnd := if 0 < timeout then some (s.now + timeout.toNat) else none }
    else some s.finishWait
  | .suspended => none
  | .woken => some s.finishWait
  | .teardown ret [] => some { s with pc := .returned ret }
  | .teardown ret (n :: rest) => some { (s.removeNode n) with pc := .teardown ret rest }
  | .returned _ => none

/-- `rt_thread_resume` of the thread. -/
def resume (s : State) : State :=
  if s.pc = .suspended then { s with pc := .woken, timerEnd := none } else s

/-- What of the events a wake-up with this key is for. -/
def covered (key : Events) (mask : Events) : Events := if key = 0 then mask else mask &&& key

/-- `rt_wqueue_wakeup` -/
def wakeup (cfg : Cfg) (s : State) (q : Nat) (key : Events) : State :=
  let s := { s with
    issued := fun n =>
      if cfg.queue n = some q then s.issued n ||| covered key (s.mask n) else s.issued n }
  match (s.queues q).find? (cfg.accepts key) with
  | none => s
  | some e =>
    let s := { s with queues := Function.update s.queues q ((s.queues q).erase e) }
    match e with
    | .mine _ => { s with triggered := true }.resume
    | .other _ _ => s

end State

/-- The thread, the drivers, the tick and the thread timer, others that resume the thread, and other calls
that come and go in the wait queues. -/
inductive Act
  | step
  | set (n : Nat) (mask : Events) (error : Bool)
  | wakeup (q : Nat) (key : Events)
  | tick
  | timeout
  | resume
  | otherAdd (q id : Nat) (key : Events)
  | otherRemove (q id : Nat) (key : Events)

def exec (cfg : Cfg) (s : State) : Act → Option State
  | .step => s.step cfg
  | .set n mask error =>
    some { s with
      mask := Function.update s.mask n mask
      error := Function.update s.error n error
      issued := Function.update s.issued n (s.issued n &&& mask) }
  | .wakeup q key => some (s.wakeup cfg q key)
  | .tick => some { s with now := s.now + 1 }
  | .timeout =>
    match s.timerEnd with
    | some e => if s.pc = .suspended ∧ e ≤ s.now then some s.resume else none
    | none => none
  | .resume => some s.resume
  | .otherAdd q id key =>
    some { s with queues := Function.update s.queues q (s.queues q ++ [.other id key]) }
  | .otherRemove q id key =>
    some { s with queues := Function.update s.queues q ((s.queues q).erase (.other id key)) }

/-- `poll` is called. -/
def init (cfg : Cfg) : State where
  pc := .round
  num := 0
  registers := decide (cfg.msec ≠ 0)
  triggered := false
  istimeout := decide (cfg.msec = 0)
  revents _ := 0
  nodes := []
  queues _ := []
  mask _ := 0
  error _ := false
  issued _ := 0
  now := 0
  start := 0
  timerEnd := none

-- --------
-- What is asked of it, and the condition
-- --------

/-- The first descriptors that have something. -/
def withRevents (s : State) (n : Nat) : Nat := (List.range n).countP fun i => s.revents i ≠ 0

/-- **What is asked of a state.** -/
structure Good (cfg : Cfg) (s : State) : Prop where
  heard : s.pc = .suspended → ∀ n, s.issued n &&& cfg.req n = 0
  result : ∀ ret, s.pc = .returned ret → ret = withRevents s cfg.fds.length
  nodes : ∀ ret, s.pc = .returned ret → ∀ q n, Entry.mine n ∉ s.queues q
  deadline : s.pc = .suspended → 0 ≤ cfg.msec → ∀ e ∈ s.timerEnd,
    e ≤ s.start + (rtTickFromMillisecond cfg.msec).toNat

/-- The round has read the descriptor. -/
def Pc.Read : Pc → Nat → Prop
  | .scan j, n => n < j
  | .added j, n => n < j
  | .wait, _ => True
  | .suspended, _ => True
  | _, _ => False

instance (pc : Pc) (n : Nat) : Decidable (pc.Read n) := by
  cases pc <;> unfold Pc.Read <;> infer_instance

/-- The round ends in no wait: a descriptor has something, or the time-out is over. -/
def State.Over (s : State) : Prop := s.num ≠ 0 ∨ s.istimeout = true

instance (s : State) : Decidable s.Over := inferInstanceAs (Decidable (_ ∨ _))

/-- The node that a wake-up takes is one of this call. -/
def firstMine (cfg : Cfg) (s : State) (q : Nat) (key : Events) : Bool :=
  match (s.queues q).find? (cfg.accepts key) with
  | some (.mine _) => true
  | _ => false

/-- **The condition**: a driver does not fail; no tick has passed when the thread is suspended with a
timer; and a wake-up for an event that is awaited, of a descriptor that the round has read, takes a node of
this call, if none did in this round and the round may still wait. -/
def Cond (cfg : Cfg) (s : State) : Act → Prop
  | .step => (∀ n < cfg.fds.length, s.pc = .added n → s.error n = false) ∧
      (s.pc = .wait → 0 < rtTickFromMillisecond cfg.msec → s.triggered = false → s.now = s.start)
  | .wakeup q key => ¬ s.Over → ∀ n < cfg.fds.length, s.pc.Read n → cfg.queue n = some q →
      State.covered key (s.mask n) &&& cfg.req n ≠ 0 →
        s.triggered = true ∨ firstMine cfg s q key = true
  | _ => True

instance (cfg : Cfg) (s : State) (a : Act) : Decidable (Cond cfg s a) := by
  cases a <;> unfold Cond <;> infer_instance

-- --------
-- The invariant
-- --------

variable {cfg : Cfg} {s s' : State} {n q : Nat} {key mask : Events}

/-- What the count, or the result, is. -/
def Counted (cfg : Cfg) (s : State) : Prop :=
  match s.pc with
  | .scan n => n ≤ cfg.fds.length ∧ s.num = withRevents s n
  | .added n => n < cfg.fds.length ∧ s.num = withRevents s n
  | .teardown ret _ => ret = withRevents s cfg.fds.length
  | .returned ret => ret = withRevents s cfg.fds.length
  | _ => True

/-- The nodes that are still to be removed. -/
def State.left (s : State) : List Nat :=
  match s.pc with
  | .teardown _ rest => rest
  | .returned _ => []
  | _ => s.nodes

/-- **The invariant**: what was read as false, and is true with its wake-up issued, has triggered the
table, or the round does not wait. -/
structure Inv (cfg : Cfg) (s : State) : Prop where
  issued_le : ∀ n, s.issued n &&& s.mask n = s.issued n
  issued_none : ∀ n, cfg.queue n = none → s.issued n = 0
  heard : ∀ n, s.pc.Read n → s.triggered = true ∨ s.Over ∨ s.issued n &&& cfg.req n = 0
  waiting : s.pc = .wait ∨ s.pc = .suspended → ¬ s.Over
  asleep : s.pc = .suspended → s.triggered = false
  counted : Counted cfg s
  nodes : ∀ q n, Entry.mine n ∈ s.queues q → n ∈ s.left
  deadline : s.pc = .suspended → 0 ≤ cfg.msec → ∀ e ∈ s.timerEnd,
    e ≤ s.start + (rtTickFromMillisecond cfg.msec).toNat

theorem Inv.good (h : Inv cfg s) : Good cfg s where
  heard hpc n := by
    rcases h.heard n (by rw [hpc]; trivial) with ht | hover | hz
    · rw [h.asleep hpc] at ht
      cases ht
    · exact absurd hover (h.waiting (Or.inr hpc))
    · exact hz
  result ret hpc := by
    have hc := h.counted
    rw [Counted, hpc] at hc
    exact hc
  nodes ret hpc q n hmem := by
    have hl := h.nodes q n hmem
    rw [State.left, hpc] at hl
    cases hl
  deadline := h.deadline

/-- Nothing has been read at the start. -/
theorem inv_init (cfg : Cfg) : Inv cfg (init cfg) where
  issued_le _ := BitVec.zero_and
  issued_none _ _ := rfl
  heard _ hr := hr.elim
  waiting h := by rcases h with h | h <;> cases h
  asleep h := by cases h
  counted := trivial
  nodes _ _ h := by cases h
  deadline h := by cases h

/-- The thread goes on where it does not wait. -/
theorem Inv.goes (h : Inv cfg s) (hissued : s'.issued = s.issued) (hmask : s'.mask = s.mask)
    (hpc : ¬ (s'.pc = .wait ∨ s'.pc = .suspended))
    (hheard : ∀ n, s'.pc.Read n → s'.triggered = true ∨ s'.Over ∨ s'.issued n &&& cfg.req n = 0)
    (hcounted : Counted cfg s') (hnodes : ∀ q n, Entry.mine n ∈ s'.queues q → n ∈ s'.left) :
    Inv cfg s' where
  issued_le := by rw [hissued, hmask]; exact h.issued_le
  issued_none := by rw [hissued]; exact h.issued_none
  heard := hheard
  waiting hw := absurd hw hpc
  asleep hw := absurd (Or.inr hw) hpc
  counted := hcounted
  nodes := hnodes
  deadline hw := absurd (Or.inr hw) hpc

-- --------
-- The scan
-- --------

/-- The count goes on by one descriptor. -/
theorem withRevents_finishFd (s : State) (n : Nat) (mask : Events) :
    withRevents (s.finishFd n mask) (n + 1) =
      if mask ≠ 0 then withRevents s n + 1 else withRevents s n := by
  have hbefore : (List.range n).countP (fun i => (s.finishFd n mask).revents i ≠ 0) =
      withRevents s n := by
    refine List.countP_congr fun i hi => ?_
    have hne : i ≠ n := Nat.ne_of_lt (List.mem_range.1 hi)
    have hrev : (s.finishFd n mask).revents i = s.revents i := Function.update_of_ne hne _ _
    rw [hrev]
  have hself : (s.finishFd n mask).revents n = mask := Function.update_self _ _ _
  rw [withRevents, List.range_succ, List.countP_append, hbefore, List.countP_singleton, hself]
  by_cases hm : mask = 0#16
  · simp [hm]
  · simp [hm]

/-- A descriptor that has been read: it has something, or no event of it has been missed. -/
theorem Inv.finishFd (h : Inv cfg s) (hpc : s.pc = .scan n ∨ s.pc = .added n)
    (hn : n < cfg.fds.length) (hread : mask ≠ 0 ∨ s.issued n &&& cfg.req n = 0) :
    Inv cfg (s.finishFd n mask) := by
  have hover : s.Over → (s.finishFd n mask).Over := fun ho => ho.imp_left fun hnum => by
    change (if mask ≠ 0 then s.num + 1 else s.num) ≠ 0
    split
    · exact Nat.succ_ne_zero _
    · exact hnum
  refine h.goes rfl rfl (by rintro (hw | hw) <;> cases hw) (fun j hj => ?_) ⟨hn, ?_⟩
    fun q j hj => ?_
  · have hj : j < n + 1 := hj
    rcases Nat.lt_or_ge j n with hlt | hge
    · have hr : s.pc.Read j := by
        rcases hpc with hpc | hpc
        · rw [hpc]
          exact hlt
        · rw [hpc]
          exact hlt
      exact (h.heard j hr).imp_right fun hor => hor.imp_left hover
    · have hj : j = n := by omega
      subst hj
      rcases hread with hm | hz
      · refine Or.inr (Or.inl (Or.inl ?_))
        change (if mask ≠ 0 then s.num + 1 else s.num) ≠ 0
        rw [if_pos hm]
        exact Nat.succ_ne_zero _
      · exact Or.inr (Or.inr hz)
  · have hc := h.counted
    have hold : s.num = withRevents s n := by
      rcases hpc with hpc | hpc
      · rw [Counted, hpc] at hc
        exact hc.2
      · rw [Counted, hpc] at hc
        exact hc.2
    rw [withRevents_finishFd, ← hold]
    rfl
  · have hl := h.nodes q j hj
    rcases hpc with hpc | hpc
    · rw [State.left, hpc] at hl
      exact hl
    · rw [State.left, hpc] at hl
      exact hl

theorem Inv.unasked (h : Inv cfg s) (hq : cfg.queue n = none) :
    s.issued n &&& cfg.req n = 0 := by
  rw [h.issued_none n hq]
  exact BitVec.zero_and

theorem Inv.missed (h : Inv cfg s) (hm : s.mask n &&& cfg.req n = 0) :
    s.issued n &&& cfg.req n = 0 := by
  rw [← h.issued_le n, BitVec.and_assoc, hm]
  exact BitVec.and_zero

/-- The end of a round. -/
theorem Inv.finishWait (h : Inv cfg s) (hleft : s.left = s.nodes) : Inv cfg s.finishWait := by
  refine h.goes rfl rfl (by rintro (hw | hw) <;> cases hw) (fun _ hr => hr.elim) trivial
    fun q n hm => ?_
  have hl := h.nodes q n hm
  rw [hleft] at hl
  exact hl

/-- A step of the scan. -/
theorem inv_scan (h : Inv cfg s) (hpc : s.pc = .scan n) (hs : s.step cfg = some s') :
    Inv cfg s' := by
  have hc := h.counted
  rw [Counted, hpc] at hc
  obtain ⟨hle, hnum⟩ := hc
  have hleft : s.left = s.nodes := by rw [State.left, hpc]
  have hnodes : ∀ q j, Entry.mine j ∈ s.queues q → j ∈ s.nodes := fun q j hj => by
    rw [← hleft]
    exact h.nodes q j hj
  have hread : ∀ j < n, s.triggered = true ∨ s.Over ∨ s.issued j &&& cfg.req j = 0 :=
    fun j hj => h.heard j (by rw [hpc]; exact hj)
  unfold State.step at hs
  rw [hpc] at hs
  dsimp only at hs
  split at hs
  · rename_i hfd
    cases hs
    exact h.finishFd (Or.inl hpc) (List.getElem?_eq_some_iff.1 hfd).1
      (Or.inr (h.unasked (by rw [Cfg.queue, hfd])))
  · rename_i hfd
    cases hs
    exact h.finishFd (Or.inl hpc) (List.getElem?_eq_some_iff.1 hfd).1
      (Or.inr (h.unasked (by rw [Cfg.queue, hfd])))
  · rename_i hfd
    cases hs
    exact h.finishFd (Or.inl hpc) (List.getElem?_eq_some_iff.1 hfd).1
      (Or.inr (h.unasked (by rw [Cfg.queue, hfd])))
  · rename_i q events hfd
    have hlt := (List.getElem?_eq_some_iff.1 hfd).1
    split at hs
    · -- the node is registered
      cases hs
      refine h.goes rfl rfl (by rintro (hw | hw) <;> cases hw) hread ⟨hlt, hnum⟩ fun q' j hj => ?_
      dsimp only at hj
      by_cases hq : q' = q
      · subst hq
        rw [Function.update_self] at hj
        rcases List.mem_append.1 hj with hj | hj
        · exact List.mem_cons_of_mem _ (hnodes q' j hj)
        · cases List.mem_singleton.1 hj
          exact List.mem_cons_self
      · rw [Function.update_of_ne hq] at hj
        exact List.mem_cons_of_mem _ (hnodes q' j hj)
    · cases hs
      exact h.goes rfl rfl (by rintro (hw | hw) <;> cases hw) hread ⟨hlt, hnum⟩ hnodes
  · -- behind the last descriptor
    rename_i hfd
    have hlen : n = cfg.fds.length := Nat.le_antisymm hle (List.getElem?_eq_none_iff.1 hfd)
    split at hs
    · cases hs
      exact h.goes rfl rfl (by rintro (hw | hw) <;> cases hw) (fun _ hr => hr.elim)
        (congrArg Nat.cast (hlen ▸ hnum)) hnodes
    · rename_i hno
      cases hs
      refine
        { issued_le := h.issued_le
          issued_none := h.issued_none
          heard := fun j _ => ?_
          waiting := fun _ => hno
          asleep := nofun
          counted := trivial
          nodes := hnodes
          deadline := nofun }
      rcases Nat.lt_or_ge j n with hlt | hge
      · exact hread j hlt
      · refine Or.inr (Or.inr (h.unasked ?_))
        rw [Cfg.queue, List.getElem?_eq_none (hlen ▸ hge)]

-- --------
-- The other steps of the thread
-- --------

/-- **A step of the thread** that meets the condition. -/
theorem inv_step (h : Inv cfg s) (hcond : Cond cfg s .step) (hs : s.step cfg = some s') :
    Inv cfg s' := by
  obtain ⟨hfail, htick⟩ := hcond
  cases hpc : s.pc with
  | scan n => exact inv_scan h hpc hs
  | round =>
    unfold State.step at hs
    rw [hpc] at hs
    cases hs
    refine h.goes rfl rfl (by rintro (hw | hw) <;> cases hw)
      (fun j hj => absurd hj (Nat.not_lt_zero j)) ⟨Nat.zero_le _, rfl⟩ fun q j hj => ?_
    have hl := h.nodes q j hj
    rw [State.left, hpc] at hl
    exact hl
  | added n =>
    have hc := h.counted
    rw [Counted, hpc] at hc
    unfold State.step at hs
    rw [hpc] at hs
    dsimp only at hs
    rw [if_neg (by rw [hfail n hc.1 hpc]; exact Bool.false_ne_true)] at hs
    cases hs
    refine h.finishFd (Or.inr hpc) hc.1 ?_
    by_cases hm : s.mask n &&& cfg.req n = 0
    · exact Or.inr (h.missed hm)
    · exact Or.inl hm
  | wait =>
    have hleft : s.left = s.nodes := by rw [State.left, hpc]
    unfold State.step at hs
    rw [hpc] at hs
    dsimp only at hs
    split at hs
    · -- the thread is suspended
      rename_i hsusp
      cases hs
      refine
        { issued_le := h.issued_le
          issued_none := h.issued_none
          heard := fun j _ => h.heard j (by rw [hpc]; trivial)
          waiting := fun _ => h.waiting (Or.inl hpc)
          asleep := fun _ => hsusp.2
          counted := trivial
          nodes := fun q j hj => hleft ▸ h.nodes q j hj
          deadline := fun _ hms e he => ?_ }
      dsimp only at he
      split at he
      · rename_i hpos
        have he := Option.some.inj (Option.mem_def.1 he)
        exact Nat.le_of_eq (by rw [← he, htick hpc hpos hsusp.2])
      · cases he
    · cases hs
      exact h.finishWait hleft
  | suspended =>
    unfold State.step at hs
    rw [hpc] at hs
    cases hs
  | woken =>
    unfold State.step at hs
    rw [hpc] at hs
    cases hs
    exact h.finishWait (by rw [State.left, hpc])
  | teardown ret rest =>
    have hc := h.counted
    rw [Counted, hpc] at hc
    have hl : ∀ q j, Entry.mine j ∈ s.queues q → j ∈ rest := fun q j hj => by
      have hl := h.nodes q j hj
      rw [State.left, hpc] at hl
      exact hl
    unfold State.step at hs
    rw [hpc] at hs
    cases rest with
    | nil =>
      cases hs
      exact h.goes rfl rfl (by rintro (hw | hw) <;> cases hw) (fun _ hr => hr.elim) hc hl
    | cons n rest =>
      cases hs
      refine h.goes rfl rfl (by rintro (hw | hw) <;> cases hw) (fun _ hr => hr.elim) hc
        fun q j hj => ?_
      obtain ⟨hmem, hne⟩ := List.mem_filter.1 hj
      have hne : Entry.mine j ≠ Entry.mine n := of_decide_eq_true hne
      exact (List.mem_cons.1 (hl q j hmem)).resolve_left fun heq => hne (congrArg _ heq)
  | returned ret =>
    unfold State.step at hs
    rw [hpc] at hs
    cases hs

-- --------
-- The others
-- --------

/-- The thread goes on, if it is suspended. -/
theorem Inv.resume (h : Inv cfg s) : Inv cfg s.resume := by
  unfold State.resume
  split
  · rename_i hpc
    refine h.goes rfl rfl (by rintro (hw | hw) <;> cases hw) (fun _ hr => hr.elim) trivial
      fun q j hj => ?_
    have hl := h.nodes q j hj
    rw [State.left, hpc] at hl
    exact hl
  · exact h

theorem Inv.withQueues {queues : Nat → List Entry} (h : Inv cfg s)
    (hmem : ∀ q j, Entry.mine j ∈ queues q → Entry.mine j ∈ s.queues q) :
    Inv cfg { s with queues := queues } :=
  { h with
    counted := h.counted
    nodes := fun q j hj => h.nodes q j (hmem q j hj) }

/-- A driver changes what is true. -/
theorem inv_set (h : Inv cfg s) (n : Nat) (mask : Events) (error : Bool) :
    Inv cfg { s with
      mask := Function.update s.mask n mask
      error := Function.update s.error n error
      issued := Function.update s.issued n (s.issued n &&& mask) } := by
  refine
    { issued_le := fun j => ?_
      issued_none := fun j hj => ?_
      heard := fun j hj => ?_
      waiting := h.waiting
      asleep := h.asleep
      counted := h.counted
      nodes := h.nodes
      deadline := h.deadline }
  · dsimp only
    by_cases hjn : j = n
    · rw [hjn, Function.update_self, Function.update_self, BitVec.and_assoc, BitVec.and_self]
    · rw [Function.update_of_ne hjn, Function.update_of_ne hjn]
      exact h.issued_le j
  · dsimp only
    by_cases hjn : j = n
    · rw [hjn, Function.update_self, ← hjn, h.issued_none j hj]
      exact BitVec.zero_and
    · rw [Function.update_of_ne hjn]
      exact h.issued_none j hj
  · refine (h.heard j hj).imp_right fun hor => hor.imp_right fun hz => ?_
    dsimp only
    by_cases hjn : j = n
    · rw [hjn, Function.update_self, BitVec.and_assoc, BitVec.and_comm mask, ← BitVec.and_assoc,
        ← hjn, hz]
      exact BitVec.zero_and
    · rw [Function.update_of_ne hjn]
      exact hz

theorem covered_and (key mask : Events) :
    State.covered key mask &&& mask = State.covered key mask := by
  unfold State.covered
  split
  · exact BitVec.and_self
  · rw [BitVec.and_assoc, BitVec.and_comm key, ← BitVec.and_assoc, BitVec.and_self]

theorem or_and_eq_zero {a b c : Events} (ha : a &&& c = 0) (hb : b &&& c = 0) :
    (a ||| b) &&& c = 0 := by
  rw [BitVec.and_or_distrib_right, ha, hb]
  rfl

/-- A wake-up is issued: what it is for was not read yet, or the table is triggered. -/
theorem Inv.issue {queues : Nat → List Entry} {b : Bool} (h : Inv cfg s) (q : Nat) (key : Events)
    (hmem : ∀ q j, Entry.mine j ∈ queues q → Entry.mine j ∈ s.queues q)
    (hasleep : s.pc = .suspended → b = false) (htriggered : s.triggered = true → b = true)
    (hmissed : ¬ s.Over → ∀ n, s.pc.Read n → cfg.queue n = some q →
      State.covered key (s.mask n) &&& cfg.req n ≠ 0 → b = true) :
    Inv cfg { s with
      issued := fun n =>
        if cfg.queue n = some q then s.issued n ||| State.covered key (s.mask n) else s.issued n
      queues := queues
      triggered := b } := by
  refine
    { issued_le := fun j => ?_
      issued_none := fun j hj => ?_
      heard := fun j hj => ?_
      waiting := h.waiting
      asleep := hasleep
      counted := h.counted
      nodes := fun q j hj => h.nodes q j (hmem q j hj)
      deadline := h.deadline }
  · dsimp only
    split
    · rw [BitVec.and_or_distrib_right, h.issued_le j, covered_and]
    · exact h.issued_le j
  · dsimp only
    rw [if_neg (by rw [hj]; nofun)]
    exact h.issued_none j hj
  · rcases h.heard j hj with ht | hover | hz
    · exact Or.inl (htriggered ht)
    · exact Or.inr (Or.inl hover)
    · dsimp only
      split
      · rename_i hq
        by_cases hm : State.covered key (s.mask j) &&& cfg.req j = 0
        · exact Or.inr (Or.inr (or_and_eq_zero hz hm))
        · by_cases hover : s.Over
          · exact Or.inr (Or.inl hover)
          · exact Or.inl (hmissed hover j hj hq hm)
      · exact Or.inr (Or.inr hz)

theorem mem_erase_queue {e : Entry} {q' j : Nat}
    (h : Entry.mine j ∈ Function.update s.queues q ((s.queues q).erase e) q') :
    Entry.mine j ∈ s.queues q' := by
  by_cases hq : q' = q
  · subst hq
    rw [Function.update_self] at h
    exact List.mem_of_mem_erase h
  · rw [Function.update_of_ne hq] at h
    exact h

theorem queue_lt (hq : cfg.queue n = some q) : n < cfg.fds.length := by
  by_contra hge
  rw [Cfg.queue, List.getElem?_eq_none (Nat.le_of_not_lt hge)] at hq
  cases hq

/-- **A wake-up** that meets the condition. -/
theorem inv_wakeup (h : Inv cfg s) (hcond : Cond cfg s (.wakeup q key)) :
    Inv cfg (s.wakeup cfg q key) := by
  have hmissed : firstMine cfg s q key = false → ¬ s.Over → ∀ n, s.pc.Read n →
      cfg.queue n = some q → State.covered key (s.mask n) &&& cfg.req n ≠ 0 →
        s.triggered = true := by
    intro hno hover n hr hq hm
    rcases hcond hover n (queue_lt hq) hr hq hm with ht | hf
    · exact ht
    · rw [hno] at hf
      cases hf
  unfold State.wakeup
  dsimp only
  split
  · rename_i hfind
    have hno : firstMine cfg s q key = false := by rw [firstMine, hfind]
    exact h.issue q key (fun _ _ hj => hj) h.asleep id (hmissed hno)
  · rename_i e hfind
    split
    · -- a node of this call
      have hr := h.resume
      have hpc : s.resume.pc ≠ .suspended := by
        unfold State.resume
        split
        · nofun
        · rename_i hne
          exact hne
      have hqueues : s.resume.queues = s.queues := by
        unfold State.resume
        split <;> rfl
      have hissued : s.resume.issued = s.issued := by
        unfold State.resume
        split <;> rfl
      have hmask : s.resume.mask = s.mask := by
        unfold State.resume
        split <;> rfl
      rename_i n
      have hsub : ∀ q' j, .mine j ∈ Function.update s.queues q ((s.queues q).erase (.mine n)) q' →
          .mine j ∈ s.resume.queues q' := by
        intro q' j hj
        rw [hqueues]
        exact mem_erase_queue hj
      have hi := @Inv.issue cfg s.resume _ true hr q key hsub
        (fun hsusp => absurd hsusp hpc) (fun _ => rfl) (fun _ _ _ _ _ => rfl)
      rw [hissued, hmask] at hi
      unfold State.resume at hi ⊢
      dsimp only
      split
      · rename_i hs
        rw [if_pos hs] at hi
        exact hi
      · rename_i hs
        rw [if_neg hs] at hi
        exact hi
    · rename_i id k
      have hno : firstMine cfg s q key = false := by rw [firstMine, hfind]
      exact h.issue q key (fun _ _ hj => mem_erase_queue hj) h.asleep (fun ht => ht) (hmissed hno)

-- --------
-- Every run
-- --------

/-- **A step** that meets the condition keeps the invariant. -/
theorem inv_exec (a : Act) (h : Inv cfg s) (hcond : Cond cfg s a) (hs : exec cfg s a = some s') :
    Inv cfg s' := by
  cases a with
  | step => exact inv_step h hcond hs
  | set n mask error =>
    cases hs
    exact inv_set h n mask error
  | wakeup q key =>
    cases hs
    exact inv_wakeup h hcond
  | tick =>
    cases hs
    exact { h with counted := h.counted }
  | timeout =>
    unfold exec at hs
    dsimp only at hs
    split at hs
    · split at hs
      · cases hs
        exact h.resume
      · cases hs
    · cases hs
  | resume =>
    cases hs
    exact h.resume
  | otherAdd q id key =>
    cases hs
    refine h.withQueues fun q' j hj => ?_
    by_cases hq : q' = q
    · subst hq
      rw [Function.update_self] at hj
      rcases List.mem_append.1 hj with hj | hj
      · exact hj
      · cases List.mem_singleton.1 hj
    · rw [Function.update_of_ne hq] at hj
      exact hj
  | otherRemove q id key =>
    cases hs
    exact h.withQueues fun _ _ hj => mem_erase_queue hj

/-- **`poll`.** In every run whose steps all meet the condition, every state is as it is asked for. -/
theorem poll_keeps (cfg : Cfg) (s : State)
    (h : Runs (Runs.Exec (exec cfg)) (Cond cfg) (init cfg) s) : Good cfg s := by
  have hinv : Inv cfg s :=
    Runs.invariant (fun _ a _ hi hok hs => inv_exec a hi hok hs) h (inv_init cfg)
  exact hinv.good

/-- Two drivers, and a time-out of half a second. -/
def cfg₂ : Cfg := ⟨[⟨.driver 0, pollIn⟩, ⟨.driver 1, pollIn⟩], 500⟩

/-- An event of the second descriptor comes while the thread is suspended. -/
theorem poll_keeps_second : ∃ s, s.pc = .returned 1 ∧ s.revents 1 = pollIn ∧ Good cfg₂ s := by
  obtain ⟨s, -, hrun, hp⟩ := @Runs.exec_of_replay _ _ (Cond cfg₂) (init cfg₂) (exec cfg₂) _
    [.step, .step, .step, .step, .step, .step, .step, .tick, .set 1 pollIn false, .wakeup 1 pollIn,
      .step, .step, .step, .step, .step, .step, .step, .step, .step, .step]
    (fun s => decide (s.pc = .returned 1 ∧ s.revents 1 = pollIn)) (by decide +kernel)
  obtain ⟨hpc, hrev⟩ := of_decide_eq_true hp
  exact ⟨s, hpc, hrev, poll_keeps cfg₂ s hrun⟩

/-- An event that is gone when the thread looks has taken its node along: the next one is lost. -/
theorem poll_lost : ¬ ∀ (cfg : Cfg) (s : State),
    Runs (Runs.Exec (exec cfg)) Runs.always (init cfg) s → Good cfg s := by
  intro hall
  obtain ⟨s, -, hrun, hp⟩ := @Runs.exec_of_replay _ _ Runs.always (init cfg₂) (exec cfg₂) _
    [.step, .step, .step, .step, .step, .step, .step, .set 0 pollIn false, .wakeup 0 pollIn,
      .set 0 0 false, .step, .step, .step, .step, .step, .step, .step, .step,
      .set 0 pollIn false, .wakeup 0 pollIn]
    (fun s => decide (s.pc = .suspended ∧ s.issued 0 &&& cfg₂.req 0 ≠ 0)) (by decide +kernel)
  obtain ⟨hpc, hissued⟩ := of_decide_eq_true hp
  exact hissued ((hall cfg₂ s hrun).heard hpc 0)

end RTThread.Poll
