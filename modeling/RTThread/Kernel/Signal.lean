import RTThread.Kernel.Thread
import RTThread.Lib.BitSet
import RTThread.Lib.Queues
import RTThread.Lib.Runs

/-!
# Signals (`signal.c`)

The steps are the sections with interrupts disabled. A context is one call of a function of
`signal.c`: it belongs to a thread (`rt_thread_self()`), or to an interrupt that came in while the
thread was running. A call from inside a handler is a context of its own.

A node of `_siginfo_pool` is in the free list, in the `si_list` of a thread, or in the hand of a
call: `rt_thread_kill` has it between its allocation and its second section, `rt_thread_handle_sig`
while the handler runs.

The rest of the kernel suspends and resumes the threads when it likes, and a handler takes as long
as it likes.
-/

namespace RTThread

/-- A call, and a node of the pool. -/
abbrev SigCtx := Nat
abbrev SigNode := Nat

/-- Where a node is. -/
inductive SigPlace
  | free
  | list (t : ThreadId)
  | hand (c : SigCtx)
deriving DecidableEq

/-- The fields of a thread for the signals: of the handlers, whether they are not null. `suspended`,
`signal`, `signalPending` and `signalWait` are bits of `stat`; with `sigEntry` its stack pointer
leads into `_signal_entry`. -/
structure SigThread where
  sigMask : BitVec 32 := 0
  sigPending : BitVec 32 := 0
  sigVectors : Option (Nat → Bool) := none
  suspended : Bool := false
  signal : Bool := false
  signalPending : Bool := false
  signalWait : Bool := false
  sigEntry : Bool := false

/-- Where a call is. -/
inductive SigPc
  | idle
  /-- `rt_thread_kill` at its first section, at `rt_mp_alloc` and at its second section. -/
  | lookup (t : ThreadId) (sig : Nat)
  | alloc (t : ThreadId) (sig : Nat)
  | insert (t : ThreadId) (sig : Nat)
  /-- At `_signal_deliver`. -/
  | deliver (t : ThreadId)
  /-- `rt_signal_wait` at its second section. -/
  | waiting (set : BitVec 32)
  /-- `rt_thread_handle_sig` at its start, and in a handler. -/
  | handle (cleanState : Bool)
  | handling (cleanState : Bool)
  /-- `sig_vectors` was null. -/
  | fault
deriving DecidableEq

/-- `RT_SIG_INFO_MAX`, the thread of a call, and whether it is in an interrupt. -/
structure SigCfg where
  poolSize : Nat
  self : SigCtx → ThreadId
  nest : SigCtx → Bool

/-- The threads, the nodes with their `si_signo`, and where the calls are. -/
structure SigSys where
  thread : ThreadId → SigThread
  nodes : SigPlace → List SigNode
  si : SigNode → Nat
  pc : SigCtx → SigPc

/-- What happens next. -/
inductive SigAct
  /-- `rt_thread_kill(t, sig)`. -/
  | kill (c : SigCtx) (t : ThreadId) (sig : Nat)
  /-- `rt_signal_mask(signo)` and `rt_signal_unmask(signo)`. -/
  | mask (c : SigCtx) (signo : Nat)
  | unmask (c : SigCtx) (signo : Nat)
  /-- `rt_signal_install(signo, handler)`. -/
  | install (c : SigCtx) (signo : Nat) (handler : Bool)
  /-- `rt_signal_wait(set, si, timeout)`, and its return from `rt_schedule`. -/
  | wait (c : SigCtx) (set : BitVec 32) (timeout : Int)
  | woken (c : SigCtx) (timedOut : Bool)
  /-- The next section of a call. -/
  | next (c : SigCtx)
  /-- `_signal_entry`, and the check at the end of `rt_schedule`. -/
  | entry (c : SigCtx)
  | schedule (c : SigCtx)
  /-- The rest of the kernel suspends or resumes the thread. -/
  | suspend (t : ThreadId) (suspended : Bool)

namespace SigSys

/-- `RT_SIG_MAX`. -/
def rtSigMax : Nat := 32

variable (cfg : SigCfg) (s : SigSys) (c : SigCtx) (t : ThreadId)

/-- Nothing is pending, and every node is free. -/
def init (poolSize : Nat) : SigSys where
  thread := fun _ => {}
  nodes := fun p => if p = .free then List.range poolSize else []
  si := fun _ => 0
  pc := fun _ => .idle

/-- The call goes on at `pc`. -/
def goto (pc : SigPc) : SigSys := { s with pc := Function.update s.pc c pc }

/-- The thread changes. -/
def setThread (th : SigThread) : SigSys := { s with thread := Function.update s.thread t th }

/-- `sig_pending & sig_mask`. -/
def deliverable : BitVec 32 := (s.thread t).sigPending &&& (s.thread t).sigMask

/-- The first section of `rt_thread_kill`. -/
def killLookup (sig : Nat) : SigSys :=
  if (s.thread t).sigPending.getLsbD sig ∧ ∃ n ∈ s.nodes (.list t), s.si n = sig then s.goto c .idle
  else s.goto c (.alloc t sig)

/-- `rt_mp_alloc(_siginfo_pool, 0)` and the signal info. -/
def killAlloc (sig : Nat) : SigSys :=
  match s.nodes .free with
  | [] => s.goto c (.deliver t)
  | n :: rest =>
    { s.goto c (.insert t sig) with
      nodes := Queues.move s.nodes .free rest (.hand c) (n :: s.nodes (.hand c))
      si := Function.update s.si n sig }

/-- The second section of `rt_thread_kill`. -/
def killInsert (sig : Nat) : Option SigSys :=
  match s.nodes (.hand c) with
  | [] => none
  | n :: rest =>
    let th := s.thread t
    let s := s.setThread t { th with sigPending := th.sigPending ||| BitSet.mask 32 sig }
    let nodes := Queues.move s.nodes (.hand c) rest (.list t) (s.nodes (.list t) ++ [n])
    some { s.goto c (.deliver t) with nodes := nodes }

/-- `_signal_deliver(tid)`. -/
def deliver : SigSys :=
  let th := s.thread t
  if s.deliverable t = 0#32 then s.goto c .idle
  else if th.suspended then
    (s.setThread t { th with suspended := false, signal := true, signalPending := true }).goto c
      .idle
  else if t = cfg.self c then
    (s.setThread t { th with signal := true }).goto c
      (if cfg.nest c = false then .handle true else .idle)
  else if th.signal = false then
    (s.setThread t { th with signal := true, signalPending := false, sigEntry := true }).goto c
      .idle
  else s.goto c .idle

/-- The search of `rt_signal_wait` for a node, which is taken out and freed. -/
def takeWaited (set : BitVec 32) : SigSys :=
  match (s.nodes (.list t)).find? fun n => set.getLsbD (s.si n) with
  | none => s
  | some n =>
    let th := s.thread t
    let s := s.setThread t
      { th with sigPending := th.sigPending &&& ~~~BitSet.mask 32 (s.si n) }
    let nodes := Queues.unlink s.nodes n
    { s with nodes := Function.update nodes .free (n :: nodes .free) }

/-- The first section of `rt_signal_wait`. -/
def wait (set : BitVec 32) (timeout : Int) : SigSys :=
  let t := cfg.self c
  let th := s.thread t
  if set = 0#32 then s
  else if th.sigPending &&& set ≠ 0#32 then s.takeWaited t set
  else if timeout = 0 then s
  else (s.setThread t { th with suspended := true, signalWait := true }).goto c (.waiting set)

/-- The second. -/
def woken (set : BitVec 32) (timedOut : Bool) : SigSys :=
  let t := cfg.self c
  let s := (s.setThread t { s.thread t with signalWait := false }).goto c .idle
  if timedOut then s else s.takeWaited t set

/-- The end of the loop of `rt_thread_handle_sig`, and of `_signal_entry`. -/
def handled (cleanState : Bool) : SigSys :=
  let th := s.thread t
  if cleanState then (s.setThread t { th with signal := false }).goto c .idle
  else (s.setThread t { th with signal := false, sigEntry := false }).goto c .idle

/-- A round of the loop of `rt_thread_handle_sig` up to the handler. -/
def handleRound (cleanState : Bool) : SigSys :=
  let th := s.thread t
  if s.deliverable t = 0#32 then s.handled c t cleanState
  else
    match s.nodes (.list t) with
    | [] => s.handled c t cleanState
    | n :: rest =>
      match th.sigVectors with
      | none => s.goto c .fault
      | some _ =>
        let s := s.setThread t
          { th with sigPending := th.sigPending &&& ~~~BitSet.mask 32 (s.si n) }
        let nodes := Queues.move s.nodes (.list t) rest (.hand c) (n :: s.nodes (.hand c))
        { s.goto c (.handling cleanState) with nodes := nodes }

/-- The start of `rt_thread_handle_sig`. -/
def handleStart (cleanState : Bool) : SigSys :=
  let th := s.thread t
  if s.deliverable t ≠ 0#32 ∧ th.signalWait = false then s.handleRound c t cleanState
  else if cleanState then s.goto c .idle
  else s.handled c t false

/-- The handler has returned: `rt_mp_free(si_node)`. -/
def handlerReturn : SigSys :=
  match s.nodes (.hand c) with
  | [] => s
  | n :: rest => { s with nodes := Queues.move s.nodes (.hand c) rest .free (n :: s.nodes .free) }

/-- The next section of a call. -/
def next : Option SigSys :=
  match s.pc c with
  | .lookup t sig => some (s.killLookup c t sig)
  | .alloc t sig => some (s.killAlloc c t sig)
  | .insert t sig => s.killInsert c t sig
  | .deliver t => some (s.deliver cfg c t)
  | .handle cleanState => some (s.handleStart c (cfg.self c) cleanState)
  | .handling cleanState => some ((s.handlerReturn c).handleRound c (cfg.self c) cleanState)
  | .idle | .waiting _ | .fault => none

/-- A call begins. -/
def begin (s' : SigSys) : Option SigSys := Runs.takeIf (s.pc c = .idle) s'

/-- `rt_signal_install`: the handlers are there from then on. -/
def install (signo : Nat) (handler : Bool) : SigSys :=
  let th := s.thread t
  if signo < rtSigMax then
    s.setThread t { th with
      sigVectors := some (Function.update (th.sigVectors.getD fun _ => true) signo handler) }
  else s

/-- **A step of the system.** -/
def step (s : SigSys) : SigAct → Option SigSys
  | .kill c t sig => s.begin c (if sig < rtSigMax then s.goto c (.lookup t sig) else s)
  | .mask c signo =>
    let th := s.thread (cfg.self c)
    s.begin c (s.setThread (cfg.self c)
      { th with sigMask := th.sigMask &&& ~~~BitSet.mask 32 signo })
  | .unmask c signo =>
    let th := s.thread (cfg.self c)
    let s' := s.setThread (cfg.self c) { th with sigMask := th.sigMask ||| BitSet.mask 32 signo }
    s.begin c (if s'.deliverable (cfg.self c) ≠ 0#32 then s'.goto c (.deliver (cfg.self c)) else s')
  | .install c signo handler => s.begin c (s.install (cfg.self c) signo handler)
  | .wait c set timeout => s.begin c (s.wait cfg c set timeout)
  | .woken c timedOut =>
    match s.pc c with
    | .waiting set =>
      Runs.takeIf ((s.thread (cfg.self c)).suspended = false) (s.woken cfg c set timedOut)
    | _ => none
  | .next c => s.next cfg c
  | .entry c =>
    if (s.thread (cfg.self c)).sigEntry then s.begin c (s.goto c (.handle false)) else none
  | .schedule c =>
    let th := s.thread (cfg.self c)
    if th.signalPending then
      s.begin c ((s.setThread (cfg.self c) { th with signalPending := false }).goto c (.handle true))
    else none
  | .suspend t suspended =>
    some (s.setThread t { s.thread t with suspended := suspended })

end SigSys

end RTThread
