import Mathlib.Logic.Function.Basic
import RTThread.Kernel.Ffs
import RTThread.Lib.Queues
import RTThread.Lib.Runs
import RTThread.Rtdef

/-!
# Threads and the scheduler (`thread.c`, `scheduler.c`)

The scheduler for one processor. A thread is named by its address. Its node `tlist` is in the
ready list of a priority, in the suspend list of an IPC object, in the list of the defunct
threads or in none; `rt_list_remove` takes it out of whatever list it is in, so the lists are
one family of queues and the removal is `Queues.unlink`.

The code disables interrupts around everything that touches these lists. What runs between
disabling and enabling them is one step here, with the tests and the writes before it;
`rt_thread_detach` and `rt_thread_delete` are two steps, since `rt_schedule_remove_thread` enables
the interrupts again before the thread is closed. The assertions of the calls are what their steps
demand of the state.

The stack, the time slice, the signals and the hooks of a thread are left out: no list or
status depends on them. The thread timer is the flag that says whether it is running.
-/

namespace RTThread

/-- The error codes the kernel calls return and leave in a thread. -/
inductive RtErr
  /-- `RT_EOK` -/
  | eok
  /-- `-RT_ERROR` -/
  | error
  /-- `-RT_ETIMEOUT` -/
  | etimeout
  /-- `-RT_EFULL` -/
  | efull
deriving DecidableEq

/-- The address of a thread. -/
abbrev ThreadId := Nat

/-- `RT_THREAD_PRIORITY_MAX`. -/
structure SchedCfg where
  priorityMax : Nat
  pos : 0 < priorityMax
  le : priorityMax ≤ 256

/-- `RT_THREAD_PRIORITY_MAX > 32`: the ready bits are kept in a table of bytes, with a group
bit for each byte. -/
def SchedCfg.wide (cfg : SchedCfg) : Bool := 32 < cfg.priorityMax

/-- `stat & RT_THREAD_STAT_MASK`. -/
inductive ThreadStat
  | init
  | ready
  | suspend
  | running
  | close
deriving DecidableEq

/-- The IPC objects, by what they are. -/
inductive IpcId
  | sem (i : Nat)
  | mutex (i : Nat)
  /-- An event, a mailbox or a message queue; the last two have a second list for senders. -/
  | other (i : Nat)
deriving DecidableEq

/-- The lists of threads. -/
inductive QueueId
  /-- `rt_thread_priority_table[priority]` -/
  | ready (priority : Nat)
  /-- The suspend list of an IPC object. -/
  | wait (o : IpcId)
  /-- `_rt_thread_defunct` -/
  | defunct
deriving DecidableEq

/-- `struct rt_thread`. The bit `RT_THREAD_STAT_YIELD` of `stat` is `yielding`; `timer` says
whether the thread timer is activated. -/
structure Thread where
  stat : ThreadStat
  yielding : Bool
  currentPriority : Nat
  number : Nat
  numberMask : BitVec 32
  highMask : BitVec 8
  error : RtErr
  timer : Bool

/-- `_thread_init`, with the fields the scheduler reads. -/
def threadInit (priority : Nat) : Thread where
  stat := .init
  yielding := false
  currentPriority := priority
  number := 0
  numberMask := 0#32
  highMask := 0#8
  error := .eok
  timer := false

/-- A thread gets a priority and the masks that belong to it. -/
def Thread.withPriority (cfg : SchedCfg) (x : Thread) (priority : Nat) : Thread :=
  if cfg.wide then
    { x with
      currentPriority := priority
      number := priority >>> 3
      numberMask := BitSet.mask 32 (priority >>> 3)
      highMask := BitSet.mask 8 (priority &&& 7) }
  else
    { x with
      currentPriority := priority
      numberMask := BitSet.mask 32 priority }

/-- The threads, their lists and the variables of `scheduler.c`. -/
structure Sys where
  thread : ThreadId → Thread
  queue : QueueId → List ThreadId
  /-- `rt_thread_ready_priority_group` -/
  group : BitVec 32
  /-- `rt_thread_ready_table` -/
  table : Nat → BitVec 8
  /-- `rt_current_thread` -/
  current : Option ThreadId
  /-- `rt_scheduler_lock_nest` -/
  lockNest : Nat

namespace Sys

def setThread (s : Sys) (t : ThreadId) (x : Thread) : Sys :=
  { s with thread := Function.update s.thread t x }

def setStat (s : Sys) (t : ThreadId) (stat : ThreadStat) : Sys :=
  s.setThread t { s.thread t with stat := stat }

def setError (s : Sys) (t : ThreadId) (e : RtErr) : Sys :=
  s.setThread t { s.thread t with error := e }

/-- The thread timer is started (`true`) or stopped. -/
def setTimer (s : Sys) (t : ThreadId) (b : Bool) : Sys :=
  s.setThread t { s.thread t with timer := b }

def setQueue (s : Sys) (q : QueueId) (l : List ThreadId) : Sys :=
  { s with queue := Function.update s.queue q l }

/-- `rt_list_remove(&(thread->tlist))`. -/
def listRemove (s : Sys) (t : ThreadId) : Sys :=
  { s with queue := Queues.unlink s.queue t }

/-- The end of `rt_schedule_insert_thread`: the priority mask is set. -/
def setPriorityMask (cfg : SchedCfg) (s : Sys) (t : ThreadId) : Sys :=
  let x := s.thread t
  { s with
    table :=
      if cfg.wide then Function.update s.table x.number (s.table x.number ||| x.highMask)
      else s.table
    group := s.group ||| x.numberMask }

/-- The end of `rt_schedule_remove_thread`: the priority mask is cleared. -/
def clearPriorityMask (cfg : SchedCfg) (s : Sys) (t : ThreadId) : Sys :=
  let x := s.thread t
  if cfg.wide then
    let byte := s.table x.number &&& ~~~x.highMask
    { s with
      table := Function.update s.table x.number byte
      group := if byte = 0#8 then s.group &&& ~~~x.numberMask else s.group }
  else
    { s with group := s.group &&& ~~~x.numberMask }

end Sys

-- --------
-- `scheduler.c`
-- --------

/-- `rt_schedule_insert_thread`. -/
def rtScheduleInsertThread (cfg : SchedCfg) (s : Sys) (t : ThreadId) : Sys :=
  -- it's current thread, it should be RUNNING thread
  if s.current = some t then s.setStat t .running
  else
    let q := QueueId.ready (s.thread t).currentPriority
    ((s.setStat t .ready).setQueue q (s.queue q ++ [t])).setPriorityMask cfg t

/-- `rt_schedule_remove_thread`. -/
def rtScheduleRemoveThread (cfg : SchedCfg) (s : Sys) (t : ThreadId) : Sys :=
  let s := s.listRemove t
  if s.queue (.ready (s.thread t).currentPriority) = [] then s.clearPriorityMask cfg t else s

/-- `highest_ready_priority` of `_scheduler_get_highest_priority_thread`. -/
def highestReadyPriority (cfg : SchedCfg) (s : Sys) : Nat :=
  if cfg.wide then
    let number := rtFfs s.group - 1
    (number <<< 3) + rtFfs ((s.table number).setWidth 32) - 1
  else rtFfs s.group - 1

/-- `_scheduler_get_highest_priority_thread`: the first thread of the list it finds. -/
def schedulerGetHighestPriorityThread (cfg : SchedCfg) (s : Sys) : Option ThreadId :=
  (s.queue (.ready (highestReadyPriority cfg s))).head?

/-- `rt_system_scheduler_start`. -/
def rtSystemSchedulerStart (cfg : SchedCfg) (s : Sys) : Sys :=
  match schedulerGetHighestPriorityThread cfg s with
  | none => s
  | some toThread =>
    let s := rtScheduleRemoveThread cfg { s with current := some toThread } toThread
    s.setThread toThread { s.thread toThread with stat := .running, yielding := false }

/-- The tests of `rt_schedule` after which the running thread `cur` goes on. -/
def Sys.staysRunning (s : Sys) (cur : ThreadId) (highest : Nat) : Prop :=
  (s.thread cur).stat = .running ∧
    ((s.thread cur).currentPriority < highest ∨
      (s.thread cur).currentPriority = highest ∧ (s.thread cur).yielding = false)

instance (s : Sys) (cur : ThreadId) (highest : Nat) : Decidable (s.staysRunning cur highest) :=
  inferInstanceAs (Decidable (_ ∧ _))

/-- `rt_schedule` where the destination thread is not the same as the current thread. -/
def scheduleTo (cfg : SchedCfg) (s : Sys) (needInsertFromThread : Bool)
    (fromThread toThread : ThreadId) : Sys :=
  let s := { s with current := some toThread }
  let s := if needInsertFromThread then rtScheduleInsertThread cfg s fromThread else s
  (rtScheduleRemoveThread cfg s toThread).setStat toThread .running

/-- `rt_schedule` of the running or blocked thread `cur` where `highest` is the first thread of
the highest ready priority: the yield mark is cleared, and the thread that is to run does. -/
def scheduleFrom (cfg : SchedCfg) (s : Sys) (cur highest : ThreadId) : Sys :=
  let running := decide ((s.thread cur).stat = .running)
  let stays := decide (s.staysRunning cur (highestReadyPriority cfg s))
  let toThread := if stays then cur else highest
  let s := if running then s.setThread cur { s.thread cur with yielding := false } else s
  if toThread ≠ cur then scheduleTo cfg s (running && !stays) cur toThread
  else (rtScheduleRemoveThread cfg s cur).setStat cur .running

/-- `rt_schedule`. It is only called once the scheduler runs. -/
def rtSchedule (cfg : SchedCfg) (s : Sys) : Sys :=
  match s.current with
  | none => s
  | some cur =>
    -- check the scheduler is enabled or not
    if s.lockNest ≠ 0 ∨ s.group = 0#32 then s
    else
      match schedulerGetHighestPriorityThread cfg s with
      | none => s
      | some highest => scheduleFrom cfg s cur highest

/-- `rt_enter_critical`. -/
def rtEnterCritical (s : Sys) : Sys := { s with lockNest := s.lockNest + 1 }

/-- `rt_exit_critical` up to its call of `rt_schedule`. -/
def rtExitCritical (s : Sys) : Sys := { s with lockNest := s.lockNest - 1 }

-- --------
-- `thread.c`
-- --------

/-- `rt_thread_suspend` behind its assertion that the thread is the running one: the code it
returns and the state. -/
def rtThreadSuspend (cfg : SchedCfg) (s : Sys) (t : ThreadId) : RtErr × Sys :=
  if (s.thread t).stat ≠ .ready ∧ (s.thread t).stat ≠ .running then (.error, s)
  else
    let s := rtScheduleRemoveThread cfg s t
    (.eok, (s.setStat t .suspend).setTimer t false)

/-- `rt_thread_resume`. -/
def rtThreadResume (cfg : SchedCfg) (s : Sys) (t : ThreadId) : RtErr × Sys :=
  if (s.thread t).stat ≠ .suspend then (.error, s)
  else (.eok, rtScheduleInsertThread cfg ((s.listRemove t).setTimer t false) t)

/-- `rt_thread_startup` up to its call of `rt_schedule`, behind its assertion that the thread
has not been started. -/
def threadStartup (cfg : SchedCfg) (s : Sys) (t : ThreadId) : Sys :=
  let x := (s.thread t).withPriority cfg (s.thread t).currentPriority
  let s := s.setThread t { x with stat := .suspend, yielding := false }
  (rtThreadResume cfg s t).2

/-- `rt_thread_startup`. -/
def rtThreadStartup (cfg : SchedCfg) (s : Sys) (t : ThreadId) : Sys :=
  let s := threadStartup cfg s t
  if s.current ≠ none then rtSchedule cfg s else s

/-- The end of `_thread_exit`, `rt_thread_detach` and `rt_thread_delete`: the thread timer is
detached and the closed thread goes to the defunct threads. -/
def threadClose (s : Sys) (t : ThreadId) : Sys :=
  let s := s.setThread t { s.thread t with timer := false, stat := .close, yielding := false }
  s.setQueue .defunct (t :: s.queue .defunct)

/-- `_thread_exit` of the running thread `t`, up to its call of `rt_schedule`. -/
def threadExit (cfg : SchedCfg) (s : Sys) (t : ThreadId) : Sys :=
  threadClose (rtScheduleRemoveThread cfg s t) t

/-- `rt_thread_detach` and `rt_thread_delete` of a thread that is not closed, up to where
`rt_schedule_remove_thread` has enabled interrupts again. `threadClose` is what comes then. -/
def rtThreadDetach (cfg : SchedCfg) (s : Sys) (t : ThreadId) : Sys :=
  if (s.thread t).stat ≠ .init then rtScheduleRemoveThread cfg s t else s

/-- `rt_thread_yield` of the running thread `t`. -/
def rtThreadYield (cfg : SchedCfg) (s : Sys) (t : ThreadId) : Sys :=
  rtSchedule cfg (s.setThread t { s.thread t with yielding := true })

/-- `rt_thread_control(thread, RT_THREAD_CTRL_CHANGE_PRIORITY, &priority)`. -/
def rtThreadControl (cfg : SchedCfg) (s : Sys) (t : ThreadId) (priority : Nat) : Sys :=
  -- for ready thread, change queue
  if (s.thread t).stat = .ready then
    let s := rtScheduleRemoveThread cfg s t
    let s := s.setThread t ((s.thread t).withPriority cfg priority)
    rtScheduleInsertThread cfg s t
  else s.setThread t ((s.thread t).withPriority cfg priority)

/-- `_thread_timeout` up to its call of `rt_schedule`, behind its assertion that the thread is
suspended. -/
def threadTimeout (cfg : SchedCfg) (s : Sys) (t : ThreadId) : Sys :=
  rtScheduleInsertThread cfg ((s.setError t .etimeout).listRemove t) t

-- --------
-- The scheduler as a transition system
-- --------

/-- What happens to the threads. Of a `detach` and its `close` either is a section of
`rt_thread_detach`. -/
inductive SchedAct
  | start
  | startup (t : ThreadId)
  | suspend
  | resume (t : ThreadId)
  | control (t : ThreadId) (priority : Nat)
  | yield
  | detach (t : ThreadId)
  | close (t : ThreadId)
  | exit
  | timeout (t : ThreadId)
  | schedule
  | enterCritical
  | exitCritical

/-- What the running thread does with itself. -/
def SchedAct.own : SchedAct → Bool
  | .suspend | .yield | .exit => true
  | _ => false

/-- The calls that are one section. The `rt_schedule` at the end of a call is a step of its own. -/
def Sys.call (cfg : SchedCfg) (s : Sys) : SchedAct → Option Sys
  | .start => Runs.takeIf (s.current = none) (rtSystemSchedulerStart cfg s)
  | .startup t => Runs.takeIf ((s.thread t).stat = .init) (threadStartup cfg s t)
  | .suspend => s.current.map fun t => (rtThreadSuspend cfg s t).2
  | .resume t => some (rtThreadResume cfg s t).2
  | .control t priority =>
    Runs.takeIf (priority < cfg.priorityMax) (rtThreadControl cfg s t priority)
  | .yield => s.current.map fun t => rtThreadYield cfg s t
  | .exit => s.current.map fun t => threadExit cfg s t
  | .timeout t => Runs.takeIf ((s.thread t).stat = .suspend) (threadTimeout cfg s t)
  | .schedule => some (rtSchedule cfg s)
  | .enterCritical => some (rtEnterCritical s)
  | .exitCritical => some (rtExitCritical s)
  | .detach _ | .close _ => none

/-- The threads, and the calls of `rt_thread_detach` that are between their sections: who makes
them (none before the scheduler runs) and for which thread. -/
structure Sched where
  sys : Sys
  detaching : List (Option ThreadId × ThreadId)

/-- **A step.** A detach is closed by who began it, when that thread runs; it does nothing else
with itself in between. For a closed thread `rt_thread_detach` returns at once. -/
def Sched.exec (cfg : SchedCfg) (x : Sched) : SchedAct → Option Sched
  | .detach t => Runs.takeIf ((x.sys.thread t).stat ≠ .close)
      ⟨rtThreadDetach cfg x.sys t, (x.sys.current, t) :: x.detaching⟩
  | .close t => Runs.takeIf ((x.sys.current, t) ∈ x.detaching)
      ⟨threadClose x.sys t, x.detaching.erase (x.sys.current, t)⟩
  | a => if a.own = true ∧ ∃ d ∈ x.detaching, d.1 = x.sys.current then none
    else (x.sys.call cfg a).map fun s => { x with sys := s }

/-- The threads are initialised, the scheduler is not yet started. -/
def Sys.initial (priority : ThreadId → Nat) : Sys where
  thread t := threadInit (priority t)
  queue _ := []
  group := 0#32
  table _ := 0#8
  current := none
  lockNest := 0

end RTThread
