import RTThread.Kernel.Scheduler

/-!
# Semaphores and mutexes (`ipc.c`)

The calls on semaphores and mutexes, and the kernel as a transition system.

A call that blocks disables interrupts, suspends its thread, enables them and calls
`rt_schedule`; between the last two the thread is suspended and still the current one, and an
interrupt may wake it. `rt_schedule` returns to the call when the thread is switched to again,
and only then the call reads what has been left in `thread->error`. So a thread is outside the
kernel, about to call `rt_schedule`, or behind that call (`Pc`).

An interrupt handler may come between any two steps. Threads go on when it has made its call of
`rt_schedule` (`pending`).

Events, mailboxes and message queues touch the threads in the same way as semaphores: they
suspend the current thread in a list and resume threads from it. Their own data are left out.
-/

namespace RTThread

/-- `RT_IPC_FLAG_FIFO` and `RT_IPC_FLAG_PRIO`. -/
inductive IpcFlag
  | fifo
  | prio
deriving DecidableEq

/-- `struct rt_semaphore`. -/
structure Sem where
  value : Nat
  flag : IpcFlag

/-- `struct rt_mutex`. -/
structure Mutex where
  value : Nat
  originalPriority : Nat
  hold : Nat
  owner : Option ThreadId

/-- `rt_mutex_init` and `rt_mutex_create`. -/
def mutexInit : Mutex where
  value := 1
  originalPriority := 0xff
  hold := 0
  owner := none

/-- `RT_SEM_VALUE_MAX`. -/
abbrev rtSemValueMax : Nat := 65535

/-- `RT_MUTEX_VALUE_MAX`. -/
abbrev rtMutexValueMax : Nat := 65535

/-- `RT_MUTEX_HOLD_MAX`. -/
abbrev rtMutexHoldMax : Nat := 255

-- --------
-- The suspend lists
-- --------

/-- `_ipc_list_suspend`. With `RT_IPC_FLAG_PRIO` the thread goes before the first thread that is
less urgent. -/
def ipcListSuspend (cfg : SchedCfg) (s : Sys) (o : IpcId) (t : ThreadId) (flag : IpcFlag) : Sys :=
  let s := (rtThreadSuspend cfg s t).2
  let list := s.queue (.wait o)
  match flag with
  | .fifo => s.setQueue (.wait o) (list ++ [t])
  | .prio =>
    s.setQueue (.wait o) (list.orderedInsert
      (fun thread sthread =>
        (s.thread thread).currentPriority < (s.thread sthread).currentPriority) t)

/-- `_ipc_list_resume` of a list that is not empty. -/
def ipcListResume (cfg : SchedCfg) (s : Sys) (o : IpcId) : Sys :=
  match s.queue (.wait o) with
  | [] => s
  | thread :: _ => (rtThreadResume cfg s thread).2

/-- The loop of `_ipc_list_resume_all`, at most `n` times. -/
def resumeLoop (cfg : SchedCfg) (o : IpcId) : Nat → Sys → Sys
  | 0, s => s
  | n + 1, s =>
    match s.queue (.wait o) with
    | [] => s
    | thread :: _ =>
      resumeLoop cfg o n (rtThreadResume cfg (s.setError thread .error) thread).2

/-- `_ipc_list_resume_all`: the loop runs until the list is empty (`resumeAll_spec`). -/
def ipcListResumeAll (cfg : SchedCfg) (s : Sys) (o : IpcId) : Sys :=
  resumeLoop cfg o (s.queue (.wait o)).length s

-- --------
-- The kernel
-- --------

/-- What a call does when `rt_schedule` has returned. -/
inductive Cont
  /-- It returns `RT_EOK`. -/
  | done
  /-- `rt_sem_take` returns what is in `thread->error`. -/
  | semTake (i : Nat)
  /-- `rt_mutex_take` returns what is in `thread->error`. -/
  | mutexTake (m : Nat)
  /-- A call that waits for another IPC object looks at `thread->error`. -/
  | wait (i : Nat)
  /-- `rt_thread_sleep` takes a time-out for its success. -/
  | sleep
deriving DecidableEq

/-- Where a thread is. -/
inductive Pc
  /-- Not in a call. -/
  | run
  /-- About to call `rt_schedule`. -/
  | schedule (k : Cont)
  /-- Behind the call of `rt_schedule`. -/
  | woken (k : Cont)
deriving DecidableEq

/-- The threads, the scheduler and the IPC objects. -/
structure Kernel where
  sys : Sys
  sem : Nat → Sem
  mutex : Nat → Mutex
  /-- The flags of the other IPC objects. -/
  flag : Nat → IpcFlag
  pc : ThreadId → Pc
  /-- An interrupt handler is about to call `rt_schedule`. -/
  pending : Bool

namespace Kernel

/-- `thread->current_priority`. -/
abbrev priority (s : Kernel) (t : ThreadId) : Nat := (s.sys.thread t).currentPriority

/-- The threads suspended on an IPC object. -/
abbrev waiters (s : Kernel) (o : IpcId) : List ThreadId := s.sys.queue (.wait o)

def setSem (s : Kernel) (i : Nat) (x : Sem) : Kernel :=
  { s with sem := Function.update s.sem i x }

def setMutex (s : Kernel) (m : Nat) (x : Mutex) : Kernel :=
  { s with mutex := Function.update s.mutex m x }

def setPc (s : Kernel) (t : ThreadId) (pc : Pc) : Kernel :=
  { s with pc := Function.update s.pc t pc }

/-- The caller, a thread or an interrupt handler, goes on to its call of `rt_schedule`. -/
def goSchedule (s : Kernel) : Option ThreadId → Kernel
  | some t => s.setPc t (.schedule .done)
  | none => { s with pending := true }

/-- The current thread is suspended on an IPC object and goes on to `rt_schedule`; with a
waiting time its timer is started. -/
def block (cfg : SchedCfg) (s : Kernel) (t : ThreadId) (o : IpcId) (flag : IpcFlag)
    (timeout : Int) (k : Cont) : Kernel :=
  let sys := ipcListSuspend cfg s.sys o t flag
  let sys := if 0 < timeout then sys.setTimer t true else sys
  { s with sys := sys, pc := Function.update s.pc t (.schedule k) }

end Kernel

-- --------
-- Semaphores
-- --------

/-- `rt_sem_take` of the thread `t` up to its return, or to its call of `rt_schedule`. -/
def rtSemTake (cfg : SchedCfg) (s : Kernel) (t : ThreadId) (i : Nat) (timeout : Int) :
    Option RtErr × Kernel :=
  let sem := s.sem i
  if 0 < sem.value then
    -- semaphore is available
    (some .eok, s.setSem i { sem with value := sem.value - 1 })
  else if timeout = 0 then
    -- no waiting, return with timeout
    (some .etimeout, s)
  else
    let s := { s with sys := s.sys.setError t .eok }
    (none, s.block cfg t (.sem i) sem.flag timeout (.semTake i))

/-- `rt_sem_trytake`. -/
def rtSemTrytake (cfg : SchedCfg) (s : Kernel) (t : ThreadId) (i : Nat) : Option RtErr × Kernel :=
  rtSemTake cfg s t i 0

/-- `rt_sem_release` up to its call of `rt_schedule`: the code it returns and whether it makes
this call. -/
def rtSemRelease (cfg : SchedCfg) (s : Kernel) (i : Nat) : RtErr × Bool × Kernel :=
  let sem := s.sem i
  if s.waiters (.sem i) ≠ [] then
    (.eok, true, { s with sys := ipcListResume cfg s.sys (.sem i) })
  else if sem.value < rtSemValueMax then
    (.eok, false, s.setSem i { sem with value := sem.value + 1 })
  else (.efull, false, s)

/-- `rt_sem_control(sem, RT_IPC_CMD_RESET, value)` up to its call of `rt_schedule`. -/
def rtSemReset (cfg : SchedCfg) (s : Kernel) (i : Nat) (value : Nat) : Kernel :=
  let s := { s with sys := ipcListResumeAll cfg s.sys (.sem i) }
  s.setSem i { s.sem i with value := value % 2 ^ 16 }

-- --------
-- Mutexes
-- --------

/-- The owner of a mutex gets the priority of a more urgent thread that has to wait for it. -/
def changeOwnerPriority (cfg : SchedCfg) (s : Sys) (t : ThreadId) (owner : Option ThreadId) : Sys :=
  match owner with
  | none => s
  | some o =>
    if (s.thread t).currentPriority < (s.thread o).currentPriority then
      rtThreadControl cfg s o (s.thread t).currentPriority
    else s

/-- `rt_mutex_take` of the thread `t` up to its return, or to its call of `rt_schedule`. -/
def rtMutexTake (cfg : SchedCfg) (s : Kernel) (t : ThreadId) (m : Nat) (timeout : Int) :
    Option RtErr × Kernel :=
  let s := { s with sys := s.sys.setError t .eok }
  let x := s.mutex m
  if x.owner = some t then
    -- it's the same thread
    if x.hold < rtMutexHoldMax then (some .eok, s.setMutex m { x with hold := x.hold + 1 })
    else (some .efull, s)
  else if 0 < x.value then
    -- mutex is available
    let x := { x with value := x.value - 1, owner := some t, originalPriority := s.priority t }
    if x.hold < rtMutexHoldMax then (some .eok, s.setMutex m { x with hold := x.hold + 1 })
    else (some .efull, s.setMutex m x)
  else if timeout = 0 then
    -- set error as timeout
    (some .etimeout, { s with sys := s.sys.setError t .etimeout })
  else
    let s := { s with sys := changeOwnerPriority cfg s.sys t x.owner }
    (none, s.block cfg t (.mutex m) .prio timeout (.mutexTake m))

/-- The owner that gives a mutex up gets back the priority it took it with. -/
def restorePriority (cfg : SchedCfg) (s : Sys) (t : ThreadId) (originalPriority : Nat) : Sys :=
  if originalPriority ≠ (s.thread t).currentPriority then rtThreadControl cfg s t originalPriority
  else s

/-- The final release: the mutex goes to the first thread that waits for it, or is free. -/
def passOn (cfg : SchedCfg) (s : Kernel) (m : Nat) (x : Mutex) : RtErr × Bool × Kernel :=
  match s.waiters (.mutex m) with
  | thread :: _ =>
    -- set new owner and priority
    let x := { x with owner := some thread, originalPriority := s.priority thread }
    if x.hold < rtMutexHoldMax then
      (.eok, true,
        { s.setMutex m { x with hold := x.hold + 1 } with
          sys := ipcListResume cfg s.sys (.mutex m) })
    else (.efull, false, s.setMutex m x)
  | [] =>
    if x.value < rtMutexValueMax then
      (.eok, false,
        s.setMutex m { x with value := x.value + 1, owner := none, originalPriority := 0xff })
    else (.efull, false, s.setMutex m x)

/-- `rt_mutex_release` of the thread `t` up to its call of `rt_schedule`: the code it returns and
whether it makes this call. -/
def rtMutexRelease (cfg : SchedCfg) (s : Kernel) (t : ThreadId) (m : Nat) :
    RtErr × Bool × Kernel :=
  let x := s.mutex m
  -- mutex only can be released by owner
  if x.owner ≠ some t then (.error, false, { s with sys := s.sys.setError t .error })
  else
    let x := { x with hold := (x.hold + 255) % 2 ^ 8 }
    if x.hold = 0 then
      -- change the owner thread to original priority
      passOn cfg { s with sys := restorePriority cfg s.sys t x.originalPriority } m x
    else (.eok, false, s.setMutex m x)

-- --------
-- The kernel as a transition system
-- --------

/-- What happens in the kernel. A caller `none` is an interrupt handler. -/
inductive KernelAct
  | semTake (t : ThreadId) (i : Nat) (timeout : Int)
  /-- `rt_sem_trytake` of an interrupt handler. -/
  | semTrytake (i : Nat)
  | semRelease (caller : Option ThreadId) (i : Nat)
  | semReset (caller : Option ThreadId) (i : Nat) (value : Nat)
  | mutexTake (t : ThreadId) (m : Nat) (timeout : Int)
  | mutexRelease (t : ThreadId) (m : Nat)
  /-- The thread waits for another IPC object. -/
  | wait (t : ThreadId) (i : Nat) (timeout : Int)
  /-- A thread that waits for another IPC object is resumed. -/
  | signal (caller : Option ThreadId) (i : Nat) (thread : ThreadId)
  | sleep (t : ThreadId) (timeout : Int)
  | control (t : ThreadId) (thread : ThreadId) (priority : Nat)
  | startup (t : ThreadId) (thread : ThreadId)
  | yield (t : ThreadId)
  | enterCritical (t : ThreadId)
  | exitCritical (t : ThreadId)
  /-- The thread makes the call of `rt_schedule` at the end of its critical section. -/
  | reschedule (t : ThreadId)
  /-- The call of the thread returns. -/
  | ret (t : ThreadId)
  /-- The timer of a suspended thread runs out. -/
  | timeout (thread : ThreadId)
  /-- The time slice of the current thread is used up. -/
  | tick
  /-- The interrupt handler calls `rt_schedule`. -/
  | schedule

/-- The thread runs and is where `pc` says. -/
structure Kernel.At (s : Kernel) (t : ThreadId) (pc : Pc) : Prop where
  current : s.sys.current = some t
  pc : s.pc t = pc
  settled : s.pending = false

/-- A thread makes its calls outside the kernel, an interrupt handler any time. -/
def Kernel.Caller (s : Kernel) : Option ThreadId → Prop
  | none => True
  | some t => s.At t .run

/-- `rt_timer_control` asserts that the time is small. -/
def TimeoutOk (timeout : Int) : Prop := timeout < 2 ^ 31 - 1

/-- What the call leaves in the state when it returns, and what it returns. -/
def Kernel.leave (s : Kernel) (t : ThreadId) : Cont → RtErr × Kernel
  | .done => (.eok, s.setPc t .run)
  | .sleep =>
    -- clear error number of this thread to RT_EOK
    let s := if (s.sys.thread t).error = .etimeout then { s with sys := s.sys.setError t .eok } else s
    ((s.sys.thread t).error, s.setPc t .run)
  | _ => ((s.sys.thread t).error, s.setPc t .run)

/-- The atomic steps. The calls that block assert that the scheduler is available; the thread
`idle` makes none of them. -/
inductive KernelStep (cfg : SchedCfg) (idle : ThreadId) : Kernel → KernelAct → Kernel → Prop
  | semTake {s : Kernel} {t : ThreadId} {i : Nat} {timeout : Int} (hat : s.At t .run)
      (hassert : (s.sem i).value = 0 → timeout ≠ 0 → s.sys.lockNest = 0 ∧ TimeoutOk timeout)
      (hidle : t = idle → timeout = 0) :
      KernelStep cfg idle s (.semTake t i timeout) (rtSemTake cfg s t i timeout).2
  | semTrytake {s : Kernel} {t : ThreadId} {i : Nat} (hcur : s.sys.current = some t) :
      KernelStep cfg idle s (.semTrytake i) (rtSemTrytake cfg s t i).2
  | semRelease {s : Kernel} {c : Option ThreadId} {i : Nat} (hc : s.Caller c) :
      KernelStep cfg idle s (.semRelease c i)
        (if (rtSemRelease cfg s i).2.1 then (rtSemRelease cfg s i).2.2.goSchedule c
        else (rtSemRelease cfg s i).2.2)
  | semReset {s : Kernel} {c : Option ThreadId} {i value : Nat} (hc : s.Caller c) :
      KernelStep cfg idle s (.semReset c i value) ((rtSemReset cfg s i value).goSchedule c)
  | mutexTake {s : Kernel} {t : ThreadId} {m : Nat} {timeout : Int} (hat : s.At t .run)
      (hassert : s.sys.lockNest = 0 ∧ TimeoutOk timeout) (hidle : t = idle → timeout = 0) :
      KernelStep cfg idle s (.mutexTake t m timeout) (rtMutexTake cfg s t m timeout).2
  | mutexRelease {s : Kernel} {t : ThreadId} {m : Nat} (hat : s.At t .run) :
      KernelStep cfg idle s (.mutexRelease t m)
        (if (rtMutexRelease cfg s t m).2.1 then (rtMutexRelease cfg s t m).2.2.goSchedule (some t)
        else (rtMutexRelease cfg s t m).2.2)
  | wait {s : Kernel} {t : ThreadId} {i : Nat} {timeout : Int} (hat : s.At t .run)
      (hassert : s.sys.lockNest = 0 ∧ TimeoutOk timeout) (hidle : t ≠ idle) :
      KernelStep cfg idle s (.wait t i timeout)
        ({ s with sys := s.sys.setError t .eok }.block cfg t (.other i) (s.flag i) timeout (.wait i))
  | signal {s : Kernel} {c : Option ThreadId} {i : Nat} {u : ThreadId} (hc : s.Caller c)
      (hu : u ∈ s.waiters (.other i)) :
      KernelStep cfg idle s (.signal c i u)
        ({ s with sys := (rtThreadResume cfg s.sys u).2 }.goSchedule c)
  | sleep {s : Kernel} {t : ThreadId} {timeout : Int} (hat : s.At t .run)
      (hassert : s.sys.lockNest = 0 ∧ TimeoutOk timeout) (hidle : t ≠ idle) :
      KernelStep cfg idle s (.sleep t timeout)
        ({ s with
          sys := ((rtThreadSuspend cfg (s.sys.setError t .eok) t).2).setTimer t true }.setPc t
            (.schedule .sleep))
  | control {s : Kernel} {t u : ThreadId} {priority : Nat} (hat : s.At t .run)
      (hp : priority < cfg.priorityMax) :
      KernelStep cfg idle s (.control t u priority)
        { s with sys := rtThreadControl cfg s.sys u priority }
  | startup {s : Kernel} {t u : ThreadId} (hat : s.At t .run)
      (hu : (s.sys.thread u).stat = .init) :
      KernelStep cfg idle s (.startup t u)
        ({ s with sys := threadStartup cfg s.sys u }.goSchedule (some t))
  | yield {s : Kernel} {t : ThreadId} (hat : s.At t .run) :
      KernelStep cfg idle s (.yield t) { s with sys := rtThreadYield cfg s.sys t }
  | enterCritical {s : Kernel} {t : ThreadId} (hat : s.At t .run) :
      KernelStep cfg idle s (.enterCritical t) { s with sys := rtEnterCritical s.sys }
  | exitCritical {s : Kernel} {t : ThreadId} (hat : s.At t .run) :
      KernelStep cfg idle s (.exitCritical t)
        (let s' := { s with sys := { s.sys with lockNest := s.sys.lockNest - 1 } }
        if s'.sys.lockNest = 0 then s'.goSchedule (some t) else s')
  | reschedule {s : Kernel} {t : ThreadId} {k : Cont} (hat : s.At t (.schedule k)) :
      KernelStep cfg idle s (.reschedule t)
        ({ s with sys := rtSchedule cfg s.sys }.setPc t (.woken k))
  | ret {s : Kernel} {t : ThreadId} {k : Cont} (hat : s.At t (.woken k)) :
      KernelStep cfg idle s (.ret t) (s.leave t k).2
  | timeout {s : Kernel} {u : ThreadId} (htimer : (s.sys.thread u).timer = true)
      (hassert : (s.sys.thread u).stat = .suspend) :
      KernelStep cfg idle s (.timeout u)
        { s with sys := threadTimeout cfg (s.sys.setTimer u false) u, pending := true }
  | tick {s : Kernel} {t : ThreadId} (hcur : s.sys.current = some t) :
      KernelStep cfg idle s .tick
        { s with
          sys := s.sys.setThread t { s.sys.thread t with yielding := true }, pending := true }
  | schedule (s : Kernel) :
      KernelStep cfg idle s .schedule { s with sys := rtSchedule cfg s.sys, pending := false }

/-- The scheduler has been started: a thread runs, `idle` runs or is ready, no thread has waited
for anything yet, and the mutexes are as they are initialised. -/
structure Kernel.Booted (cfg : SchedCfg) (idle : ThreadId) (s : Kernel) : Prop where
  sched : SchedInv cfg s.sys
  current : ∃ t, s.sys.current = some t ∧ (s.sys.thread t).stat = .running
  idle_awake : (s.sys.thread idle).Awake
  none_suspended : ∀ t, (s.sys.thread t).stat ≠ .suspend
  no_timer : ∀ t, (s.sys.thread t).timer = false
  outside : ∀ t, s.pc t = .run
  settled : s.pending = false
  unlocked : s.sys.lockNest = 0
  mutexes : ∀ m, s.mutex m = mutexInit
  sems : ∀ i, (s.sem i).value ≤ rtSemValueMax

end RTThread
