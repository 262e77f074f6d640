import Mathlib.Logic.Function.Basic
import RTThread.Lib.SkipList
import RTThread.Rtdef

/-!
# Timers (`timer.c`)

The hard and the soft timer list are skip lists of `RT_TIMER_SKIP_LIST_LEVEL`
rows. A timer is named by its address, a row is the list of the timers whose
nodes are linked in it, so `rt_list_remove` takes a timer out of the one row
list its node is in and `rt_list_insert_after` is `SkipList.insertAfter`. The
variable `list` on the stack of a running check is a list of its own (`held`).

The timeout functions are not part of the model: a check runs up to the call of
one (`checkHead`) and goes on from its return (`checkReturn`), and anything the
interface offers may happen in between.

Three things are recorded that the code does not store: the tick counter and
`random_nr` count without wrapping around (the code reads them modulo `2 ^ 32`),
and a timer carries the number of its last start and the time it runs out in
unwrapped ticks. No definition branches on them.
-/

namespace RTThread

/-- `RT_TICK_MAX`. -/
abbrev rtTickMax : Nat := 2 ^ 32 - 1

/-- `RT_TIMER_SKIP_LIST_LEVEL` and `RT_TIMER_SKIP_LIST_MASK`. -/
structure SkipListCfg where
  level : Nat
  mask : Nat
  level_pos : 0 < level

/-- The index of the row that holds every timer. -/
abbrev SkipListCfg.bottom (cfg : SkipListCfg) : Nat := cfg.level - 1

/-- The address of a timer object. -/
abbrev TimerId := Nat

/-- `_timer_list` and `_soft_timer_list`. -/
inductive TimerKind
  | hard
  | soft
deriving DecidableEq

/-- The bits of `parent.flag`: `RT_TIMER_FLAG_ACTIVATED`, `_PERIODIC`, `_SOFT_TIMER`. -/
structure TimerFlag where
  activated : Bool
  periodic : Bool
  soft : Bool
deriving DecidableEq

/-- `struct rt_timer` without its nodes, its object header and its callback. `object` says
whether the type of the object is `RT_Object_Class_Timer`. -/
structure Timer where
  object : Bool
  flag : TimerFlag
  timeoutTick : Nat
  initTick : Nat
  /-- The unwrapped time at which the last start runs out. -/
  expiry : Nat
  /-- The number of the last start. -/
  startNo : Nat

/-- The list a timer is started into. -/
def Timer.kind (x : Timer) : TimerKind := if x.flag.soft then .soft else .hard

/-- The file's static variables, the timers, and the state of the checks. -/
structure TimerSys where
  timer : TimerId → Timer
  /-- The rows of `_timer_list` and `_soft_timer_list`. -/
  list : TimerKind → Nat → List TimerId
  /-- The variable `list` of `rt_timer_check` and of `rt_soft_timer_check`. -/
  held : TimerKind → List TimerId
  /-- The timer whose timeout function a check is calling. -/
  running : TimerKind → Option TimerId
  /-- Ticks since the start of the system. -/
  ticks : Nat
  /-- How often `random_nr` was incremented. -/
  starts : Nat

namespace TimerSys

/-- `rt_tick_get`. -/
def rtTickGet (s : TimerSys) : Nat := s.ticks % 2 ^ 32

def setTimer (s : TimerSys) (t : TimerId) (x : Timer) : TimerSys :=
  { s with timer := Function.update s.timer t x }

def setActivated (s : TimerSys) (t : TimerId) (b : Bool) : TimerSys :=
  s.setTimer t { s.timer t with flag := { (s.timer t).flag with activated := b } }

/-- `_timer_remove`: each of the timer's nodes leaves the list it is linked in. -/
def timerRemove (s : TimerSys) (t : TimerId) : TimerSys :=
  { s with
    list := fun k r => (s.list k r).erase t
    held := fun k => (s.held k).erase t }

/-- `rt_list_remove(&(t->row[RT_TIMER_SKIP_LIST_LEVEL - 1]))`. -/
def bottomRemove (cfg : SkipListCfg) (s : TimerSys) (t : TimerId) : TimerSys :=
  { s with
    list := fun k r => if r = cfg.bottom then (s.list k r).erase t else s.list k r
    held := fun k => (s.held k).erase t }

/-- `_timer_remove(timer); timer->parent.flag &= ~RT_TIMER_FLAG_ACTIVATED`. -/
def stopped (s : TimerSys) (t : TimerId) : TimerSys :=
  (s.timerRemove t).setActivated t false

/-- The test on which the search of `rt_timer_start` for the timer `t` stops at a timer `u`. -/
def stopsAt (s : TimerSys) (t u : TimerId) : Bool :=
  let d := Word32.sub (s.timer u).timeoutTick (s.timer t).timeoutTick
  -- two timers that time out together run in the order of their starts
  if d = 0 then false else d < rtTickMax / 2

end TimerSys

/-- `_timer_init`. -/
def timerInit (x : Timer) (time : Nat) (flag : TimerFlag) : Timer :=
  { x with
    object := true
    flag := { flag with activated := false }
    timeoutTick := 0
    initTick := time
    expiry := 0 }

/-- `rt_timer_init` and `rt_timer_create`; `rt_object_init` asserts that the object is not
in use. -/
def rtTimerInit (s : TimerSys) (t : TimerId) (time : Nat) (flag : TimerFlag) :
    Except Fault TimerSys := do
  rtAssert (time < rtTickMax / 2)
  rtAssert ((s.timer t).object = false)
  return s.setTimer t (timerInit (s.timer t) time flag)

/-- `rt_timer_detach` and `rt_timer_delete`. -/
def rtTimerDetach (s : TimerSys) (t : TimerId) : Except Fault TimerSys := do
  rtAssert ((s.timer t).object = true)
  let s := s.stopped t
  return s.setTimer t { s.timer t with object := false }

/-- The loop of `rt_timer_start` over the rows above the bottom, the row `n - 1` next: the
timer goes into row after row until the bits of `random_nr` say otherwise. -/
def linkRows (cfg : SkipListCfg) (head : Nat → Option TimerId) (t : TimerId) :
    Nat → Nat → (Nat → List TimerId) → (Nat → List TimerId)
  | 0, _, rows => rows
  | n + 1, tst, rows =>
    if tst &&& cfg.mask = 0 then
      linkRows cfg head t n (tst >>> ((cfg.mask + 1) >>> 1))
        (Function.update rows n (SkipList.insertAfter (head n) t (rows n)))
    else rows

/-- The rows of a list once `rt_timer_start` has linked the timer `t`. -/
def TimerSys.insertRows (cfg : SkipListCfg) (s : TimerSys) (t : TimerId)
    (rows : Nat → List TimerId) : Nat → List TimerId :=
  let head := SkipList.rowHead (s.stopsAt t) rows
  let bottom := SkipList.insertAfter (head cfg.bottom) t (rows cfg.bottom)
  linkRows cfg head t cfg.bottom ((s.starts + 1) % 2 ^ 32) (Function.update rows cfg.bottom bottom)

/-- `rt_timer_start` up to the search: the timer is stopped and gets its time-out. -/
def timerArm (s : TimerSys) (t : TimerId) : TimerSys :=
  let s := s.stopped t
  let x := s.timer t
  s.setTimer t
    { x with
      timeoutTick := Word32.add s.rtTickGet x.initTick
      expiry := s.ticks + x.initTick
      startNo := s.starts + 1 }

/-- `rt_timer_start` behind its assertion. -/
def timerStart (cfg : SkipListCfg) (s : TimerSys) (t : TimerId) : TimerSys :=
  let s := timerArm s t
  let k := (s.timer t).kind
  { s with
    list := Function.update s.list k (s.insertRows cfg t (s.list k))
    starts := s.starts + 1 }.setActivated t true

/-- `rt_timer_start`. -/
def rtTimerStart (cfg : SkipListCfg) (s : TimerSys) (t : TimerId) : Except Fault TimerSys := do
  rtAssert ((s.timer t).object = true)
  return timerStart cfg s t

/-- `rt_timer_stop`: whether it returns `RT_EOK`, and the state it leaves. -/
def rtTimerStop (s : TimerSys) (t : TimerId) : Except Fault (Bool × TimerSys) := do
  rtAssert ((s.timer t).object = true)
  if (s.timer t).flag.activated then
    return (true, s.stopped t)
  else
    return (false, s)

/-- The commands of `rt_timer_control`, with what their argument holds. -/
inductive TimerCtrl
  | getTime
  | setTime (tick : Nat)
  | setOneshot
  | setPeriodic
  | getState
  | getRemainTime
  | unknown

/-- `rt_timer_control`: the word left in the argument, if the command writes one, and the
state. `RT_TIMER_CTRL_GET_STATE` falls through to the case below it, which overwrites what
it has written. -/
def rtTimerControl (s : TimerSys) (t : TimerId) (cmd : TimerCtrl) :
    Except Fault (Option Nat × TimerSys) := do
  rtAssert ((s.timer t).object = true)
  let x := s.timer t
  match cmd with
  | .getTime => return (some x.initTick, s)
  | .setTime tick =>
    rtAssert (tick < rtTickMax / 2)
    return (none, s.setTimer t { x with initTick := tick })
  | .setOneshot => return (none, s.setTimer t { x with flag := { x.flag with periodic := false } })
  | .setPeriodic => return (none, s.setTimer t { x with flag := { x.flag with periodic := true } })
  | .getState => return (some x.timeoutTick, s)
  | .getRemainTime => return (some x.timeoutTick, s)
  | .unknown => return (none, s)

-- --------
-- The checks
-- --------

/-- The test of the checks: the timer has run out. -/
def TimerSys.isDue (s : TimerSys) (t : TimerId) : Bool :=
  Word32.sub s.rtTickGet (s.timer t).timeoutTick < rtTickMax / 2

/-- A timer that has run out leaves its list; a one-shot timer is deactivated. -/
def TimerSys.fired (s : TimerSys) (t : TimerId) : TimerSys :=
  let s := s.timerRemove t
  if (s.timer t).flag.periodic then s else s.setActivated t false

/-- The timer goes to the variable `list` of the check, which calls its timeout function. -/
def TimerSys.hold (s : TimerSys) (k : TimerKind) (t : TimerId) : TimerSys :=
  { s with
    held := Function.update s.held k (t :: s.held k)
    running := Function.update s.running k (some t) }

/-- The check ends. -/
def TimerSys.leave (s : TimerSys) (k : TimerKind) : TimerSys :=
  { s with running := Function.update s.running k none }

/-- The loop of `rt_timer_check` (`rt_soft_timer_check`) from its head to the call of the next
timeout function or to the end. -/
def checkHead (cfg : SkipListCfg) (s : TimerSys) (k : TimerKind) : TimerSys :=
  match s.list k cfg.bottom with
  | [] => s.leave k
  | t :: _ => if s.isDue t then (s.fired t).hold k t else s.leave k

/-- The loop from the return of the timeout function of `t`. -/
def checkReturn (cfg : SkipListCfg) (s : TimerSys) (k : TimerKind) (t : TimerId) :
    Except Fault TimerSys :=
  -- the timer was detached, stopped or started again
  if s.held k = [] then
    return checkHead cfg s k
  else do
    let s := s.bottomRemove cfg t
    if (s.timer t).flag.periodic ∧ (s.timer t).flag.activated then
      let s ← rtTimerStart cfg (s.setActivated t false) t
      return checkHead cfg s k
    else
      return checkHead cfg s k

-- --------
-- The timers as a transition system
-- --------

/-- What happens to the timers. -/
inductive TimerAct
  /-- The tick counter goes on. -/
  | tick (n : Nat)
  | init (t : TimerId) (time : Nat) (flag : TimerFlag)
  | detach (t : TimerId)
  | start (t : TimerId)
  | stop (t : TimerId)
  /-- The part of `rt_timer_stop` behind its test, which reads the flag before it disables
  interrupts. -/
  | stopLate (t : TimerId)
  | control (t : TimerId) (cmd : TimerCtrl)
  /-- A check begins. -/
  | check (k : TimerKind)
  /-- A timeout function returns to its check. -/
  | ret (k : TimerKind)

/-- The atomic steps. Threads, interrupts and timeout functions may call the interface at any
time; `rt_timer_check` runs inside an interrupt, so `rt_soft_timer_check` waits for it. -/
inductive TimerStep (cfg : SkipListCfg) : TimerSys → TimerAct → TimerSys → Prop
  | tick {s : TimerSys} (n : Nat) : TimerStep cfg s (.tick n) { s with ticks := s.ticks + n }
  | init {s s' : TimerSys} {t : TimerId} {time : Nat} {flag : TimerFlag}
      (h : rtTimerInit s t time flag = .ok s') : TimerStep cfg s (.init t time flag) s'
  | detach {s s' : TimerSys} {t : TimerId} (h : rtTimerDetach s t = .ok s') :
      TimerStep cfg s (.detach t) s'
  | start {s s' : TimerSys} {t : TimerId} (h : rtTimerStart cfg s t = .ok s') :
      TimerStep cfg s (.start t) s'
  | stop {s s' : TimerSys} {t : TimerId} {ok : Bool} (h : rtTimerStop s t = .ok (ok, s')) :
      TimerStep cfg s (.stop t) s'
  | stopLate {s : TimerSys} (t : TimerId) : TimerStep cfg s (.stopLate t) (s.stopped t)
  | control {s s' : TimerSys} {t : TimerId} {cmd : TimerCtrl} {out : Option Nat}
      (h : rtTimerControl s t cmd = .ok (out, s')) : TimerStep cfg s (.control t cmd) s'
  | check {s : TimerSys} {k : TimerKind} (h : s.running k = none)
      (hk : k = .soft → s.running .hard = none) : TimerStep cfg s (.check k) (checkHead cfg s k)
  | ret {s s' : TimerSys} {k : TimerKind} {t : TimerId} (h : s.running k = some t)
      (hk : k = .soft → s.running .hard = none) (hret : checkReturn cfg s k t = .ok s') :
      TimerStep cfg s (.ret k) s'

/-- No timer yet. -/
def TimerSys.initial : TimerSys where
  timer _ := ⟨false, ⟨false, false, false⟩, 0, 0, 0, 0⟩
  list _ _ := []
  held _ := []
  running _ := none
  ticks := 0
  starts := 0

end RTThread
