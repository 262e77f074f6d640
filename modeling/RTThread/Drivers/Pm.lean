import RTThread.Lib.BitSet
import RTThread.Lib.Runs
import RTThread.Lib.Word32

/-!
# Power management (`components/drivers/pm/pm.c`)

The three ways to keep the system awake: `rt_pm_request` counts requests for each mode,
`rt_pm_sleep_request` sets a bit for a module and a mode, and `rt_pm_module_delay_sleep` makes a
module busy for some ticks. `_pm_change_sleep_mode` chooses the least deep mode that they ask for,
and then looks at the time to the next timer.

`pm_sleep_allowed`: the mode that is passed on to `ops->sleep` is one that they allow. It takes
counters that have not been released while saturated, bits set once for each release, callbacks
that ask for nothing less deep once the mode is chosen, and a threshold table that has nothing to
say: `pm_get_sleep_threshold_mode` looks the mode up in the table and returns the one it was given.
-/

namespace RTThread

/-- `PM_LIGHT_THRESHOLD_TIME`, `PM_DEEP_THRESHOLD_TIME` and `PM_STANDBY_THRESHOLD_TIME`. -/
structure PmThreshold where
  lightTime : Nat
  deepTime : Nat
  standbyTime : Nat

/-- The configuration; `threshold` is that of `PM_ENABLE_THRESHOLD_SLEEP_MODE`, `suspend` is
`PM_ENABLE_SUSPEND_SLEEP_MODE`. -/
structure PmConfig where
  moduleMaxId : Nat
  defaultDeepsleep : Nat
  busySleepMode : Nat
  suspendSleepMode : Nat
  ticklessThresholdTime : Nat
  threshold : Option PmThreshold
  suspend : Bool
  defaultDeepsleep_lt : defaultDeepsleep < 6

/-- `struct rt_pm_module`. -/
structure PmModule where
  reqStatus : Bool := false
  busyFlag : Bool := false
  timeout : Nat := 0
  startTime : Nat := 0

/-- `struct rt_pm`, the time in ticks since the start, and whether `_pm_change_sleep_mode` has
chosen a mode and is calling the notify function and the devices. -/
structure Pm where
  modes : Nat → Nat
  sleepMode : Nat
  moduleStatus : Nat → PmModule
  sleepStatus : Nat → Nat → BitVec 32
  timerMask : BitVec 8
  time : Nat
  changing : Bool

/-- What happens next. -/
inductive PmAct
  | request (mode : Nat)
  | release (mode : Nat)
  | moduleRequest (moduleId mode : Nat)
  | moduleRelease (moduleId mode : Nat)
  | sleepRequest (moduleId mode : Nat)
  | sleepRelease (moduleId mode : Nat)
  | moduleDelaySleep (moduleId timeout : Nat)
  | tick (n : Nat)
  /-- `_pm_change_sleep_mode` chooses a mode. -/
  | select
  /-- It goes on to `ops->sleep`: what `pm_timer_next_timeout_tick` returns, the ticks that are left
  to the next timer, and whether all devices were suspended. -/
  | sleep (next remaining : Nat) (suspended : Bool)

namespace Pm

def pmSleepModeNone : Nat := 0
def pmSleepModeIdle : Nat := 1
def pmSleepModeLight : Nat := 2
def pmSleepModeDeep : Nat := 3
def pmSleepModeStandby : Nat := 4
def pmSleepModeShutdown : Nat := 5
def pmSleepModeMax : Nat := 6

variable (cfg : PmConfig) (s : Pm)

/-- `rt_tick_get()`. -/
def rtTickGet : Nat := s.time % 2 ^ 32

/-- After `rt_system_pm_init`. -/
def init (timerMask : BitVec 8) (time : Nat) : Pm where
  modes := fun mode => if mode = pmSleepModeNone then 1 else 0
  sleepMode := pmSleepModeNone
  moduleStatus := fun moduleId => { reqStatus := moduleId = 1 }
  sleepStatus := fun _ _ => 0#32
  timerMask := timerMask
  time := time
  changing := false

/-- `if (pm->modes[mode] < 255) pm->modes[mode] ++`. -/
def count (mode : Nat) : Pm :=
  if s.modes mode < 255 then { s with modes := Function.update s.modes mode (s.modes mode + 1) }
  else s

/-- `if (pm->modes[mode] > 0) pm->modes[mode] --`. -/
def uncount (mode : Nat) : Pm :=
  if s.modes mode > 0 then { s with modes := Function.update s.modes mode (s.modes mode - 1) }
  else s

/-- `rt_pm_request(mode)`. -/
def rtPmRequest (mode : Nat) : Pm :=
  if mode > pmSleepModeMax - 1 then s else s.count mode

/-- `rt_pm_release(mode)`. -/
def rtPmRelease (mode : Nat) : Pm :=
  if mode > pmSleepModeMax - 1 then s else s.uncount mode

/-- The module goes on with the status. -/
def setModule (moduleId : Nat) (m : PmModule) : Pm :=
  { s with moduleStatus := Function.update s.moduleStatus moduleId m }

/-- `rt_pm_module_request(module_id, mode)`. -/
def rtPmModuleRequest (moduleId mode : Nat) : Pm :=
  if mode > pmSleepModeMax - 1 then s
  else if moduleId ≥ cfg.moduleMaxId then s
  else (s.setModule moduleId { s.moduleStatus moduleId with reqStatus := true }).count mode

/-- `rt_pm_module_release(module_id, mode)`. -/
def rtPmModuleRelease (moduleId mode : Nat) : Pm :=
  if mode > pmSleepModeMax - 1 then s
  else if moduleId ≥ cfg.moduleMaxId then s
  else
    let s := s.uncount mode
    if s.modes mode = 0 then
      s.setModule moduleId { s.moduleStatus moduleId with reqStatus := false }
    else s

/-- A word of `sleep_status` changes. -/
def setSleepStatus (mode moduleId : Nat) (f : BitVec 32 → BitVec 32) : Pm :=
  let row := s.sleepStatus mode
  let row := Function.update row (moduleId / 32) (f (row (moduleId / 32)))
  { s with sleepStatus := Function.update s.sleepStatus mode row }

/-- `rt_pm_sleep_request(module_id, mode)`. -/
def rtPmSleepRequest (moduleId mode : Nat) : Pm :=
  if moduleId ≥ cfg.moduleMaxId then s
  else if mode ≥ pmSleepModeMax - 1 then s
  else s.setSleepStatus mode moduleId fun w => w ||| BitSet.mask 32 (moduleId % 32)

/-- `rt_pm_sleep_release(module_id, mode)`. -/
def rtPmSleepRelease (moduleId mode : Nat) : Pm :=
  if moduleId ≥ cfg.moduleMaxId then s
  else if mode ≥ pmSleepModeMax - 1 then s
  else s.setSleepStatus mode moduleId fun w => w &&& ~~~BitSet.mask 32 (moduleId % 32)

/-- `rt_pm_module_delay_sleep(module_id, timeout)`. -/
def rtPmModuleDelaySleep (moduleId timeout : Nat) : Pm :=
  if moduleId ≥ cfg.moduleMaxId then s
  else s.setModule moduleId { s.moduleStatus moduleId with
    busyFlag := true, timeout := timeout % 2 ^ 32, startTime := s.rtTickGet }

/-- `_judge_sleep_mode()`. -/
def judgeSleepMode : Nat :=
  ((List.range (pmSleepModeMax - 1)).find? fun index =>
    (List.range ((cfg.moduleMaxId + 31) / 32)).any fun len => s.sleepStatus index len ≠ 0#32).getD
      pmSleepModeMax

/-- `_pm_select_sleep_mode(pm)`. -/
def selectSleepMode : Nat :=
  let mode := ((List.range pmSleepModeMax).find? fun index => s.modes index ≠ 0).getD
    cfg.defaultDeepsleep
  let requestMode := s.judgeSleepMode cfg
  if requestMode < mode then requestMode else mode

/-- The loop of `_pm_device_check_idle` over the modules: what becomes of them, and whether all are
idle. -/
def deviceCheckIdle (tick : Nat) : List Nat → (Nat → PmModule) → (Nat → PmModule) × Bool
  | [], ms => (ms, true)
  | i :: is, ms =>
    let ms := if (ms i).busyFlag ∧ Word32.sub tick (ms i).startTime > (ms i).timeout then
      Function.update ms i { ms i with busyFlag := false, timeout := 0 } else ms
    if (ms i).busyFlag then (ms, false) else deviceCheckIdle tick is ms

/-- `_pm_change_sleep_mode` up to the mode that is chosen. -/
def select : Pm :=
  let mode := s.selectSleepMode cfg
  let (moduleStatus, idle) :=
    deviceCheckIdle s.rtTickGet (List.range cfg.moduleMaxId) s.moduleStatus
  { s with
    moduleStatus := moduleStatus
    sleepMode := if idle = false ∧ cfg.busySleepMode < mode then cfg.busySleepMode else mode
    changing := true }

/-- The `switch` of `pm_get_sleep_threshold_mode`: what it puts into `sleep_mode`. -/
def thresholdSwitch (t : PmThreshold) (curMode timeoutTick : Nat) : Nat :=
  if curMode = pmSleepModeLight then
    if timeoutTick < t.lightTime then pmSleepModeIdle else curMode
  else if curMode = pmSleepModeDeep then
    if timeoutTick < t.lightTime then pmSleepModeIdle
    else if timeoutTick < t.deepTime then pmSleepModeLight else curMode
  else if curMode = pmSleepModeStandby then
    if timeoutTick < t.lightTime then pmSleepModeIdle
    else if timeoutTick < t.deepTime then pmSleepModeLight
    else if timeoutTick < t.standbyTime then pmSleepModeDeep else curMode
  else curMode

/-- `pm_get_sleep_threshold_mode(cur_mode, timeout_tick)`. -/
def pmGetSleepThresholdMode (curMode timeoutTick : Nat) : Nat :=
  if curMode ≥ pmSleepModeMax then curMode
  else
    match cfg.threshold with
    | some t =>
      -- `sleep_mode` gets a value here, and `cur_mode` is returned
      let _sleepMode := thresholdSwitch t curMode timeoutTick
      curMode
    | none => if timeoutTick < cfg.ticklessThresholdTime then pmSleepModeIdle else curMode

/-- The mode that `_pm_change_sleep_mode` passes to `ops->sleep`. -/
def changeSleepMode (next : Nat) (suspended : Bool) : Nat :=
  if s.sleepMode = pmSleepModeNone then pmSleepModeNone
  else if cfg.suspend ∧ suspended = false then
    if s.sleepMode > cfg.suspendSleepMode then cfg.suspendSleepMode else s.sleepMode
  else if s.timerMask.getLsbD s.sleepMode then
    pmGetSleepThresholdMode cfg s.sleepMode (Word32.sub next s.rtTickGet)
  else s.sleepMode

/-- **A step of the system.** -/
def step (s : Pm) : PmAct → Option Pm
  | .request mode => some (s.rtPmRequest mode)
  | .release mode => some (s.rtPmRelease mode)
  | .moduleRequest moduleId mode => some (s.rtPmModuleRequest cfg moduleId mode)
  | .moduleRelease moduleId mode => some (s.rtPmModuleRelease cfg moduleId mode)
  | .sleepRequest moduleId mode => some (s.rtPmSleepRequest cfg moduleId mode)
  | .sleepRelease moduleId mode => some (s.rtPmSleepRelease cfg moduleId mode)
  | .moduleDelaySleep moduleId timeout => some (s.rtPmModuleDelaySleep cfg moduleId timeout)
  | .tick n => some { s with time := s.time + n }
  | .select => Runs.takeIf (s.changing = false) (s.select cfg)
  | .sleep next _ suspended =>
    Runs.takeIf (s.changing = true)
      { s with sleepMode := s.changeSleepMode cfg next suspended, changing := false }

end Pm

-- --------
-- What is asked for
-- --------

/-- The requests that have not been released yet, by mode for those that are counted and by module
and mode for those with a bit, and the last delay of each module: when it began, how long it is. -/
structure PmAsked where
  requests : Nat → Nat
  sleeps : Nat → Nat → Nat
  delays : Nat → Option (Nat × Nat)

namespace Pm

/-- `rt_system_pm_init` asks for the default mode. -/
def askedInit : PmAsked where
  requests := fun mode => if mode = pmSleepModeNone then 1 else 0
  sleeps := fun _ _ => 0
  delays := fun _ => none

/-- So many requests for the mode, and by the module for the mode. -/
def setRequests (o : PmAsked) (mode k : Nat) : PmAsked :=
  { o with requests := Function.update o.requests mode k }

def setSleeps (o : PmAsked) (moduleId mode k : Nat) : PmAsked :=
  let row := Function.update (o.sleeps moduleId) mode k
  { o with sleeps := Function.update o.sleeps moduleId row }

/-- A call whose arguments are valid is counted. -/
def ask (cfg : PmConfig) (o : PmAsked) (s : Pm) : PmAct → PmAsked
  | .request mode =>
    if mode < pmSleepModeMax then
      setRequests o mode (o.requests mode + 1)
    else o
  | .release mode =>
    if mode < pmSleepModeMax then
      setRequests o mode (o.requests mode - 1)
    else o
  | .moduleRequest moduleId mode =>
    if mode < pmSleepModeMax ∧ moduleId < cfg.moduleMaxId then
      setRequests o mode (o.requests mode + 1)
    else o
  | .moduleRelease moduleId mode =>
    if mode < pmSleepModeMax ∧ moduleId < cfg.moduleMaxId then
      setRequests o mode (o.requests mode - 1)
    else o
  | .sleepRequest moduleId mode =>
    if mode < pmSleepModeMax ∧ moduleId < cfg.moduleMaxId then
      setSleeps o moduleId mode (o.sleeps moduleId mode + 1)
    else o
  | .sleepRelease moduleId mode =>
    if mode < pmSleepModeMax ∧ moduleId < cfg.moduleMaxId then
      setSleeps o moduleId mode (o.sleeps moduleId mode - 1)
    else o
  | .moduleDelaySleep moduleId timeout =>
    if moduleId < cfg.moduleMaxId then
      { o with delays := Function.update o.delays moduleId (some (s.time, timeout % 2 ^ 32)) }
    else o
  | .tick _ | .select | .sleep _ _ _ => o

/-- The mode has an outstanding request. -/
def Outstanding (o : PmAsked) (mode : Nat) : Prop :=
  0 < o.requests mode ∨ ∃ moduleId, 0 < o.sleeps moduleId mode

/-- A delay is running. -/
def Delayed (o : PmAsked) (time : Nat) : Prop :=
  ∃ moduleId, ∃ d ∈ o.delays moduleId, time - d.1 ≤ d.2

/-- **Releases match requests.** -/
def Matches (o : PmAsked) : PmAct → Prop
  | .release mode | .moduleRelease _ mode => 0 < o.requests mode
  | .sleepRelease moduleId mode => 0 < o.sleeps moduleId mode
  | _ => True

/-- **The steps that go well.** A counter is released while it has not been exceeded, a bit while
there is one request for it; a callback asks for nothing less deep than what has been chosen; and
the table has nothing against the mode, or a device has not been suspended. -/
def Fits (cfg : PmConfig) (o : PmAsked) (s : Pm) : PmAct → Prop
  | .release mode | .moduleRelease _ mode => o.requests mode ≤ 255
  | .sleepRelease moduleId mode => o.sleeps moduleId mode = 1
  | .request mode | .moduleRequest _ mode | .sleepRequest _ mode =>
    s.changing = true → s.sleepMode ≤ mode
  | .moduleDelaySleep _ _ => s.changing = true → s.sleepMode ≤ cfg.busySleepMode
  | .sleep _ remaining suspended =>
    ∀ t ∈ cfg.threshold, thresholdSwitch t s.sleepMode remaining = s.sleepMode ∨
      (cfg.suspend = true ∧ suspended = false ∧
        cfg.suspendSleepMode ≤ thresholdSwitch t s.sleepMode remaining)
  | .tick _ | .select => True

instance (o : PmAsked) : ∀ a, Decidable (Matches o a)
  | .release _ | .moduleRelease _ _ | .sleepRelease _ _ => Nat.decLt _ _
  | .request _ | .moduleRequest _ _ | .sleepRequest _ _ | .moduleDelaySleep _ _ | .tick _ | .select
  | .sleep _ _ _ => isTrue trivial

instance (cfg : PmConfig) (o : PmAsked) (s : Pm) : ∀ a, Decidable (Fits cfg o s a)
  | .release _ | .moduleRelease _ _ => Nat.decLe _ _
  | .sleepRelease _ _ => Nat.decEq _ _
  | .request _ | .moduleRequest _ _ | .sleepRequest _ _ | .moduleDelaySleep _ _ =>
    inferInstanceAs (Decidable (_ → _))
  | .sleep _ _ _ => inferInstanceAs (Decidable (∀ t ∈ cfg.threshold, _ ∨ _))
  | .tick _ | .select => isTrue trivial

/-- The state holds what is asked for. -/
structure Holds (cfg : PmConfig) (o : PmAsked) (s : Pm) : Prop where
  modes : ∀ mode < pmSleepModeMax, s.modes mode = min 255 (o.requests mode)
  requests : ∀ mode, 0 < o.requests mode → mode < pmSleepModeMax
  bits : ∀ mode < pmSleepModeMax - 1, ∀ moduleId,
    (s.sleepStatus mode (moduleId / 32)).getLsbD (moduleId % 32) = true ↔
      0 < o.sleeps moduleId mode
  sleeps : ∀ moduleId mode, 0 < o.sleeps moduleId mode →
    mode < pmSleepModeMax ∧ moduleId < cfg.moduleMaxId
  delays : ∀ moduleId, ∀ d ∈ o.delays moduleId, moduleId < cfg.moduleMaxId ∧ d.1 ≤ s.time ∧
    d.2 < 2 ^ 32 ∧ (s.time - d.1 ≤ d.2 → (s.moduleStatus moduleId).busyFlag = true ∧
      (s.moduleStatus moduleId).startTime = d.1 % 2 ^ 32 ∧
      (s.moduleStatus moduleId).timeout = d.2)

/-- The mode that has been chosen is allowed. -/
structure Chosen (cfg : PmConfig) (o : PmAsked) (s : Pm) : Prop where
  outstanding : ∀ mode, Outstanding o mode → s.sleepMode ≤ mode
  delayed : Delayed o s.time → s.sleepMode ≤ cfg.busySleepMode

section Requests

variable {cfg : PmConfig} {o : PmAsked} {s s' : Pm} {mode moduleId timeout : Nat} {a : PmAct}

/-- Only the default mode is asked for at the start. -/
theorem Holds.init (cfg : PmConfig) (timerMask : BitVec 8) (time : Nat) :
    Holds cfg askedInit (Pm.init timerMask time) where
  modes mode _ := by
    show (if mode = pmSleepModeNone then 1 else 0) = _
    simp only [askedInit]
    split <;> rfl
  requests mode h := by
    simp only [askedInit] at h
    split at h
    · rename_i hzero
      rw [hzero]
      decide
    · omega
  bits mode _ moduleId := by
    simp [Pm.init, askedInit]
  sleeps moduleId mode h := absurd h (Nat.lt_irrefl 0)
  delays moduleId d h := nomatch h

/-- A counter changes. -/
theorem Holds.setModes {k n : Nat} (h : Holds cfg o s) (hmode : mode < pmSleepModeMax)
    (hn : n = min 255 k) :
    Holds cfg (setRequests o mode k) { s with modes := Function.update s.modes mode n } where
  modes m hm := by
    show Function.update s.modes mode n m = min 255 (Function.update o.requests mode k m)
    rcases eq_or_ne m mode with rfl | hne
    · rw [Function.update_self, Function.update_self, hn]
    · rw [Function.update_of_ne hne, Function.update_of_ne hne]
      exact h.modes m hm
  requests m hm := by
    have hm : 0 < Function.update o.requests mode k m := hm
    rcases eq_or_ne m mode with rfl | hne
    · exact hmode
    · rw [Function.update_of_ne hne] at hm
      exact h.requests m hm
  bits := h.bits
  sleeps := h.sleeps
  delays := h.delays

theorem Holds.count (h : Holds cfg o s) (hmode : mode < pmSleepModeMax) :
    Holds cfg (setRequests o mode (o.requests mode + 1)) (s.count mode) := by
  have hm := h.modes mode hmode
  unfold Pm.count
  split
  · exact h.setModes hmode (by omega)
  · have hsame := @Holds.setModes cfg o s mode (o.requests mode + 1) (s.modes mode) h hmode
      (by omega)
    rwa [Function.update_eq_self] at hsame

theorem Holds.uncount (h : Holds cfg o s) (hmode : mode < pmSleepModeMax)
    (hmatch : 0 < o.requests mode) (hfit : o.requests mode ≤ 255) :
    Holds cfg (setRequests o mode (o.requests mode - 1)) (s.uncount mode) := by
  have hm := h.modes mode hmode
  rw [Pm.uncount, if_pos (by omega)]
  exact h.setModes hmode (by omega)

/-- `req_status` changes. -/
theorem Holds.setReqStatus {b : Bool} (h : Holds cfg o s) :
    Holds cfg o (s.setModule moduleId { s.moduleStatus moduleId with reqStatus := b }) where
  modes := h.modes
  requests := h.requests
  bits := h.bits
  sleeps := h.sleeps
  delays i d hd := by
    obtain ⟨hlt, hle, hlen, hbusy⟩ := h.delays i d hd
    refine ⟨hlt, hle, hlen, fun hrun => ?_⟩
    show (Function.update s.moduleStatus moduleId _ i).busyFlag = true ∧
      (Function.update s.moduleStatus moduleId _ i).startTime = _ ∧
      (Function.update s.moduleStatus moduleId _ i).timeout = _
    rcases eq_or_ne i moduleId with rfl | hne
    · rw [Function.update_self]
      exact hbusy hrun
    · rw [Function.update_of_ne hne]
      exact hbusy hrun

theorem setSleeps_pos {i m k : Nat} (h : 0 < (setSleeps o moduleId mode k).sleeps i m) :
    (i = moduleId ∧ m = mode) ∨ 0 < o.sleeps i m := by
  have h : 0 < Function.update o.sleeps moduleId
      (Function.update (o.sleeps moduleId) mode k) i m := h
  rcases eq_or_ne i moduleId with rfl | hi
  · rw [Function.update_self] at h
    rcases eq_or_ne m mode with rfl | hne
    · exact .inl ⟨rfl, rfl⟩
    · rw [Function.update_of_ne hne] at h
      exact .inr h
  · rw [Function.update_of_ne hi] at h
    exact .inr h

/-- A bit changes. -/
theorem Holds.setBit {k : Nat} {f : BitVec 32 → BitVec 32} (h : Holds cfg o s)
    (hmode : mode < pmSleepModeMax) (hmodule : moduleId < cfg.moduleMaxId)
    (hf : ∀ w j, (f w).getLsbD j = true ↔
      if j = moduleId % 32 then 0 < k else w.getLsbD j = true) :
    Holds cfg (setSleeps o moduleId mode k) (s.setSleepStatus mode moduleId f) where
  modes := h.modes
  requests := h.requests
  bits m hm i := by
    show (Function.update s.sleepStatus mode (Function.update (s.sleepStatus mode) (moduleId / 32)
      (f (s.sleepStatus mode (moduleId / 32)))) m (i / 32)).getLsbD (i % 32) = true ↔
      0 < Function.update o.sleeps moduleId (Function.update (o.sleeps moduleId) mode k) i m
    have hbits := h.bits m hm i
    rcases eq_or_ne m mode with rfl | hne
    · rw [Function.update_self]
      by_cases hword : i / 32 = moduleId / 32
      · rw [hword, Function.update_self, hf]
        rw [hword] at hbits
        rcases eq_or_ne i moduleId with rfl | hi
        · rw [if_pos rfl, Function.update_self, Function.update_self]
        · rw [if_neg (by omega), Function.update_of_ne hi]
          exact hbits
      · have hi : i ≠ moduleId := by rintro rfl; exact hword rfl
        rw [Function.update_of_ne hword, Function.update_of_ne hi]
        exact hbits
    · rw [Function.update_of_ne hne]
      rcases eq_or_ne i moduleId with rfl | hi
      · rw [Function.update_self, Function.update_of_ne hne]
        exact hbits
      · rw [Function.update_of_ne hi]
        exact hbits
  sleeps i m hpos := by
    rcases setSleeps_pos hpos with ⟨rfl, rfl⟩ | hpos
    · exact ⟨hmode, hmodule⟩
    · exact h.sleeps i m hpos
  delays := h.delays

/-- `PM_SLEEP_MODE_SHUTDOWN` has no bits. -/
theorem Holds.setShutdown {k : Nat} (h : Holds cfg o s) (hmodule : moduleId < cfg.moduleMaxId) :
    Holds cfg (setSleeps o moduleId pmSleepModeShutdown k) s where
  modes := h.modes
  requests := h.requests
  bits m hm i := by
    have hne : m ≠ pmSleepModeShutdown := by
      rintro rfl
      exact absurd hm (by decide)
    show _ ↔ 0 < Function.update o.sleeps moduleId _ i m
    rcases eq_or_ne i moduleId with rfl | hi
    · rw [Function.update_self, Function.update_of_ne hne]
      exact h.bits m hm i
    · rw [Function.update_of_ne hi]
      exact h.bits m hm i
  sleeps i m hpos := by
    rcases setSleeps_pos hpos with ⟨rfl, rfl⟩ | hpos
    · exact ⟨by decide, hmodule⟩
    · exact h.sleeps i m hpos
  delays := h.delays

/-- A delay begins. -/
theorem Holds.setDelay (h : Holds cfg o s) (hmodule : moduleId < cfg.moduleMaxId) :
    Holds cfg
      { o with delays := Function.update o.delays moduleId (some (s.time, timeout % 2 ^ 32)) }
      (s.setModule moduleId { s.moduleStatus moduleId with
        busyFlag := true, timeout := timeout % 2 ^ 32, startTime := s.rtTickGet }) where
  modes := h.modes
  requests := h.requests
  bits := h.bits
  sleeps := h.sleeps
  delays i d hd := by
    show _ ∧ _ ∧ _ ∧ (_ → (Function.update s.moduleStatus moduleId _ i).busyFlag = true ∧
      (Function.update s.moduleStatus moduleId _ i).startTime = _ ∧
      (Function.update s.moduleStatus moduleId _ i).timeout = _)
    have hd : Function.update o.delays moduleId (some (s.time, timeout % 2 ^ 32)) i = some d := hd
    rcases eq_or_ne i moduleId with rfl | hne
    · rw [Function.update_self] at hd ⊢
      cases hd
      exact ⟨hmodule, le_rfl, Nat.mod_lt _ (by decide), fun _ => ⟨rfl, rfl, rfl⟩⟩
    · rw [Function.update_of_ne hne] at hd ⊢
      exact h.delays i d hd

end Requests

-- --------
-- The mode that is chosen
-- --------

section Chosen

variable {cfg : PmConfig} {o : PmAsked} {s s' : Pm} {mode next remaining : Nat} {suspended : Bool}

theorem find_range_le {p : Nat → Bool} {n i : Nat} (hi : i < n) (hp : p i = true) :
    ∃ j, (List.range n).find? p = some j ∧ j ≤ i := by
  have hsome : ((List.range n).find? p).isSome :=
    List.find?_isSome.mpr ⟨i, List.mem_range.mpr hi, hp⟩
  obtain ⟨j, hj⟩ := Option.isSome_iff_exists.mp hsome
  refine ⟨j, hj, Nat.le_of_not_lt fun hlt => ?_⟩
  have hbefore := (List.find?_range_eq_some.mp hj).2.2 i hlt
  rw [hp] at hbefore
  cases hbefore

/-- `_pm_select_sleep_mode` finds the counters and the bits. -/
theorem Holds.selectSleepMode_le (h : Holds cfg o s) (hout : Outstanding o mode) :
    s.selectSleepMode cfg ≤ mode := by
  have hmin : ∀ {a b : Nat}, (if a < b then a else b) ≤ a ∧ (if a < b then a else b) ≤ b := by
    intro a b
    split <;> omega
  rcases hout with hreq | ⟨moduleId, hsleep⟩
  · have hmode := h.requests mode hreq
    have hcount : decide (s.modes mode ≠ 0) = true := by
      rw [decide_eq_true_eq, h.modes mode hmode]
      omega
    obtain ⟨j, hj, hle⟩ := @find_range_le (fun index => s.modes index ≠ 0) _ _ hmode hcount
    refine hmin.2.trans ?_
    rw [hj]
    exact hle
  · obtain ⟨hmode, hmodule⟩ := h.sleeps moduleId mode hsleep
    rcases Nat.lt_or_ge mode (pmSleepModeMax - 1) with hlt | hge
    · have hbit := (h.bits mode hlt moduleId).mpr hsleep
      have hword : decide (s.sleepStatus mode (moduleId / 32) ≠ 0#32) = true :=
        decide_eq_true ((BitSet.ne_zero_iff _).mpr ⟨_, hbit⟩)
      have hany : ((List.range ((cfg.moduleMaxId + 31) / 32)).any fun len =>
          s.sleepStatus mode len ≠ 0#32) = true :=
        List.any_eq_true.mpr ⟨moduleId / 32, List.mem_range.mpr (by omega), hword⟩
      obtain ⟨j, hj, hle⟩ := @find_range_le
        (fun index => (List.range ((cfg.moduleMaxId + 31) / 32)).any fun len =>
          s.sleepStatus index len ≠ 0#32) _ _ hlt hany
      refine hmin.1.trans ?_
      rw [judgeSleepMode, hj]
      exact hle
    · -- nothing is deeper than the last mode
      refine hmin.2.trans ?_
      cases hfind : (List.range pmSleepModeMax).find? fun index => s.modes index ≠ 0 with
      | none =>
        have := cfg.defaultDeepsleep_lt
        unfold pmSleepModeMax at hge
        rw [Option.getD_none]
        omega
      | some j =>
        have := List.mem_range.mp (List.mem_of_find?_eq_some hfind)
        rw [Option.getD_some]
        omega

/-- **The loop over the modules** leaves those that are busy, and finds them. -/
theorem deviceCheckIdle_spec {tick : Nat} (is : List Nat) : ∀ ms : Nat → PmModule,
    (∀ i, (ms i).busyFlag = true → Word32.sub tick (ms i).startTime ≤ (ms i).timeout →
      (deviceCheckIdle tick is ms).1 i = ms i) ∧
    ((deviceCheckIdle tick is ms).2 = true → ∀ i ∈ is, (ms i).busyFlag = true →
      ¬ Word32.sub tick (ms i).startTime ≤ (ms i).timeout) := by
  induction is with
  | nil => exact fun ms => ⟨fun _ _ _ => rfl, fun _ i hi => nomatch hi⟩
  | cons k is ih =>
    intro ms
    rw [deviceCheckIdle]
    dsimp only
    by_cases hover : (ms k).busyFlag = true ∧ Word32.sub tick (ms k).startTime > (ms k).timeout
    · -- the delay is over
      rw [if_pos hover, if_neg (by rw [Function.update_self]; simp)]
      obtain ⟨hkeep, hidle⟩ := ih (Function.update ms k
        { ms k with busyFlag := false, timeout := 0 })
      have hother : ∀ i, Word32.sub tick (ms i).startTime ≤ (ms i).timeout →
          Function.update ms k { ms k with busyFlag := false, timeout := 0 } i = ms i := by
        intro i hrun
        refine Function.update_of_ne ?_ _ _
        rintro rfl
        omega
      refine ⟨fun i hbusy hrun => ?_, fun hall i hi hbusy hrun => ?_⟩
      · have hi := hother i hrun
        rw [hkeep i (hi ▸ hbusy) (hi ▸ hrun), hi]
      · have hi' := hother i hrun
        rcases List.mem_cons.mp hi with rfl | hi
        · omega
        · exact hidle hall i hi (hi' ▸ hbusy) (hi' ▸ hrun)
    · rw [if_neg hover]
      by_cases hbusy : (ms k).busyFlag = true
      · rw [if_pos hbusy]
        exact ⟨fun _ _ _ => rfl, nofun⟩
      · rw [if_neg hbusy]
        obtain ⟨hkeep, hidle⟩ := ih ms
        refine ⟨hkeep, fun hall i hi hbusy' => ?_⟩
        rcases List.mem_cons.mp hi with rfl | hi
        · exact absurd hbusy' hbusy
        · exact hidle hall i hi hbusy'

theorem Holds.running (h : Holds cfg o s) {moduleId : Nat} {d : Nat × Nat}
    (hd : d ∈ o.delays moduleId) (hrun : s.time - d.1 ≤ d.2) :
    moduleId < cfg.moduleMaxId ∧ (s.moduleStatus moduleId).busyFlag = true ∧
      Word32.sub s.rtTickGet (s.moduleStatus moduleId).startTime ≤
        (s.moduleStatus moduleId).timeout := by
  obtain ⟨hlt, hle, hlen, hbusy⟩ := h.delays moduleId d hd
  obtain ⟨hflag, hstart, htime⟩ := hbusy hrun
  refine ⟨hlt, hflag, ?_⟩
  rw [hstart, htime, rtTickGet, Word32.sub]
  omega

/-- **The choice.** -/
theorem Holds.select (h : Holds cfg o s) :
    Holds cfg o (s.select cfg) ∧ Chosen cfg o (s.select cfg) := by
  obtain ⟨hkeep, hidle⟩ := @deviceCheckIdle_spec s.rtTickGet (List.range cfg.moduleMaxId)
    s.moduleStatus
  constructor
  · exact {
      modes := h.modes, requests := h.requests, bits := h.bits, sleeps := h.sleeps
      delays := fun i d hd => by
        obtain ⟨hlt, hle, hlen, hbusy⟩ := h.delays i d hd
        refine ⟨hlt, hle, hlen, fun hrun => ?_⟩
        obtain ⟨-, hflag, hsub⟩ := h.running hd hrun
        have heq : (s.select cfg).moduleStatus i = s.moduleStatus i := hkeep i hflag hsub
        rw [heq]
        exact hbusy hrun }
  · have hmode : (s.select cfg).sleepMode ≤ s.selectSleepMode cfg := by
      show (if _ then _ else _) ≤ _
      split
      · rename_i hlt
        exact hlt.2.le
      · exact le_rfl
    refine ⟨fun mode hout => hmode.trans (h.selectSleepMode_le hout), ?_⟩
    rintro ⟨moduleId, d, hd, hrun⟩
    obtain ⟨hlt, hflag, hsub⟩ := h.running hd hrun
    have hbusy : (deviceCheckIdle s.rtTickGet (List.range cfg.moduleMaxId) s.moduleStatus).2 =
        false := by
      rw [← Bool.not_eq_true]
      exact fun hall => hidle hall moduleId (List.mem_range.mpr hlt) hflag hsub
    show (if _ then _ else _) ≤ _
    rw [hbusy]
    split
    · exact le_rfl
    · rename_i hno
      exact Nat.le_of_not_lt fun hlt' => hno ⟨rfl, hlt'⟩

/-- What is left to do after the choice does not go deeper. -/
theorem changeSleepMode_le : s.changeSleepMode cfg next suspended ≤ s.sleepMode := by
  unfold changeSleepMode pmGetSleepThresholdMode
  split
  · exact Nat.zero_le _
  rename_i hnone
  split
  · split <;> omega
  split
  · split
    · exact le_rfl
    · split
      · exact le_rfl
      · split
        · unfold pmSleepModeNone at hnone
          unfold pmSleepModeIdle
          omega
        · exact le_rfl
  · exact le_rfl

theorem changeSleepMode_le_suspend (hsuspend : cfg.suspend = true) (hfail : suspended = false) :
    s.changeSleepMode cfg next suspended ≤ cfg.suspendSleepMode := by
  unfold changeSleepMode
  split
  · exact Nat.zero_le _
  rw [if_pos ⟨hsuspend, hfail⟩]
  split <;> omega

end Chosen

-- --------
-- Runs
-- --------

/-- What the steps keep. -/
structure PmInv (cfg : PmConfig) (o : PmAsked) (s : Pm) : Prop where
  holds : Holds cfg o s
  chosen : s.changing = true → Chosen cfg o s

/-- A call does not touch the mode that has been chosen. -/
structure Asks (s s' : Pm) : Prop where
  sleepMode : s'.sleepMode = s.sleepMode
  changing : s'.changing = s.changing
  time : s'.time = s.time

section Steps

variable {cfg : PmConfig} {o o' : PmAsked} {s s' : Pm} {mode moduleId timeout : Nat} {a : PmAct}

theorem Asks.count : Asks s (s.count mode) := by
  unfold Pm.count
  split <;> exact ⟨rfl, rfl, rfl⟩

theorem Asks.uncount : Asks s (s.uncount mode) := by
  unfold Pm.uncount
  split <;> exact ⟨rfl, rfl, rfl⟩

/-- **A call** keeps what has been chosen, if what it asks for anew is not less deep. -/
theorem PmInv.ask (h : PmInv cfg o s) (hasks : Asks s s') (hholds : Holds cfg o' s')
    (hout : ∀ m, Outstanding o' m → Outstanding o m ∨ (s.changing = true → s.sleepMode ≤ m))
    (hdelay : Delayed o' s.time → Delayed o s.time ∨
      (s.changing = true → s.sleepMode ≤ cfg.busySleepMode)) : PmInv cfg o' s' where
  holds := hholds
  chosen hch := by
    rw [hasks.changing] at hch
    have hold := h.chosen hch
    constructor
    · intro m hm
      rw [hasks.sleepMode]
      exact (hout m hm).elim (hold.outstanding m) fun hnew => hnew hch
    · intro hd
      rw [hasks.time] at hd
      rw [hasks.sleepMode]
      exact (hdelay hd).elim hold.delayed fun hnew => hnew hch

theorem outstanding_setRequests {k m : Nat} (h : Outstanding (setRequests o mode k) m) :
    Outstanding o m ∨ (m = mode ∧ 0 < k) := by
  rcases h with hreq | hsleep
  · have hreq : 0 < Function.update o.requests mode k m := hreq
    rcases eq_or_ne m mode with rfl | hne
    · rw [Function.update_self] at hreq
      exact .inr ⟨rfl, hreq⟩
    · rw [Function.update_of_ne hne] at hreq
      exact .inl (.inl hreq)
  · exact .inl (.inr hsleep)

theorem outstanding_setSleeps {k m : Nat} (h : Outstanding (setSleeps o moduleId mode k) m) :
    Outstanding o m ∨ m = mode := by
  rcases h with hreq | ⟨i, hsleep⟩
  · exact .inl (.inl hreq)
  · rcases setSleeps_pos hsleep with ⟨-, rfl⟩ | hpos
    · exact .inr rfl
    · exact .inl (.inr ⟨i, hpos⟩)

theorem PmInv.count (h : PmInv cfg o s) (hmode : mode < pmSleepModeMax)
    (hfit : s.changing = true → s.sleepMode ≤ mode) :
    PmInv cfg (setRequests o mode (o.requests mode + 1)) (s.count mode) := by
  refine h.ask .count (h.holds.count hmode) (fun m hm => ?_) .inl
  rcases outstanding_setRequests hm with hold | ⟨rfl, -⟩
  · exact .inl hold
  · exact .inr hfit

theorem PmInv.uncount (h : PmInv cfg o s) (hmode : mode < pmSleepModeMax)
    (hmatch : 0 < o.requests mode) (hfit : o.requests mode ≤ 255) :
    PmInv cfg (setRequests o mode (o.requests mode - 1)) (s.uncount mode) := by
  refine h.ask .uncount (h.holds.uncount hmode hmatch hfit) (fun m hm => ?_) .inl
  rcases outstanding_setRequests hm with hold | ⟨rfl, -⟩
  · exact .inl hold
  · exact .inl (.inl hmatch)

theorem PmInv.setReqStatus {b : Bool} (h : PmInv cfg o s) :
    PmInv cfg o (s.setModule moduleId { s.moduleStatus moduleId with reqStatus := b }) :=
  h.ask ⟨rfl, rfl, rfl⟩ h.holds.setReqStatus (fun _ => .inl) .inl

/-- A bit that is set or taken away. -/
theorem PmInv.setBit {k : Nat} {f : BitVec 32 → BitVec 32} (h : PmInv cfg o s)
    (hmode : mode < pmSleepModeMax) (hmodule : moduleId < cfg.moduleMaxId)
    (hf : ∀ w j, (f w).getLsbD j = true ↔
      if j = moduleId % 32 then 0 < k else w.getLsbD j = true)
    (hout : Outstanding (setSleeps o moduleId mode k) mode →
      Outstanding o mode ∨ (s.changing = true → s.sleepMode ≤ mode)) :
    PmInv cfg (setSleeps o moduleId mode k)
      (if mode ≥ pmSleepModeMax - 1 then s else s.setSleepStatus mode moduleId f) := by
  have hout' : ∀ m, Outstanding (setSleeps o moduleId mode k) m →
      Outstanding o m ∨ (s.changing = true → s.sleepMode ≤ m) := by
    intro m hm
    rcases outstanding_setSleeps hm with hold | rfl
    · exact .inl hold
    · exact hout hm
  split
  · -- the deepest mode
    rename_i hge
    have hlast : mode = pmSleepModeShutdown := by
      unfold pmSleepModeMax at hge hmode
      unfold pmSleepModeShutdown
      omega
    subst hlast
    exact h.ask ⟨rfl, rfl, rfl⟩ (h.holds.setShutdown hmodule) hout' .inl
  · exact h.ask ⟨rfl, rfl, rfl⟩ (h.holds.setBit hmode hmodule hf) hout' .inl

/-- **A step.** -/
theorem PmInv.step (h : PmInv cfg o s) (hmatch : Matches o a) (hfit : Fits cfg o s a)
    (hstep : s.step cfg a = some s') : PmInv cfg (Pm.ask cfg o s a) s' := by
  -- the guard of a mode, as the source has it and as the observer has it
  have hguard : ∀ {m : Nat}, m > pmSleepModeMax - 1 ↔ ¬ m < pmSleepModeMax := by
    intro m
    unfold pmSleepModeMax
    omega
  cases a with
  | request mode =>
    cases hstep
    simp only [rtPmRequest, Pm.ask, hguard, ite_not]
    split
    case isTrue hmode => exact h.count hmode hfit
    case isFalse => exact h
  | release mode =>
    cases hstep
    have hmode := h.holds.requests mode hmatch
    simp only [rtPmRelease, Pm.ask, hguard, hmode, not_true_eq_false, if_true, if_false]
    exact h.uncount hmode hmatch hfit
  | moduleRequest moduleId mode =>
    cases hstep
    simp only [rtPmModuleRequest, Pm.ask, hguard, ite_not]
    by_cases hmode : mode < pmSleepModeMax
    · by_cases hmodule : moduleId < cfg.moduleMaxId
      · rw [if_pos ⟨hmode, hmodule⟩, if_pos hmode, if_neg (by omega)]
        exact h.setReqStatus.count hmode hfit
      · rw [if_neg fun hv => hmodule hv.2, if_pos hmode, if_pos (by omega)]
        exact h
    · rw [if_neg fun hv => hmode hv.1, if_neg hmode]
      exact h
  | moduleRelease moduleId mode =>
    cases hstep
    have hmode := h.holds.requests mode hmatch
    simp only [rtPmModuleRelease, Pm.ask, hguard, ite_not]
    by_cases hmodule : moduleId < cfg.moduleMaxId
    · rw [if_pos ⟨hmode, hmodule⟩, if_pos hmode, if_neg (by omega)]
      split
      · exact (h.uncount hmode hmatch hfit).setReqStatus
      · exact h.uncount hmode hmatch hfit
    · rw [if_neg fun hv => hmodule hv.2, if_pos hmode, if_pos (by omega)]
      exact h
  | sleepRequest moduleId mode =>
    cases hstep
    simp only [rtPmSleepRequest, Pm.ask]
    by_cases hmodule : moduleId < cfg.moduleMaxId
    · by_cases hmode : mode < pmSleepModeMax
      · rw [if_pos ⟨hmode, hmodule⟩, if_neg (by omega)]
        refine h.setBit hmode hmodule (fun w j => ?_) fun _ => .inr hfit
        rw [BitSet.getLsbD_insert _ (Nat.mod_lt _ (by decide))]
        by_cases hj : j = moduleId % 32
        · simp [hj]
        · simp [hj]
      · have hge : mode ≥ pmSleepModeMax - 1 := by omega
        rw [if_neg fun hv => hmode hv.1, if_neg (by omega), if_pos hge]
        exact h
    · rw [if_neg fun hv => hmodule hv.2, if_pos (by omega)]
      exact h
  | sleepRelease moduleId mode =>
    cases hstep
    obtain ⟨hmode, hmodule⟩ := h.holds.sleeps moduleId mode hmatch
    have hone : o.sleeps moduleId mode = 1 := hfit
    simp only [rtPmSleepRelease, Pm.ask]
    rw [if_pos ⟨hmode, hmodule⟩, if_neg (by omega)]
    refine h.setBit hmode hmodule (fun w j => ?_) fun _ => .inl (.inr ⟨moduleId, hmatch⟩)
    rw [BitSet.getLsbD_erase _ (Nat.mod_lt _ (by decide)), hone]
    by_cases hj : j = moduleId % 32
    · simp [hj]
    · simp [hj]
  | moduleDelaySleep moduleId timeout =>
    cases hstep
    simp only [rtPmModuleDelaySleep, Pm.ask]
    by_cases hmodule : moduleId < cfg.moduleMaxId
    · rw [if_pos hmodule, if_neg (by omega)]
      exact h.ask ⟨rfl, rfl, rfl⟩ (h.holds.setDelay hmodule) (fun _ => .inl) fun _ => .inr hfit
    · rw [if_neg hmodule, if_pos (by omega)]
      exact h
  | tick n =>
    cases hstep
    have hless : ∀ {d : Nat × Nat}, s.time + n - d.1 ≤ d.2 → s.time - d.1 ≤ d.2 := by
      intro d hd
      omega
    refine ⟨⟨h.holds.modes, h.holds.requests, h.holds.bits, h.holds.sleeps, fun i d hd => ?_⟩,
      fun hch => ⟨(h.chosen hch).outstanding, fun ⟨i, d, hd, hrun⟩ => ?_⟩⟩
    · obtain ⟨hlt, hle, hlen, hbusy⟩ := h.holds.delays i d hd
      exact ⟨hlt, hle.trans (Nat.le_add_right _ _), hlen, fun hrun => hbusy (hless hrun)⟩
    · exact (h.chosen hch).delayed ⟨i, d, hd, hless hrun⟩
  | select =>
    obtain ⟨-, rfl⟩ := Runs.takeIf_eq_some.mp hstep
    exact ⟨h.holds.select.1, fun _ => h.holds.select.2⟩
  | sleep next remaining suspended =>
    obtain ⟨-, rfl⟩ := Runs.takeIf_eq_some.mp hstep
    exact ⟨⟨h.holds.modes, h.holds.requests, h.holds.bits, h.holds.sleeps, h.holds.delays⟩, nofun⟩

end Steps

/-- The system with what is asked for. -/
abbrev PmRuns (cfg : PmConfig) (timerMask : BitVec 8) (time : Nat)
    (Ok : Pm × PmAsked → PmAct → Prop) (q : Pm × PmAsked) : Prop :=
  Runs (Runs.Observed (Runs.Exec (step cfg)) (ask cfg)) Ok (init timerMask time, askedInit) q

/-- A step of a run whose releases match, and which goes well. -/
def Good (cfg : PmConfig) (q : Pm × PmAsked) (a : PmAct) : Prop :=
  Matches q.2 a ∧ Fits cfg q.2 q.1 a

instance (cfg : PmConfig) (q : Pm × PmAsked) (a : PmAct) : Decidable (Good cfg q a) :=
  inferInstanceAs (Decidable (_ ∧ _))

/-- **The mode that is passed to `ops->sleep`** is not deeper than a mode with an outstanding
request, than the busy mode while a delay is running, and than the table allows. -/
theorem pm_sleep_allowed (cfg : PmConfig) (timerMask : BitVec 8) (time : Nat) (q : Pm × PmAsked)
    (hrun : PmRuns cfg timerMask time (Good cfg) q) (next remaining : Nat) (suspended : Bool)
    (hgood : Good cfg q (.sleep next remaining suspended)) (s : Pm)
    (hstep : q.1.step cfg (.sleep next remaining suspended) = some s) :
    (∀ mode, Outstanding q.2 mode → s.sleepMode ≤ mode) ∧
      (Delayed q.2 q.1.time → s.sleepMode ≤ cfg.busySleepMode) ∧
      ∀ t ∈ cfg.threshold, s.sleepMode ≤ thresholdSwitch t q.1.sleepMode remaining := by
  have hinv : PmInv cfg q.2 q.1 := by
    refine @Runs.invariant _ _ _ _ _ _ (fun q => PmInv cfg q.2 q.1) ?_ hrun
      ⟨.init cfg timerMask time, nofun⟩
    rintro q a q' hinv hok ⟨hstep, hobs⟩
    rw [hobs]
    exact hinv.step hok.1 hok.2 hstep
  obtain ⟨hchanging, rfl⟩ := Runs.takeIf_eq_some.mp hstep
  have hchosen := hinv.chosen hchanging
  have hle := @changeSleepMode_le cfg q.1 next suspended
  refine ⟨fun mode hout => hle.trans (hchosen.outstanding mode hout),
    fun hdelay => hle.trans (hchosen.delayed hdelay), fun t ht => ?_⟩
  rcases hgood.2 t ht with hsame | ⟨hsuspend, hfail, hlimit⟩
  · rw [hsame]
    exact hle
  · exact (changeSleepMode_le_suspend hsuspend hfail).trans hlimit

/-- The defaults of `pm.c` with `PM_ENABLE_THRESHOLD_SLEEP_MODE`. -/
def pmThresholds : PmConfig where
  moduleMaxId := 17
  defaultDeepsleep := pmSleepModeDeep
  busySleepMode := pmSleepModeIdle
  suspendSleepMode := pmSleepModeIdle
  ticklessThresholdTime := 2
  threshold := some ⟨5, 20, 100⟩
  suspend := false
  defaultDeepsleep_lt := by decide

theorem pm_sleep_allowed_light : ∃ q s, PmRuns pmThresholds 0xff 0 (Good pmThresholds) q ∧
    q.1.step pmThresholds (.sleep 100 100 true) = some s ∧ s.sleepMode = pmSleepModeLight ∧
    ∀ mode, Outstanding q.2 mode → s.sleepMode ≤ mode := by
  obtain ⟨q, hrun, hq⟩ := @Runs.observed_of_replay _ _ (step pmThresholds) _ (ask pmThresholds)
    (Good pmThresholds) _ [.release 0, .request 2, .select]
    (fun q => decide (Good pmThresholds q (.sleep 100 100 true) ∧ q.1.changing = true ∧
      q.1.changeSleepMode pmThresholds 100 true = pmSleepModeLight))
    (init 0xff 0, askedInit) (by decide +kernel)
  obtain ⟨hgood, hchanging, hmode⟩ := of_decide_eq_true hq
  obtain ⟨s, hstep, hs⟩ : ∃ s, q.1.step pmThresholds (.sleep 100 100 true) = some s ∧
      s.sleepMode = q.1.changeSleepMode pmThresholds 100 true :=
    ⟨_, Runs.takeIf_eq_some.mpr ⟨hchanging, rfl⟩, rfl⟩
  exact ⟨q, s, hrun, hstep, hs.trans hmode,
    (pm_sleep_allowed pmThresholds 0xff 0 q hrun 100 100 true hgood s hstep).1⟩

/-- With a timer that is due at once the table is not obeyed; and the 256th of the requests that
were made is lost when the others are released. -/
theorem pm_sleep_too_deep :
    (∃ q s, PmRuns pmThresholds 0xff 0 (fun q a => Matches q.2 a) q ∧
      q.1.step pmThresholds (.sleep 0 0 true) = some s ∧
      thresholdSwitch ⟨5, 20, 100⟩ q.1.sleepMode 0 < s.sleepMode) ∧
    (∃ q s, PmRuns pmThresholds 0xff 0 (fun q a => Matches q.2 a) q ∧
      q.1.step pmThresholds (.sleep 100 100 true) = some s ∧
      Outstanding q.2 pmSleepModeLight ∧ pmSleepModeLight < s.sleepMode) := by
  constructor
  · obtain ⟨q, hrun, hq⟩ := @Runs.observed_of_replay _ _ (step pmThresholds) _ (ask pmThresholds)
      (fun q a => Matches q.2 a) _ [.release 0, .request 2, .select]
      (fun q => decide (q.1.changing = true ∧ thresholdSwitch ⟨5, 20, 100⟩ q.1.sleepMode 0 <
        q.1.changeSleepMode pmThresholds 0 true))
      (init 0xff 0, askedInit) (by decide +kernel)
    obtain ⟨hchanging, hdeep⟩ := of_decide_eq_true hq
    exact ⟨q, _, hrun, Runs.takeIf_eq_some.mpr ⟨hchanging, rfl⟩, hdeep⟩
  · obtain ⟨q, hrun, hq⟩ := @Runs.observed_of_replay _ _ (step pmThresholds) _ (ask pmThresholds)
      (fun q a => Matches q.2 a) _
      (.release 0 :: List.replicate 256 (.request 2) ++ List.replicate 255 (.release 2) ++
        [.select])
      (fun q => decide (q.1.changing = true ∧ 0 < q.2.requests pmSleepModeLight ∧
        pmSleepModeLight < q.1.changeSleepMode pmThresholds 100 true))
      (init 0xff 0, askedInit) (by decide +kernel)
    obtain ⟨hchanging, hout, hdeep⟩ := of_decide_eq_true hq
    exact ⟨q, _, hrun, Runs.takeIf_eq_some.mpr ⟨hchanging, rfl⟩, .inl hout, hdeep⟩

end Pm

end RTThread
