import RTThread.Drivers.SerialRx
import RTThread.Lib.BitSet

/-!
# Opening and closing a serial device (`components/drivers/serial/serial.c`, `src/device.c`)

The receive and the transmit direction are opened the same way: the first open with
an interrupt or a DMA flag allocates a structure and turns the interrupt on. A later open keeps the
structure, but the open flags are its own, and it is by the open flags that the last close frees and
turns off.

`serial_structures`: a run keeps flags, structures and interrupts together if and only if no
open changes the layout of a structure that is there, and no close leaves an interrupt on.
-/

namespace RTThread

/-- The two directions of a device. -/
inductive SerialDir
  | rx
  | tx
deriving DecidableEq

/-- `struct rt_serial_rx_fifo`, `rt_serial_rx_dma`, `rt_serial_tx_fifo` and `rt_serial_tx_dma`. -/
inductive SerialLayout
  | rxFifo
  | rxDma
  | txFifo
  | txDma
deriving DecidableEq

/-- What `rt_malloc` returned. -/
structure SerialBlock where
  id : Nat
  layout : SerialLayout
deriving DecidableEq

/-- The calls of `serial->ops->control`: `RT_DEVICE_CTRL_SET_INT`, `RT_DEVICE_CTRL_CONFIG`,
`RT_DEVICE_CTRL_CLR_INT` and `RT_DEVICE_CTRL_CLOSE`. -/
inductive SerialCtrl
  | setInt (d : SerialDir) (m : SerialMode)
  | config (d : SerialDir) (m : SerialMode)
  | clrInt (d : SerialDir) (m : SerialMode)
  | close

/-- `struct rt_serial_device`, with what was allocated and freed for each direction, and the calls
of `ops->control`, the last one first. -/
structure SerialDev where
  flag : BitVec 16
  openFlag : BitVec 16 := 0
  refCount : Nat := 0
  bufsz : Nat
  serial : SerialDir → Option SerialBlock := fun _ => none
  allocated : SerialDir → List SerialBlock := fun _ => []
  freed : SerialDir → List SerialBlock := fun _ => []
  controls : List SerialCtrl := []

/-- What happens to the device. -/
inductive SerialDevAct
  /-- `rt_device_open(dev, oflag)`, and whether `ops->configure` succeeds. -/
  | open (oflag : BitVec 16) (configured : Bool)
  | close
  /-- `RT_DEVICE_CTRL_CONFIG` with another `bufsz`. -/
  | config (bufsz : Nat)

namespace SerialDev

-- --------
-- The flags
-- --------

/-- `RT_DEVICE_FLAG_INT_RX` 0x100, `RT_DEVICE_FLAG_DMA_RX` 0x200, `RT_DEVICE_FLAG_INT_TX` 0x400 and
`RT_DEVICE_FLAG_DMA_TX` 0x800. -/
def flagBit : SerialDir → SerialMode → Nat
  | .rx, .int => 8
  | .rx, .dma => 9
  | .tx, .int => 10
  | .tx, .dma => 11

/-- `RT_DEVICE_FLAG_STANDALONE` and `RT_DEVICE_OFLAG_OPEN` 0x008, `RT_DEVICE_FLAG_ACTIVATED` 0x010,
`RT_DEVICE_FLAG_STREAM` 0x040. -/
def bitStandalone : Nat := 3
def bitOpen : Nat := 3
def bitActivated : Nat := 4
def bitStream : Nat := 6

def has (flags : BitVec 16) (d : SerialDir) (m : SerialMode) : Bool := flags.getLsbD (flagBit d m)

/-- Which routines the flags choose: the interrupt comes before DMA, and without a flag the device
is polled. -/
def mode (flags : BitVec 16) (d : SerialDir) : Option SerialMode :=
  if has flags d .int then some .int
  else if has flags d .dma then some .dma
  else none

/-- The structure that the routines use. -/
def layoutOf (bufsz : Nat) : SerialDir → SerialMode → SerialLayout
  | .rx, .int => .rxFifo
  | .rx, .dma => if bufsz = 0 then .rxDma else .rxFifo
  | .tx, .int => .txFifo
  | .tx, .dma => .txDma

/-- The call of `ops->control` that comes with the allocation. -/
def startOf (bufsz : Nat) : SerialDir → SerialMode → List SerialCtrl
  | d, .int => [.setInt d .int]
  | .rx, .dma => if bufsz = 0 then [] else [.config .rx .dma]
  | .tx, .dma => [.config .tx .dma]

/-- The interrupts and the DMA channels that are on. -/
def enabled (d : SerialDir) (m : SerialMode) : List SerialCtrl → Bool
  | [] => false
  | .setInt d' m' :: controls => decide (d' = d ∧ m' = m) || enabled d m controls
  | .config d' m' :: controls => decide (d' = d ∧ m' = m) || enabled d m controls
  | .clrInt d' m' :: controls => !decide (d' = d ∧ m' = m) && enabled d m controls
  | .close :: controls => enabled d m controls

-- --------
-- The code
-- --------

variable (s : SerialDev)

/-- `serial->ops->control` -/
def control (cmd : SerialCtrl) : SerialDev := { s with controls := cmd :: s.controls }

/-- `dev->open_flag |= flag` and `dev->open_flag &= ~flag` -/
def setFlag (d : SerialDir) (m : SerialMode) : SerialDev :=
  { s with openFlag := s.openFlag ||| BitSet.mask 16 (flagBit d m) }

def clearFlag (d : SerialDir) (m : SerialMode) : SerialDev :=
  { s with openFlag := s.openFlag &&& ~~~BitSet.mask 16 (flagBit d m) }

/-- `serial->serial_rx = rt_malloc(..)`, or `serial_tx`. -/
def malloc (d : SerialDir) (layout : SerialLayout) : SerialDev :=
  let block : SerialBlock := ⟨(s.allocated d).length, layout⟩
  { s with
    serial := Function.update s.serial d (some block)
    allocated := Function.update s.allocated d (s.allocated d ++ [block]) }

/-- The part of `rt_serial_open` for one direction. -/
def openDir (oflag : BitVec 16) (d : SerialDir) : SerialDev :=
  match s.serial d with
  | none =>
    match mode oflag d with
    | some m =>
      let s := (s.malloc d (layoutOf s.bufsz d m)).setFlag d m
      { s with controls := startOf s.bufsz d m ++ s.controls }
    | none => { s with serial := Function.update s.serial d none }
  | some _ =>
    match mode oflag d with
    | some m => s.setFlag d m
    | none => s

/-- The device flags have what the open flags ask for. -/
def supports (oflag : BitVec 16) : Bool :=
  let asks := fun d m => has oflag d m && !has s.flag d m
  !asks .rx .dma && !asks .tx .dma && !asks .rx .int && !asks .tx .int

/-- `rt_serial_init` -/
def rtSerialInit : SerialDev := { s with serial := fun _ => none }

/-- `rt_serial_open`. It has no value for `-RT_EIO`. -/
def rtSerialOpen (oflag : BitVec 16) : Option SerialDev :=
  if s.supports oflag then
    let stream := oflag.getLsbD bitStream || s.openFlag.getLsbD bitStream
    let s := { s with openFlag := oflag &&& 0xff#16 }
    let s := (s.openDir oflag .rx).openDir oflag .tx
    some (if stream then { s with openFlag := s.openFlag ||| BitSet.mask 16 bitStream } else s)
  else none

/-- The part of `rt_serial_close` for one direction. The data queue for DMA transmission is inside
its structure. -/
def closeDir (d : SerialDir) : Except Fault SerialDev :=
  match mode s.openFlag d with
  | none => return s
  | some m =>
    let s := (s.control (.clrInt d m)).clearFlag d m
    match s.serial d with
    | none => throw .assertion
    | some block =>
      if d = .tx ∧ m = .dma ∧ block.layout ≠ .txDma then throw .badPointer
      else
        return { s with
          serial := Function.update s.serial d none
          freed := Function.update s.freed d (s.freed d ++ [block]) }

/-- `rt_serial_close` -/
def rtSerialClose : Except Fault SerialDev :=
  if 1 < s.refCount then return s
  else do
    let s ← s.closeDir .rx
    let s ← s.closeDir .tx
    let s := s.control .close
    return { s with flag := s.flag &&& ~~~BitSet.mask 16 bitActivated }

/-- `rt_device_open` up to `device_open`. It has no value if `device_init` failed. -/
def activate (configured : Bool) : Option SerialDev :=
  if s.flag.getLsbD bitActivated then some s
  else if configured then
    some { s.rtSerialInit with flag := s.flag ||| BitSet.mask 16 bitActivated }
  else none

/-- `rt_device_open` -/
def rtDeviceOpen (oflag : BitVec 16) (configured : Bool) : Except Fault SerialDev :=
  match s.activate configured with
  | none => return s.rtSerialInit
  | some s =>
    if s.flag.getLsbD bitStandalone ∧ s.openFlag.getLsbD bitOpen then return s
    else
      match s.rtSerialOpen oflag with
      | none => return s
      | some s => do
        rtAssert ((s.refCount + 1) % 256 ≠ 0)
        return { s with
          openFlag := s.openFlag ||| BitSet.mask 16 bitOpen
          refCount := s.refCount + 1 }

/-- `rt_device_close` -/
def rtDeviceClose : Except Fault SerialDev :=
  if s.refCount = 0 then return s
  else
    let s := { s with refCount := s.refCount - 1 }
    if s.refCount ≠ 0 then return s
    else do
      let s ← s.rtSerialClose
      return { s with openFlag := 0 }

/-- `RT_DEVICE_CTRL_CONFIG` of `rt_serial_control`: the buffer size of an open device stays. -/
def config (bufsz : Nat) : SerialDev :=
  if bufsz ≠ s.bufsz ∧ s.refCount ≠ 0 then s else { s with bufsz }

/-- **A step of the device.** -/
def step (s : SerialDev) : SerialDevAct → Option SerialDev
  | .open oflag configured => (s.rtDeviceOpen oflag configured).toOption
  | .close => s.rtDeviceClose.toOption
  | .config bufsz => some (s.config bufsz)

-- --------
-- What is to hold
-- --------

/-- **The structures of a device.** While it is open a direction has a structure if and only if
one of its flags is set, and the structure is the one of the routines that are used. When it is
closed there is none, everything is off, and everything was freed once. -/
structure Kept (s : SerialDev) : Prop where
  present (h : 0 < s.refCount) (d : SerialDir) : (s.serial d).isSome = true ↔
    has s.openFlag d .int = true ∨ has s.openFlag d .dma = true
  layout (h : 0 < s.refCount) (d : SerialDir) {block : SerialBlock} {m : SerialMode} :
    s.serial d = some block → mode s.openFlag d = some m → block.layout = layoutOf s.bufsz d m
  closed (h : s.refCount = 0) (d : SerialDir) : s.serial d = none
  off (h : s.refCount = 0) (d : SerialDir) (m : SerialMode) : enabled d m s.controls = false
  freed (h : s.refCount = 0) (d : SerialDir) :
    ∀ block ∈ s.allocated d, (s.freed d).count block = 1

/-- The open goes through to `device_open` and is not refused. -/
def Opens (s : SerialDev) (oflag : BitVec 16) : Prop :=
  ¬ (s.flag.getLsbD bitStandalone = true ∧ s.openFlag.getLsbD bitOpen = true) ∧
    s.supports oflag = true

/-- An open keeps the layout of the structures that are there, and at the last close only
the interrupts of the open flags are on. -/
def KeepsMode (s : SerialDev) : SerialDevAct → Prop
  | .open oflag _ => s.Opens oflag → ∀ d, ∀ block ∈ s.serial d,
      ∃ m, mode oflag d = some m ∧ block.layout = layoutOf s.bufsz d m
  | .close => s.refCount = 1 → ∀ d m, enabled d m s.controls = true → mode s.openFlag d = some m
  | .config _ => True

-- --------
-- The flags of a direction
-- --------

variable {s s' : SerialDev} {d d' : SerialDir} {m m' : SerialMode} {oflag f g : BitVec 16}

theorem flagBit_bounds (d : SerialDir) (m : SerialMode) : 8 ≤ flagBit d m ∧ flagBit d m < 12 := by
  cases d <;> cases m <;> decide

theorem flagBit_inj : flagBit d m = flagBit d' m' ↔ d = d' ∧ m = m' := by
  cases d <;> cases m <;> cases d' <;> cases m' <;> decide

theorem has_insert {i : Nat} (hi : i < 16) :
    has (f ||| BitSet.mask 16 i) d m = true ↔ has f d m = true ∨ flagBit d m = i :=
  BitSet.getLsbD_insert f hi _

theorem has_erase {i : Nat} (hi : i < 16) :
    has (f &&& ~~~BitSet.mask 16 i) d m = true ↔ has f d m = true ∧ flagBit d m ≠ i :=
  BitSet.getLsbD_erase f hi _

theorem not_has_low : has (oflag &&& 0xff#16) d m = false := by
  have hlow : (0xff#16).getLsbD (flagBit d m) = false := by
    cases d <;> cases m <;> decide
  rw [has, BitVec.getLsbD_and, hlow, Bool.and_false]

theorem mode_isSome : (mode f d).isSome = true ↔ has f d .int = true ∨ has f d .dma = true := by
  unfold mode
  cases has f d .int <;> cases has f d .dma <;> decide

/-- A direction with one flag. -/
theorem mode_of_has {o : Option SerialMode} (h : ∀ m, has f d m = true ↔ o = some m) :
    mode f d = o := by
  unfold mode
  cases o with
  | none =>
    have hint : ¬ has f d .int = true := fun hi => nomatch (h .int).1 hi
    have hdma : ¬ has f d .dma = true := fun hd => nomatch (h .dma).1 hd
    rw [if_neg hint, if_neg hdma]
  | some m =>
    cases m with
    | int => rw [if_pos ((h .int).2 rfl)]
    | dma =>
      have hint : ¬ has f d .int = true := fun hi => nomatch (h .int).1 hi
      rw [if_neg hint, if_pos ((h .dma).2 rfl)]

-- --------
-- One direction
-- --------

/-- The two states say the same of a direction. -/
structure Agrees (s s' : SerialDev) (d : SerialDir) : Prop where
  serial : s'.serial d = s.serial d
  allocated : s'.allocated d = s.allocated d
  freed : s'.freed d = s.freed d
  has (m : SerialMode) : has s'.openFlag d m = true ↔ has s.openFlag d m = true
  enabled (m : SerialMode) : enabled d m s'.controls = enabled d m s.controls

/-- The device is the same apart from the directions. -/
structure Shares (s s' : SerialDev) : Prop where
  flag : s'.flag = s.flag
  refCount : s'.refCount = s.refCount
  bufsz : s'.bufsz = s.bufsz

/-- What is allocated was freed or is there, and only what has a structure is on. -/
structure Side (s : SerialDev) (d : SerialDir) : Prop where
  blocks : s.allocated d = s.freed d ++ (s.serial d).toList
  ids : (s.allocated d).map SerialBlock.id = List.range (s.allocated d).length
  on (m : SerialMode) : enabled d m s.controls = true → (s.serial d).isSome = true

theorem Shares.trans {s₁ s₂ s₃ : SerialDev} (h : Shares s₁ s₂) (h' : Shares s₂ s₃) :
    Shares s₁ s₃ where
  flag := h'.flag.trans h.flag
  refCount := h'.refCount.trans h.refCount
  bufsz := h'.bufsz.trans h.bufsz

theorem Side.of_agrees (h : Side s d) (ha : Agrees s s' d) : Side s' d where
  blocks := by
    rw [ha.allocated, ha.freed, ha.serial]
    exact h.blocks
  ids := by
    rw [ha.allocated]
    exact h.ids
  on m hon := by
    rw [ha.enabled] at hon
    rw [ha.serial]
    exact h.on m hon

theorem enabled_start {bufsz : Nat} {controls : List SerialCtrl} (hd : d' ≠ d) :
    enabled d' m (startOf bufsz d m' ++ controls) = enabled d' m controls := by
  have hne : ¬ (d = d' ∧ m' = m) := fun h => hd h.1.symm
  cases d <;> cases m' <;> simp only [startOf]
  case rx.dma =>
    split
    · rfl
    · simp only [List.cons_append, List.nil_append, enabled, hne, decide_false, Bool.false_or]
  all_goals
    simp only [List.cons_append, List.nil_append, enabled, hne, decide_false, Bool.false_or]

theorem openDir_shares (s : SerialDev) (oflag : BitVec 16) (d : SerialDir) :
    Shares s (s.openDir oflag d) := by
  unfold openDir
  cases s.serial d with
  | none =>
    cases mode oflag d with
    | none => exact ⟨rfl, rfl, rfl⟩
    | some m => exact ⟨rfl, rfl, rfl⟩
  | some block =>
    cases mode oflag d with
    | none => exact ⟨rfl, rfl, rfl⟩
    | some m => exact ⟨rfl, rfl, rfl⟩

theorem has_setFlag (hd : d' ≠ d) :
    has (s.openFlag ||| BitSet.mask 16 (flagBit d m)) d' m' = true ↔
      has s.openFlag d' m' = true := by
  have hb := flagBit_bounds d m
  rw [has_insert (by omega), flagBit_inj]
  exact or_iff_left fun h => hd h.1

theorem openDir_agrees (s : SerialDev) (oflag : BitVec 16) {d d' : SerialDir} (hd : d' ≠ d) :
    Agrees s (s.openDir oflag d) d' := by
  unfold openDir
  cases s.serial d with
  | none =>
    cases mode oflag d with
    | none => exact ⟨Function.update_of_ne hd _ _, rfl, rfl, fun _ => Iff.rfl, fun _ => rfl⟩
    | some m =>
      exact ⟨Function.update_of_ne hd _ _, Function.update_of_ne hd _ _, rfl,
        fun _ => has_setFlag hd, fun _ => enabled_start hd⟩
  | some block =>
    cases mode oflag d with
    | none => exact ⟨rfl, rfl, rfl, fun _ => Iff.rfl, fun _ => rfl⟩
    | some m => exact ⟨rfl, rfl, rfl, fun _ => has_setFlag hd, fun _ => rfl⟩

/-- The structure of the direction, and its flags. -/
theorem openDir_serial (s : SerialDev) (oflag : BitVec 16) (d : SerialDir) :
    (s.openDir oflag d).serial d = (s.serial d).or ((mode oflag d).map fun m =>
      ⟨(s.allocated d).length, layoutOf s.bufsz d m⟩) := by
  unfold openDir
  cases hserial : s.serial d with
  | none =>
    cases mode oflag d with
    | none => exact Function.update_self _ _ _
    | some m => exact Function.update_self _ _ _
  | some block =>
    cases mode oflag d with
    | none => exact hserial
    | some m => exact hserial

theorem openDir_has (s : SerialDev) (oflag : BitVec 16) (d : SerialDir) (m : SerialMode) :
    has (s.openDir oflag d).openFlag d m = true ↔
      has s.openFlag d m = true ∨ mode oflag d = some m := by
  have hset (m' : SerialMode) :
      has (s.openFlag ||| BitSet.mask 16 (flagBit d m')) d m = true ↔
        has s.openFlag d m = true ∨ some m' = some m := by
    have hb := flagBit_bounds d m'
    rw [has_insert (by omega), flagBit_inj, Option.some.injEq]
    exact or_congr_right ⟨fun h => h.2.symm, fun h => ⟨rfl, h.symm⟩⟩
  have hnone : has s.openFlag d m = true ↔ has s.openFlag d m = true ∨ none = some m :=
    (or_iff_left nofun).symm
  unfold openDir
  cases s.serial d with
  | none =>
    cases mode oflag d with
    | none => exact hnone
    | some m' => exact hset m'
  | some block =>
    cases mode oflag d with
    | none => exact hnone
    | some m' => exact hset m'

theorem openDir_side (h : Side s d) (oflag : BitVec 16) : Side (s.openDir oflag d) d := by
  have hblocks := h.blocks
  unfold openDir
  cases hserial : s.serial d with
  | none =>
    rw [hserial, Option.toList_none, List.append_nil] at hblocks
    cases mode oflag d with
    | none =>
      have hsame : Function.update s.serial d none = s.serial := by
        rw [← hserial]
        exact Function.update_eq_self d s.serial
      change Side { s with serial := Function.update s.serial d none } d
      rw [hsame]
      exact h
    | some m =>
      refine ⟨?_, ?_, fun _ _ => ?_⟩
      · change Function.update s.allocated d _ d =
          s.freed d ++ (Function.update s.serial d _ d).toList
        rw [Function.update_self, Function.update_self, hblocks]
        rfl
      · change (Function.update s.allocated d _ d).map _ =
          List.range (Function.update s.allocated d _ d).length
        rw [Function.update_self, List.map_append, List.length_append, List.length_singleton,
          List.range_succ, h.ids]
        rfl
      · change (Function.update s.serial d _ d).isSome = true
        rw [Function.update_self]
        rfl
  | some block =>
    cases mode oflag d with
    | none => exact h
    | some m => exact ⟨h.blocks, h.ids, h.on⟩

/-- What one direction is left with by the close. -/
structure Closed (s s' : SerialDev) (d : SerialDir) : Prop where
  serial : s'.serial d = none
  allocated : s'.allocated d = s.allocated d
  freed : s'.freed d = s.freed d ++ (s.serial d).toList
  enabled (m : SerialMode) : SerialDev.enabled d m s'.controls = true ↔
    SerialDev.enabled d m s.controls = true ∧ mode s.openFlag d ≠ some m

theorem closeDir_agrees (hd : d' ≠ d) (hs : s.closeDir d = .ok s') : Agrees s s' d' := by
  unfold closeDir at hs
  cases hmode : mode s.openFlag d with
  | none =>
    rw [hmode] at hs
    obtain rfl := Except.ok.inj hs
    exact ⟨rfl, rfl, rfl, fun _ => Iff.rfl, fun _ => rfl⟩
  | some m =>
    cases hserial : ((s.control (.clrInt d m)).clearFlag d m).serial d with
    | none =>
      simp only [hmode, hserial] at hs
      cases hs
    | some block =>
      simp only [hmode, hserial] at hs
      split at hs
      · cases hs
      · obtain rfl := Except.ok.inj hs
        refine ⟨Function.update_of_ne hd _ _, rfl, Function.update_of_ne hd _ _, fun m' => ?_,
          fun m' => ?_⟩
        · have hb := flagBit_bounds d m
          have hne : flagBit d' m' ≠ flagBit d m := fun h => hd (flagBit_inj.1 h).1
          exact (has_erase (by omega)).trans (and_iff_left hne)
        · have hne : ¬ (d = d' ∧ m = m') := fun h => hd h.1.symm
          change (!decide (d = d' ∧ m = m') && enabled d' m' s.controls) = _
          rw [decide_eq_false hne, Bool.not_false, Bool.true_and]

theorem closeDir_shares (hs : s.closeDir d = .ok s') : Shares s s' := by
  unfold closeDir at hs
  cases hmode : mode s.openFlag d with
  | none =>
    rw [hmode] at hs
    obtain rfl := Except.ok.inj hs
    exact ⟨rfl, rfl, rfl⟩
  | some m =>
    cases hserial : ((s.control (.clrInt d m)).clearFlag d m).serial d with
    | none =>
      simp only [hmode, hserial] at hs
      cases hs
    | some block =>
      simp only [hmode, hserial] at hs
      split at hs
      · cases hs
      · obtain rfl := Except.ok.inj hs
        exact ⟨rfl, rfl, rfl⟩

/-- A direction whose flags are those of its structure. -/
theorem closeDir_closed (hfit : (s.serial d).isSome = true → (mode s.openFlag d).isSome = true)
    (hs : s.closeDir d = .ok s') : Closed s s' d := by
  unfold closeDir at hs
  cases hmode : mode s.openFlag d with
  | none =>
    have hserial : s.serial d = none := by
      cases h : s.serial d with
      | none => rfl
      | some block =>
        rw [h, hmode] at hfit
        exact absurd (hfit rfl) nofun
    rw [hmode] at hs
    obtain rfl := Except.ok.inj hs
    refine ⟨hserial, rfl, ?_, fun m => ?_⟩
    · rw [hserial, Option.toList_none, List.append_nil]
    · rw [hmode]
      exact (and_iff_left nofun).symm
  | some m =>
    cases hserial : ((s.control (.clrInt d m)).clearFlag d m).serial d with
    | none =>
      simp only [hmode, hserial] at hs
      cases hs
    | some block =>
      have hthis : s.serial d = some block := hserial
      simp only [hmode, hserial] at hs
      split at hs
      · cases hs
      · obtain rfl := Except.ok.inj hs
        refine ⟨Function.update_self _ _ _, rfl, ?_, fun m' => ?_⟩
        · rw [hthis]
          exact Function.update_self _ _ _
        · rw [hmode, ne_eq, Option.some.injEq]
          change (!decide (d = d ∧ m = m') && enabled d m' s.controls) = true ↔ _
          simp only [true_and, Bool.and_eq_true, Bool.not_eq_true', decide_eq_false_iff_not]
          exact and_comm

-- --------
-- The calls
-- --------

/-- **What a run keeps** while it keeps the modes. -/
structure Sound (s : SerialDev) : Prop where
  kept : s.Kept
  side (d : SerialDir) : s.Side d
  active (h : 0 < s.refCount) : s.flag.getLsbD bitActivated = true

/-- `rt_serial_open` gives both directions their flags and structures. -/
theorem rtSerialOpen_spec (h : ∀ d, Side s d) (hs : s.rtSerialOpen oflag = some s') :
    s.supports oflag = true ∧ Shares s s' ∧ (∀ d, Side s' d) ∧
    (∀ d m, has s'.openFlag d m = true ↔ mode oflag d = some m) ∧
    ∀ d, s'.serial d = (s.serial d).or ((mode oflag d).map fun m =>
      ⟨(s.allocated d).length, layoutOf s.bufsz d m⟩) := by
  unfold rtSerialOpen at hs
  split at hs
  case isFalse => cases hs
  case isTrue hsup =>
    -- the low byte of the open flags, then the two directions one after the other
    let s₀ : SerialDev := { s with openFlag := oflag &&& 0xff#16 }
    have hlow (d : SerialDir) (m : SerialMode) : ¬ has s₀.openFlag d m = true := by
      rw [not_has_low]
      exact nofun
    have h₀ (d : SerialDir) : Side s₀ d := ⟨(h d).blocks, (h d).ids, (h d).on⟩
    have hne : SerialDir.tx ≠ .rx := nofun
    have hrx := openDir_agrees s₀ oflag hne
    have htx := openDir_agrees (s₀.openDir oflag .rx) oflag hne.symm
    have hshares := (openDir_shares s₀ oflag .rx).trans
      (openDir_shares (s₀.openDir oflag .rx) oflag .tx)
    let s₂ := (s₀.openDir oflag .rx).openDir oflag .tx
    have hside (d : SerialDir) : Side s₂ d := by
      cases d with
      | rx => exact (openDir_side (h₀ .rx) oflag).of_agrees htx
      | tx => exact openDir_side ((h₀ .tx).of_agrees hrx) oflag
    have hhas (d : SerialDir) (m : SerialMode) :
        has s₂.openFlag d m = true ↔ mode oflag d = some m := by
      cases d with
      | rx => exact ((htx.has m).trans (openDir_has s₀ oflag .rx m)).trans (or_iff_right (hlow _ m))
      | tx =>
        refine (openDir_has (s₀.openDir oflag .rx) oflag .tx m).trans (or_iff_right ?_)
        rw [hrx.has]
        exact hlow _ m
    have hserial (d : SerialDir) : s₂.serial d = (s.serial d).or ((mode oflag d).map fun m =>
        ⟨(s.allocated d).length, layoutOf s.bufsz d m⟩) := by
      cases d with
      | rx => exact htx.serial.trans (openDir_serial s₀ oflag .rx)
      | tx =>
        have htwo := openDir_serial (s₀.openDir oflag .rx) oflag .tx
        rw [hrx.serial, hrx.allocated, (openDir_shares s₀ oflag .rx).bufsz] at htwo
        exact htwo
    have hstream (d : SerialDir) (m : SerialMode) :
        has (s₂.openFlag ||| BitSet.mask 16 bitStream) d m = true ↔
          has s₂.openFlag d m = true := by
      have hb := flagBit_bounds d m
      have hne : flagBit d m ≠ bitStream := by
        unfold bitStream
        omega
      exact (has_insert (by decide)).trans (or_iff_left hne)
    obtain rfl := Option.some.inj hs
    split
    · exact ⟨hsup, ⟨hshares.flag, hshares.refCount, hshares.bufsz⟩,
        fun d => ⟨(hside d).blocks, (hside d).ids, (hside d).on⟩,
        fun d m => (hstream d m).trans (hhas d m), hserial⟩
    · exact ⟨hsup, ⟨hshares.flag, hshares.refCount, hshares.bufsz⟩, hside, hhas, hserial⟩

theorem Sound.init_eq (h : s.Sound) (hflag : ¬ s.flag.getLsbD bitActivated = true) :
    s.refCount = 0 ∧ s.rtSerialInit = s := by
  have hzero : s.refCount = 0 := by
    by_contra hne
    exact hflag (h.active (by omega))
  have hserial : s.serial = fun _ => none := funext (h.kept.closed hzero)
  refine ⟨hzero, ?_⟩
  unfold rtSerialInit
  rw [← hserial]

theorem supports_congr (h : ∀ d m, has s'.flag d m = has s.flag d m) :
    s'.supports oflag = s.supports oflag := by
  simp only [supports, h]

theorem Sound.activate (h : s.Sound) (oflag : BitVec 16) {configured : Bool}
    (hs : s.activate configured = some s') :
    s'.Sound ∧ s'.flag.getLsbD bitActivated = true ∧ s'.serial = s.serial ∧
      (s'.Opens oflag ↔ s.Opens oflag) ∧ s'.bufsz = s.bufsz := by
  unfold SerialDev.activate at hs
  split at hs
  case isTrue hflag =>
    obtain rfl := Option.some.inj hs
    exact ⟨h, hflag, rfl, Iff.rfl, rfl⟩
  case isFalse hflag =>
    split at hs
    case isFalse => cases hs
    case isTrue =>
      obtain ⟨hzero, hinit⟩ := h.init_eq hflag
      rw [hinit] at hs
      obtain rfl := Option.some.inj hs
      have hset (i : Nat) : (s.flag ||| BitSet.mask 16 bitActivated).getLsbD i = true ↔
          s.flag.getLsbD i = true ∨ i = bitActivated := BitSet.getLsbD_insert _ (by decide) _
      have hhas (d : SerialDir) (m : SerialMode) :
          has (s.flag ||| BitSet.mask 16 bitActivated) d m = has s.flag d m := by
        have hb := flagBit_bounds d m
        rw [Bool.eq_iff_iff]
        refine (hset _).trans (or_iff_left ?_)
        unfold bitActivated
        omega
      refine ⟨⟨⟨h.kept.present, h.kept.layout, h.kept.closed, h.kept.off, h.kept.freed⟩,
        fun d => ⟨(h.side d).blocks, (h.side d).ids, (h.side d).on⟩, fun _ => (hset _).2 (Or.inr rfl)⟩,
        (hset _).2 (Or.inr rfl), rfl, ?_, rfl⟩
      unfold Opens
      rw [supports_congr hhas, hset, or_iff_left (by decide)]

/-- An open device with the modes that `oflag` asks for, and the structures there were or the ones
for these modes. -/
theorem kept_iff_of_opened {n : SerialDir → Nat} (hopen : 0 < s'.refCount)
    (hhas : ∀ d m, has s'.openFlag d m = true ↔ mode oflag d = some m)
    (hserial : ∀ d, s'.serial d = (s.serial d).or ((mode oflag d).map fun m =>
      ⟨n d, layoutOf s'.bufsz d m⟩)) :
    s'.Kept ↔ ∀ d, ∀ block ∈ s.serial d,
      ∃ m, mode oflag d = some m ∧ block.layout = layoutOf s'.bufsz d m := by
  have hmode (d : SerialDir) : mode s'.openFlag d = mode oflag d := mode_of_has (hhas d)
  constructor
  · intro hkept d block hblock
    have hthis : s'.serial d = some block := by
      rw [hserial d, hblock, Option.some_or]
    have hsome : (mode s'.openFlag d).isSome = true := by
      rw [mode_isSome, ← hkept.present hopen d, hthis]
      rfl
    obtain ⟨m, hm⟩ := Option.isSome_iff_exists.1 hsome
    exact ⟨m, (hmode d).symm.trans hm, hkept.layout hopen d hthis hm⟩
  · intro hall
    refine ⟨fun _ d => ?_, fun _ d block m hblock hm => ?_, fun hzero => ?_, fun hzero => ?_,
      fun hzero => ?_⟩
    · rw [← mode_isSome, hmode d, hserial d]
      cases hold : s.serial d with
      | none => rw [Option.none_or, Option.isSome_map]
      | some block =>
        obtain ⟨m, hm, -⟩ := hall d block hold
        rw [hm]
        exact iff_of_true rfl rfl
    · rw [hmode d] at hm
      rw [hserial d, hm] at hblock
      cases hold : s.serial d with
      | none =>
        rw [hold] at hblock
        obtain rfl := Option.some.inj hblock
        rfl
      | some old =>
        rw [hold] at hblock
        obtain rfl := Option.some.inj hblock
        obtain ⟨m', hm', hlayout⟩ := hall d old hold
        obtain rfl := Option.some.inj (hm.symm.trans hm')
        exact hlayout
    · omega
    · omega
    · omega

/-- **Opening.** -/
theorem Sound.rtDeviceOpen (h : s.Sound) {configured : Bool}
    (hs : s.rtDeviceOpen oflag configured = .ok s') :
    (s'.Kept ↔ s.KeepsMode (.open oflag configured)) ∧
      (s.KeepsMode (.open oflag configured) → s'.Sound) := by
  unfold SerialDev.rtDeviceOpen at hs
  split at hs
  case h_1 hnone =>
    have hflag : ¬ s.flag.getLsbD bitActivated = true := by
      intro hflag
      rw [SerialDev.activate, if_pos hflag] at hnone
      cases hnone
    obtain ⟨hzero, hinit⟩ := h.init_eq hflag
    rw [hinit] at hs
    obtain rfl := Except.ok.inj hs
    refine ⟨iff_of_true h.kept fun _ d block hblock => ?_, fun _ => h⟩
    rw [h.kept.closed hzero d] at hblock
    cases hblock
  case h_2 s₁ hactive =>
    obtain ⟨h₁, hflag, hserial, hopens, hbufsz⟩ := h.activate oflag hactive
    split at hs
    case isTrue hbusy =>
      obtain rfl := Except.ok.inj hs
      exact ⟨iff_of_true h₁.kept fun ho => absurd hbusy (hopens.2 ho).1, fun _ => h₁⟩
    case isFalse hbusy =>
      split at hs
      case h_1 hnone =>
        obtain rfl := Except.ok.inj hs
        refine ⟨iff_of_true h₁.kept fun ho => ?_, fun _ => h₁⟩
        rw [rtSerialOpen, if_pos (hopens.2 ho).2] at hnone
        cases hnone
      case h_2 s₂ hopen =>
        obtain ⟨hsup, hshares, hside, hhas, hser⟩ := rtSerialOpen_spec h₁.side hopen
        obtain ⟨-, -, hs⟩ := except_bind_ok hs
        obtain rfl := Except.ok.inj hs
        have ho : s.Opens oflag := hopens.1 ⟨hbusy, hsup⟩
        have hbuf : s₂.bufsz = s.bufsz := hshares.bufsz.trans hbufsz
        rw [hserial, ← hshares.bufsz] at hser
        have hhas' (d : SerialDir) (m : SerialMode) :
            has (s₂.openFlag ||| BitSet.mask 16 bitOpen) d m = true ↔ mode oflag d = some m := by
          have hb := flagBit_bounds d m
          refine (has_insert (by decide)).trans ((or_iff_left ?_).trans (hhas d m))
          unfold bitOpen
          omega
        let s₃ : SerialDev := { s₂ with
          openFlag := s₂.openFlag ||| BitSet.mask 16 bitOpen, refCount := s₂.refCount + 1 }
        have hkept : s₃.Kept ↔ ∀ d, ∀ block ∈ s.serial d,
            ∃ m, mode oflag d = some m ∧ block.layout = layoutOf s₃.bufsz d m :=
          kept_iff_of_opened (Nat.succ_pos _) hhas' hser
        rw [hkept]
        have hcond : s.KeepsMode (.open oflag configured) ↔ ∀ d, ∀ block ∈ s.serial d,
            ∃ m, mode oflag d = some m ∧ block.layout = layoutOf s₂.bufsz d m := by
          rw [hbuf]
          exact ⟨fun hall => hall ho, fun hall _ => hall⟩
        rw [hcond]
        refine ⟨Iff.rfl, fun hall => ⟨hkept.2 hall,
          fun d => ⟨(hside d).blocks, (hside d).ids, (hside d).on⟩, fun _ => ?_⟩⟩
        exact (congrArg (fun w => BitVec.getLsbD w bitActivated) hshares.flag).trans hflag

theorem mode_congr (h : ∀ m, has f d m = true ↔ has g d m = true) : mode f d = mode g d := by
  have hsame (m : SerialMode) : has f d m = has g d m := Bool.eq_iff_iff.2 (h m)
  unfold mode
  rw [hsame, hsame]

theorem Closed.of_agrees {s₁ s₂ s₃ : SerialDev} (h : Closed s₁ s₂ d) (ha : Agrees s₂ s₃ d) :
    Closed s₁ s₃ d where
  serial := ha.serial.trans h.serial
  allocated := ha.allocated.trans h.allocated
  freed := ha.freed.trans h.freed
  enabled m := by
    rw [ha.enabled]
    exact h.enabled m

/-- `rt_serial_close` closes both directions. -/
theorem rtSerialClose_spec (hzero : s.refCount = 0)
    (hfit : ∀ d, (s.serial d).isSome = true → (mode s.openFlag d).isSome = true)
    (hs : s.rtSerialClose = .ok s') : s'.refCount = 0 ∧ ∀ d, Closed s s' d := by
  have hone : ¬ 1 < s.refCount := by omega
  rw [rtSerialClose, if_neg hone] at hs
  obtain ⟨s₁, hrx, hs⟩ := except_bind_ok hs
  obtain ⟨s₂, htx, hs⟩ := except_bind_ok hs
  obtain rfl := Except.ok.inj hs
  have hne : SerialDir.rx ≠ .tx := nofun
  have hrxOther := closeDir_agrees hne.symm hrx
  have htxOther := closeDir_agrees hne htx
  have hmode : mode s₁.openFlag .tx = mode s.openFlag .tx := mode_congr hrxOther.has
  have hfit₁ : (s₁.serial .tx).isSome = true → (mode s₁.openFlag .tx).isSome = true := by
    rw [hrxOther.serial, hmode]
    exact hfit .tx
  have hcount : s₂.refCount = 0 :=
    ((closeDir_shares hrx).trans (closeDir_shares htx)).refCount.trans hzero
  refine ⟨hcount, fun d => ?_⟩
  have hclosed : Closed s s₂ d := by
    cases d with
    | rx => exact (closeDir_closed (hfit .rx) hrx).of_agrees htxOther
    | tx =>
      obtain ⟨hserial, hallocated, hfreed, henabled⟩ := closeDir_closed hfit₁ htx
      refine ⟨hserial, hallocated.trans hrxOther.allocated, ?_, fun m => ?_⟩
      · rw [hfreed, hrxOther.freed, hrxOther.serial]
      · rw [henabled m, hrxOther.enabled, hmode]
  exact ⟨hclosed.serial, hclosed.allocated, hclosed.freed, hclosed.enabled⟩

theorem Side.freed_once (h : Side s d) {block : SerialBlock} (hblock : block ∈ s.allocated d) :
    (s.allocated d).count block = 1 := by
  have hids : ((s.allocated d).map SerialBlock.id).Nodup := by
    rw [h.ids]
    exact List.nodup_range
  exact List.count_eq_one_of_mem hids.of_map hblock

/-- **Closing.** -/
theorem Sound.rtDeviceClose (h : s.Sound) (hs : s.rtDeviceClose = .ok s') :
    (s'.Kept ↔ s.KeepsMode .close) ∧ (s.KeepsMode .close → s'.Sound) := by
  simp only [SerialDev.rtDeviceClose] at hs
  split at hs
  case isTrue hzero =>
    obtain rfl := Except.ok.inj hs
    exact ⟨iff_of_true h.kept fun hone => by omega, fun _ => h⟩
  case isFalse hne =>
    have hopen : 0 < s.refCount := Nat.pos_of_ne_zero hne
    split at hs
    case isTrue hmore =>
      obtain rfl := Except.ok.inj hs
      have hkept : ({ s with refCount := s.refCount - 1 } : SerialDev).Kept :=
        ⟨fun _ => h.kept.present hopen, fun _ => h.kept.layout hopen,
          fun hzero => absurd hzero hmore, fun hzero => absurd hzero hmore,
          fun hzero => absurd hzero hmore⟩
      refine ⟨iff_of_true hkept fun hone => by omega, fun _ => ⟨hkept, fun d => ?_, fun _ => ?_⟩⟩
      · exact ⟨(h.side d).blocks, (h.side d).ids, (h.side d).on⟩
      · exact h.active hopen
    case isFalse hlast =>
      have hone : s.refCount = 1 := by omega
      obtain ⟨s₃, hs₃, hs⟩ := except_bind_ok hs
      obtain rfl := Except.ok.inj hs
      have hfit (d : SerialDir) (hsome : (s.serial d).isSome = true) :
          (mode s.openFlag d).isSome = true :=
        mode_isSome.2 ((h.kept.present hopen d).1 hsome)
      have hspec := rtSerialClose_spec (s := { s with refCount := s.refCount - 1 })
        (not_not.1 hlast) hfit hs₃
      have hzero : s₃.refCount = 0 := hspec.1
      have hclosed (d : SerialDir) : Closed s s₃ d :=
        ⟨(hspec.2 d).serial, (hspec.2 d).allocated, (hspec.2 d).freed, (hspec.2 d).enabled⟩
      have hfreed (d : SerialDir) : s₃.freed d = s.allocated d :=
        (hclosed d).freed.trans (h.side d).blocks.symm
      -- what is left on is what is not among the open flags
      have hoff : (∀ d m, enabled d m s₃.controls = false) ↔ s.KeepsMode .close := by
        constructor
        · intro hall _ d m hon
          by_contra hmode
          have hstill := ((hclosed d).enabled m).2 ⟨hon, hmode⟩
          rw [hall d m] at hstill
          cases hstill
        · intro hall d m
          rw [← Bool.not_eq_true]
          intro hstill
          obtain ⟨hon, hmode⟩ := ((hclosed d).enabled m).1 hstill
          exact hmode (hall hone d m hon)
      have hkept : ({ s₃ with openFlag := 0 } : SerialDev).Kept ↔
          ∀ d m, enabled d m s₃.controls = false := by
        refine ⟨fun hkept => hkept.off hzero, fun hall => ⟨?_, ?_, fun _ d => (hclosed d).serial,
          fun _ => hall, fun _ d block hblock => ?_⟩⟩
        · intro hpos
          exact absurd hzero (Nat.pos_iff_ne_zero.1 hpos)
        · intro hpos
          exact absurd hzero (Nat.pos_iff_ne_zero.1 hpos)
        · have hmem : block ∈ s.allocated d := (hclosed d).allocated ▸ hblock
          have honce := (h.side d).freed_once hmem
          rw [← hfreed d] at honce
          exact honce
      rw [hkept, hoff]
      refine ⟨Iff.rfl, fun hcond => ⟨hkept.2 (hoff.2 hcond), fun d => ⟨?_, ?_, fun m hon => ?_⟩,
        fun hpos => absurd hzero (Nat.pos_iff_ne_zero.1 hpos)⟩⟩
      · have hnone := (hclosed d).serial
        change s₃.allocated d = s₃.freed d ++ (s₃.serial d).toList
        rw [hnone, Option.toList_none, List.append_nil, hfreed d]
        exact (hclosed d).allocated
      · change (s₃.allocated d).map _ = List.range (s₃.allocated d).length
        rw [(hclosed d).allocated]
        exact (h.side d).ids
      · exact absurd ((hoff.2 hcond d m).symm.trans hon) nofun

/-- Configuring. -/
theorem Sound.config (h : s.Sound) (bufsz : Nat) : (s.config bufsz).Sound := by
  unfold SerialDev.config
  split
  case isTrue => exact h
  case isFalse hsame =>
    by_cases hzero : s.refCount = 0
    · have hpos : ¬ 0 < s.refCount := by omega
      refine ⟨⟨fun hp => absurd hp hpos, fun hp => absurd hp hpos, h.kept.closed, h.kept.off,
        h.kept.freed⟩, fun d => ⟨(h.side d).blocks, (h.side d).ids, (h.side d).on⟩, h.active⟩
    · have hbufsz : bufsz = s.bufsz := by
        by_contra hne
        exact hsame ⟨hne, hzero⟩
      subst hbufsz
      exact h

/-- **A step.** -/
theorem Sound.step (h : s.Sound) {a : SerialDevAct} (hs : SerialDev.step s a = some s') :
    (s'.Kept ↔ s.KeepsMode a) ∧ (s.KeepsMode a → s'.Sound) := by
  cases a with
  | «open» oflag configured => exact h.rtDeviceOpen (ok_of_toOption hs)
  | close => exact h.rtDeviceClose (ok_of_toOption hs)
  | config bufsz =>
    obtain rfl := Option.some.inj hs
    exact ⟨iff_of_true (h.config bufsz).kept trivial, fun _ => h.config bufsz⟩

-- --------
-- Whole runs
-- --------

/-- A device that was registered with these flags. -/
def registered (flag : BitVec 16) (bufsz : Nat) : SerialDev := { flag, bufsz }

/-- A device that was registered is closed. -/
theorem registered_sound {flag : BitVec 16} {bufsz : Nat} : (registered flag bufsz).Sound where
  kept := ⟨nofun, nofun, fun _ _ => rfl, fun _ _ _ => rfl, nofun⟩
  side _ := ⟨rfl, rfl, nofun⟩
  active := nofun

/-- A sequence of opens and closes, with its steps. -/
abbrev SerialSteps (flag : BitVec 16) (bufsz : Nat) (s : SerialDev)
    (log : List (SerialDev × SerialDevAct)) : Prop :=
  Runs (Runs.Observed (Runs.Exec step) Runs.steps) Runs.always (registered flag bufsz, []) (s, log)

/-- **Opening and closing.** In all states of a run the structures, the flags and the interrupts go
together if and only if every open keeps the layout of the structures that are there, and
every last close finds nothing on but what the open flags say. -/
theorem serial_structures {flag : BitVec 16} {bufsz : Nat} {log : List (SerialDev × SerialDevAct)}
    (hrun : SerialSteps flag bufsz s log) :
    (s.Kept ∧ ∀ p ∈ log, p.1.Kept) ↔ ∀ p ∈ log, p.1.KeepsMode p.2 :=
  Runs.steps_good_iff (fun _ h => h.kept) (fun _ _ _ h hs => h.step hs) registered_sound hrun

instance : Fintype SerialDir := ⟨{.rx, .tx}, fun d => by cases d <;> decide⟩

instance : Fintype SerialMode := ⟨{.int, .dma}, fun m => by cases m <;> decide⟩

instance (s : SerialDev) (oflag : BitVec 16) : Decidable (s.Opens oflag) :=
  inferInstanceAs (Decidable (_ ∧ _))

instance (s : SerialDev) (a : SerialDevAct) : Decidable (s.KeepsMode a) := by
  cases a <;> simp only [KeepsMode] <;> infer_instance

theorem replayed {acts : List SerialDevAct}
    {p : SerialDev × List (SerialDev × SerialDevAct) → Bool}
    (h : (Runs.replay (Runs.execOk (Runs.execObserved step Runs.steps) Runs.always)
      (registered 0xf00#16 2048, []) acts).any p = true) :
    ∃ s log, SerialSteps 0xf00#16 2048 s log ∧ p (s, log) = true := by
  obtain ⟨⟨s, log⟩, hrun, hp⟩ := Runs.observed_of_replay h
  exact ⟨s, log, hrun, hp⟩

/-- A polled device becomes one with interrupts, is opened once more the same way, and closed. -/
theorem serial_structures_twice : ∃ s log, SerialSteps 0xf00#16 2048 s log ∧ log.length = 6 ∧
    (s.freed .rx).length = 1 ∧ s.Kept ∧ ∀ p ∈ log, p.1.Kept := by
  obtain ⟨s, log, hrun, hp⟩ := @replayed
    [.open 0#16 true, .open 0x900#16 true, .open 0x900#16 true, .close, .close, .close]
    (fun q => decide (q.2.length = 6 ∧ (q.1.freed .rx).length = 1 ∧
      ∀ p ∈ q.2, p.1.KeepsMode p.2)) (by decide +kernel)
  obtain ⟨hlength, hfreed, hok⟩ := of_decide_eq_true hp
  exact ⟨s, log, hrun, hlength, hfreed, (serial_structures hrun).2 hok⟩

/-- A device with a receive interrupt is opened once more to be polled: both closes leave
the structure allocated and the interrupt on. Opened for interrupt and for DMA transmission, it
has the structure of the one and the routines of the other. -/
theorem reopened_lost :
    (∃ s log, SerialSteps 0xf00#16 2048 s log ∧ s.refCount = 0 ∧ (s.serial .rx).isSome = true ∧
      s.freed .rx = [] ∧ enabled .rx .int s.controls = true ∧ ¬ s.Kept) ∧
    ∃ s log, SerialSteps 0xf00#16 2048 s log ∧ 0 < s.refCount ∧
      s.serial .tx = some ⟨0, .txFifo⟩ ∧ mode s.openFlag .tx = some .dma ∧ ¬ s.Kept := by
  constructor
  · obtain ⟨s, log, hrun, hp⟩ := @replayed [.open 0x100#16 true, .open 0#16 true, .close, .close]
      (fun q => decide (q.1.refCount = 0 ∧ (q.1.serial .rx).isSome = true ∧ q.1.freed .rx = [] ∧
        enabled .rx .int q.1.controls = true)) (by decide +kernel)
    obtain ⟨hzero, hsome, hfreed, hon⟩ := of_decide_eq_true hp
    refine ⟨s, log, hrun, hzero, hsome, hfreed, hon, fun hkept => ?_⟩
    rw [hkept.off hzero] at hon
    cases hon
  · obtain ⟨s, log, hrun, hp⟩ := @replayed [.open 0x400#16 true, .open 0x800#16 true]
      (fun q => decide (0 < q.1.refCount ∧ q.1.serial .tx = some ⟨0, .txFifo⟩ ∧
        mode q.1.openFlag .tx = some .dma)) (by decide +kernel)
    obtain ⟨hopen, hserial, hmode⟩ := of_decide_eq_true hp
    refine ⟨s, log, hrun, hopen, hserial, hmode, fun hkept => ?_⟩
    exact absurd (hkept.layout hopen .tx hserial hmode) nofun

end SerialDev

end RTThread
