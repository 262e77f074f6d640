import RTThread.Rtdef
import RTThread.Lib.Runs
import Mathlib.Data.List.Basic
import Mathlib.Tactic.Linarith

/-!
# Flash partitions (`components/fal/src/fal_partition.c`)

A partition is a range of a flash device. The table that is checked first is the configured one
(`FAL_PART_HAS_TABLE_CFG`), and `fal_set_partition_table_temp` puts another one in its place. The
devices of the partitions are looked up once and kept in a static array with an entry for each
configured partition. Assertions are on (`FAL_DEBUG`). `long` and `size_t` are words of 32 bits.

`fal_requests`: a run serves requests inside their partition and keeps a rejected table out if and
only if every request that passes the range test neither wraps around nor leaves its device, and
every replacement is accepted and fits into the array.
-/

namespace RTThread

/-- `FAL_DEV_NAME_MAX` -/
def falDevNameMax : Nat := 24

/-- `struct fal_flash_dev`: what the partitions use of it. -/
structure FalFlashDev where
  name : List Char
  len : BitVec 32
deriving DecidableEq

/-- `struct fal_partition` -/
structure FalPartition where
  name : List Char
  flashName : List Char
  offset : BitVec 32
  len : BitVec 32
deriving DecidableEq

/-- `FAL_FLASH_DEV_TABLE` and `FAL_PART_TABLE`. -/
structure FalCfg where
  deviceTable : List FalFlashDev
  partitionTableDef : List FalPartition

/-- `ops.read`, `ops.write` and `ops.erase`. -/
inductive FalOp
  | read
  | write
  | erase
deriving DecidableEq

/-- A call of the flash driver. -/
structure FalCall where
  op : FalOp
  dev : FalFlashDev
  offset : BitVec 32
  size : BitVec 32
deriving DecidableEq

/-- The static variables of the partition layer. -/
structure Fal where
  partitionTable : List FalPartition := []
  partitionTableLen : Nat := 0
  partFlashCache : List (Option FalFlashDev)
  initOk : Bool := false
deriving DecidableEq

/-- What is called. A partition is given by its place in the table. -/
inductive FalAct
  /-- `fal_partition_init` -/
  | init
  /-- `fal_set_partition_table_temp(table, len)` -/
  | setTable (table : List FalPartition)
  | request (op : FalOp) (part : Nat) (addr size : BitVec 32)

-- --------
-- The code
-- --------

/-- `fal_flash_device_find` -/
def FalCfg.falFlashDeviceFind (cfg : FalCfg) (name : List Char) : Option FalFlashDev :=
  cfg.deviceTable.find? fun dev => name.take falDevNameMax = dev.name.take falDevNameMax

/-- The loop of `check_and_update_part_cache` from the entry `i` on: whether the rest of the table
is accepted, and the array. -/
def FalCfg.checkParts (cfg : FalCfg) :
    List FalPartition → Nat → List (Option FalFlashDev) →
      Except Fault (Bool × List (Option FalFlashDev))
  | [], _, cache => return (true, cache)
  | part :: parts, i, cache =>
    match cfg.falFlashDeviceFind part.flashName with
    | none => cfg.checkParts parts (i + 1) cache
    | some dev =>
      if dev.len.toInt ≤ part.offset.toInt then return (false, cache)
      else if i < cache.length then cfg.checkParts parts (i + 1) (cache.set i (some dev))
      else throw .badPointer

namespace Fal

/-- `check_and_update_part_cache(table, len)` -/
def checkAndUpdatePartCache (cfg : FalCfg) (s : Fal) (table : List FalPartition) :
    Except Fault (Bool × Fal) := do
  let (accepted, cache) ← cfg.checkParts table 0 s.partFlashCache
  let s := { s with partFlashCache := cache }
  return (accepted, if accepted then s else { s with partitionTableLen := 0 })

/-- `fal_partition_init` -/
def falPartitionInit (cfg : FalCfg) (s : Fal) : Except Fault Fal :=
  if s.initOk then return s
  else do
    let s := { s with
      partitionTable := cfg.partitionTableDef
      partitionTableLen := cfg.partitionTableDef.length }
    let (accepted, s) ← s.checkAndUpdatePartCache cfg s.partitionTable
    return if accepted then { s with initOk := true } else s

/-- `fal_set_partition_table_temp`. Nothing looks at what the check says. -/
def falSetPartitionTableTemp (cfg : FalCfg) (s : Fal) (table : List FalPartition) :
    Except Fault Fal := do
  rtAssert (s.initOk = true)
  let (_, s) ← s.checkAndUpdatePartCache cfg table
  return { s with partitionTableLen := table.length, partitionTable := table }

/-- The table in use. -/
def table (s : Fal) : List FalPartition := s.partitionTable.take s.partitionTableLen

/-- `flash_device_find_by_part` -/
def flashDeviceFindByPart (s : Fal) (part : Nat) : Except Fault (Option FalFlashDev) := do
  rtAssert (part < s.partitionTableLen)
  deref s.partFlashCache[part]?

/-- `fal_partition_read`, `fal_partition_write` and `fal_partition_erase`: the call of the driver,
or none for -1. -/
def falPartitionRequest (s : Fal) (op : FalOp) (part : Nat) (addr size : BitVec 32) :
    Except Fault (Option FalCall) := do
  let p ← deref s.table[part]?
  if p.len < addr + size then return none
  else
    match ← s.flashDeviceFindByPart part with
    | none => return none
    | some dev => return some ⟨op, dev, p.offset + addr, size⟩

/-- What the three functions return. The driver's `answer` is passed on. -/
def falPartitionResult (answer : FalCall → Int) (s : Fal) (op : FalOp) (part : Nat)
    (addr size : BitVec 32) : Except Fault Int := do
  match ← s.falPartitionRequest op part addr size with
  | none => return -1
  | some call => return answer call

/-- `fal_partition_erase_all` -/
def falPartitionEraseAll (s : Fal) (part : Nat) : Except Fault (Option FalCall) := do
  let p ← deref s.table[part]?
  s.falPartitionRequest .erase part 0 p.len

/-- **A step.** A request leaves the table alone. -/
def step (cfg : FalCfg) (s : Fal) : FalAct → Option Fal
  | .init => (s.falPartitionInit cfg).toOption
  | .setTable table => (s.falSetPartitionTableTemp cfg table).toOption
  | .request op part addr size => (s.falPartitionRequest op part addr size).toOption.map fun _ => s

-- --------
-- What is to hold
-- --------

/-- The bytes of a call lie in the partition and on the device that the partition names. -/
structure Inside (cfg : FalCfg) (part : FalPartition) (call : FalCall) : Prop where
  device : cfg.falFlashDeviceFind part.flashName = some call.dev
  start : part.offset.toInt ≤ call.offset.toInt
  stop : call.offset.toInt + call.size.toNat ≤ part.offset.toInt + part.len.toNat
  nonneg : 0 ≤ call.offset.toInt
  within : call.offset.toInt + call.size.toNat ≤ call.dev.len.toNat

/-- A table comes into use by the call only if it is accepted. -/
def Guarded (cfg : FalCfg) (s : Fal) (table : List FalPartition) (r : Except Fault Fal) : Prop :=
  ∃ accepted s₁ s', s.checkAndUpdatePartCache cfg table = .ok (accepted, s₁) ∧ r = .ok s' ∧
    (accepted = false → s'.table = s.table)

/-- **What a call of the layer is to do.** A request for a partition of the table reaches the
driver only inside the partition and otherwise returns -1, and a table that is rejected does not
come into use. -/
def Safe (cfg : FalCfg) (s : Fal) : FalAct → Prop
  | .init => s.initOk = false →
      Guarded cfg s cfg.partitionTableDef (s.falPartitionInit cfg)
  | .setTable table => s.initOk = true →
      Guarded cfg s table (s.falSetPartitionTableTemp cfg table)
  | .request op part addr size => ∀ p, s.table[part]? = some p →
      ∃ o, s.falPartitionRequest op part addr size = .ok o ∧ (∀ call ∈ o, Inside cfg p call) ∧
        (o = none → ∀ answer, falPartitionResult answer s op part addr size = .ok (-1))

/-- The check's own test of the entries. -/
def Accepts (cfg : FalCfg) (table : List FalPartition) : Prop :=
  ∀ p ∈ table, ∀ dev ∈ cfg.falFlashDeviceFind p.flashName, p.offset.toInt < dev.len.toInt

/-- The entries from `i` on whose device is there have a place in the array. -/
def Fits (cfg : FalCfg) (table : List FalPartition) (i n : Nat) : Prop :=
  ∀ j p, table[j]? = some p → (cfg.falFlashDeviceFind p.flashName).isSome = true → i + j < n

/-- What is asked for lies on the device that the partition names, and nothing wraps around. -/
structure OnDevice (cfg : FalCfg) (p : FalPartition) (addr size : BitVec 32) (dev : FalFlashDev) :
    Prop where
  device : cfg.falFlashDeviceFind p.flashName = some dev
  noWrap : addr.toNat + size.toNat < 2 ^ 32
  fitsLong : p.offset.toInt + addr.toNat < 2 ^ 31
  nonneg : 0 ≤ p.offset.toInt + addr.toNat
  within : p.offset.toInt + addr.toNat + size.toNat ≤ dev.len.toNat

/-- **When the layer does it.** A request that passes the range test is one on the device, and a
new table is accepted and fits into the array. -/
def Checked (cfg : FalCfg) (s : Fal) : FalAct → Prop
  | .init => True
  | .setTable table => s.initOk = true →
      Accepts cfg table ∧ Fits cfg table 0 s.partFlashCache.length
  | .request _ part addr size => ∀ p, s.table[part]? = some p → ¬ p.len < addr + size →
      ∃ o, s.partFlashCache[part]? = some o ∧ ∀ dev ∈ o, OnDevice cfg p addr size dev

-- --------
-- The check of a table
-- --------

variable {cfg : FalCfg} {s s' : Fal} {p : FalPartition} {table parts : List FalPartition}
  {cache cache' : List (Option FalFlashDev)} {dev : FalFlashDev} {i n : Nat}

theorem accepts_cons :
    Accepts cfg (p :: parts) ↔
      (∀ dev ∈ cfg.falFlashDeviceFind p.flashName, p.offset.toInt < dev.len.toInt) ∧
        Accepts cfg parts := List.forall_mem_cons

theorem fits_cons : Fits cfg (p :: parts) i n ↔
    ((cfg.falFlashDeviceFind p.flashName).isSome = true → i < n) ∧ Fits cfg parts (i + 1) n := by
  constructor
  · intro h
    refine ⟨fun hsome => h 0 p rfl hsome, fun j q hq hsome => ?_⟩
    have hj := h (j + 1) q hq hsome
    omega
  · rintro ⟨hhead, htail⟩ j q hq hsome
    cases j with
    | zero =>
      obtain rfl := Option.some.inj hq
      exact hhead hsome
    | succ j =>
      have hj := htail j q hq hsome
      omega

/-- **What the check says.** -/
theorem checkParts_spec {accepted : Bool} :
    ∀ {parts : List FalPartition} {i : Nat} {cache : List (Option FalFlashDev)},
      cfg.checkParts parts i cache = .ok (accepted, cache') →
        cache'.length = cache.length ∧ (accepted = true ↔ Accepts cfg parts) ∧
          (accepted = true → Fits cfg parts i cache.length) := by
  intro parts
  induction parts with
  | nil =>
    intro i cache h
    cases h
    exact ⟨rfl, iff_of_true rfl nofun, fun _ => nofun⟩
  | cons p parts ih =>
    intro i cache h
    rw [accepts_cons, fits_cons]
    cases hfind : cfg.falFlashDeviceFind p.flashName with
    | none =>
      simp only [FalCfg.checkParts, hfind] at h
      obtain ⟨hlen, haccept, hfits⟩ := ih h
      refine ⟨hlen, haccept.trans ?_, fun hacc => ⟨nofun, hfits hacc⟩⟩
      exact (and_iff_right nofun).symm
    | some dev =>
      simp only [FalCfg.checkParts, hfind] at h
      split at h
      case isTrue hout =>
        cases h
        refine ⟨rfl, iff_of_false nofun fun hall => ?_, nofun⟩
        exact absurd (hall.1 dev rfl) (not_lt.2 hout)
      case isFalse hin =>
        split at h
        case isTrue hi =>
          obtain ⟨hlen, haccept, hfits⟩ := ih h
          rw [List.length_set] at hlen hfits
          refine ⟨hlen, haccept.trans ?_, fun hacc => ⟨fun _ => hi, hfits hacc⟩⟩
          refine (and_iff_right fun dev' hdev' => ?_).symm
          obtain rfl := Option.some.inj hdev'
          exact not_le.1 hin
        case isFalse => cases h

/-- The check of a table that fits comes to an end. -/
theorem checkParts_ok : ∀ {parts : List FalPartition} {i : Nat} {cache : List (Option FalFlashDev)},
    Fits cfg parts i cache.length →
      ∃ accepted cache', cfg.checkParts parts i cache = .ok (accepted, cache') := by
  intro parts
  induction parts with
  | nil => exact fun _ => ⟨_, _, rfl⟩
  | cons p parts ih =>
    intro i cache h
    rw [fits_cons] at h
    cases hfind : cfg.falFlashDeviceFind p.flashName with
    | none =>
      simp only [FalCfg.checkParts, hfind]
      exact ih h.2
    | some dev =>
      simp only [FalCfg.checkParts, hfind]
      have hi : i < cache.length := h.1 (by rw [hfind]; rfl)
      split
      · exact ⟨_, _, rfl⟩
      · refine ih ?_
        rw [List.length_set]
        exact h.2

-- --------
-- A request
-- --------

/-- The address of a request is the sum, unless `long` is too small for it. -/
theorem toInt_add_eq {addr : BitVec 32} (hnonneg : 0 ≤ p.offset.toInt + addr.toNat) :
    (p.offset + addr).toInt = p.offset.toInt + addr.toNat ↔
      p.offset.toInt + addr.toNat < 2 ^ 31 := by
  have haddr := addr.isLt
  have hoff := p.offset.isLt
  rw [BitVec.toInt_eq_toNat_cond, BitVec.toNat_add] at *
  rw [BitVec.toInt_eq_toNat_cond] at *
  split at hnonneg
  all_goals
    split
    all_goals omega

theorem toInt_add_of_le {addr : BitVec 32} (h : p.offset.toInt ≤ (p.offset + addr).toInt) :
    (p.offset + addr).toInt = p.offset.toInt + addr.toNat := by
  have haddr := addr.isLt
  have hoff := p.offset.isLt
  rw [BitVec.toInt_eq_toNat_cond, BitVec.toInt_eq_toNat_cond, BitVec.toNat_add] at h ⊢
  split at h
  all_goals
    split at h
    all_goals omega

/-- **A request that passes the range test.** -/
theorem inside_iff {op : FalOp} {addr size : BitVec 32} (hrange : ¬ p.len < addr + size) :
    Inside cfg p ⟨op, dev, p.offset + addr, size⟩ ↔ OnDevice cfg p addr size dev := by
  have haddr := addr.isLt
  have hlen := p.len.isLt
  rw [BitVec.lt_def, BitVec.toNat_add] at hrange
  constructor
  · rintro ⟨hdevice, hstart, hstop, hnonneg, hwithin⟩
    have hat : (p.offset + addr).toInt = p.offset.toInt + addr.toNat := toInt_add_of_le hstart
    simp only [hat] at hstop hnonneg hwithin
    exact ⟨hdevice, by omega, (toInt_add_eq hnonneg).1 hat, hnonneg, hwithin⟩
  · rintro ⟨hdevice, hwrap, hlong, hnonneg, hwithin⟩
    have hat : (p.offset + addr).toInt = p.offset.toInt + addr.toNat :=
      (toInt_add_eq hnonneg).2 hlong
    refine ⟨hdevice, ?_, ?_, ?_, ?_⟩
    all_goals
      simp only [hat]
      omega

/-- **Requests.** -/
theorem request_safe_iff {op : FalOp} {part : Nat} {addr size : BitVec 32} :
    Safe cfg s (.request op part addr size) ↔ Checked cfg s (.request op part addr size) := by
  refine forall₂_congr fun p hp => ?_
  have hpart : part < s.partitionTableLen :=
    (List.getElem?_eq_some_iff.1 hp).1.trans_le (List.length_take_le _ _)
  by_cases hrange : p.len < addr + size
  · have hnone : s.falPartitionRequest op part addr size = .ok none := by
      rw [falPartitionRequest, deref_bind hp, if_pos hrange]
      rfl
    refine iff_of_true ⟨none, hnone, nofun, fun _ answer => ?_⟩ fun h => absurd hrange h
    rw [falPartitionResult, hnone]
    rfl
  · rw [forall_prop_of_true hrange]
    have heq : s.falPartitionRequest op part addr size =
        deref s.partFlashCache[part]? >>= fun o =>
          return o.map fun dev => ⟨op, dev, p.offset + addr, size⟩ := by
      rw [falPartitionRequest, deref_bind hp, if_neg hrange, flashDeviceFindByPart,
        rtAssert_bind hpart]
      cases s.partFlashCache[part]? with
      | none => rfl
      | some o => cases o <;> rfl
    cases hcache : s.partFlashCache[part]? with
    | none =>
      rw [hcache] at heq
      refine iff_of_false ?_ nofun
      rintro ⟨o, ho, -⟩
      rw [heq] at ho
      cases ho
    | some o =>
      rw [hcache] at heq
      cases o with
      | none =>
        refine iff_of_true ⟨none, heq, nofun, fun _ answer => ?_⟩ ⟨none, rfl, nofun⟩
        rw [falPartitionResult, heq]
        rfl
      | some dev =>
        constructor
        · rintro ⟨o, ho, hin, -⟩
          obtain rfl := Except.ok.inj (heq.symm.trans ho)
          refine ⟨some dev, rfl, fun dev' hdev' => ?_⟩
          obtain rfl := Option.some.inj hdev'
          exact (inside_iff hrange).1 (hin _ rfl)
        · rintro ⟨o, ho, hon⟩
          obtain rfl := Option.some.inj ho
          refine ⟨_, heq, fun call hcall => ?_, nofun⟩
          obtain rfl := Option.some.inj hcall
          exact (inside_iff hrange).2 (hon dev rfl)

-- --------
-- Tables
-- --------

/-- **The invariant.** The array has its length, and the table in use was accepted. -/
structure Sound (cfg : FalCfg) (s : Fal) : Prop where
  length : s.partFlashCache.length = cfg.partitionTableDef.length
  accepted : s.initOk = true → Accepts cfg s.table
  empty : s.initOk = false → s.table = []

theorem checkAndUpdate_ok {accepted : Bool}
    (h : cfg.checkParts table 0 s.partFlashCache = .ok (accepted, cache')) :
    s.checkAndUpdatePartCache cfg table = .ok (accepted,
      if accepted then { s with partFlashCache := cache' }
      else { s with partFlashCache := cache', partitionTableLen := 0 }) := by
  rw [checkAndUpdatePartCache, h]
  rfl

theorem checkAndUpdate_eq {accepted : Bool} {s₁ : Fal}
    (h : s.checkAndUpdatePartCache cfg table = .ok (accepted, s₁)) :
    ∃ cache', cfg.checkParts table 0 s.partFlashCache = .ok (accepted, cache') := by
  obtain ⟨⟨accepted', cache'⟩, hcheck, h⟩ := except_bind_ok h
  cases h
  exact ⟨cache', hcheck⟩

theorem setTable_ok {accepted : Bool} (hinit : s.initOk = true)
    (h : cfg.checkParts table 0 s.partFlashCache = .ok (accepted, cache')) :
    s.falSetPartitionTableTemp cfg table = .ok { s with
      partFlashCache := cache'
      partitionTableLen := table.length
      partitionTable := table } := by
  rw [falSetPartitionTableTemp, rtAssert_bind hinit, checkAndUpdate_ok h]
  cases accepted <;> rfl

/-- **Replacements.** -/
theorem Sound.setTable_safe_iff (h : Sound cfg s) :
    Safe cfg s (.setTable table) ↔ Checked cfg s (.setTable table) := by
  refine forall_congr' fun hinit => ?_
  constructor
  · rintro ⟨accepted, s₁, s', hcheck, hset, hkept⟩
    obtain ⟨cache', hparts⟩ := checkAndUpdate_eq hcheck
    obtain ⟨-, haccept, hfits⟩ := checkParts_spec hparts
    cases accepted with
    | true => exact ⟨haccept.1 rfl, hfits rfl⟩
    | false =>
      -- a table that is rejected is not the one in use, which was accepted
      rw [setTable_ok hinit hparts] at hset
      obtain rfl := Except.ok.inj hset
      have htable : table = s.table := by
        have hsame := hkept rfl
        rwa [Fal.table, List.take_length] at hsame
      rw [htable] at haccept
      exact absurd (haccept.2 (h.accepted hinit)) nofun
  · rintro ⟨haccept, hfits⟩
    obtain ⟨accepted, cache', hparts⟩ := checkParts_ok hfits
    have hacc : accepted = true := (checkParts_spec hparts).2.1.2 haccept
    refine ⟨_, _, _, checkAndUpdate_ok hparts, setTable_ok hinit hparts, fun hrej => ?_⟩
    rw [hacc] at hrej
    cases hrej

theorem Sound.fits_def (h : Sound cfg s) : Fits cfg cfg.partitionTableDef 0
    s.partFlashCache.length := by
  intro j p hp _
  have hj := (List.getElem?_eq_some_iff.1 hp).1
  rw [h.length]
  omega

/-- What `fal_partition_init` leaves. -/
theorem init_ok {accepted : Bool} (hinit : s.initOk = false)
    (h : cfg.checkParts cfg.partitionTableDef 0 s.partFlashCache = .ok (accepted, cache')) :
    s.falPartitionInit cfg = .ok { s with
      partFlashCache := cache'
      partitionTable := cfg.partitionTableDef
      partitionTableLen := if accepted then cfg.partitionTableDef.length else 0
      initOk := accepted } := by
  obtain ⟨_, _, cache, ok⟩ := s
  obtain rfl : ok = false := hinit
  simp only [falPartitionInit, if_neg Bool.false_ne_true]
  rw [checkAndUpdate_ok (by exact h)]
  cases accepted
  · rfl
  · rfl

/-- **The first table.** -/
theorem Sound.init_safe (h : Sound cfg s) : Safe cfg s .init := by
  intro hinit
  obtain ⟨accepted, cache', hparts⟩ := checkParts_ok h.fits_def
  refine ⟨_, _, _, checkAndUpdate_ok hparts, init_ok hinit hparts, ?_⟩
  rintro rfl
  rw [h.empty hinit]
  rfl

theorem Sound.safe_iff (h : Sound cfg s) (a : FalAct) : Safe cfg s a ↔ Checked cfg s a := by
  cases a with
  | init => exact iff_of_true h.init_safe trivial
  | setTable table => exact h.setTable_safe_iff
  | request op part addr size => exact request_safe_iff

/-- What a step does: it takes the table that was checked. -/
theorem step_cases {a : FalAct} (hs : step cfg s a = some s') : s' = s ∨
    (s.initOk = false ∧ a = .init ∧ ∃ accepted cache',
      cfg.checkParts cfg.partitionTableDef 0 s.partFlashCache = .ok (accepted, cache') ∧
      s' = { s with
        partFlashCache := cache'
        partitionTable := cfg.partitionTableDef
        partitionTableLen := if accepted then cfg.partitionTableDef.length else 0
        initOk := accepted }) ∨
    ∃ table accepted cache', s.initOk = true ∧ a = .setTable table ∧
      cfg.checkParts table 0 s.partFlashCache = .ok (accepted, cache') ∧
      s' = { s with
        partFlashCache := cache'
        partitionTableLen := table.length
        partitionTable := table } := by
  cases a with
  | init =>
    have hs := ok_of_toOption hs
    cases hinit : s.initOk with
    | true =>
      rw [falPartitionInit, if_pos hinit] at hs
      exact Or.inl (Except.ok.inj hs).symm
    | false =>
      have hnot : ¬ s.initOk = true := by
        rw [hinit]
        exact nofun
      have hcopy := hs
      rw [falPartitionInit, if_neg hnot] at hcopy
      obtain ⟨⟨accepted, s₁⟩, hcheck, -⟩ := except_bind_ok hcopy
      obtain ⟨cache', hparts⟩ := checkAndUpdate_eq hcheck
      rw [init_ok hinit hparts] at hs
      exact Or.inr (Or.inl ⟨rfl, rfl, accepted, cache', hparts, (Except.ok.inj hs).symm⟩)
  | setTable table =>
    have hs := ok_of_toOption hs
    obtain ⟨u, hassert, hrest⟩ := except_bind_ok hs
    have hinit := of_rtAssert hassert
    obtain ⟨⟨accepted, s₁⟩, hcheck, -⟩ := except_bind_ok hrest
    obtain ⟨cache', hparts⟩ := checkAndUpdate_eq hcheck
    rw [setTable_ok hinit hparts] at hs
    exact Or.inr (Or.inr ⟨table, accepted, cache', hinit, rfl, hparts, (Except.ok.inj hs).symm⟩)
  | request op part addr size =>
    obtain ⟨-, -, rfl⟩ := Option.map_eq_some_iff.1 hs
    exact Or.inl rfl

/-- A step that meets the condition. -/
theorem Sound.step (h : Sound cfg s) {a : FalAct} (hok : Checked cfg s a)
    (hs : Fal.step cfg s a = some s') : Sound cfg s' := by
  obtain rfl | ⟨hinit, -, accepted, cache', hparts, rfl⟩ |
    ⟨table, accepted, cache', hinit, rfl, hparts, rfl⟩ := step_cases hs
  · exact h
  · obtain ⟨hlen, haccept, -⟩ := checkParts_spec hparts
    refine ⟨hlen.trans h.length, fun hacc => ?_, fun hrej => ?_⟩
    · change accepted = true at hacc
      subst hacc
      change Accepts cfg (cfg.partitionTableDef.take cfg.partitionTableDef.length)
      rw [List.take_length]
      exact haccept.1 rfl
    · change accepted = false at hrej
      subst hrej
      rfl
  · obtain ⟨hlen, -, -⟩ := checkParts_spec hparts
    refine ⟨hlen.trans h.length, fun _ => ?_, fun hrej => ?_⟩
    · change Accepts cfg (table.take table.length)
      rw [List.take_length]
      exact (hok hinit).1
    · exact absurd (hinit.symm.trans hrej) nofun

-- --------
-- Whole runs
-- --------

/-- The variables at the start. -/
def boot (cfg : FalCfg) : Fal where
  partFlashCache := List.replicate cfg.partitionTableDef.length none

/-- There is no table at the start. -/
theorem boot_sound : Sound cfg (boot cfg) := ⟨List.length_replicate, nofun, fun _ => rfl⟩

theorem Sound.along_safe_iff (h : Sound cfg s) (acts : List FalAct) :
    Runs.Along (Fal.step cfg) (Safe cfg) s acts ↔ Runs.Along (Fal.step cfg) (Checked cfg) s acts :=
  Runs.along_iff (fun _ a h => h.safe_iff a) (fun _ _ _ h hok hs => h.step hok hs) h

/-- **Partitions.** In a run from the start every request that reaches the flash driver stays
inside its partition and every rejected table stays out of use if and only if what passes the range
test lies on the device of the partition, and every replacement is accepted and fits. -/
theorem fal_requests (cfg : FalCfg) (acts : List FalAct) :
    Runs.Along (step cfg) (Safe cfg) (boot cfg) acts ↔
      Runs.Along (step cfg) (Checked cfg) (boot cfg) acts :=
  boot_sound.along_safe_iff acts

/-- The board's flash of 16 MiB, and its table. -/
def board : FalCfg where
  deviceTable := [⟨"norflash0".toList, 0x1000000⟩]
  partitionTableDef := [⟨"rtthread".toList, "norflash0".toList, 0, 0x400000⟩,
    ⟨"filesystem".toList, "norflash0".toList, 0x400000, 0xc00000⟩]

/-- A range that wraps around passes the test and goes over the whole flash. A partition that
reaches over the end of the flash is accepted, and its bytes are asked of the device. A table that
is rejected comes into use. -/
theorem filesystem_erased :
    ¬ Runs.Along (step board) (Safe board) (boot board) [.init, .request .erase 1 1 0xffffffff] ∧
    ¬ Runs.Along (step board) (Safe board) (boot board)
      [.init, .setTable [⟨"big".toList, "norflash0".toList, 0, 0x2000000⟩],
        .request .read 0 0x1000000 16] ∧
    ¬ Runs.Along (step board) (Safe board) (boot board)
      [.init, .setTable [⟨"far".toList, "norflash0".toList, 0x1000000, 16⟩]] := by
  let started : Fal := ⟨board.partitionTableDef, 2, List.replicate 2 board.deviceTable.head?, true⟩
  let big : FalPartition := ⟨"big".toList, "norflash0".toList, 0, 0x2000000⟩
  let replaced : Fal := ⟨[big], 1, List.replicate 2 board.deviceTable.head?, true⟩
  have hinit : step board (boot board) .init = some started := by decide +kernel
  have hset : step board started (.setTable [big]) = some replaced := by decide +kernel
  refine ⟨?_, ?_, ?_⟩
  · rintro ⟨-, h⟩
    obtain ⟨o, ho, hin, -⟩ := (h _ hinit).1 _ rfl
    have hcall : started.falPartitionRequest .erase 1 1 0xffffffff =
      .ok (some ⟨.erase, ⟨"norflash0".toList, 0x1000000⟩, 0x400001, 0xffffffff⟩) := by decide +kernel
    obtain rfl := Except.ok.inj (hcall.symm.trans ho)
    exact absurd (hin _ rfl).within (by decide +kernel)
  · rintro ⟨-, h⟩
    obtain ⟨-, h⟩ := h _ hinit
    obtain ⟨o, ho, hin, -⟩ := (h _ hset).1 _ rfl
    have hcall : replaced.falPartitionRequest .read 0 0x1000000 16 =
      .ok (some ⟨.read, ⟨"norflash0".toList, 0x1000000⟩, 0x1000000, 16⟩) := by decide +kernel
    obtain rfl := Except.ok.inj (hcall.symm.trans ho)
    exact absurd (hin _ rfl).within (by decide +kernel)
  · rintro ⟨-, h⟩
    obtain ⟨accepted, s₁, s', hcheck, hset, hkept⟩ := (h _ hinit).1 rfl
    have hrejected : started.checkAndUpdatePartCache board
        [⟨"far".toList, "norflash0".toList, 0x1000000, 16⟩] =
          .ok (false, { started with partitionTableLen := 0 }) := by decide +kernel
    have htaken : started.falSetPartitionTableTemp board
        [⟨"far".toList, "norflash0".toList, 0x1000000, 16⟩] = .ok { started with
          partitionTable := [⟨"far".toList, "norflash0".toList, 0x1000000, 16⟩]
          partitionTableLen := 1 } := by decide +kernel
    obtain ⟨rfl, rfl⟩ := Prod.mk.inj (Except.ok.inj (hrejected.symm.trans hcheck))
    obtain rfl := Except.ok.inj (htaken.symm.trans hset)
    exact absurd (hkept rfl) (by decide +kernel)

end Fal

end RTThread
