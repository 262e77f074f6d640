import RTThread.Dfs.NormalizePath
import RTThread.Lib.Runs

/-!
# The mount table (`components/dfs/src/dfs_fs.c`)

Sixteen entries, empty or claimed by a mounted file system. `dfs_mount` claims the first empty
entry before the file system's own `mount` runs and clears it again where that fails;
`dfs_unmount` and `dfs_unmount_device` clear the entry of a path and of a device. What the
rest of the system answers to a call (the device and the type that are looked for, the
directory that is opened, the callbacks) is the environment of the call.

The table is a set of mounted paths, each found by `dfs_filesystem_lookup`. Two calls break
this: `dfs_mount` compares the stored paths with its argument as it is spelled and stores it
normalised, and `dfs_unmount_device` reads the device of every entry on its way, also of those
without one. `mountTable_meets_iff` is exact about both.
-/

namespace RTThread.Dfs

/-- `DFS_FILESYSTEMS_MAX`. -/
abbrev dfsFilesystemsMax : Nat := 16

/-- `struct rt_device`, as far as it is compared. -/
structure Device where
  name : CString
deriving DecidableEq

/-- `struct dfs_filesystem_ops`: the name, and whether the callbacks are there. -/
structure DfsFilesystemOps where
  name : CString
  mount : Bool
  unmount : Bool
deriving DecidableEq

/-- `struct dfs_filesystem`. -/
structure DfsFilesystem where
  devId : Option Device := none
  path : Option CString := none
  ops : Option DfsFilesystemOps := none
  data : Option Nat := none
deriving DecidableEq

/-- `filesystem_table`. -/
abbrev MountTable := List DfsFilesystem

/-- What a call finds around it. -/
structure MountEnv where
  workingDirectory : CString
  mem : Bool
  /-- `rt_device_find` -/
  device : CString → Option Device
  /-- `filesystem_operation_table` -/
  types : List (Option DfsFilesystemOps)
  /-- `dfs_file_open` finds the directory. -/
  opens : CString → Bool
  /-- `rt_device_open` succeeds. -/
  deviceOpens : Bool
  /-- `ops->mount` succeeds, leaving this in `fs->data`. -/
  mounts : Bool
  data : Option Nat
  /-- `ops->unmount` succeeds. -/
  unmounts : Bool

/-- `"/"` and `"/dev"`, which need no directory. -/
def withoutDirectory (p : CString) : Bool := p.chars = "/".toList || p.chars = "/dev".toList

namespace MountEnv

variable (env : MountEnv)

/-- `dev_id`, if there is such a device. -/
def findDevice : Option CString → Option (Option Device)
  | none => some none
  | some deviceName => (env.device deviceName).map some

/-- The first registered type of this name. -/
def findType (filesystemtype : CString) : Option DfsFilesystemOps :=
  env.types.findSome? fun ops => ops.filter fun ops => ops.name = filesystemtype

/-- `dfs_mount` up to the table: the entry that is to be registered. -/
def request (deviceName : Option CString) (path filesystemtype : CString) :
    Except Fault (Option DfsFilesystem) :=
  match env.findDevice deviceName, env.findType filesystemtype with
  | some devId, some ops =>
    if ops.mount then do
      match ← dfsNormalizePath env.workingDirectory none path env.mem with
      | some fullpath =>
        if withoutDirectory fullpath ∨ env.opens fullpath then
          return some { devId, path := some fullpath, ops := some ops }
        else return none
      | none => return none
    else .ok none
  | _, _ => .ok none

end MountEnv

namespace MountTable

/-- The scan of `dfs_mount`: the first empty entry, or nothing where the path is mounted. -/
def mountScan (path : CString) : MountTable → Nat → Option Nat → Except Fault (Option (Option Nat))
  | [], _, fs => .ok (some fs)
  | iter :: table, idx, fs =>
    if iter.ops = none then mountScan path table (idx + 1) (fs <|> some idx)
    else do
      let p ← deref iter.path
      if p = path then return none else mountScan path table (idx + 1) fs

/-- The scan of `dfs_unmount_device`. -/
def deviceScan (dev : Device) : MountTable → Nat → Except Fault (Option Nat)
  | [], _ => .ok none
  | iter :: table, idx => do
    let d ← deref iter.devId
    if d.name = dev.name then return some idx else deviceScan dev table (idx + 1)

/-- The scan of `dfs_filesystem_lookup`. -/
def lookupScan (path : CString) : MountTable → Nat → Option Nat → Nat → Option Nat
  | [], _, fs, _ => fs
  | iter :: table, idx, fs, prefixlen =>
    match iter.path, iter.ops with
    | some p, some _ =>
      let fspath := p.chars.length
      if fspath < prefixlen ∨ ¬ p.chars.isPrefixOf path.chars then
        lookupScan path table (idx + 1) fs prefixlen
      else if 1 < fspath ∧ fspath < path.chars.length ∧ path.chars[fspath]? ≠ some '/' then
        lookupScan path table (idx + 1) fs prefixlen
      else lookupScan path table (idx + 1) (some idx) fspath
    | _, _ => lookupScan path table (idx + 1) fs prefixlen

variable (table : MountTable)

/-- `dfs_filesystem_lookup(path)`: the index of the entry. -/
def lookup (path : CString) : Option Nat := lookupScan path table 0 none 0

/-- `rt_memset(fs, 0, sizeof(struct dfs_filesystem))` -/
def clear (idx : Nat) : MountTable := table.set idx {}

/-- `dfs_mount(device_name, path, filesystemtype, …)`. -/
def dfsMount (env : MountEnv) (deviceName : Option CString) (path filesystemtype : CString) :
    Except Fault (Int × MountTable) := do
  match ← env.request deviceName path filesystemtype with
  | none => return (-1, table)
  | some fs =>
    match ← mountScan path table 0 none with
    | some (some idx) =>
      let table := table.modify idx fun old => { fs with data := old.data }
      if fs.devId.isSome ∧ ¬ env.deviceOpens then return (-1, clear table idx)
      else if env.mounts then return (0, table.modify idx fun fs => { fs with data := env.data })
      else return (-1, clear table idx)
    | _ => return (-1, table)

/-- The end of both unmounts, for the entry that was found. -/
def unmountAt (unmounts : Bool) : Option Nat → Except Fault (Int × MountTable)
  | none => .ok (-1, table)
  | some idx => do
    let fs ← deref table[idx]?
    let ops ← deref fs.ops
    if ops.unmount ∧ unmounts then return (0, clear table idx) else return (-1, table)

/-- `dfs_unmount(specialfile)`. -/
def dfsUnmount (env : MountEnv) (specialfile : CString) : Except Fault (Int × MountTable) := do
  match ← dfsNormalizePath env.workingDirectory none specialfile env.mem with
  | none => return (-1, table)
  | some fullpath =>
    unmountAt table env.unmounts (table.findIdx? fun iter => iter.path = some fullpath)

/-- `dfs_unmount_device(dev)`. -/
def dfsUnmountDevice (env : MountEnv) (dev : Device) : Except Fault (Int × MountTable) := do
  let fs ← deviceScan dev table 0
  unmountAt table env.unmounts fs

end MountTable

/-- The calls, each in its environment. -/
inductive MountAct
  | mount (env : MountEnv) (deviceName : Option CString) (path filesystemtype : CString)
  | unmount (env : MountEnv) (specialfile : CString)
  | unmountDevice (env : MountEnv) (dev : Device)

namespace MountTable

/-- A call: what it returns, and the table it leaves. -/
def call (table : MountTable) : MountAct → Except Fault (Int × MountTable)
  | .mount env deviceName path filesystemtype => table.dfsMount env deviceName path filesystemtype
  | .unmount env specialfile => table.dfsUnmount env specialfile
  | .unmountDevice env dev => table.dfsUnmountDevice env dev

/-- The table at the start. -/
def initial : MountTable := List.replicate dfsFilesystemsMax {}

/-- The calls that return. -/
def Step (table : MountTable) (c : MountAct) (table' : MountTable) : Prop :=
  ∃ r, table.call c = .ok (r, table')

-- --------
-- The mounted paths
-- --------

/-- The entry `i` is claimed for the path `p`. -/
def At (table : MountTable) (i : Nat) (p : CString) : Prop :=
  ∃ fs, table[i]? = some fs ∧ fs.path = some p

/-- The entry `i` has a device of this name. -/
def DeviceAt (table : MountTable) (i : Nat) (name : CString) : Prop :=
  ∃ fs d, table[i]? = some fs ∧ fs.devId = some d ∧ d.name = name

/-- The abstract table: the set of mounted paths. -/
def Mounted (table : MountTable) (p : CString) : Prop := ∃ i, table.At i p

/-- No two entries for one path. -/
def Distinct (table : MountTable) : Prop := ∀ i j p, table.At i p → table.At j p → i = j

/-- Every mounted path is found, in its own entry. -/
def Found (table : MountTable) : Prop := ∀ i p, table.At i p → table.lookup p = some i

/-- An entry is empty, or has a path and operations. -/
def Claimed (fs : DfsFilesystem) : Prop := fs = {} ∨ ∃ p ops, fs.path = some p ∧ fs.ops = some ops

/-- What the calls keep. -/
structure Inv (table : MountTable) : Prop where
  claimed : ∀ fs ∈ table, Claimed fs
  distinct : table.Distinct

variable {table : MountTable} {i j k : Nat} {p path : CString} {fs : DfsFilesystem}

theorem Claimed.ops_none (h : Claimed fs) (hops : fs.ops = none) : fs = {} := by
  rcases h with h | ⟨p, ops, -, hsome⟩
  · exact h
  · rw [hops] at hsome
    cases hsome

theorem Claimed.ops_of_path (h : Claimed fs) (hpath : fs.path = some p) :
    ∃ ops, fs.ops = some ops := by
  rcases h with rfl | ⟨p', ops, -, hops⟩
  · cases hpath
  · exact ⟨ops, hops⟩

theorem initial_entry (h : initial[i]? = some fs) : fs = {} :=
  List.eq_of_mem_replicate (List.mem_of_getElem? h)

/-- Nothing is mounted at the start. -/
theorem inv_initial : Inv initial where
  claimed fs hfs := .inl (List.eq_of_mem_replicate hfs)
  distinct i j p h _ := by
    obtain ⟨fs, hfs, hp⟩ := h
    rw [initial_entry hfs] at hp
    cases hp

-- --------
-- Looking a path up
-- --------

/-- Behind the entry of the whole path, no other entry takes its place. -/
theorem lookupScan_rest (hrest : ∀ fs ∈ table, fs.path ≠ some path) {o : Option Nat} :
    lookupScan path table k o path.chars.length = o := by
  induction table generalizing k with
  | nil => rfl
  | cons iter table ih =>
    obtain ⟨hiter, htable⟩ := List.forall_mem_cons.mp hrest
    rw [lookupScan]
    match hp : iter.path, iter.ops with
    | some q, some _ =>
      dsimp only
      have hskip : q.chars.length < path.chars.length ∨ ¬ q.chars.isPrefixOf path.chars := by
        by_contra hcon
        rw [not_or, not_not, not_lt, List.isPrefixOf_iff_prefix] at hcon
        have heq := hcon.2.eq_of_length_le hcon.1
        refine hiter (hp.trans ?_)
        cases q
        cases path
        exact congrArg some (CString.mk.injEq .. ▸ heq)
      rw [if_pos hskip]
      exact ih htable
    | some _, none => exact ih htable
    | none, _ => exact ih htable

theorem Distinct.tail (h : Distinct (fs :: table)) : Distinct table := fun i j p hi hj =>
  Nat.succ.inj (h (i + 1) (j + 1) p hi hj)

theorem Distinct.head (h : Distinct (fs :: table)) (hp : fs.path = some p) :
    ∀ fs' ∈ table, fs'.path ≠ some p := by
  intro fs' hfs' hp'
  obtain ⟨j, hj⟩ := List.getElem?_of_mem hfs'
  exact absurd (h 0 (j + 1) p ⟨fs, rfl, hp⟩ ⟨fs', hj, hp'⟩) (by omega)

/-- **A mounted path is found.** -/
theorem lookupScan_eq {o : Option Nat} {prefixlen : Nat} (hclaimed : ∀ fs ∈ table, Claimed fs)
    (hdistinct : table.Distinct) (hat : table.At i path) (hle : prefixlen ≤ path.chars.length) :
    lookupScan path table k o prefixlen = some (i + k) := by
  induction table generalizing i k o prefixlen with
  | nil =>
    obtain ⟨fs, hfs, -⟩ := hat
    cases hfs
  | cons iter table ih =>
    obtain ⟨hiter, htable⟩ := List.forall_mem_cons.mp hclaimed
    rw [lookupScan]
    cases i with
    | zero =>
      obtain ⟨fs, hfs, hp⟩ := hat
      obtain rfl := Option.some.inj hfs
      obtain ⟨ops, hops⟩ := hiter.ops_of_path hp
      rw [hp, hops]
      dsimp only
      have hprefix : ¬(path.chars.length < prefixlen ∨
          ¬path.chars.isPrefixOf path.chars) := by
        rw [not_or, not_not, List.isPrefixOf_iff_prefix]
        exact ⟨by omega, List.prefix_refl _⟩
      rw [if_neg hprefix, if_neg fun h => absurd h.2.1 (Nat.lt_irrefl _),
        lookupScan_rest (hdistinct.head hp), Nat.zero_add]
    | succ i =>
      have hnext : ∀ {o prefixlen}, prefixlen ≤ path.chars.length →
          lookupScan path table (k + 1) o prefixlen = some (i + 1 + k) := by
        intro o prefixlen hle
        rw [ih htable hdistinct.tail hat hle]
        congr 1
        omega
      match iter.path, iter.ops with
      | some q, some _ =>
        dsimp only
        by_cases hskip : q.chars.length < prefixlen ∨ ¬ q.chars.isPrefixOf path.chars
        · rw [if_pos hskip]
          exact hnext hle
        · rw [if_neg hskip]
          rw [not_or, not_not, List.isPrefixOf_iff_prefix] at hskip
          split
          · exact hnext hle
          · exact hnext hskip.2.length_le
      | some _, none => exact hnext hle
      | none, _ => exact hnext hle

theorem Inv.found (h : table.Inv) : table.Found := fun i p hat => by
  rw [lookup, lookupScan_eq h.claimed h.distinct hat (Nat.zero_le _), Nat.add_zero]

-- --------
-- The scans
-- --------

/-- **The scan of `dfs_mount`** looks for its argument as it is spelled. -/
theorem mountScan_mounted {o : Option Nat} (hclaimed : ∀ fs ∈ table, Claimed fs)
    (h : ∃ fs ∈ table, fs.path = some path) : mountScan path table k o = .ok none := by
  induction table generalizing k o with
  | nil =>
    obtain ⟨fs, hfs, -⟩ := h
    cases hfs
  | cons iter table ih =>
    obtain ⟨hiter, htable⟩ := List.forall_mem_cons.mp hclaimed
    obtain ⟨fs, hfs, hp⟩ := h
    rcases hiter with hempty | ⟨q, ops, hq, hops⟩
    · rw [mountScan, hempty, if_pos rfl]
      refine ih htable ⟨fs, (List.mem_cons.mp hfs).resolve_left ?_, hp⟩
      rintro rfl
      rw [hempty] at hp
      cases hp
    · rw [mountScan, if_neg (by rw [hops]; exact Option.some_ne_none _), deref_bind hq]
      by_cases heq : q = path
      · rw [if_pos heq]
        rfl
      · rw [if_neg heq]
        refine ih htable ⟨fs, (List.mem_cons.mp hfs).resolve_left ?_, hp⟩
        rintro rfl
        exact heq (Option.some.inj (hq.symm.trans hp))

theorem mountScan_free {o : Option Nat} (hclaimed : ∀ fs ∈ table, Claimed fs)
    (h : ∀ fs ∈ table, fs.path ≠ some path) : mountScan path table k o =
      .ok (some (o <|> (table.findIdx? fun fs => fs.ops = none).map (· + k))) := by
  induction table generalizing k o with
  | nil =>
    rw [mountScan]
    cases o with
    | none => rfl
    | some idx => rfl
  | cons iter table ih =>
    obtain ⟨hiter, htable⟩ := List.forall_mem_cons.mp hclaimed
    obtain ⟨hp, hrest⟩ := List.forall_mem_cons.mp h
    rcases hiter with hempty | ⟨q, ops, hq, hops⟩
    · rw [mountScan, hempty, if_pos rfl, ih htable hrest, List.findIdx?_cons,
        if_pos (by rfl), Option.map_some, Nat.zero_add]
      cases o with
      | none => rfl
      | some idx => rfl
    · have hcomp : (fun x => x + (k + 1)) = (fun x => x + k) ∘ fun x => x + 1 := by
        funext x
        exact Nat.add_right_comm x k 1
      rw [mountScan, if_neg (by rw [hops]; exact Option.some_ne_none _), deref_bind hq,
        if_neg fun heq => hp (by rw [hq, heq]), ih htable hrest, List.findIdx?_cons,
        if_neg (by rw [hops]; exact Bool.false_ne_true), Option.map_map, hcomp]

/-- The scan of `dfs_unmount_device` meets the device, or the end, before an entry without one. -/
def Scannable (table : MountTable) (name : CString) : Prop :=
  ∀ j fs, table[j]? = some fs → fs.devId = none → ∃ i < j, table.DeviceAt i name

theorem scannable_cons {name : CString} : Scannable (fs :: table) name ↔
    ∃ d, fs.devId = some d ∧ (d.name = name ∨ table.Scannable name) := by
  constructor
  · intro h
    cases hdev : fs.devId with
    | none =>
      obtain ⟨i, hi, -⟩ := h 0 fs rfl hdev
      omega
    | some d =>
      refine ⟨d, rfl, ?_⟩
      by_cases hname : d.name = name
      · exact .inl hname
      · refine .inr fun j fs' hj hnone => ?_
        obtain ⟨i, hi, hat⟩ := h (j + 1) fs' hj hnone
        cases i with
        | zero =>
          obtain ⟨fs'', d', hfs, hd, hd'⟩ := hat
          obtain rfl := Option.some.inj hfs
          rw [hdev, Option.some.injEq] at hd
          exact absurd (hd ▸ hd') hname
        | succ i => exact ⟨i, by omega, hat⟩
  · rintro ⟨d, hdev, hor⟩ j fs' hj hnone
    cases j with
    | zero =>
      rw [← Option.some.inj hj, hdev] at hnone
      cases hnone
    | succ j =>
      rcases hor with hname | htable
      · exact ⟨0, by omega, fs, d, rfl, hdev, hname⟩
      · obtain ⟨i, hi, hat⟩ := htable j fs' hj hnone
        exact ⟨i + 1, by omega, hat⟩

theorem deviceScan_of_scannable {dev : Device} (h : table.Scannable dev.name) :
    ∃ o, deviceScan dev table k = .ok o ∧ ∀ i, o = some i → ∃ j, i = j + k ∧
      table.DeviceAt j dev.name := by
  induction table generalizing k with
  | nil => exact ⟨none, rfl, fun i hi => by cases hi⟩
  | cons iter table ih =>
    obtain ⟨d, hdev, hor⟩ := scannable_cons.mp h
    by_cases hname : d.name = dev.name
    · refine ⟨some k, by rw [deviceScan, deref_bind hdev, if_pos hname]; rfl, ?_⟩
      rintro _ ⟨⟩
      exact ⟨0, (Nat.zero_add k).symm, iter, d, rfl, hdev, hname⟩
    · obtain ⟨o, ho, hat⟩ := ih (k := k + 1) (hor.resolve_left hname)
      refine ⟨o, by rw [deviceScan, deref_bind hdev, if_neg hname, ho], fun i hi => ?_⟩
      obtain ⟨j, hj, hat⟩ := hat i hi
      exact ⟨j + 1, by omega, hat⟩

theorem deviceScan_of_not_scannable {dev : Device} (h : ¬ table.Scannable dev.name) :
    deviceScan dev table k = .error .badPointer := by
  induction table generalizing k with
  | nil => exact absurd (fun j fs hj => by cases hj) h
  | cons iter table ih =>
    rw [scannable_cons] at h
    cases hdev : iter.devId with
    | none =>
      rw [deviceScan, deref_none_bind hdev]
    | some d =>
      have hname : d.name ≠ dev.name := fun hname => h ⟨d, hdev, .inl hname⟩
      rw [deviceScan, deref_bind hdev, if_neg hname]
      exact ih fun htable => h ⟨d, hdev, .inr htable⟩

-- --------
-- Claiming and clearing an entry
-- --------

variable {new : DfsFilesystem} {env : MountEnv} {deviceName : Option CString}
variable {filesystemtype : CString}

theorem at_set (hi : table[i]? = some fs) (hfs : fs.path = none) (hnew : new.path = some p)
    {q : CString} : At (table.set i new) j q ↔ (j = i ∧ q = p) ∨ table.At j q := by
  have hlt := (List.getElem?_eq_some_iff.mp hi).1
  by_cases hj : j = i
  · subst hj
    constructor
    · rintro ⟨fs', hfs', hq⟩
      rw [List.getElem?_set_self hlt, Option.some.injEq] at hfs'
      rw [← hfs', hnew, Option.some.injEq] at hq
      exact .inl ⟨rfl, hq.symm⟩
    · rintro (⟨-, rfl⟩ | ⟨fs', hfs', hq⟩)
      · exact ⟨new, List.getElem?_set_self hlt, hnew⟩
      · rw [hi, Option.some.injEq] at hfs'
        rw [← hfs', hfs] at hq
        cases hq
  · have hsame : At (table.set i new) j q ↔ table.At j q := by
      rw [At, At, List.getElem?_set_ne (Ne.symm hj)]
    rw [hsame]
    exact ⟨.inr, fun h => h.resolve_left fun h => hj h.1⟩

theorem at_clear {q : CString} : At (table.clear i) j q ↔ j ≠ i ∧ table.At j q := by
  by_cases hj : j = i
  · subst hj
    refine ⟨?_, fun h => absurd rfl h.1⟩
    rintro ⟨fs', hfs', hq⟩
    rw [clear] at hfs'
    by_cases hlt : j < table.length
    · rw [List.getElem?_set_self hlt, Option.some.injEq] at hfs'
      rw [← hfs'] at hq
      cases hq
    · rw [List.getElem?_eq_none (by rw [List.length_set]; omega)] at hfs'
      cases hfs'
  · have hsame : At (table.clear i) j q ↔ table.At j q := by
      rw [At, At, clear, List.getElem?_set_ne (Ne.symm hj)]
    rw [hsame]
    exact ⟨fun h => ⟨hj, h⟩, And.right⟩

theorem clear_set (hi : table[i]? = some {}) : clear (table.set i new) i = table := by
  obtain ⟨hlt, hget⟩ := List.getElem?_eq_some_iff.mp hi
  rw [clear, List.set_set, ← hget, List.set_getElem_self]

theorem Inv.set (h : table.Inv) (hi : table[i]? = some {}) (hnew : new.path = some p)
    (hops : new.ops ≠ none) (hp : ¬ table.Mounted p) : Inv (table.set i new) where
  claimed fs hfs := by
    rcases List.mem_or_eq_of_mem_set hfs with hfs | rfl
    · exact h.claimed fs hfs
    · obtain ⟨ops, hops⟩ := Option.ne_none_iff_exists'.mp hops
      exact .inr ⟨p, ops, hnew, hops⟩
  distinct j k q hj hk := by
    rw [at_set hi rfl hnew] at hj hk
    rcases hj with ⟨rfl, rfl⟩ | hj
    · rcases hk with ⟨rfl, -⟩ | hk
      · rfl
      · exact absurd ⟨k, hk⟩ hp
    · rcases hk with ⟨rfl, rfl⟩ | hk
      · exact absurd ⟨j, hj⟩ hp
      · exact h.distinct j k q hj hk

theorem Inv.clear (h : table.Inv) : Inv (table.clear i) where
  claimed fs hfs := by
    rcases List.mem_or_eq_of_mem_set hfs with hfs | rfl
    · exact h.claimed fs hfs
    · exact .inl rfl
  distinct j k q hj hk := h.distinct j k q (at_clear.mp hj).2 (at_clear.mp hk).2

/-- What is mounted after the entry of `p` has been cleared. -/
theorem Inv.mounted_clear (h : table.Inv) (hi : table.At i p) {q : CString} :
    Mounted (table.clear i) q ↔ table.Mounted q ∧ q ≠ p := by
  constructor
  · rintro ⟨j, hj⟩
    obtain ⟨hne, hj⟩ := at_clear.mp hj
    refine ⟨⟨j, hj⟩, ?_⟩
    rintro rfl
    exact hne (h.distinct j i q hj hi)
  · rintro ⟨⟨j, hj⟩, hq⟩
    refine ⟨j, at_clear.mpr ⟨?_, hj⟩⟩
    rintro rfl
    obtain ⟨fs, hfs, hp⟩ := hi
    obtain ⟨fs', hfs', hp'⟩ := hj
    rw [hfs, Option.some.injEq] at hfs'
    rw [← hfs', hp, Option.some.injEq] at hp'
    exact hq hp'.symm

-- --------
-- The calls
-- --------

/-- A request that comes to its path depends on its normalisation alone. -/
theorem request_cases : env.request deviceName path filesystemtype = .ok none ∨
    ∃ devId ops, env.request deviceName path filesystemtype =
      (dfsNormalizePath env.workingDirectory none path env.mem >>= fun o => .ok <|
        (o.filter fun p => withoutDirectory p ∨ env.opens p).map fun p =>
          { devId, path := some p, ops := some ops }) := by
  rw [MountEnv.request]
  match env.findDevice deviceName, env.findType filesystemtype with
  | none, _ => exact .inl rfl
  | some devId, none => exact .inl rfl
  | some devId, some ops =>
    dsimp only
    by_cases hmount : ops.mount
    · refine .inr ⟨devId, ops, ?_⟩
      rw [if_pos hmount]
      cases dfsNormalizePath env.workingDirectory none path env.mem with
      | error e => rfl
      | ok o =>
        match o with
        | none => rfl
        | some p =>
          change (if withoutDirectory p ∨ env.opens p then Except.ok (some _)
            else Except.ok none) = Except.ok (Option.map _
              (if decide (withoutDirectory p ∨ env.opens p) then some p else none))
          by_cases hopens : withoutDirectory p ∨ env.opens p
          · rw [if_pos hopens, if_pos (decide_eq_true hopens)]
            rfl
          · rw [if_neg hopens, if_neg (by rwa [decide_eq_true_eq])]
            rfl
    · exact .inl (if_neg hmount)

/-- What is asked for has a path, normalised, and operations. -/
theorem request_eq_some (h : env.request deviceName path filesystemtype = .ok (some fs)) :
    ∃ p, fs.path = some p ∧ fs.ops ≠ none ∧
      dfsNormalizePath env.workingDirectory none path env.mem = .ok (some p) := by
  rcases @request_cases path env deviceName filesystemtype with hnone | ⟨devId, ops, hrequest⟩
  · rw [hnone] at h
    cases h
  · rw [hrequest] at h
    obtain ⟨o, ho, h⟩ := except_bind_ok h
    obtain ⟨p, hp, rfl⟩ := Option.map_eq_some_iff.mp (Except.ok.inj h)
    refine ⟨p, rfl, Option.some_ne_none _, ?_⟩
    rw [ho, (Option.filter_eq_some_iff.mp hp).1]

/-- A request fails only in the normalisation of its path. -/
theorem request_eq_error {e : Fault}
    (h : env.request deviceName path filesystemtype = .error e) :
    dfsNormalizePath env.workingDirectory none path env.mem = .error e := by
  rcases @request_cases path env deviceName filesystemtype with hnone | ⟨devId, ops, hrequest⟩
  · rw [hnone] at h
    cases h
  · rw [hrequest] at h
    cases ho : dfsNormalizePath env.workingDirectory none path env.mem with
    | error e' =>
      rw [ho] at h
      exact congrArg Except.error (Except.error.inj h)
    | ok o =>
      rw [ho] at h
      cases h

/-- Something else than the path keeps an entry from being claimed: the table is full, or the
device or the file system refuses. -/
def Refuses (table : MountTable) (env : MountEnv) (fs : DfsFilesystem) : Prop :=
  (∀ old ∈ table, old.ops ≠ none) ∨ (fs.devId.isSome ∧ ¬ env.deviceOpens) ∨ ¬ env.mounts

theorem modify_eq_set {old : DfsFilesystem} (hi : table[i]? = some old)
    (f : DfsFilesystem → DfsFilesystem) : table.modify i f = table.set i (f old) := by
  rw [List.modify_eq_set_getElem?, hi]
  rfl

/-- `dfs_mount` once it has an entry. -/
theorem dfsMount_eq (hrequest : env.request deviceName path filesystemtype = .ok (some fs))
    (hscan : mountScan path table 0 none = .ok (some (some i))) (hi : table[i]? = some {}) :
    table.dfsMount env deviceName path filesystemtype =
      .ok (if fs.devId.isSome ∧ ¬ env.deviceOpens then (-1, table)
        else if env.mounts then (0, table.set i { fs with data := env.data })
        else (-1, table)) := by
  have hlt := (List.getElem?_eq_some_iff.mp hi).1
  rw [dfsMount, hrequest]
  change (mountScan path table 0 none >>= _) = _
  rw [hscan]
  change (if fs.devId.isSome ∧ ¬ env.deviceOpens then Except.ok (-1, clear (table.modify i _) i)
    else if env.mounts then Except.ok (0, (table.modify i _).modify i _)
    else Except.ok (-1, clear (table.modify i _) i)) = _
  rw [modify_eq_set hi, clear_set hi, modify_eq_set (List.getElem?_set_self hlt), List.set_set]
  split
  · rfl
  · split
    · rfl
    · rfl

/-- A refused mount leaves the table as it was. -/
theorem dfsMount_refused (h : ∀ fs ∈ table, Claimed fs)
    (hrequest : env.request deviceName path filesystemtype = .ok (some fs))
    (hno : table.Mounted path ∨ table.Refuses env fs) :
    table.dfsMount env deviceName path filesystemtype = .ok (-1, table) := by
  by_cases hmounted : ∃ fs ∈ table, fs.path = some path
  · rw [dfsMount, hrequest]
    change (mountScan path table 0 none >>= _) = _
    rw [mountScan_mounted h hmounted]
    rfl
  · have hfree : ∀ fs ∈ table, fs.path ≠ some path := fun fs hfs hp => hmounted ⟨fs, hfs, hp⟩
    have hscan := mountScan_free (k := 0) (o := none) h hfree
    have hrefuses : table.Refuses env fs := by
      refine hno.resolve_left ?_
      rintro ⟨i, fs, hfs, hp⟩
      exact hfree fs (List.mem_of_getElem? hfs) hp
    cases hidx : table.findIdx? fun fs => fs.ops = none with
    | none =>
      rw [hidx] at hscan
      rw [dfsMount, hrequest]
      change (mountScan path table 0 none >>= _) = _
      rw [hscan]
      rfl
    | some i =>
      obtain ⟨hlt, hops, -⟩ := List.findIdx?_eq_some_iff_getElem.mp hidx
      rw [decide_eq_true_eq] at hops
      have hempty := (h _ (List.getElem_mem hlt)).ops_none hops
      have hi : table[i]? = some {} := by rw [List.getElem?_eq_getElem hlt, hempty]
      rw [hidx] at hscan
      rw [dfsMount_eq (i := i) hrequest hscan hi]
      rcases hrefuses with hfull | hdev | hmounts
      · exact absurd hops (hfull _ (List.getElem_mem hlt))
      · rw [if_pos hdev]
      · rw [if_neg hmounts, ite_self]

/-- A mount that nothing refuses claims an empty entry. -/
theorem dfsMount_claims (h : ∀ fs ∈ table, Claimed fs)
    (hrequest : env.request deviceName path filesystemtype = .ok (some fs))
    (hno : ¬ (table.Mounted path ∨ table.Refuses env fs)) :
    ∃ i, table[i]? = some {} ∧ table.dfsMount env deviceName path filesystemtype =
      .ok (0, table.set i { fs with data := env.data }) := by
  rw [not_or, Refuses, not_or, not_or, not_not] at hno
  obtain ⟨hpath, hroom, hdev, hmounts⟩ := hno
  have hfree : ∀ fs ∈ table, fs.path ≠ some path := by
    intro fs hfs hp
    obtain ⟨i, hi⟩ := List.getElem?_of_mem hfs
    exact hpath ⟨i, fs, hi, hp⟩
  have hscan := mountScan_free (k := 0) (o := none) h hfree
  cases hidx : table.findIdx? fun fs => fs.ops = none with
  | none =>
    rw [List.findIdx?_eq_none_iff] at hidx
    exact absurd (fun old hold => of_decide_eq_false (hidx old hold)) hroom
  | some i =>
    obtain ⟨hlt, hops, -⟩ := List.findIdx?_eq_some_iff_getElem.mp hidx
    rw [decide_eq_true_eq] at hops
    have hempty := (h _ (List.getElem_mem hlt)).ops_none hops
    have hi : table[i]? = some {} := by rw [List.getElem?_eq_getElem hlt, hempty]
    rw [hidx] at hscan
    refine ⟨i, hi, ?_⟩
    rw [dfsMount_eq (i := i) hrequest hscan hi, if_neg hdev, if_pos hmounts]

/-- **The end of an unmount**: the entry is cleared, or everything stays. -/
theorem unmountAt_cases (h : ∀ fs ∈ table, Claimed fs) (hi : table[i]? = some fs)
    (hfs : fs ≠ {}) (unmounts : Bool) :
    table.unmountAt unmounts (some i) = .ok (0, table.clear i) ∨
      table.unmountAt unmounts (some i) = .ok (-1, table) := by
  obtain ⟨p, ops, -, hops⟩ := (h fs (List.mem_of_getElem? hi)).resolve_left hfs
  rw [unmountAt, deref_bind hi, deref_bind hops]
  by_cases hunmount : ops.unmount ∧ unmounts
  · exact .inl (if_pos hunmount)
  · exact .inr (if_neg hunmount)

-- --------
-- What the table is for
-- --------

/-- The call stops where the normalisation of its path does. -/
def StopsInPath (table : MountTable) (c : MountAct) : Prop :=
  ∃ e, table.call c = .error e ∧ match c with
    | .mount env _ path _ => dfsNormalizePath env.workingDirectory none path env.mem = .error e
    | .unmount env path => dfsNormalizePath env.workingDirectory none path env.mem = .error e
    | .unmountDevice _ _ => False

/-- **The condition on a call.** A mount that goes through is of a path that is not mounted, or
is refused for the way it is spelled; an unmount of a device meets the device before an entry
without one. -/
def Allowed (table : MountTable) : MountAct → Prop
  | .mount env deviceName path filesystemtype => ∀ fs p,
    env.request deviceName path filesystemtype = .ok (some fs) → fs.path = some p →
      table.Mounted p → table.Mounted path ∨ table.Refuses env fs
  | .unmount _ _ => True
  | .unmountDevice _ dev => table.Scannable dev.name

/-- What a call that succeeds does to the set of mounted paths. -/
def Changes (table : MountTable) (table' : MountTable) : MountAct → Prop
  | .mount env _ path _ => ∃ p,
    dfsNormalizePath env.workingDirectory none path env.mem = .ok (some p) ∧
      ∀ q, table'.Mounted q ↔ table.Mounted q ∨ q = p
  | .unmount env specialfile => ∃ p,
    dfsNormalizePath env.workingDirectory none specialfile env.mem = .ok (some p) ∧
      ∀ q, table'.Mounted q ↔ table.Mounted q ∧ q ≠ p
  | .unmountDevice _ dev => ∃ i p, table.At i p ∧ table.DeviceAt i dev.name ∧
      ∀ q, table'.Mounted q ↔ table.Mounted q ∧ q ≠ p

/-- What a call is to do: it follows no null pointer of an entry and returns; where it fails it
leaves every entry as it was, where it succeeds it changes the set of mounted paths by its own
path; and afterwards no path has two entries and every mounted path is found. -/
def Meets (table : MountTable) (c : MountAct) : Prop :=
  table.StopsInPath c ∨ ∃ r table', table.call c = .ok (r, table') ∧
    ((r = 0 ∧ table.Changes table' c) ∨ (r = -1 ∧ table' = table)) ∧
    table'.Distinct ∧ table'.Found

/-- The invariant, and what the call is to do, of its outcome. -/
def Outcome (table : MountTable) (c : MountAct) : Prop :=
  ∃ r table', table.call c = .ok (r, table') ∧
    ((r = 0 ∧ table.Changes table' c) ∨ (r = -1 ∧ table' = table)) ∧ table'.Inv

theorem Inv.refused {c : MountAct} (h : table.Inv) (hcall : table.call c = .ok (-1, table)) :
    table.Outcome c := ⟨-1, table, hcall, .inr ⟨rfl, rfl⟩, h⟩

/-- `dfs_mount`. -/
theorem Inv.mount (h : table.Inv)
    (hok : table.Allowed (.mount env deviceName path filesystemtype)) :
    table.StopsInPath (.mount env deviceName path filesystemtype) ∨
      table.Outcome (.mount env deviceName path filesystemtype) := by
  match hrequest : env.request deviceName path filesystemtype with
  | .error e =>
    refine .inl ⟨e, ?_, request_eq_error hrequest⟩
    rw [call, dfsMount, hrequest]
    rfl
  | .ok none =>
    refine .inr (h.refused ?_)
    rw [call, dfsMount, hrequest]
    rfl
  | .ok (some fs) =>
    obtain ⟨p, hp, hops, hpath⟩ := request_eq_some hrequest
    by_cases hno : table.Mounted path ∨ table.Refuses env fs
    · exact .inr (h.refused (dfsMount_refused h.claimed hrequest hno))
    · have hfresh : ¬ table.Mounted p := fun hmounted => hno (hok fs p hrequest hp hmounted)
      obtain ⟨i, hi, hcall⟩ := dfsMount_claims h.claimed hrequest hno
      refine .inr ⟨0, _, hcall, .inl ⟨rfl, p, hpath, fun q => ?_⟩, h.set hi hp hops hfresh⟩
      have hset := fun j => @at_set table i j p _ { fs with data := env.data } hi rfl hp q
      constructor
      · rintro ⟨j, hj⟩
        exact ((hset j).mp hj).symm.imp (fun hj => ⟨j, hj⟩) And.right
      · rintro (⟨j, hj⟩ | hq)
        · exact ⟨j, (hset j).mpr (.inr hj)⟩
        · exact ⟨i, (hset i).mpr (.inl ⟨rfl, hq⟩)⟩

/-- `dfs_unmount`. -/
theorem Inv.unmount (h : table.Inv) :
    table.StopsInPath (.unmount env path) ∨ table.Outcome (.unmount env path) := by
  have hcall : table.call (.unmount env path) =
      (dfsNormalizePath env.workingDirectory none path env.mem >>= fun o => match o with
        | none => .ok (-1, table)
        | some p => table.unmountAt env.unmounts (table.findIdx? fun fs => fs.path = some p)) := rfl
  match hpath : dfsNormalizePath env.workingDirectory none path env.mem with
  | .error e =>
    rw [hpath] at hcall
    exact .inl ⟨e, hcall, hpath⟩
  | .ok none =>
    rw [hpath] at hcall
    exact .inr (h.refused hcall)
  | .ok (some p) =>
    rw [hpath] at hcall
    change table.call _ = table.unmountAt _ _ at hcall
    refine .inr ?_
    cases hidx : table.findIdx? fun fs => fs.path = some p with
    | none =>
      rw [hidx] at hcall
      exact h.refused hcall
    | some i =>
      rw [hidx] at hcall
      obtain ⟨hlt, hp, -⟩ := List.findIdx?_eq_some_iff_getElem.mp hidx
      rw [decide_eq_true_eq] at hp
      have hi := List.getElem?_eq_getElem hlt
      have hne : table[i] ≠ {} := by
        intro hempty
        rw [hempty] at hp
        cases hp
      rcases unmountAt_cases h.claimed hi hne env.unmounts with hdone | hkept
      · refine ⟨0, _, hcall.trans hdone, .inl ⟨rfl, p, hpath, fun q => ?_⟩, h.clear⟩
        exact h.mounted_clear ⟨_, hi, hp⟩
      · exact h.refused (hcall.trans hkept)

/-- `dfs_unmount_device`. -/
theorem Inv.unmountDevice {dev : Device} (h : table.Inv) (hok : table.Scannable dev.name) :
    table.Outcome (.unmountDevice env dev) := by
  obtain ⟨o, ho, hat⟩ := deviceScan_of_scannable (k := 0) hok
  have hcall : table.call (.unmountDevice env dev) = table.unmountAt env.unmounts o := by
    rw [call, dfsUnmountDevice, ho]
    rfl
  cases o with
  | none => exact h.refused hcall
  | some i =>
    obtain ⟨j, hj, hdev⟩ := hat i rfl
    rw [Nat.add_zero] at hj
    subst hj
    obtain ⟨fs, d, hfs, hd, -⟩ := id hdev
    have hne : fs ≠ {} := by
      rintro rfl
      cases hd
    obtain ⟨p, -, hp, -⟩ := (h.claimed fs (List.mem_of_getElem? hfs)).resolve_left hne
    rcases unmountAt_cases h.claimed hfs hne env.unmounts with hdone | hkept
    · exact ⟨0, _, hcall.trans hdone, .inl ⟨rfl, i, p, ⟨fs, hfs, hp⟩, hdev,
        fun q => h.mounted_clear ⟨fs, hfs, hp⟩⟩, h.clear⟩
    · exact h.refused (hcall.trans hkept)

/-- **Every allowed call** does what it is to do and keeps the invariant. -/
theorem Inv.outcome {c : MountAct} (h : table.Inv) (hok : table.Allowed c) :
    table.StopsInPath c ∨ table.Outcome c := by
  cases c with
  | mount env deviceName path filesystemtype => exact h.mount hok
  | unmount env specialfile => exact h.unmount
  | unmountDevice env dev => exact .inr (h.unmountDevice hok)

/-- The invariant holds in every state of a run. -/
theorem inv_of_run (hrun : Runs Step Allowed initial table) : table.Inv := by
  refine @Runs.invariant _ _ _ _ _ _ Inv ?_ hrun inv_initial
  rintro table c table' I hok ⟨r, hcall⟩
  rcases I.outcome hok with ⟨e, herror, -⟩ | ⟨r', table'', hcall', -, I'⟩
  · rw [hcall] at herror
    cases herror
  · rw [hcall'] at hcall
    cases hcall
    exact I'

/-- A mount that goes through twice leaves two entries for one path. -/
theorem Inv.not_distinct (h : table.Inv)
    (hrequest : env.request deviceName path filesystemtype = .ok (some fs)) (hp : fs.path = some p)
    (hmounted : table.Mounted p) (hno : ¬ (table.Mounted path ∨ table.Refuses env fs)) :
    ¬ table.Meets (.mount env deviceName path filesystemtype) := by
  obtain ⟨i, hi, hcall⟩ := dfsMount_claims h.claimed hrequest hno
  change table.call (.mount env deviceName path filesystemtype) = _ at hcall
  have hset := fun j => @at_set table i j p _ { fs with data := env.data } hi rfl hp p
  rintro (⟨e, herror, -⟩ | ⟨r, table', hcall', -, hdistinct, -⟩)
  · rw [hcall] at herror
    cases herror
  · rw [hcall, Except.ok.injEq, Prod.mk.injEq] at hcall'
    rw [← hcall'.2] at hdistinct
    obtain ⟨j, hj⟩ := hmounted
    have hij := hdistinct i j p ((hset i).mpr (.inl ⟨rfl, rfl⟩)) ((hset j).mpr (.inr hj))
    subst hij
    obtain ⟨fs', hfs', hp'⟩ := hj
    rw [hi, Option.some.injEq] at hfs'
    rw [← hfs'] at hp'
    cases hp'

/-- **The mount table.** After every run of allowed calls, the calls that do what they are to do
are exactly the allowed ones. -/
theorem mountTable_meets_iff {c : MountAct} (hrun : Runs Step Allowed initial table) :
    table.Meets c ↔ table.Allowed c := by
  have I := inv_of_run hrun
  constructor
  · intro h
    cases c with
    | mount env deviceName path filesystemtype =>
      intro fs p hrequest hp hmounted
      by_contra hno
      exact I.not_distinct hrequest hp hmounted hno h
    | unmount env specialfile => trivial
    | unmountDevice env dev =>
      by_contra hno
      have herror : table.call (.unmountDevice env dev) = .error .badPointer := by
        rw [call, dfsUnmountDevice, deviceScan_of_not_scannable hno]
        rfl
      rcases h with ⟨e, -, hfalse⟩ | ⟨r, table', hcall, -⟩
      · exact hfalse
      · rw [herror] at hcall
        cases hcall
  · intro hok
    rcases I.outcome hok with hstops | ⟨r, table', hcall, hresult, I'⟩
    · exact .inl hstops
    · exact .inr ⟨r, table', hcall, hresult, I'.distinct, I'.found⟩

-- --------
-- A system with one file system
-- --------

/-- One registered type, no devices, every callback succeeds. -/
def ramEnv : MountEnv where
  workingDirectory := rootPath
  mem := true
  device _ := none
  types := [some { name := ⟨"ram".toList, by decide⟩, mount := true, unmount := true }]
  opens _ := true
  deviceOpens := true
  mounts := true
  data := none
  unmounts := true

/-- `dfs_mount(NULL, path, "ram", …)` -/
def mountRam (path : CString) : MountAct := .mount ramEnv none path ⟨"ram".toList, by decide⟩

/-- The first mount of the root. -/
theorem mountTable_meets_root : initial.Meets (mountRam rootPath) := by
  refine (mountTable_meets_iff Runs.refl).mpr fun fs p _ _ hmounted => ?_
  obtain ⟨i, fs', hfs', hp'⟩ := hmounted
  rw [initial_entry hfs'] at hp'
  cases hp'

/-- The entry of the root. -/
def rootEntry : DfsFilesystem where
  path := some rootPath
  ops := some { name := ⟨"ram".toList, by decide⟩, mount := true, unmount := true }

/-- **Both ways to go wrong**: an unmount of a device on the empty table, and a mount of the root
under two spellings. -/
theorem mountTable_breaks : (∃ dev, ¬ initial.Meets (.unmountDevice ramEnv dev)) ∧
    ∃ table, Runs Step Runs.always initial table ∧
      ¬ table.Meets (mountRam ⟨"//".toList, by decide⟩) := by
  constructor
  · refine ⟨⟨⟨"sd0".toList, by decide⟩⟩, ?_⟩
    rintro (⟨e, -, hfalse⟩ | ⟨r, table', hcall, -⟩)
    · exact hfalse
    · cases hcall
  · have hfirst : initial.call (mountRam rootPath) = .ok (0, initial.set 0 rootEntry) := by
      decide +kernel
    have hsecond : call (initial.set 0 rootEntry) (mountRam ⟨"//".toList, by decide⟩) =
        .ok (0, (initial.set 0 rootEntry).set 1 rootEntry) := by
      decide +kernel
    refine ⟨_, @Runs.snoc _ _ Step Runs.always _ _ _ (mountRam rootPath) Runs.refl trivial
      ⟨0, hfirst⟩, ?_⟩
    rintro (⟨e, herror, -⟩ | ⟨r, table', hcall, -, hdistinct, -⟩)
    · rw [hsecond] at herror
      cases herror
    · rw [hsecond, Except.ok.injEq, Prod.mk.injEq] at hcall
      rw [← hcall.2] at hdistinct
      exact absurd (hdistinct 0 1 rootPath ⟨rootEntry, rfl, rfl⟩ ⟨rootEntry, rfl, rfl⟩) (by decide)

end MountTable

end RTThread.Dfs
