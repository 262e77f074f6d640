import RTThread.Rtdef
import RTThread.Lib.Runs
import Mathlib.Logic.Function.Basic
import Mathlib.Tactic.Linarith

/-!
# File descriptors (`components/dfs/src/dfs.c`)

A growing table of pointers to reference counted files. `fd_new` takes the first
slot that is empty or holds a file without references, grows the table by four
slots when there is none, and allocates the file; every allocation may fail.

`Numbers` is what the table is for: a partial map from numbers to files and
their reference counts. `fdTable_refines` shows that the table behaves like it
as long as no count reaches the largest `int`.
-/

namespace RTThread.Dfs

/-- `DFS_FD_MAX`. -/
abbrev dfsFdMax : Nat := 64

/-- `DFS_FD_OFFSET`. -/
abbrev dfsFdOffset : Int := 3

/-- `DFS_FD_MAGIC`. -/
abbrev dfsFdMagic : Nat := 0xfdfd

/-- `struct dfs_fd`, as far as the table uses it. -/
structure DfsFd where
  magic : Nat
  refCount : Int
deriving DecidableEq

/-- `struct dfs_fdtable`, whose length is `maxfd`, beside the files allocated in memory. -/
structure FdTable where
  files : Nat → Option DfsFd
  fds : List (Option Nat)

namespace FdTable

variable (t : FdTable)

/-- The file behind a pointer. -/
def deref (a : Nat) : Except Fault DfsFd :=
  match t.files a with
  | some d => .ok d
  | none => .error .badPointer

/-- The scan of `fd_alloc` for a slot that is empty or has no references. -/
def findEmpty : List (Option Nat) → Nat → Except Fault Nat
  | [], idx => .ok idx
  | none :: _, idx => .ok idx
  | some a :: rest, idx => do
    let d ← t.deref a
    if d.refCount = 0 then return idx else findEmpty rest (idx + 1)

/-- The larger container of `fd_alloc`, if there is memory for it. -/
def larger (idx : Nat) (grow : Bool) : Option FdTable :=
  if idx = t.fds.length ∧ t.fds.length < dfsFdMax then
    let cnt := t.fds.length + 4
    let cnt := if dfsFdMax < cnt then dfsFdMax else cnt
    if grow then some { t with fds := t.fds ++ List.replicate (cnt - t.fds.length) none } else none
  else some t

/-- `fd_alloc(fdt, startfd)`: the slot, or `maxfd`. `grow` says whether `rt_realloc` finds memory
and `mem` what `rt_calloc` returns. -/
def fdAlloc (startfd : Nat) (grow : Bool) (mem : Option Nat) : Except Fault (Nat × FdTable) := do
  let idx ← t.findEmpty (t.fds.drop startfd) startfd
  match t.larger idx grow with
  | none => return (idx, t)
  | some t =>
    if t.fds[idx]? = some none then
      match mem with
      | none => return (t.fds.length, t)
      | some a =>
        return (idx, { files := Function.update t.files a (some { magic := 0, refCount := 0 })
                       fds := t.fds.set idx (some a) })
    else return (idx, t)

/-- `fd_new()`. -/
def fdNew (grow : Bool) (mem : Option Nat) : Except Fault (Int × FdTable) := do
  let (idx, t) ← t.fdAlloc 0 grow mem
  if idx = t.fds.length then return (-(1 + dfsFdOffset) + dfsFdOffset, t)
  match t.fds[idx]? with
  | some (some a) =>
    let _ ← t.deref a
    return (idx + dfsFdOffset,
      { t with files := Function.update t.files a (some { magic := dfsFdMagic, refCount := 1 }) })
  | _ => throw .badPointer

/-- `fd_get(fd)`. -/
def fdGet (fd : Int) : Except Fault (Option Nat × FdTable) := do
  let fd := fd - dfsFdOffset
  if fd < 0 ∨ (t.fds.length : Int) ≤ fd then return (none, t)
  match t.fds[fd.toNat]? with
  | some (some a) =>
    let d ← t.deref a
    if d.magic ≠ dfsFdMagic then return (none, t)
    return (some a, { t with
      files := Function.update t.files a (some { d with refCount := toInt (d.refCount + 1) }) })
  | _ => return (none, t)

/-- `fd_put(fd)`. -/
def fdPut (a : Nat) : Except Fault FdTable := do
  let d ← t.deref a
  let d := { d with refCount := toInt (d.refCount - 1) }
  if d.refCount = 0 then
    match t.fds.idxOf? (some a) with
    | some index =>
      return { files := Function.update t.files a none, fds := t.fds.set index none }
    | none => return { t with files := Function.update t.files a (some d) }
  else return { t with files := Function.update t.files a (some d) }

end FdTable

-- --------
-- What the table is for
-- --------

/-- The files in use: a pointer and what it points to for each number. -/
abbrev Numbers := Int → Option (Nat × DfsFd)

/-- The calls, with what the allocator does. `fd_put` gets a pointer. -/
inductive FdAct
  | fdNew (grow : Bool) (mem : Option Nat)
  | fdGet (fd : Int)
  | fdPut (file : Nat)

/-- What a call returns. -/
inductive FdResult
  | number (fd : Int)
  | file (file : Option Nat)
  | unit

/-- What a call may return, and do to the files in use. -/
inductive Numbers.Step (n : Numbers) : FdAct → FdResult → Numbers → Prop
  /-- A failing `fd_new`. -/
  | full {grow : Bool} {mem : Option Nat} : Step n (.fdNew grow mem) (.number (-1)) n
  /-- A number that is not in use, for a file with one reference and the magic. -/
  | new {grow : Bool} {a : Nat} {fd : Int} (hfd : 0 ≤ fd) (hfree : n fd = none) :
    Step n (.fdNew grow (some a)) (.number fd)
      (Function.update n fd (some (a, { magic := dfsFdMagic, refCount := 1 })))
  | get {fd : Int} {a : Nat} {d : DfsFd} (hlive : n fd = some (a, d)) :
    Step n (.fdGet fd) (.file (some a))
      (Function.update n fd (some (a, { d with refCount := d.refCount + 1 })))
  | getNone {fd : Int} (hfree : n fd = none) : Step n (.fdGet fd) (.file none) n
  | put {fd : Int} {a : Nat} {d : DfsFd} (hlive : n fd = some (a, d)) (hd : d.refCount ≠ 1) :
    Step n (.fdPut a) .unit (Function.update n fd (some (a, { d with refCount := d.refCount - 1 })))
  /-- The last reference. -/
  | recycle {fd : Int} {a : Nat} {d : DfsFd} (hlive : n fd = some (a, d)) (hd : d.refCount = 1) :
    Step n (.fdPut a) .unit (Function.update n fd none)

theorem Numbers.Step.get_live {n n' : Numbers} {fd : Int} {r : FdResult} {a : Nat} {d : DfsFd}
    (h : Numbers.Step n (.fdGet fd) r n') (hlive : n fd = some (a, d)) :
    n' fd = some (a, { d with refCount := d.refCount + 1 }) := by
  cases h with
  | get hlive' =>
    obtain ⟨rfl, rfl⟩ := Prod.mk.inj (Option.some.inj (hlive.symm.trans hlive'))
    exact Function.update_self ..
  | getNone hfree =>
    rw [hlive] at hfree
    cases hfree

namespace FdTable

/-- The numbers a table has in use. -/
def numbers (t : FdTable) : Numbers := fun fd =>
  if fd < dfsFdOffset then none
  else
    match t.fds[(fd - dfsFdOffset).toNat]? with
    | some (some a) => (t.files a).map fun d => (a, d)
    | _ => none

/-- The table after `dfs_init`. -/
def empty : FdTable := { files := fun _ => none, fds := [] }

/-- A call and its result. -/
def call (t : FdTable) : FdAct → Except Fault (FdResult × FdTable)
  | .fdNew grow mem => do
    let (fd, t) ← t.fdNew grow mem
    return (.number fd, t)
  | .fdGet fd => do
    let (file, t) ← t.fdGet fd
    return (.file file, t)
  | .fdPut a => do
    let t ← t.fdPut a
    return (.unit, t)

/-- What the callers and the allocator promise: `rt_calloc` returns memory that is free, and
`fd_put` gets the pointer of a file in use. -/
def Allowed (t : FdTable) : FdAct → Prop
  | .fdNew _ mem => ∀ a, mem = some a → t.files a = none
  | .fdGet _ => True
  | .fdPut a => (t.files a).isSome

/-- No count of references is about to pass the largest `int`. -/
def BelowMax (t : FdTable) : FdAct → Prop
  | .fdGet fd => ∀ a d, t.numbers fd = some (a, d) → d.refCount < 2 ^ 31 - 1
  | _ => True

/-- A call that its caller may make, and that returns. -/
def Step (t : FdTable) (a : FdAct) (t' : FdTable) : Prop :=
  t.Allowed a ∧ ∃ r, t.call a = .ok (r, t')

-- --------
-- The invariant
-- --------

/-- Every slot is empty or points to a file of its own, which has references and the magic. -/
structure Inv (t : FdTable) : Prop where
  length_le : t.fds.length ≤ dfsFdMax
  file : ∀ {i a : Nat}, t.fds[i]? = some (some a) → ∃ d, t.files a = some d ∧
    d.magic = dfsFdMagic ∧ 1 ≤ d.refCount ∧ d.refCount < 2 ^ 31
  inj : ∀ {i j a : Nat}, t.fds[i]? = some (some a) → t.fds[j]? = some (some a) → i = j
  slot : ∀ {a : Nat}, (t.files a).isSome → ∃ i : Nat, t.fds[i]? = some (some a)

variable {t t' : FdTable} {i a : Nat} {d : DfsFd} {fd : Int}

/-- The table is empty at the start. -/
theorem inv_empty : Inv empty :=
  ⟨by decide, fun h => by simp [empty] at h, fun h => by simp [empty] at h,
    fun h => by simp [empty] at h⟩

theorem deref_eq (h : t.files a = some d) : t.deref a = .ok d := by
  rw [deref, h]

theorem numbers_of_slot (h : t.fds[i]? = some (some a)) (hd : t.files a = some d) :
    t.numbers (i + dfsFdOffset) = some (a, d) := by
  rw [numbers, if_neg (by omega), Int.add_sub_cancel, Int.toNat_natCast, h]
  dsimp only
  rw [hd]
  rfl

/-- A number in use is the number of a slot. -/
theorem slot_of_numbers (h : t.numbers fd = some (a, d)) :
    ∃ i : Nat, fd = i + dfsFdOffset ∧ t.fds[i]? = some (some a) ∧ t.files a = some d := by
  unfold numbers at h
  split at h
  · cases h
  · split at h
    · rename_i hfd a' hslot
      obtain ⟨d', hd', heq⟩ := Option.map_eq_some_iff.mp h
      cases heq
      exact ⟨(fd - dfsFdOffset).toNat, by omega, hslot, hd'⟩
    · cases h

theorem Inv.numbers_inj {fd' : Int} {d' : DfsFd} (I : Inv t) (h : t.numbers fd = some (a, d))
    (h' : t.numbers fd' = some (a, d')) : fd = fd' := by
  obtain ⟨i, rfl, hi, -⟩ := slot_of_numbers h
  obtain ⟨j, rfl, hj, -⟩ := slot_of_numbers h'
  rw [I.inj hi hj]

theorem numbers_none (h : ∀ i : Nat, fd = i + dfsFdOffset → ∀ a, t.fds[i]? ≠ some (some a)) :
    t.numbers fd = none := by
  rw [Option.eq_none_iff_forall_ne_some]
  rintro ⟨a, d⟩ hn
  obtain ⟨i, hfd, hslot, -⟩ := slot_of_numbers hn
  exact h i hfd a hslot

-- --------
-- Changing one slot
-- --------

/-- Slot `i` is empty and `a` points to nothing, or slot `i` points to the file `a`. -/
def Owns (t : FdTable) (i a : Nat) : Prop :=
  (t.fds[i]? = some none ∧ t.files a = none) ∨
    (t.fds[i]? = some (some a) ∧ ∃ d, t.files a = some d ∧ d.magic = dfsFdMagic ∧
      1 ≤ d.refCount ∧ d.refCount < 2 ^ 31)

/-- **One slot changes**, with the file it points to before or after: everything else stays. -/
theorem Inv.change (I : Inv t) (h : t.Owns i a) (h' : t'.Owns i a)
    (hlen : t'.fds.length = t.fds.length) (hslots : ∀ j ≠ i, t'.fds[j]? = t.fds[j]?)
    (hfiles : ∀ b ≠ a, t'.files b = t.files b) :
    Inv t' ∧ t'.numbers =
      Function.update t.numbers (i + dfsFdOffset) ((t'.files a).map fun d => (a, d)) := by
  have hother : ∀ {j : Nat}, j ≠ i → t.fds[j]? ≠ some (some a) := by
    intro j hj hslot
    rcases h with ⟨-, hnone⟩ | ⟨hi, -⟩
    · obtain ⟨d, hd, -⟩ := I.file hslot
      rw [hnone] at hd
      cases hd
    · exact hj (I.inj hslot hi)
  -- slot `i` holds nothing but `a`, and no other slot does
  have hself : ∀ {b : Nat}, t'.fds[i]? = some (some b) → b = a := by
    intro b hb
    rcases h' with ⟨hnone, -⟩ | ⟨hi, -⟩
    · rw [hnone] at hb
      cases hb
    · rw [hi] at hb
      cases hb
      rfl
  have hne : ∀ {j b : Nat}, j ≠ i → t'.fds[j]? = some (some b) →
      t.fds[j]? = some (some b) ∧ t'.files b = t.files b := by
    intro j b hj hb
    rw [hslots j hj] at hb
    exact ⟨hb, hfiles b fun hba => hother hj (hba ▸ hb)⟩
  refine ⟨⟨hlen ▸ I.length_le, ?_, ?_, ?_⟩, ?_⟩
  · intro j b hb
    by_cases hj : j = i
    · subst hj
      obtain rfl := hself hb
      rcases h' with ⟨hnone, -⟩ | ⟨-, hd⟩
      · rw [hnone] at hb
        cases hb
      · exact hd
    · obtain ⟨hb, hfile⟩ := hne hj hb
      rw [hfile]
      exact I.file hb
  · intro j k b hb hb'
    by_cases hj : j = i <;> by_cases hk : k = i
    · rw [hj, hk]
    · subst hj
      obtain rfl := hself hb
      exact absurd (hne hk hb').1 (hother hk)
    · subst hk
      obtain rfl := hself hb'
      exact absurd (hne hj hb).1 (hother hj)
    · exact I.inj (hne hj hb).1 (hne hk hb').1
  · intro b hb
    by_cases hba : b = a
    · subst hba
      rcases h' with ⟨-, hnone⟩ | ⟨hi, -⟩
      · rw [hnone] at hb
        cases hb
      · exact ⟨i, hi⟩
    · rw [hfiles b hba] at hb
      obtain ⟨j, hj⟩ := I.slot hb
      have hji : j ≠ i := by
        rintro rfl
        rcases h with ⟨hnone, -⟩ | ⟨hi, -⟩
        · rw [hnone] at hj
          cases hj
        · rw [hi] at hj
          cases hj
          exact hba rfl
      exact ⟨j, (hslots j hji).trans hj⟩
  · funext fd
    by_cases hfd : fd = i + dfsFdOffset
    · subst hfd
      rw [Function.update_self]
      rcases h' with ⟨hnone, hfile⟩ | ⟨hi, d, hd, -⟩
      · rw [hfile]
        refine numbers_none fun j hj b hb => ?_
        obtain rfl : j = i := by omega
        rw [hnone] at hb
        cases hb
      · rw [hd]
        exact numbers_of_slot hi hd
    · rw [Function.update_of_ne hfd, Option.ext_iff]
      rintro ⟨b, d⟩
      constructor
      · intro hn
        obtain ⟨j, rfl, hj, hd⟩ := slot_of_numbers hn
        have hji : j ≠ i := fun h => hfd (by rw [h])
        obtain ⟨hj, hfile⟩ := hne hji hj
        exact numbers_of_slot hj (hfile ▸ hd)
      · intro hn
        obtain ⟨j, rfl, hj, hd⟩ := slot_of_numbers hn
        have hji : j ≠ i := fun h => hfd (by rw [h])
        have hj' : t'.fds[j]? = some (some b) := (hslots j hji).trans hj
        exact numbers_of_slot hj' ((hne hji hj').2.trans hd)

/-- Another count for a file in use. -/
theorem Inv.setFile (I : Inv t) (h : t.fds[i]? = some (some a)) (hm : d.magic = dfsFdMagic)
    (h1 : 1 ≤ d.refCount) (h2 : d.refCount < 2 ^ 31) :
    Inv { t with files := Function.update t.files a (some d) } ∧
      numbers { t with files := Function.update t.files a (some d) } =
        Function.update t.numbers (i + dfsFdOffset) (some (a, d)) := by
  have hself : Function.update t.files a (some d) a = some d := Function.update_self ..
  have hchange := @change _ { t with files := Function.update t.files a (some d) } _ _ I
    (Or.inr ⟨h, I.file h⟩) (Or.inr ⟨h, d, hself, hm, h1, h2⟩) rfl (fun _ _ => rfl)
    (fun b hb => Function.update_of_ne hb ..)
  dsimp only at hchange
  rwa [hself] at hchange

/-- A new file in an empty slot. -/
theorem Inv.insert (I : Inv t) (h : t.fds[i]? = some none) (hfree : t.files a = none)
    (hm : d.magic = dfsFdMagic) (h1 : 1 ≤ d.refCount) (h2 : d.refCount < 2 ^ 31) :
    Inv { files := Function.update t.files a (some d), fds := t.fds.set i (some a) } ∧
      numbers { files := Function.update t.files a (some d), fds := t.fds.set i (some a) } =
        Function.update t.numbers (i + dfsFdOffset) (some (a, d)) := by
  have hi : i < t.fds.length := (List.getElem?_eq_some_iff.mp h).1
  have hself : Function.update t.files a (some d) a = some d := Function.update_self ..
  have hchange := @change _
    { files := Function.update t.files a (some d), fds := t.fds.set i (some a) } _ _ I
    (Or.inl ⟨h, hfree⟩) (Or.inr ⟨List.getElem?_set_self hi, d, hself, hm, h1, h2⟩)
    (List.length_set ..) (fun j hj => List.getElem?_set_ne (Ne.symm hj))
    (fun b hb => Function.update_of_ne hb ..)
  dsimp only at hchange
  rwa [hself] at hchange

/-- A slot is given back, and its file freed. -/
theorem Inv.erase (I : Inv t) (h : t.fds[i]? = some (some a)) :
    Inv { files := Function.update t.files a none, fds := t.fds.set i none } ∧
      numbers { files := Function.update t.files a none, fds := t.fds.set i none } =
        Function.update t.numbers (i + dfsFdOffset) none := by
  have hi : i < t.fds.length := (List.getElem?_eq_some_iff.mp h).1
  have hself : Function.update t.files a none a = none := Function.update_self ..
  have hchange := @change _
    { files := Function.update t.files a none, fds := t.fds.set i none } _ _ I
    (Or.inr ⟨h, I.file h⟩) (Or.inl ⟨List.getElem?_set_self hi, hself⟩)
    (List.length_set ..) (fun j hj => List.getElem?_set_ne (Ne.symm hj))
    (fun b hb => Function.update_of_ne hb ..)
  dsimp only at hchange
  rwa [hself] at hchange

-- --------
-- `fd_new`
-- --------

/-- The scan ends at an empty slot or behind the table: no file in use is without references. -/
theorem findEmpty_eq (I : Inv t) : ∀ (l : List (Option Nat)) (i : Nat),
    (∀ a, some a ∈ l → ∃ j : Nat, t.fds[j]? = some (some a)) →
    ∃ k, t.findEmpty l i = .ok (i + k) ∧ k ≤ l.length ∧ (k < l.length → l[k]? = some none) := by
  intro l
  induction l with
  | nil => exact fun i _ => ⟨0, rfl, Nat.le_refl _, fun h => absurd h (by simp)⟩
  | cons slot rest ih =>
    intro i hl
    cases slot with
    | none => exact ⟨0, rfl, Nat.zero_le _, fun _ => rfl⟩
    | some a =>
      obtain ⟨j, hj⟩ := hl a List.mem_cons_self
      obtain ⟨d, hd, -, hpos, -⟩ := I.file hj
      obtain ⟨k, hk, hle, hempty⟩ := ih (i + 1) fun b hb => hl b (List.mem_cons_of_mem _ hb)
      refine ⟨k + 1, ?_, by simpa using hle, fun h => ?_⟩
      · rw [findEmpty, deref_eq hd]
        show (if d.refCount = 0 then _ else _) = _
        rw [if_neg (by omega), hk, Nat.add_assoc, Nat.add_comm 1 k]
      · rw [List.getElem?_cons_succ]
        exact hempty (by simpa using h)

/-- A longer table with the same files in use. -/
theorem Inv.append (I : Inv t) {n : Nat} (h : t.fds.length + n ≤ dfsFdMax) :
    Inv { t with fds := t.fds ++ List.replicate n none } ∧
      numbers { t with fds := t.fds ++ List.replicate n none } = t.numbers := by
  have hsame : ∀ {i a : Nat}, (t.fds ++ List.replicate n none)[i]? = some (some a) ↔
      t.fds[i]? = some (some a) := by
    intro i a
    rcases Nat.lt_or_ge i t.fds.length with hi | hi
    · rw [List.getElem?_append_left hi]
    · rw [List.getElem?_append_right hi, List.getElem?_eq_none hi, List.getElem?_replicate]
      simp
  refine ⟨⟨?_, fun hi => I.file (hsame.mp hi), fun hi hj => I.inj (hsame.mp hi) (hsame.mp hj),
    fun ha => ?_⟩, ?_⟩
  · rw [List.length_append, List.length_replicate]
    exact h
  · obtain ⟨i, hi⟩ := I.slot ha
    exact ⟨i, hsame.mpr hi⟩
  · funext fd
    rw [Option.ext_iff]
    rintro ⟨a, d⟩
    constructor
    · intro hn
      obtain ⟨i, rfl, hi, hd⟩ := slot_of_numbers hn
      exact numbers_of_slot (hsame.mp hi) hd
    · intro hn
      obtain ⟨i, rfl, hi, hd⟩ := slot_of_numbers hn
      exact numbers_of_slot (t := { t with fds := t.fds ++ List.replicate n none })
        (hsame.mpr hi) hd

/-- The larger container, when there is no empty slot. -/
theorem Inv.larger (I : Inv t) {idx : Nat} {grow : Bool} (hidx : idx ≤ t.fds.length)
    (hempty : idx < t.fds.length → t.fds[idx]? = some none) :
    (t.larger idx grow = none ∧ idx = t.fds.length) ∨
      ∃ t', t.larger idx grow = some t' ∧ Inv t' ∧ t'.numbers = t.numbers ∧ t'.files = t.files ∧
        ((idx = t'.fds.length ∧ t'.fds[idx]? = none) ∨ t'.fds[idx]? = some none) := by
  unfold FdTable.larger
  split
  · rename_i h
    obtain ⟨rfl, hlt⟩ := h
    cases grow with
    | false => exact Or.inl ⟨rfl, rfl⟩
    | true =>
      have hcnt : t.fds.length < (if dfsFdMax < t.fds.length + 4 then dfsFdMax
          else t.fds.length + 4) ∧ (if dfsFdMax < t.fds.length + 4 then dfsFdMax
          else t.fds.length + 4) ≤ dfsFdMax := by
        split <;> omega
      obtain ⟨I', hnumbers⟩ := I.append (n := (if dfsFdMax < t.fds.length + 4 then dfsFdMax
          else t.fds.length + 4) - t.fds.length) (by omega)
      refine Or.inr ⟨_, rfl, I', hnumbers, rfl, Or.inr ?_⟩
      show (t.fds ++ List.replicate _ none)[t.fds.length]? = some none
      rw [List.getElem?_append_right (Nat.le_refl _), Nat.sub_self, List.getElem?_replicate,
        if_pos (by omega)]
  · refine Or.inr ⟨t, rfl, I, rfl, rfl, ?_⟩
    rcases Nat.lt_or_ge idx t.fds.length with hlt | hge
    · exact Or.inr (hempty hlt)
    · exact Or.inl ⟨by omega, List.getElem?_eq_none hge⟩

/-- **`fd_alloc`** ends behind the table, or at an empty slot that it fills with a new file. -/
theorem Inv.fdAlloc (I : Inv t) (grow : Bool) (mem : Option Nat) :
    ∃ idx t₁, Inv t₁ ∧ t₁.numbers = t.numbers ∧ t₁.files = t.files ∧
      ((t.fdAlloc 0 grow mem = .ok (idx, t₁) ∧ idx = t₁.fds.length) ∨
        ∃ a, mem = some a ∧ t₁.fds[idx]? = some none ∧ t.fdAlloc 0 grow mem = .ok (idx,
          { files := Function.update t.files a (some { magic := 0, refCount := 0 })
            fds := t₁.fds.set idx (some a) })) := by
  have hslots : ∀ a, some a ∈ t.fds → ∃ j : Nat, t.fds[j]? = some (some a) :=
    fun a ha => List.mem_iff_getElem?.mp ha
  obtain ⟨k, hscan, hle, hempty⟩ := findEmpty_eq I t.fds 0 hslots
  rw [Nat.zero_add] at hscan
  unfold FdTable.fdAlloc
  rw [List.drop_zero, hscan]
  rcases @larger _ I _ grow hle hempty with ⟨hnone, hk⟩ | ⟨t₁, hsome, I₁, hnumbers, hfiles, hk⟩
  · refine ⟨k, t, I, rfl, rfl, Or.inl ⟨?_, hk⟩⟩
    show (match t.larger k grow with | none => _ | some t => _ : Except Fault _) = _
    rw [hnone]
    rfl
  · show ∃ idx t₁, _ ∧ _ ∧ _ ∧
      (((match t.larger k grow with | none => _ | some t => _ : Except Fault _) = _ ∧ _) ∨
        ∃ a, _ ∧ _ ∧ (match t.larger k grow with | none => _ | some t => _ : Except Fault _) = _)
    rw [hsome]
    dsimp only
    rcases hk with ⟨hk, hout⟩ | hslot
    · rw [hout, if_neg (by simp)]
      exact ⟨k, t₁, I₁, hnumbers, hfiles, Or.inl ⟨rfl, hk⟩⟩
    · rw [hslot, if_pos rfl]
      cases mem with
      | none => exact ⟨t₁.fds.length, t₁, I₁, hnumbers, hfiles, Or.inl ⟨rfl, rfl⟩⟩
      | some a =>
        refine ⟨k, t₁, I₁, hnumbers, hfiles, Or.inr ⟨a, rfl, hslot, ?_⟩⟩
        rw [← hfiles]
        rfl

/-- **`fd_new`** fails and changes no file, or finds a number that is not in use. -/
theorem Inv.fdNew (I : Inv t) (grow : Bool) {mem : Option Nat}
    (hmem : ∀ a, mem = some a → t.files a = none) :
    ∃ fd t', t.fdNew grow mem = .ok (fd, t') ∧ Inv t' ∧
      Numbers.Step t.numbers (.fdNew grow mem) (.number fd) t'.numbers := by
  obtain ⟨idx, t₁, I₁, hnumbers, hfiles, hcall⟩ := I.fdAlloc grow mem
  unfold FdTable.fdNew
  rcases hcall with ⟨hcall, hidx⟩ | ⟨a, rfl, hslot, hcall⟩
  · refine ⟨-1, t₁, ?_, I₁, hnumbers ▸ .full⟩
    rw [hcall]
    show (if idx = t₁.fds.length then _ else _ : Except Fault (Int × FdTable)) = _
    rw [if_pos hidx]
    rfl
  · have hlt : idx < t₁.fds.length := (List.getElem?_eq_some_iff.mp hslot).1
    have hfree : t₁.files a = none := by
      rw [hfiles]
      exact hmem a rfl
    obtain ⟨I', hn'⟩ := I₁.insert (d := { magic := dfsFdMagic, refCount := 1 }) hslot hfree rfl
      (by decide) (by decide)
    refine ⟨idx + dfsFdOffset, _, ?_, I', ?_⟩
    · rw [hcall]
      show (if idx = (t₁.fds.set idx (some a)).length then _ else
        match (t₁.fds.set idx (some a))[idx]? with | some (some a) => _ | _ => _ :
          Except Fault (Int × FdTable)) = _
      rw [if_neg (by rw [List.length_set]; omega), List.getElem?_set_self hlt]
      dsimp only
      rw [deref_eq (d := { magic := 0, refCount := 0 }) (Function.update_self ..)]
      show Except.ok _ = Except.ok _
      rw [Function.update_idem, hfiles]
    · rw [hn', ← hnumbers]
      have hpos : 0 ≤ idx + dfsFdOffset := by
        show 0 ≤ (idx : Int) + 3
        omega
      refine .new hpos (numbers_none fun i hi b hb => ?_)
      obtain rfl : idx = i := by omega
      rw [hslot] at hb
      cases hb

-- --------
-- `fd_get` and `fd_put`
-- --------

theorem fdGet_eq (hslot : t.fds[i]? = some (some a)) (hd : t.files a = some d)
    (hm : d.magic = dfsFdMagic) :
    t.fdGet (i + dfsFdOffset) = .ok (some a,
      ⟨Function.update t.files a (some { d with refCount := toInt (d.refCount + 1) }), t.fds⟩) := by
  have hi := (List.getElem?_eq_some_iff.mp hslot).1
  have hidx : (i : Int) + dfsFdOffset - dfsFdOffset = i := Int.add_sub_cancel ..
  unfold FdTable.fdGet
  dsimp only
  rw [hidx, if_neg (by omega), Int.toNat_natCast, hslot]
  dsimp only
  rw [deref_eq hd]
  show (if d.magic ≠ dfsFdMagic then _ else _ : Except Fault (Option Nat × FdTable)) = _
  rw [if_neg (by simpa using hm)]
  rfl

/-- **`fd_get`** adds a reference to a number in use, and finds no other one. -/
theorem Inv.fdGet (I : Inv t) (hmax : t.BelowMax (.fdGet fd)) :
    ∃ file t', t.fdGet fd = .ok (file, t') ∧ Inv t' ∧
      Numbers.Step t.numbers (.fdGet fd) (.file file) t'.numbers := by
  cases hn : t.numbers fd with
  | some file =>
    obtain ⟨a, d⟩ := file
    obtain ⟨i, rfl, hslot, hd⟩ := slot_of_numbers hn
    obtain ⟨d', hd', hm, h1, h2⟩ := I.file hslot
    obtain rfl := Option.some.inj (hd.symm.trans hd')
    have hlt := hmax a d hn
    have hint : toInt (d.refCount + 1) = d.refCount + 1 := toInt_of_fits (by omega) (by omega)
    obtain ⟨I', hn'⟩ := I.setFile (d := { d with refCount := d.refCount + 1 }) hslot hm
      (by dsimp only; omega) (by dsimp only; omega)
    refine ⟨some a, _, ?_, I', hn' ▸ .get hn⟩
    rw [fdGet_eq hslot hd hm, hint]
  | none =>
    refine ⟨none, t, ?_, I, .getNone hn⟩
    unfold FdTable.fdGet
    dsimp only
    split
    · rfl
    · rename_i hin
      obtain ⟨i, hi⟩ : ∃ i : Nat, fd - dfsFdOffset = i := Int.eq_ofNat_of_zero_le (by omega)
      obtain rfl : fd = i + dfsFdOffset := by omega
      rw [hi, Int.toNat_natCast]
      split
      · rename_i a hslot
        obtain ⟨d, hd, -⟩ := I.file hslot
        rw [numbers_of_slot hslot hd] at hn
        cases hn
      · rfl

/-- **`fd_put`** takes a reference off, and recycles the slot with the last one. -/
theorem Inv.fdPut (I : Inv t) (h : (t.files a).isSome) :
    ∃ t', t.fdPut a = .ok t' ∧ Inv t' ∧ Numbers.Step t.numbers (.fdPut a) .unit t'.numbers := by
  obtain ⟨i, hslot⟩ := I.slot h
  obtain ⟨d, hd, hm, h1, h2⟩ := I.file hslot
  have hlive := numbers_of_slot hslot hd
  have hint : toInt (d.refCount - 1) = d.refCount - 1 := toInt_of_fits (by omega) (by omega)
  unfold FdTable.fdPut
  rw [deref_eq hd]
  show ∃ t', (if toInt (d.refCount - 1) = 0 then _ else _ : Except Fault FdTable) = .ok t' ∧ _
  rw [hint]
  by_cases hone : d.refCount - 1 = 0
  · rw [if_pos hone]
    obtain ⟨I', hn'⟩ := I.erase hslot
    have hindex : t.fds.idxOf? (some a) = some i := by
      obtain ⟨hi, hget⟩ := List.getElem?_eq_some_iff.mp hslot
      rw [List.idxOf?, List.findIdx?_eq_some_iff_getElem]
      refine ⟨hi, by simp [hget], fun j hj hbeq => ?_⟩
      have hj' : t.fds[j]? = some (some a) := by
        rw [List.getElem?_eq_getElem (by omega), eq_of_beq hbeq]
      have := I.inj hj' hslot
      omega
    rw [hindex]
    exact ⟨_, rfl, I', hn' ▸ .recycle hlive (by omega)⟩
  · rw [if_neg hone]
    obtain ⟨I', hn'⟩ := I.setFile (d := { d with refCount := d.refCount - 1 }) hslot hm
      (by dsimp only; omega) (by dsimp only; omega)
    exact ⟨_, rfl, I', hn' ▸ .put hlive (by omega)⟩

-- --------
-- Runs
-- --------

/-- **One call** that its caller may make, with no count about to overflow, returns; it keeps the
invariant and does to the numbers in use what it may. -/
theorem Inv.call {c : FdAct} (I : Inv t) (hc : t.Allowed c) (hmax : t.BelowMax c) :
    ∃ r t', t.call c = .ok (r, t') ∧ Inv t' ∧ Numbers.Step t.numbers c r t'.numbers := by
  cases c with
  | fdNew grow mem =>
    obtain ⟨fd, t', hcall, I', hstep⟩ := I.fdNew grow hc
    refine ⟨.number fd, t', ?_, I', hstep⟩
    rw [FdTable.call, hcall]
    rfl
  | fdGet fd =>
    obtain ⟨file, t', hcall, I', hstep⟩ := I.fdGet hmax
    refine ⟨.file file, t', ?_, I', hstep⟩
    rw [FdTable.call, hcall]
    rfl
  | fdPut a =>
    obtain ⟨t', hcall, I', hstep⟩ := I.fdPut hc
    refine ⟨.unit, t', ?_, I', hstep⟩
    rw [FdTable.call, hcall]
    rfl

/-- The invariant holds in every state of a run. -/
theorem inv_of_run (hrun : Runs Step BelowMax empty t) : Inv t := by
  refine @Runs.invariant _ _ _ _ _ _ Inv ?_ hrun inv_empty
  rintro t c t' I hmax ⟨hc, r, hcall⟩
  obtain ⟨r', t'', hcall', I', -⟩ := I.call hc hmax
  rw [hcall'] at hcall
  cases hcall
  exact I'

/-- **The descriptor table.** In every run of `fd_new`, `fd_get` and `fd_put` in which no count of
references is about to pass the largest `int`, every next call returns and does to the numbers in
use what it may; no file has two numbers and the table stays within its bound. -/
theorem fdTable_refines {c : FdAct} (hrun : Runs Step BelowMax empty t) (hc : t.Allowed c)
    (hmax : t.BelowMax c) :
    (∃ r t', t.call c = .ok (r, t') ∧ Numbers.Step t.numbers c r t'.numbers) ∧
      t.fds.length ≤ dfsFdMax ∧
      ∀ fd fd' a d d', t.numbers fd = some (a, d) → t.numbers fd' = some (a, d') → fd = fd' := by
  have I := inv_of_run hrun
  obtain ⟨r, t', hcall, -, hstep⟩ := I.call hc hmax
  exact ⟨⟨r, t', hcall, hstep⟩, I.length_le, fun _ _ _ _ _ h h' => I.numbers_inj h h'⟩

theorem exists_opened : ∃ t, Runs Step BelowMax empty t ∧
    t.numbers 3 = some (1, { magic := dfsFdMagic, refCount := 1 }) :=
  ⟨_, @Runs.snoc _ _ Step BelowMax _ _ _ (.fdNew true (some 1)) Runs.refl trivial
    ⟨fun _ _ => rfl, .number 3, rfl⟩, rfl⟩

/-- A file is opened, and looked up once. -/
theorem fdTable_refines_get : ∃ t : FdTable, ∃ r t', t.call (.fdGet 3) = .ok (r, t') ∧
    Numbers.Step t.numbers (.fdGet 3) r t'.numbers := by
  obtain ⟨t, hrun, hcount⟩ := exists_opened
  have hmax : t.BelowMax (.fdGet 3) := by
    intro a d h
    obtain ⟨rfl, rfl⟩ := Prod.mk.inj (Option.some.inj (hcount.symm.trans h))
    decide
  have hc : t.Allowed (.fdGet 3) := trivial
  exact ⟨t, (fdTable_refines hrun hc hmax).1⟩

-- --------
-- The largest count
-- --------

/-- A caller that never puts back what it gets reaches every count. -/
theorem exists_count (n : Nat) (hn : n + 1 < 2 ^ 31) : ∃ t, Runs Step BelowMax empty t ∧
    t.numbers 3 = some (1, { magic := dfsFdMagic, refCount := n + 1 }) := by
  induction n with
  | zero => exact exists_opened
  | succ n ih =>
    obtain ⟨t, hrun, hcount⟩ := ih (by omega)
    have hmax : t.BelowMax (.fdGet 3) := by
      intro a d h
      obtain ⟨rfl, rfl⟩ := Prod.mk.inj (Option.some.inj (hcount.symm.trans h))
      dsimp only
      omega
    have hc : t.Allowed (.fdGet 3) := trivial
    obtain ⟨r, t', hcall, -, hstep⟩ := (inv_of_run hrun).call hc hmax
    refine ⟨t', hrun.snoc hmax ⟨hc, r, hcall⟩, ?_⟩
    rw [hstep.get_live hcount]
    rfl

/-- **A count passes the largest `int`**: the next `fd_get` makes it negative. -/
theorem fdGet_overflow : ¬ ∀ t, Runs Step Runs.always empty t → ∀ c, t.Allowed c →
    ∃ r t', t.call c = .ok (r, t') ∧ Numbers.Step t.numbers c r t'.numbers := by
  intro h
  obtain ⟨t, hrun, hcount⟩ := exists_count (2 ^ 31 - 2) (by decide)
  have hrun' : Runs Step Runs.always empty t :=
    @Runs.mono _ _ Step BelowMax Runs.always _ _ (fun _ => True) (fun _ _ _ _ => trivial)
      (fun _ _ _ h _ _ => h) hrun trivial
  obtain ⟨i, hi, hslot, hd⟩ := slot_of_numbers hcount
  obtain ⟨r, t', hcall, hstep⟩ := h t hrun' (.fdGet 3) trivial
  have hget := fdGet_eq hslot hd rfl
  rw [← hi] at hget
  rw [call, hget] at hcall
  obtain ⟨rfl, rfl⟩ := Prod.mk.inj (Except.ok.inj hcall)
  have hafter := numbers_of_slot (t := { t with files := Function.update t.files 1 (some
    { magic := dfsFdMagic, refCount := toInt ((2 ^ 31 - 2 : Nat) + 1 + 1) }) }) (i := i) (a := 1)
    (d := { magic := dfsFdMagic, refCount := toInt ((2 ^ 31 - 2 : Nat) + 1 + 1) }) hslot
    (Function.update_self (f := t.files) (a := 1) ..)
  rw [← hi] at hafter
  -- the abstract count is `2 ^ 31`, the stored one wraps
  have hcounts := hafter.symm.trans (hstep.get_live hcount)
  revert hcounts
  decide

end FdTable

end RTThread.Dfs
