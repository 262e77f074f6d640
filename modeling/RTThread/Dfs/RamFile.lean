import RTThread.Dfs.Ramfs
import RTThread.Mem.MemHeapClient

/-!
# A file of the RAM file system (`components/dfs/filesystems/ramfs/dfs_ramfs.c`)

The bytes of a file are one block of the file system's memory heap. The entry of the file has the
address and the size. Each descriptor has a copy of the size, from when it was opened or last made
the file longer itself, and reads, writes and seeks look at this copy only.

So a write through a descriptor with a copy that is too small resizes the block to what ends before
the file does, and a read or write through one with a copy that is too large leaves the block.
`ramfs_file` says what is kept as long as the copy makes no difference, over a heap that all files
share.
-/

namespace RTThread.Dfs

open Memheap ByteMem Tiling

-- --------
-- The code
-- --------

/-- `size` and `pos` of `struct dfs_fd`. -/
structure RamfsFd where
  size : Nat
  pos : Nat

/-- `data` and `size` of the `struct ramfs_dirent` of a file, the heap with its live blocks, and
the descriptors on the file. -/
structure RamFile where
  heap : Memheap.State
  data : Option Nat
  size : Nat
  fds : Nat → Option RamfsFd

structure RamFlags extends OpenFlags where
  append : Bool

/-- An open with these flags empties the file. -/
def RamFlags.Empties (flags : RamFlags) : Prop := flags.directory = false ∧ flags.trunc = true

instance (flags : RamFlags) : Decidable flags.Empties := instDecidableAnd

inductive Whence
  | seekSet
  | seekCur
  | seekEnd
  | other

/-- What happens to a file: calls through the descriptor in a slot, with counts and offsets of 32
bits, and what is done to the other blocks of the heap. -/
inductive RamFileAct
  | open (i : Nat) (flags : RamFlags)
  | close (i : Nat)
  | read (i : Nat) (count : UInt32)
  /-- `self` is the name of the calling thread. -/
  | write (i : Nat) (self : Option (List UInt8)) (buf : ByteMem) (count : UInt32)
  | lseek (i : Nat) (offset : Int32) (whence : Whence)
  | others (a : Memheap.Action)

inductive RamFileOut
  | opened
  | closed
  | data (bytes : List UInt8)
  | count (n : Nat)
  | pos (offset : Int)
  | nothing
  | failed

namespace RamFile

variable (s : RamFile)

/-- The bytes of a file from `pos` on: their address, if they are inside its block. -/
def bytesAt (pos len : Nat) : Except Fault Nat := do
  let p ← deref s.data
  if p + (pos + len) ≤ s.heap.heap.get .next (p - memheapSize) then return p + pos
  else throw .badPointer

def setFd (i : Nat) (fd : Option RamfsFd) : RamFile :=
  { s with fds := Function.update s.fds i fd }

/-- `dfs_ramfs_read` -/
def dfsRamfsRead (fd : RamfsFd) (count : Nat) : Except Fault (List UInt8 × RamfsFd) := do
  let length := if count < Word32.sub fd.size fd.pos then count else Word32.sub fd.size fd.pos
  let bytes ←
    if 0 < length then do
      let a ← s.bytesAt fd.pos length
      pure (s.heap.heap.mem.loadBytes a length)
    else pure []
  return (bytes, { fd with pos := Word32.add fd.pos length })

/-- The end of `dfs_ramfs_write`: the copy and the position. -/
def copyIn (fd : RamfsFd) (buf : ByteMem) (count : Nat) :
    Except Fault (Nat × RamfsFd × RamFile) := do
  let s ←
    if 0 < count then do
      let a ← s.bytesAt fd.pos count
      pure { s with heap := s.heap.store a (buf.loadBytes 0 count) }
    else pure s
  return (count, { fd with pos := Word32.add fd.pos count }, s)

/-- `dfs_ramfs_write` -/
def dfsRamfsWrite (self : Option (List UInt8)) (fd : RamfsFd) (buf : ByteMem) (count : Nat) :
    Except Fault (Nat × RamfsFd × RamFile) :=
  if fd.size < Word32.add count fd.pos then do
    let newsize := Word32.add fd.pos count
    match ← s.heap.heap.rtMemheapRealloc self s.data newsize with
    | (none, h) => return (0, fd, { s with heap := ⟨h, s.heap.resized s.data newsize none⟩ })
    | (some ptr, h) =>
      let s := { s with
        heap := ⟨h, s.heap.resized s.data newsize (some ptr)⟩, data := some ptr, size := newsize }
      s.copyIn { fd with size := newsize } buf count
  else s.copyIn fd buf count

/-- `dfs_ramfs_lseek` -/
def dfsRamfsLseek (fd : RamfsFd) (offset : Int) : Option RamfsFd :=
  if offset ≤ toInt fd.size then some { fd with pos := (offset % 2 ^ 32).toNat } else none

/-- `lseek` -/
def lseek (fd : RamfsFd) (offset : Int) (whence : Whence) : Option (Int × RamfsFd) :=
  let offset? := match whence with
    | .seekSet => some offset
    | .seekCur => some (toInt (offset + fd.pos))
    | .seekEnd => some (toInt (offset + fd.size))
    | .other => none
  offset?.bind fun offset =>
    if offset < 0 then none else (dfsRamfsLseek fd offset).map fun fd => (offset, fd)

/-- `O_TRUNC` of `dfs_ramfs_open`. -/
def truncated : Except Fault RamFile := do
  let h ← s.heap.heap.rtMemheapFree s.data
  return { s with heap := ⟨h, s.heap.without s.data⟩, data := none, size := 0 }

/-- `dfs_ramfs_open` of the file, which is there. -/
def dfsRamfsOpen (flags : RamFlags) : Except Fault (Option (RamfsFd × RamFile)) :=
  if flags.directory = true ∧ flags.creat = true then return none
  else do
    let s ← (if flags.Empties then s.truncated else pure s)
    return some (⟨s.size, if flags.append then s.size else 0⟩, s)

/-- **A call**, or what is done to the other blocks of the heap. -/
def call : RamFileAct → Except Fault (RamFileOut × RamFile)
  | .open i flags =>
    match s.fds i with
    | some _ => return (.failed, s)
    | none => do
      match ← s.dfsRamfsOpen flags with
      | none => return (.failed, s)
      | some (fd, s) => return (.opened, s.setFd i (some fd))
  | .close i => return (.closed, s.setFd i none)
  | .read i count =>
    match s.fds i with
    | none => return (.failed, s)
    | some fd => do
      let (bytes, fd) ← s.dfsRamfsRead fd count.toNat
      return (.data bytes, s.setFd i (some fd))
  | .write i self buf count =>
    match s.fds i with
    | none => return (.failed, s)
    | some fd => do
      let (n, fd, s) ← s.dfsRamfsWrite self fd buf count.toNat
      return (.count n, s.setFd i (some fd))
  | .lseek i offset whence =>
    match s.fds i with
    | none => return (.failed, s)
    | some fd =>
      match lseek fd offset.toInt whence with
      | none => return (.failed, s)
      | some (offset, fd) => return (.pos offset, s.setFd i (some fd))
  | .others a =>
    if ∃ p ∈ s.data, p ∈ a.given then return (.nothing, s)
    else do
      let heap ← s.heap.perform a
      return (.nothing, { s with heap })

end RamFile

-- --------
-- The bytes of a file
-- --------

/-- The size of a file, and the byte last written at each offset. -/
structure FileBytes where
  size : Nat
  byte : Nat → Option UInt8

namespace FileBytes

def empty : FileBytes := ⟨0, fun _ => none⟩

/-- Bytes written from `pos` on. -/
def write (c : FileBytes) (pos : Nat) (bytes : List UInt8) : FileBytes where
  size := if bytes = [] then c.size else max c.size (pos + bytes.length)
  byte off := if pos ≤ off then (bytes[off - pos]?).or (c.byte off) else c.byte off

end FileBytes

namespace RamFile

/-- What was written to the file, after a call that returned `out`. -/
def after (s : RamFile) (c : FileBytes) (a : RamFileAct) (out : RamFileOut) : FileBytes :=
  match a, out with
  | .open _ flags, .opened => if flags.Empties then .empty else c
  | .write i _ buf _, .count n =>
    match s.fds i with
    | some fd => c.write fd.pos (buf.loadBytes 0 n)
    | none => c
  | _, _ => c

/-- A call and what was written. -/
def exec (p : RamFile × FileBytes) (a : RamFileAct) : Option (RamFile × FileBytes) :=
  match p.1.call a with
  | .ok (out, s) => some (s, p.1.after p.2 a out)
  | .error _ => none

/-- The file is as long as what was written to it, and its block has the bytes. -/
structure Has (s : RamFile) (c : FileBytes) : Prop where
  size_eq : s.size = c.size
  bytes : ∀ off < c.size, ∃ p ∈ s.data, InPayload s.heap.heap p (p + off) ∧
    ∀ b ∈ c.byte off, s.heap.heap.mem (p + off) = b

/-- A read returns what was written, up to the end of the file. -/
def ReadsBack (s : RamFile) (c : FileBytes) (a : RamFileAct) (out : RamFileOut) : Prop :=
  ∀ i count fd, a = .read i count → s.fds i = some fd → ∃ bytes, out = .data bytes ∧
    bytes.length = min count.toNat (c.size - fd.pos) ∧
    ∀ k, ∀ b ∈ bytes[k]?, ∀ b' ∈ c.byte (fd.pos + k), b = b'

/-- **A call does what it should**: it stays inside the block, a read returns what was written, and
the file is what was written. -/
def Good (p : RamFile × FileBytes) (a : RamFileAct) : Prop :=
  ∃ out s, p.1.call a = .ok (out, s) ∧ ReadsBack p.1 p.2 a out ∧ s.Has (p.1.after p.2 a out)

/-- **The condition.** A read ends where it would with the size of the file. A write that ends
inside the descriptor's size ends inside the file's; any other one ends at the end of the file or
behind it, and the heap is not asked for a size that wraps. The others do not ask for such a
size either. -/
def Fits (p : RamFile × FileBytes) : RamFileAct → Prop
  | .read i count => ∀ fd ∈ p.1.fds i,
    min count.toNat (fd.size - fd.pos) = min count.toNat (p.1.size - fd.pos)
  | .write i self _ count => ∀ fd ∈ p.1.fds i, 0 < count.toNat →
    (fd.pos + count.toNat ≤ fd.size → fd.pos + count.toNat ≤ p.1.size) ∧
    (fd.size < fd.pos + count.toNat → p.1.size ≤ fd.pos + count.toNat ∧
      fd.pos + count.toNat ≤ 2 ^ 32 - 4 ∧
      Allowed p.1.heap (.realloc self p.1.data (fd.pos + count.toNat)))
  | .others a => Allowed p.1.heap a
  | _ => True

/-- A file that was made, in a heap. -/
def made (heap : Memheap.State) : RamFile := { heap, data := none, size := 0, fds := fun _ => none }

-- --------
-- The contents
-- --------

variable {s s' : RamFile} {c : FileBytes} {fd : RamfsFd} {buf : ByteMem} {i pos len count : Nat}

theorem write_nil (c : FileBytes) (pos : Nat) : c.write pos [] = c := by
  unfold FileBytes.write
  simp

theorem write_grow {bytes : List UInt8} (hne : bytes ≠ []) (hle : c.size ≤ pos + bytes.length) :
    FileBytes.write ⟨pos + bytes.length, c.byte⟩ pos bytes = c.write pos bytes := by
  unfold FileBytes.write
  rw [if_neg hne, if_neg hne, max_self, max_eq_right hle]

theorem loadBytes_length (m : ByteMem) (a n : Nat) : (m.loadBytes a n).length = n := by
  simp [ByteMem.loadBytes]

theorem loadBytes_get {m : ByteMem} {a n k : Nat} (h : k < n) :
    (m.loadBytes a n)[k]? = some (m (a + k)) := by
  simp [ByteMem.loadBytes, h]

/-- The position is inside the size, which is a word. -/
def FdOk (fd : RamfsFd) : Prop := fd.pos ≤ fd.size ∧ fd.size < 2 ^ 32

/-- **The invariant.** The block is live and large enough, and has the bytes that were written. -/
structure Ok (s : RamFile) (c : FileBytes) : Prop where
  heap : Memheap.Inv s.heap
  live : ∀ p ∈ s.data, p ∈ s.heap.live ∧ s.size ≤ blockSize s.heap.heap p
  empty : s.data = none → s.size = 0
  size_eq : s.size = c.size
  bytes : ∀ p ∈ s.data, ∀ off < c.size, ∀ b ∈ c.byte off, s.heap.heap.mem (p + off) = b
  beyond : ∀ off, c.size ≤ off → c.byte off = none
  fds : ∀ i, ∀ fd ∈ s.fds i, FdOk fd

theorem Ok.exists_data (h : Ok s c) (hpos : 0 < s.size) : ∃ p, s.data = some p := by
  cases hdata : s.data with
  | some p => exact ⟨p, rfl⟩
  | none =>
    have := h.empty hdata
    omega

theorem Ok.has (h : Ok s c) : s.Has c := by
  refine ⟨h.size_eq, fun off hoff => ?_⟩
  have hsize := h.size_eq
  obtain ⟨p, hp⟩ := h.exists_data (by omega)
  obtain ⟨-, hroom⟩ := h.live p hp
  have hnext := le_next (h := s.heap.heap) (p := p) (Nat.succ_pos off) (by omega)
  exact ⟨p, hp, ⟨by omega, by omega⟩, h.bytes p hp off hoff⟩

theorem Ok.setFd (h : Ok s c) {fd : Option RamfsFd} (hfd : ∀ fd' ∈ fd, FdOk fd') :
    Ok (s.setFd i fd) c := by
  refine ⟨h.heap, h.live, h.empty, h.size_eq, h.bytes, h.beyond, fun j fd' hj => ?_⟩
  by_cases hji : j = i
  · subst hji
    change fd' ∈ Function.update s.fds j fd j at hj
    rw [Function.update_self] at hj
    exact hfd fd' hj
  · change fd' ∈ Function.update s.fds i fd j at hj
    rw [Function.update_of_ne hji] at hj
    exact h.fds j fd' hj

theorem Ok.size_lt (h : Ok s c) : s.size < 2 ^ 32 := by
  by_cases h0 : s.size = 0
  · omega
  · obtain ⟨p, hp⟩ := h.exists_data (by omega)
    obtain ⟨hlive, hroom⟩ := h.live p hp
    have := h.heap.live_bounds hlive
    omega

-- --------
-- Reading
-- --------

theorem Ok.bytesAt (h : Ok s c) (hlen : 0 < len) (hin : pos + len ≤ s.size) :
    ∃ p, s.data = some p ∧ s.bytesAt pos len = .ok (p + pos) := by
  obtain ⟨p, hp⟩ := h.exists_data (by omega)
  obtain ⟨-, hroom⟩ := h.live p hp
  have hnext : p + (pos + len) ≤ s.heap.heap.get .next (p - memheapSize) :=
    le_next (by omega) (by omega)
  refine ⟨p, hp, ?_⟩
  rw [RamFile.bytesAt, deref_bind hp]
  exact if_pos hnext

theorem Ok.dfsRamfsRead (h : Ok s c) (hfd : FdOk fd)
    (hfit : min count (fd.size - fd.pos) = min count (s.size - fd.pos)) :
    ∃ bytes fd', s.dfsRamfsRead fd count = .ok (bytes, fd') ∧ FdOk fd' ∧
      bytes.length = min count (c.size - fd.pos) ∧
      ∀ k, ∀ b ∈ bytes[k]?, ∀ b' ∈ c.byte (fd.pos + k), b = b' := by
  obtain ⟨hpos, hsize⟩ := hfd
  have hsub : Word32.sub fd.size fd.pos = fd.size - fd.pos := Word32.sub_of_le hpos hsize
  have hmin : (if count < fd.size - fd.pos then count else fd.size - fd.pos) =
      min count (fd.size - fd.pos) := by
    rw [Nat.min_def]
    split <;> split <;> omega
  obtain ⟨length, hlength⟩ : ∃ length, length = min count (fd.size - fd.pos) := ⟨_, rfl⟩
  have hadd : Word32.add fd.pos length = fd.pos + length := Word32.add_of_lt (by omega)
  have hfd' : FdOk { fd with pos := fd.pos + length } := ⟨by simp only; omega, hsize⟩
  rw [RamFile.dfsRamfsRead]
  simp only [hsub, hmin, ← hlength, hadd]
  by_cases h0 : 0 < length
  · obtain ⟨p, hp, haddr⟩ := h.bytesAt h0 (show fd.pos + length ≤ s.size by omega)
    rw [if_pos h0, haddr]
    refine ⟨_, _, rfl, hfd', ?_, fun k b hb b' hb' => ?_⟩
    · rw [loadBytes_length, hlength, hfit, h.size_eq]
    · have hk : k < length := by
        by_contra hk
        rw [List.getElem?_eq_none (by rw [loadBytes_length]; omega)] at hb
        cases hb
      rw [loadBytes_get hk] at hb
      cases hb
      have hsz := h.size_eq
      rw [Nat.add_assoc]
      exact h.bytes p hp _ (by omega) b' hb'
  · rw [if_neg h0]
    refine ⟨_, _, rfl, hfd', ?_, nofun⟩
    rw [← h.size_eq, ← hfit, ← hlength]
    exact (Nat.le_zero.mp (not_lt.mp h0)).symm

-- --------
-- Writing
-- --------

/-- The copy into the block. -/
theorem Ok.copyIn (h : Ok s c) (buf : ByteMem) (hsize : fd.size < 2 ^ 32)
    (hend : fd.pos + count ≤ fd.size) (hin : 0 < count → fd.pos + count ≤ s.size) :
    ∃ fd' s', s.copyIn fd buf count = .ok (count, fd', s') ∧ FdOk fd' ∧
      Ok s' (c.write fd.pos (buf.loadBytes 0 count)) := by
  have hadd : Word32.add fd.pos count = fd.pos + count := Word32.add_of_lt (by omega)
  have hfd : FdOk { fd with pos := fd.pos + count } := ⟨hend, hsize⟩
  rw [RamFile.copyIn, hadd]
  by_cases h0 : 0 < count
  · have hle := hin h0
    obtain ⟨p, hp, haddr⟩ := h.bytesAt h0 hle
    obtain ⟨hlive, hroom⟩ := h.live p hp
    obtain ⟨bytes, hbytes⟩ : ∃ bytes, bytes = buf.loadBytes 0 count := ⟨_, rfl⟩
    have hlen : bytes.length = count := by rw [hbytes, loadBytes_length]
    have hne : bytes ≠ [] := by
      rw [← List.length_pos_iff]
      omega
    have hfits : fd.pos + bytes.length ≤ blockSize s.heap.heap p := by omega
    have hsize' : (c.write fd.pos bytes).size = c.size := by
      have := h.size_eq
      unfold FileBytes.write
      rw [if_neg hne, max_eq_left (by omega)]
    rw [if_pos h0, haddr, ← hbytes]
    refine ⟨_, _, rfl, hfd,
      { heap := store_inv h.heap hlive hfits
        live := fun p' hp' => ?_
        empty := h.empty
        size_eq := h.size_eq.trans hsize'.symm
        bytes := fun p' hp' off hoff b hb => ?_
        beyond := fun off hoff => ?_
        fds := h.fds }⟩
    · have hp' : p' ∈ s.data := hp'
      rw [hp] at hp'
      cases hp'
      rw [store_blockSize h.heap hlive hfits]
      exact ⟨hlive, hroom⟩
    · have hp' : p' ∈ s.data := hp'
      rw [hp] at hp'
      cases hp'
      rw [hsize'] at hoff
      change s.heap.heap.mem.storeBytes (p + fd.pos) bytes (p + off) = b
      change b ∈ (if fd.pos ≤ off then (bytes[off - fd.pos]?).or (c.byte off) else c.byte off)
        at hb
      by_cases hpos : fd.pos ≤ off
      · rw [if_pos hpos] at hb
        by_cases hk : off - fd.pos < bytes.length
        · -- one of the bytes written
          rw [List.getElem?_eq_getElem hk] at hb
          cases hb
          unfold storeBytes
          rw [if_pos (by omega), List.getD_eq_getElem _ _ (by omega)]
          congr 1
          omega
        · rw [List.getElem?_eq_none (by omega)] at hb
          rw [storeBytes_out (by omega)]
          exact h.bytes p hp off hoff b hb
      · rw [if_neg hpos] at hb
        rw [storeBytes_out (by omega)]
        exact h.bytes p hp off hoff b hb
    · rw [hsize'] at hoff
      have hsz := h.size_eq
      change (if fd.pos ≤ off then (bytes[off - fd.pos]?).or (c.byte off) else c.byte off) = none
      rw [List.getElem?_eq_none (by omega), h.beyond off hoff]
      exact ite_self _
  · have h0 : count = 0 := by omega
    subst h0
    rw [if_neg h0]
    exact ⟨_, s, rfl, hfd, by rw [show buf.loadBytes 0 0 = [] from rfl, write_nil]; exact h⟩

/-- The file has another block that is large enough and has the bytes. -/
theorem Ok.resized (h : Ok s c) {newsize q : Nat} {h' : Memheap}
    (R : Resized s.heap s.data newsize q h') (hle : s.size ≤ newsize) :
    Ok { s with
      heap := ⟨h', s.heap.resized s.data newsize (some q)⟩, data := some q, size := newsize }
      ⟨newsize, c.byte⟩ where
  heap := R.inv
  live p hp := by
    have hp : p ∈ some q := hp
    cases hp
    exact ⟨List.mem_cons_self, R.room⟩
  empty := nofun
  size_eq := rfl
  bytes p hp off hoff b hb := by
    have hp : p ∈ some q := hp
    cases hp
    have hsize := h.size_eq
    -- only bytes in front of the old end were written
    have hoff' : off < c.size := by
      by_contra hcon
      have hnone : c.byte off = none := h.beyond off (by omega)
      have hb : b ∈ c.byte off := hb
      rw [hnone] at hb
      cases hb
    obtain ⟨p, hp⟩ := h.exists_data (by omega)
    obtain ⟨-, hroom⟩ := h.live p hp
    exact (R.copied p hp off (by omega) hoff).trans (h.bytes p hp off hoff' b hb)
  beyond off hoff := by
    have hsize := h.size_eq
    have hoff : newsize ≤ off := hoff
    exact h.beyond off (by omega)
  fds := h.fds

theorem Ok.dfsRamfsWrite (h : Ok s c) (buf : ByteMem) (hfd : FdOk fd) {self : Option (List UInt8)}
    (hcount : count < 2 ^ 32) (hfit : 0 < count →
      (fd.pos + count ≤ fd.size → fd.pos + count ≤ s.size) ∧
      (fd.size < fd.pos + count → s.size ≤ fd.pos + count ∧ fd.pos + count ≤ 2 ^ 32 - 4 ∧
        Allowed s.heap (.realloc self s.data (fd.pos + count)))) :
    ∃ n fd' s', s.dfsRamfsWrite self fd buf count = .ok (n, fd', s') ∧ FdOk fd' ∧
      Ok s' (c.write fd.pos (buf.loadBytes 0 n)) := by
  obtain ⟨hpos, hsize⟩ := hfd
  rw [RamFile.dfsRamfsWrite]
  by_cases hend : fd.pos + count ≤ fd.size
  · -- inside the size of the descriptor
    have hadd : Word32.add count fd.pos = fd.pos + count := by
      rw [Word32.add_of_lt (by omega), Nat.add_comm]
    rw [hadd, if_neg (by omega)]
    obtain ⟨fd', s', hcopy, hfd', hok⟩ := h.copyIn buf hsize hend fun h0 => (hfit h0).1 hend
    exact ⟨count, fd', s', hcopy, hfd', hok⟩
  · obtain ⟨hshrink, hlt, hallowed⟩ := (hfit (by omega)).2 (by omega)
    have hadd : Word32.add count fd.pos = fd.pos + count := by
      rw [Word32.add_of_lt (by omega), Nat.add_comm]
    have hadd' : Word32.add fd.pos count = fd.pos + count := Word32.add_of_lt (by omega)
    have h0 : fd.pos + count ≠ 0 := by omega
    rw [hadd, if_pos (by omega), hadd']
    dsimp only
    rcases realloc_room h.heap (fun p hp => (h.live p hp).1) h0 hlt hallowed with
      hnone | ⟨q, h', hsome, R⟩
    · -- no room in the heap
      rw [hnone]
      refine ⟨0, fd, _, rfl, ⟨hpos, hsize⟩, ?_⟩
      rw [show buf.loadBytes 0 0 = [] from rfl, write_nil, State.resized, if_neg h0]
      exact h
    · rw [hsome]
      have hR := h.resized R hshrink
      have hword : ({ fd with size := fd.pos + count } : RamfsFd).size < 2 ^ 32 := by
        simp only
        omega
      obtain ⟨fd', s', hcopy, hfd', hok⟩ := hR.copyIn buf hword (Nat.le_refl (fd.pos + count))
        fun _ => Nat.le_refl _
      refine ⟨count, fd', s', hcopy, hfd', ?_⟩
      have hlen : (buf.loadBytes 0 count).length = count := loadBytes_length ..
      have hne : buf.loadBytes 0 count ≠ [] := by
        rw [← List.length_pos_iff]
        omega
      have hle : c.size ≤ fd.pos + (buf.loadBytes 0 count).length := by
        have := h.size_eq
        omega
      have hgrow := write_grow hne hle
      rw [hlen] at hgrow
      rw [← hgrow]
      exact hok

-- --------
-- The other calls
-- --------

theorem toInt_le (n : Nat) (h : n < 2 ^ 32) : toInt n ≤ n := by
  unfold toInt
  rw [Int.bmod_def]
  split <;> omega

/-- A seek ends inside the size of the descriptor. -/
theorem FdOk.lseek (hfd : FdOk fd) {offset o : Int} {whence : Whence} {fd' : RamfsFd}
    (h : lseek fd offset whence = some (o, fd')) : FdOk fd' := by
  unfold RamFile.lseek at h
  obtain ⟨o', -, h⟩ := Option.bind_eq_some_iff.1 h
  by_cases hneg : o' < 0
  · rw [if_pos hneg] at h
    cases h
  · rw [if_neg hneg] at h
    obtain ⟨fd'', hseek, heq⟩ := Option.map_eq_some_iff.1 h
    cases heq
    unfold dfsRamfsLseek at hseek
    by_cases hle : o ≤ toInt fd.size
    · rw [if_pos hle] at hseek
      cases hseek
      have hsize := toInt_le fd.size hfd.2
      have hlt := hfd.2
      exact ⟨by simp only; omega, hlt⟩
    · rw [if_neg hle] at hseek
      cases hseek

theorem Ok.truncated (h : Ok s c) : ∃ s', s.truncated = .ok s' ∧ s'.fds = s.fds ∧ Ok s' .empty := by
  have hfree : ∃ h', s.heap.heap.rtMemheapFree s.data = .ok h' ∧
      Memheap.Inv ⟨h', s.heap.without s.data⟩ := by
    cases hdata : s.data with
    | none => exact ⟨s.heap.heap, rfl, h.heap⟩
    | some p => exact free_live h.heap (h.live p hdata).1
  obtain ⟨h', hcall, hinv⟩ := hfree
  refine ⟨{ s with heap := ⟨h', s.heap.without s.data⟩, data := none, size := 0 }, ?_, rfl, ?_⟩
  · rw [RamFile.truncated, hcall]
    rfl
  · exact ⟨hinv, nofun, fun _ => rfl, rfl, nofun, fun _ _ => rfl, h.fds⟩

theorem Ok.dfsRamfsOpen (h : Ok s c) (flags : RamFlags) :
    s.dfsRamfsOpen flags = .ok none ∨ ∃ fd s', s.dfsRamfsOpen flags = .ok (some (fd, s')) ∧
      FdOk fd ∧ Ok s' (if flags.Empties then .empty else c) := by
  rw [RamFile.dfsRamfsOpen]
  by_cases hdir : flags.directory = true ∧ flags.creat = true
  · exact Or.inl (if_pos hdir)
  rw [if_neg hdir]
  have hmid : ∃ s', (if flags.Empties then s.truncated else pure s) = .ok s' ∧
      Ok s' (if flags.Empties then .empty else c) := by
    by_cases he : flags.Empties
    · obtain ⟨s', htr, -, hok⟩ := h.truncated
      exact ⟨s', by rw [if_pos he, htr], by rw [if_pos he]; exact hok⟩
    · exact ⟨s, by rw [if_neg he]; rfl, by rw [if_neg he]; exact h⟩
  obtain ⟨s', hcall, hok⟩ := hmid
  rw [hcall]
  refine Or.inr ⟨_, s', rfl, ⟨?_, hok.size_lt⟩, hok⟩
  simp only
  split <;> omega

theorem call_write {self : Option (List UInt8)} {count : UInt32} {n : Nat} {fd' : RamfsFd}
    (hi : s.fds i = some fd)
    (hwrite : s.dfsRamfsWrite self fd buf count.toNat = .ok (n, fd', s')) :
    s.call (.write i self buf count) = .ok (.count n, s'.setFd i (some fd')) := by
  rw [RamFile.call, hi]
  simp only [hwrite]
  rfl

/-- What is done to the other blocks leaves the one of the file alone. -/
theorem Ok.others (h : Ok s c) {a : Memheap.Action} (hnot : ¬ ∃ p ∈ s.data, p ∈ a.given)
    (hallowed : Allowed s.heap a) :
    ∃ heap, s.heap.perform a = .ok heap ∧ Ok { s with heap } c := by
  obtain ⟨heap, hcall, hstep⟩ := perform_ok h.heap hallowed
  refine ⟨heap, hcall, ?_⟩
  rcases hstep with rfl | hstep
  · exact h
  have hkept : ∀ p ∈ s.data, Kept s.heap heap p := fun p hp =>
    step_keeps h.heap hallowed hstep p (h.live p hp).1 fun hg => hnot ⟨p, hp, hg⟩
  exact
    { heap := Memheap.inv_step _ _ _ h.heap hallowed hstep
      live := fun p hp => by
        obtain ⟨hlive, hroom⟩ := h.live p hp
        have K := hkept p hp
        refine ⟨K.live, ?_⟩
        rw [K.blockSize h.heap hlive]
        exact hroom
      empty := h.empty
      size_eq := h.size_eq
      bytes := fun p hp off hoff b hb => by
        obtain ⟨hlive, hroom⟩ := h.live p hp
        have hsize := h.size_eq
        have hnext := le_next (h := s.heap.heap) (p := p) (Nat.succ_pos off) (by omega)
        rw [(hkept p hp).bytes (p + off) ⟨by omega, by omega⟩]
        exact h.bytes p hp off hoff b hb
      beyond := h.beyond
      fds := h.fds }

-- --------
-- The file
-- --------

/-- **A call under the condition.** -/
theorem Ok.call (h : Ok s c) {a : RamFileAct} (hfit : Fits (s, c) a) :
    ∃ out s', s.call a = .ok (out, s') ∧ ReadsBack s c a out ∧ Ok s' (s.after c a out) := by
  cases a with
  | «open» i flags =>
    rw [RamFile.call]
    cases hi : s.fds i with
    | some fd => exact ⟨.failed, s, rfl, nofun, h⟩
    | none =>
      rcases h.dfsRamfsOpen flags with hopen | ⟨fd, s', hopen, hfd, hok⟩
      · simp only [hopen]
        exact ⟨.failed, s, rfl, nofun, h⟩
      · simp only [hopen]
        exact ⟨.opened, _, rfl, nofun, hok.setFd fun fd' hfd' => by cases hfd'; exact hfd⟩
  | close i => exact ⟨.closed, _, rfl, nofun, h.setFd nofun⟩
  | read i count =>
    rw [RamFile.call]
    cases hi : s.fds i with
    | none =>
      refine ⟨.failed, s, rfl, fun i' count' fd ha hfd => ?_, h⟩
      cases ha
      rw [hi] at hfd
      cases hfd
    | some fd =>
      obtain ⟨bytes, fd', hread, hfd', hlen, hbytes⟩ := h.dfsRamfsRead (h.fds i fd hi) (hfit fd hi)
      simp only [hread]
      refine ⟨.data bytes, _, rfl, fun i' count' fd₁ ha hfd₁ => ?_, h.setFd fun fd₁ hfd₁ => ?_⟩
      · cases ha
        rw [hi] at hfd₁
        cases hfd₁
        exact ⟨bytes, rfl, hlen, hbytes⟩
      · cases hfd₁
        exact hfd'
  | write i self buf count =>
    cases hi : s.fds i with
    | none =>
      rw [RamFile.call, hi]
      exact ⟨.failed, s, rfl, nofun, h⟩
    | some fd =>
      obtain ⟨n, fd', s', hwrite, hfd', hok⟩ :=
        h.dfsRamfsWrite buf (h.fds i fd hi) count.toNat_lt (hfit fd hi)
      refine ⟨.count n, _, call_write hi hwrite, nofun, ?_⟩
      rw [RamFile.after, hi]
      exact hok.setFd fun fd₁ hfd₁ => by cases hfd₁; exact hfd'
  | lseek i offset whence =>
    rw [RamFile.call]
    cases hi : s.fds i with
    | none => exact ⟨.failed, s, rfl, nofun, h⟩
    | some fd =>
      cases hseek : RamFile.lseek fd offset.toInt whence with
      | none =>
        simp only [hseek]
        exact ⟨.failed, s, rfl, nofun, h⟩
      | some r =>
        obtain ⟨o, fd'⟩ := r
        simp only [hseek]
        refine ⟨.pos o, _, rfl, nofun, h.setFd fun fd₁ hfd₁ => ?_⟩
        cases hfd₁
        exact (h.fds i fd hi).lseek hseek
  | others a =>
    rw [RamFile.call]
    by_cases hnot : ∃ p ∈ s.data, p ∈ a.given
    · rw [if_pos hnot]
      exact ⟨.nothing, s, rfl, nofun, h⟩
    · rw [if_neg hnot]
      obtain ⟨heap, hcall, hok⟩ := h.others hnot hfit
      rw [hcall]
      exact ⟨.nothing, _, rfl, nofun, hok⟩

theorem Ok.good {p : RamFile × FileBytes} (h : Ok p.1 p.2) {a : RamFileAct} (hfit : Fits p a) :
    Good p a := by
  obtain ⟨out, s', hcall, hread, hok⟩ := h.call hfit
  exact ⟨out, s', hcall, hread, hok.has⟩

/-- A call that meets the condition keeps the invariant. -/
theorem Ok.exec {p p' : RamFile × FileBytes} (h : Ok p.1 p.2) {a : RamFileAct} (hfit : Fits p a)
    (hexec : exec p a = some p') : Ok p'.1 p'.2 := by
  obtain ⟨out, s', hcall, -, hok⟩ := h.call hfit
  rw [RamFile.exec, hcall] at hexec
  cases hexec
  exact hok

theorem ok_made {heap : Memheap.State} (hheap : Memheap.Inv heap) : Ok (made heap) .empty :=
  ⟨hheap, nofun, fun _ => rfl, rfl, nofun, fun _ _ => rfl, nofun⟩

/-- **Every call on a file does what it should**, whatever descriptors there are and whatever is
done to the other blocks of the heap, as long as every call meets the condition. -/
theorem ramfs_file {heap : Memheap.State} (hheap : Memheap.Inv heap) {calls : List RamFileAct}
    (hfit : Runs.Along exec Fits (made heap, .empty) calls) :
    Runs.Along exec Good (made heap, .empty) calls := by
  have himp : ∀ (p : RamFile × FileBytes) a, Ok p.1 p.2 → Fits p a → Good p a :=
    fun _ _ h hfit => h.good hfit
  have hstep : ∀ (p : RamFile × FileBytes) a p', Ok p.1 p.2 → Fits p a → exec p a = some p' →
      Ok p'.1 p'.2 := fun _ _ _ h hfit hexec => h.exec hfit hexec
  exact Runs.along_imp himp hstep (ok_made hheap) hfit

/-- A pool of 256 bytes. -/
def pool : Memheap.State := ⟨rtMemheapInit (fun _ => 0) 1024 4096 256, []⟩

theorem pool_inv : Memheap.Inv pool :=
  ⟨_, _, rtMemheapInit_spec placement_example, by simp [payloads, pool]⟩

def readWrite : RamFlags := ⟨⟨false, false, false, false⟩, false⟩

/-- Two descriptors on an empty file. -/
def opened : RamFile :=
  ((made pool).setFd 0 (some ⟨0, 0⟩)).setFd 1 (some ⟨0, 0⟩)

theorem exec_open :
    exec (made pool, .empty) (.open 0 readWrite) = some ((made pool).setFd 0 (some ⟨0, 0⟩), .empty) ∧
      exec ((made pool).setFd 0 (some ⟨0, 0⟩), .empty) (.open 1 readWrite) =
        some (opened, .empty) := ⟨rfl, rfl⟩

/-- The first block of the pool, of twelve bytes, in a heap with bytes stored into it. -/
theorem block_example {h : Memheap} {fl : List Nat}
    (L : Layout h ([] ++ ⟨40, true⟩ :: [⟨188, false⟩]) fl) (hstart : h.startAddr = 4096)
    {size : Nat} {fds : Nat → Option RamfsFd} {len : Nat} (hlen : len ≤ 12) :
    bytesAt ⟨⟨h, [4124]⟩, some 4124, size, fds⟩ 0 len = .ok 4124 := by
  have hnext := L.next_eq
  rw [hstart] at hnext
  have hin : 4124 + (0 + len) ≤ h.get .next (4124 - memheapSize) := by
    rw [show 4124 - memheapSize = 4096 + span [] from rfl, hnext, span_nil]
    omega
  rw [bytesAt, deref_bind rfl]
  exact if_pos hin

/-- The file after eight bytes were written through the first descriptor. -/
theorem exec_write : ∃ h fl, Layout h ([] ++ ⟨40, true⟩ :: [⟨188, false⟩]) fl ∧
    h.startAddr = 4096 ∧
    exec (opened, .empty) (.write 0 none (fun _ => 7) 8) =
      some ((⟨⟨h, [4124]⟩, some 4124, 8, opened.fds⟩ : RamFile).setFd 0 (some ⟨8, 8⟩),
        FileBytes.empty.write 0 (List.replicate 8 7)) := by
  obtain ⟨h, fl, L, halloc, hstart, -⟩ := alloc_example (show roundSize 12 ≤ 160 by decide)
  have L : Layout h ([] ++ ⟨40, true⟩ :: [⟨188, false⟩]) fl := L
  have hlen : 0 + (List.replicate 8 (7 : UInt8)).length ≤ 40 - 28 := by decide
  refine ⟨_, fl, store_layout L hlen, hstart, ?_⟩
  have hptr : h.startAddr + span [] + 28 + 0 = 4124 := by rw [hstart]; rfl
  rw [hptr]
  have hcall : pool.heap.rtMemheapRealloc none none 8 = .ok (some 4124, h) := halloc
  have hcopy : copyIn ⟨⟨h, [4124]⟩, some 4124, 8, opened.fds⟩ ⟨8, 0⟩ (fun _ => 7) 8 =
      .ok (8, ⟨8, 8⟩, ⟨⟨{ h with mem := h.mem.storeBytes 4124 (List.replicate 8 7) }, [4124]⟩,
        some 4124, 8, opened.fds⟩) := by
    rw [copyIn, if_pos (by decide), block_example L hstart (by decide)]
    rfl
  have hwrite : opened.dfsRamfsWrite none ⟨0, 0⟩ (fun _ => 7) 8 =
      .ok (8, ⟨8, 8⟩, ⟨⟨{ h with mem := h.mem.storeBytes 4124 (List.replicate 8 7) }, [4124]⟩,
        some 4124, 8, opened.fds⟩) := by
    rw [dfsRamfsWrite, if_pos (by decide)]
    change (pool.heap.rtMemheapRealloc none none 8 >>= _) = _
    rw [hcall]
    exact hcopy
  have hfd : opened.fds 0 = some ⟨0, 0⟩ := rfl
  rw [exec, call_write hfd hwrite]
  rfl

/-- Eight bytes written through one descriptor are read through another one that is opened then. -/
theorem ramfs_file_read : Runs.Along exec Good (made pool, .empty)
    [.open 0 readWrite, .open 1 readWrite, .write 0 none (fun _ => 7) 8, .close 1,
      .open 1 readWrite, .read 1 8] := by
  obtain ⟨h, fl, -, -, hexec⟩ := exec_write
  refine ramfs_file pool_inv ⟨trivial, fun p hp => ?_⟩
  rw [exec_open.1] at hp
  cases hp
  refine ⟨trivial, fun p hp => ?_⟩
  rw [exec_open.2] at hp
  cases hp
  refine ⟨fun fd hfd _ => ?_, fun p hp => ?_⟩
  · cases (show some (⟨0, 0⟩ : RamfsFd) = some fd from hfd)
    exact ⟨nofun, fun _ => ⟨by decide, by decide, trivial⟩⟩
  rw [hexec] at hp
  cases hp
  refine ⟨trivial, fun p hp => ?_⟩
  cases hp
  refine ⟨trivial, fun p hp => ?_⟩
  cases hp
  refine ⟨fun fd hfd => ?_, fun _ _ => trivial⟩
  cases (show some (⟨8, 0⟩ : RamfsFd) = some fd from hfd)
  rfl

/-- **The defect**: eight bytes through one descriptor, then one byte through another one that was
opened before. The file has one byte. -/
theorem ramfs_file_shrinks : ¬ ∀ heap, Memheap.Inv heap → ∀ calls,
    Runs.Along exec Good (made heap, .empty) calls := by
  intro hall
  have hrun := hall pool pool_inv [.open 0 readWrite, .open 1 readWrite,
    .write 0 none (fun _ => 7) 8, .write 1 none (fun _ => 9) 1]
  obtain ⟨h, fl, L, hstart, hexec⟩ := exec_write
  obtain ⟨-, hrun⟩ := hrun
  obtain ⟨-, hrun⟩ := hrun _ exec_open.1
  obtain ⟨-, hrun⟩ := hrun _ exec_open.2
  obtain ⟨⟨out, s, hcall, -, hhas⟩, -⟩ := hrun _ hexec
  have hrealloc : h.rtMemheapRealloc none (some 4124) 1 = .ok (some 4124, h) := by
    have hlive := rtMemheapRealloc_live L none (show 1 ≠ 0 by decide)
    rw [hstart] at hlive
    exact hlive
  have hcopy : ∀ fds, copyIn ⟨⟨h, [4124]⟩, some 4124, 1, fds⟩ ⟨1, 0⟩ (fun _ => 9) 1 =
      .ok (1, ⟨1, 1⟩, ⟨⟨{ h with mem := h.mem.storeBytes 4124 [9] }, [4124]⟩,
        some 4124, 1, fds⟩) := fun fds => by
    rw [copyIn, if_pos (by decide), block_example L hstart (by decide)]
    rfl
  have hwrite : ∀ fds, dfsRamfsWrite ⟨⟨h, [4124]⟩, some 4124, 8, fds⟩ none ⟨0, 0⟩ (fun _ => 9) 1 =
      .ok (1, ⟨1, 1⟩, ⟨⟨{ h with mem := h.mem.storeBytes 4124 [9] }, [4124]⟩,
        some 4124, 1, fds⟩) := fun fds => by
    rw [dfsRamfsWrite, if_pos (by decide)]
    change (h.rtMemheapRealloc none (some 4124) 1 >>= _) = _
    rw [hrealloc]
    exact hcopy fds
  have hfd : ((⟨⟨h, [4124]⟩, some 4124, 8, opened.fds⟩ : RamFile).setFd 0 (some ⟨8, 8⟩)).fds 1 =
      some ⟨0, 0⟩ := rfl
  have hone : (1 : UInt32).toNat = 1 := rfl
  have hcall' : RamFile.call _ (.write 1 none (fun _ => 9) 1) = _ :=
    call_write hfd (by rw [hone]; exact hwrite _)
  cases hcall'.symm.trans hcall
  have hsize : (1 : Nat) = 8 := hhas.size_eq
  cases hsize

end RamFile

end RTThread.Dfs
