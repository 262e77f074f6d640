import RTThread.Drivers.RingBufferFifo
import RTThread.Lib.Runs

/-!
# Pipes (`pipe.c`)

A ring buffer that lives from the first open of the pipe to the last close, and counters of 8 bits
for the descriptors that can read, that can write, and for all of them. Reads and writes test the
counter of the other side without the lock, and then go through a loop: each pass of it, under the
lock, tests the counter again, goes to the ring buffer, and returns or waits. The length goes to
the ring buffer in a parameter of 16 bits.

A call that waits goes on at any time; whether it is woken is a matter of the wait queues.

The records `accepted` and `returned` are not kept by the code: the bytes that writes have put into
the buffer since it was created, and those that reads have returned.

## Main results

* `Inv.step` — the counters, and what is in the buffer.
* `pipe_fifo` — reads return what writes have accepted, in order and with nothing lost, and when
  exactly a call does what is said of it.
* `pipe_fails` — a read reports the end of the file although there is data, and one gets nothing.
-/

namespace RTThread

/-- The access mode in the flags of a descriptor: `flags & O_ACCMODE`. -/
inductive AccMode
  | rdonly
  | wronly
  | rdwr
  | other
deriving DecidableEq

/-- `struct dfs_fd`: the access mode, and whether `O_NONBLOCK` is set. -/
structure PipeFd where
  mode : AccMode
  nonblock : Bool
deriving DecidableEq

namespace PipeFd

def reads (fd : PipeFd) : Bool := fd.mode = .rdonly ∨ fd.mode = .rdwr

def writes (fd : PipeFd) : Bool := fd.mode = .wronly ∨ fd.mode = .rdwr

end PipeFd

/-- A call in its loop. -/
inductive PipeCall
  | read (nonblock : Bool) (count : Nat)
  /-- The first `ret` bytes have been written. -/
  | write (nonblock : Bool) (buf : List UInt8) (ret : Nat)
deriving DecidableEq

/-- `rt_pipe_t`, with its open descriptors and the calls in their loops. -/
structure Pipe where
  isNamed : Bool
  deleted : Bool
  bufsz : Nat
  fifo : Option RingBuffer
  readers : Nat
  writers : Nat
  refCount : Nat
  fds : List PipeFd
  calls : List PipeCall
  accepted : List UInt8
  returned : List UInt8

/-- How a step ends. -/
inductive PipeOutcome
  /-- The call returns 0. -/
  | done
  /-- An open returns `-RT_ENOMEM`. -/
  | noMemory
  /-- A read returns these bytes. -/
  | data (bytes : List UInt8)
  /-- A read returns 0 because nobody has the pipe open for writing. -/
  | eof
  /-- A write returns this number. -/
  | wrote (ret : Nat)
  /-- The call returns `-EAGAIN`. -/
  | again
  /-- A write returns `-EPIPE`. -/
  | brokenPipe
  | goesOn
  /-- An assertion fails, or the buffer is not there. -/
  | fault
deriving DecidableEq

namespace Pipe

/-- What a field of 8 bits keeps of a value. -/
def u8 (n : Nat) : Nat := n % 2 ^ 8

/-- `rt_pipe_create`; `pipe` makes it an unnamed one. -/
def rtPipeCreate (isNamed : Bool) (bufsz : Nat) : Pipe where
  isNamed := isNamed
  deleted := false
  bufsz := u16 bufsz
  fifo := none
  readers := 0
  writers := 0
  refCount := 0
  fds := []
  calls := []
  accepted := []
  returned := []

/-- `pipe_fops_open` behind the creation of the buffer. -/
def countOpen (s : Pipe) (fd : PipeFd) : Pipe :=
  { s with
    readers := if fd.reads then u8 (s.readers + 1) else s.readers
    writers := if fd.writes then u8 (s.writers + 1) else s.writers
    refCount := u8 (s.refCount + 1)
    fds := fd :: s.fds }

/-- `pipe_fops_open`, with the memory it gets for the buffer. -/
def pipeFopsOpen (s : Pipe) (fd : PipeFd) (pool : Option (Nat → UInt8)) : PipeOutcome × Pipe :=
  if s.refCount = 0 then
    match RingBuffer.rtRingbufferCreate pool s.bufsz with
    | .error _ => (.fault, s)
    | .ok none => (.noMemory, s)
    | .ok (some fifo) =>
      (.done, { s with fifo := some fifo, accepted := [], returned := [] }.countOpen fd)
  else (.done, s.countOpen fd)

/-- `pipe_fops_close` -/
def pipeFopsClose (s : Pipe) (fd : PipeFd) : PipeOutcome × Pipe :=
  let refCount := u8 (s.refCount + 2 ^ 8 - 1)
  (.done, { s with
    readers := if fd.reads then u8 (s.readers + 2 ^ 8 - 1) else s.readers
    writers := if fd.writes then u8 (s.writers + 2 ^ 8 - 1) else s.writers
    fifo := if s.refCount = 1 then none else s.fifo
    refCount := refCount
    fds := s.fds.erase fd
    -- delete the unnamed pipe
    deleted := refCount = 0 ∧ s.isNamed = false })

/-- The first test of `pipe_fops_read`. -/
def pipeFopsRead (s : Pipe) (nonblock : Bool) (count : Nat) : PipeOutcome × Pipe :=
  if s.writers = 0 then (.eof, s)
  else (.goesOn, { s with calls := .read nonblock count :: s.calls })

/-- A pass of the loop of `pipe_fops_read`. -/
def readPass (s : Pipe) (nonblock : Bool) (count : Nat) : PipeOutcome × Pipe :=
  let s := { s with calls := s.calls.erase (.read nonblock count) }
  if s.writers = 0 then (.eof, s)
  else
    match s.fifo with
    | none => (.fault, s)
    | some fifo =>
      let (bytes, fifo) := fifo.rtRingbufferGet (u16 count)
      let s := { s with fifo := some fifo, returned := s.returned ++ bytes }
      if bytes ≠ [] then (.data bytes, s)
      else if nonblock then (.again, s)
      else (.goesOn, { s with calls := .read nonblock count :: s.calls })

/-- `pipe_fops_write` up to its loop. -/
def pipeFopsWrite (s : Pipe) (nonblock : Bool) (buf : List UInt8) : PipeOutcome × Pipe :=
  if s.readers = 0 then (.brokenPipe, s)
  else if buf.length = 0 then (.wrote 0, s)
  else (.goesOn, { s with calls := .write nonblock buf 0 :: s.calls })

/-- A pass of the loop of `pipe_fops_write`. -/
def writePass (s : Pipe) (nonblock : Bool) (buf : List UInt8) (ret : Nat) :
    PipeOutcome × Pipe :=
  let s := { s with calls := s.calls.erase (.write nonblock buf ret) }
  if s.readers = 0 then (if ret = 0 then .brokenPipe else .wrote ret, s)
  else
    match s.fifo with
    | none => (.fault, s)
    | some fifo =>
      let pbuf := buf.drop ret
      let (len, fifo) := fifo.rtRingbufferPut (pbuf.take (u16 (buf.length - ret)))
      let s := { s with fifo := some fifo, accepted := s.accepted ++ pbuf.take len }
      let ret := ret + len
      if ret = buf.length then (.wrote ret, s)
      else if nonblock then (if ret = 0 then .again else .wrote ret, s)
      else (.goesOn, { s with calls := .write nonblock buf ret :: s.calls })

end Pipe

/-- What happens to a pipe. -/
inductive PipeAct
  | open (fd : PipeFd) (pool : Option (Nat → UInt8))
  | close (fd : PipeFd)
  | read (fd : PipeFd) (count : Nat)
  | readPass (nonblock : Bool) (count : Nat)
  | write (fd : PipeFd) (buf : List UInt8)
  | writePass (nonblock : Bool) (buf : List UInt8) (ret : Nat)

namespace Pipe

/-- The outcome of an action, and the state it leads to. -/
def step (s : Pipe) : PipeAct → Option (PipeOutcome × Pipe)
  | .open fd pool => Runs.takeIf (s.deleted = false) (s.pipeFopsOpen fd pool)
  | .close fd => Runs.takeIf (fd ∈ s.fds) (s.pipeFopsClose fd)
  | .read fd count =>
    Runs.takeIf (fd ∈ s.fds ∧ count < 2 ^ 32) (s.pipeFopsRead fd.nonblock count)
  | .readPass nonblock count =>
    Runs.takeIf (.read nonblock count ∈ s.calls) (s.readPass nonblock count)
  | .write fd buf =>
    Runs.takeIf (fd ∈ s.fds ∧ buf.length < 2 ^ 32) (s.pipeFopsWrite fd.nonblock buf)
  | .writePass nonblock buf ret =>
    Runs.takeIf (.write nonblock buf ret ∈ s.calls) (s.writePass nonblock buf ret)

def exec (s : Pipe) (a : PipeAct) : Option Pipe := (s.step a).map Prod.snd

/-- The bytes in the pipe. -/
def contents (s : Pipe) : List UInt8 :=
  match s.fifo with
  | none => []
  | some fifo => Ring.read fifo.buffer fifo.bufferSize fifo.readIndex fifo.rtRingbufferDataLen

/-- The room in the pipe. -/
def space (s : Pipe) : Nat :=
  match s.fifo with
  | none => 0
  | some fifo => fifo.rtRingbufferSpaceLen

/-- **The condition on the descriptors**: at most 255 are open at a time, and no call is in its
loop when the last one is closed. -/
def Counted (s : Pipe) : PipeAct → Prop
  | .open _ _ => s.fds.length < 255
  | .close _ => s.fds.length = 1 → s.calls = []
  | _ => True

instance (s : Pipe) (a : PipeAct) : Decidable (s.Counted a) := by
  unfold Counted
  split <;> infer_instance

/-- **What is said of a step**: the end of the file is reported only when all data has been read, a
read of a pipe with data returns as much of it as it asks for, and a write into a pipe with room
that somebody has open for reading accepts something. -/
structure Serves (s : Pipe) (a : PipeAct) (r : PipeOutcome × Pipe) : Prop where
  eof : r.1 = .eof → s.contents = []
  read : ∀ nonblock count, a = .readPass nonblock count → 0 < count → s.contents ≠ [] →
    r.1 = .data (s.contents.take count)
  write : ∀ nonblock buf ret, a = .writePass nonblock buf ret → s.readers ≠ 0 → 0 < s.space →
    s.accepted.length < r.2.accepted.length

/-- **The condition on a step**: there are writers as long as there is data to be read, and the
length keeps enough in 16 bits. -/
def Fits (s : Pipe) : PipeAct → Prop
  | .read _ _ => s.writers = 0 → s.contents = []
  | .readPass _ count =>
    (s.writers = 0 → s.contents = []) ∧ min count s.contents.length ≤ u16 count
  | .writePass _ buf ret => s.readers ≠ 0 → 0 < s.space → u16 (buf.length - ret) ≠ 0
  | _ => True

/-- **The invariant of a pipe.** -/
structure Inv (s : Pipe) : Prop where
  bufsz : s.bufsz < 2 ^ 16
  fds : s.fds.length ≤ 255
  readers : s.readers = s.fds.countP PipeFd.reads
  writers : s.writers = s.fds.countP PipeFd.writes
  refCount : s.refCount = s.fds.length
  /-- The buffer is there while descriptors are open. -/
  fifo : s.fds ≠ [] → ∃ fifo, ∃ q : BoundedFifo UInt8 (rtAlignDown s.bufsz), s.fifo = some fifo ∧
    RingBuffer.Holds fifo q ∧ s.accepted = s.returned ++ q.items
  idle : s.fds = [] → s.calls = []
  calls : ∀ nonblock buf ret, .write nonblock buf ret ∈ s.calls →
    ret < buf.length ∧ buf.length < 2 ^ 32

section Steps

variable {s : Pipe} {a : PipeAct} {r : PipeOutcome × Pipe} {fd : PipeFd} {count ret : Nat}
  {nonblock : Bool} {buf : List UInt8} {c : PipeCall}

/-- What the buffer of an open pipe holds. -/
theorem Inv.holds (h : s.Inv) (hfds : s.fds ≠ []) :
    ∃ fifo, ∃ q : BoundedFifo UInt8 (rtAlignDown s.bufsz), s.fifo = some fifo ∧
      RingBuffer.Holds fifo q ∧ s.contents = q.items ∧
      s.space = rtAlignDown s.bufsz - q.items.length ∧ s.accepted = s.returned ++ s.contents := by
  obtain ⟨fifo, q, hfifo, hq, haccepted⟩ := h.fifo hfds
  have hcontents : s.contents = q.items := by
    unfold contents
    rw [hfifo]
    dsimp only
    rw [hq.dataLen, hq.size_eq, hq.items_eq]
  refine ⟨fifo, q, hfifo, hq, hcontents, ?_, hcontents ▸ haccepted⟩
  unfold space
  rw [hfifo]
  exact hq.spaceLen

theorem Inv.open_of_call (h : s.Inv) (hc : c ∈ s.calls) : s.fds ≠ [] := by
  intro hfds
  rw [h.idle hfds] at hc
  cases hc

/-- Only the calls change. -/
theorem Inv.setCalls (h : s.Inv) {calls : List PipeCall} (hfds : s.fds ≠ [])
    (hcalls : ∀ nonblock buf ret, .write nonblock buf ret ∈ calls →
      ret < buf.length ∧ buf.length < 2 ^ 32) : Inv { s with calls := calls } where
  bufsz := h.bufsz
  fds := h.fds
  readers := h.readers
  writers := h.writers
  refCount := h.refCount
  fifo := h.fifo
  idle hnil := absurd hnil hfds
  calls := hcalls

/-- A further descriptor is counted. -/
theorem Inv.countOpen (h : s.Inv) (hroom : s.fds.length < 255)
    (hfifo : ∃ fifo, ∃ q : BoundedFifo UInt8 (rtAlignDown s.bufsz), s.fifo = some fifo ∧
      RingBuffer.Holds fifo q ∧ s.accepted = s.returned ++ q.items) :
    (s.countOpen fd).Inv := by
  have hreaders : s.fds.countP PipeFd.reads ≤ s.fds.length := List.countP_le_length
  have hwriters : s.fds.countP PipeFd.writes ≤ s.fds.length := List.countP_le_length
  refine ⟨h.bufsz, hroom, ?_, ?_, ?_, fun _ => hfifo, (fun hnil => by cases hnil), h.calls⟩
  -- the three counters of eight bits do not come around
  · show (if fd.reads then u8 (s.readers + 1) else s.readers) = (fd :: s.fds).countP PipeFd.reads
    rw [List.countP_cons, h.readers]
    split
    · exact Nat.mod_eq_of_lt (by omega)
    · rfl
  · show (if fd.writes then u8 (s.writers + 1) else s.writers) = (fd :: s.fds).countP PipeFd.writes
    rw [List.countP_cons, h.writers]
    split
    · exact Nat.mod_eq_of_lt (by omega)
    · rfl
  · show u8 (s.refCount + 1) = s.fds.length + 1
    rw [h.refCount]
    exact Nat.mod_eq_of_lt (by omega)

theorem Inv.open (h : s.Inv) (hroom : s.fds.length < 255) (pool : Option (Nat → UInt8)) :
    (s.pipeFopsOpen fd pool).2.Inv := by
  unfold pipeFopsOpen
  by_cases hzero : s.refCount = 0
  · rw [if_pos hzero]
    -- the first descriptor: the buffer is made, and nothing has been accepted from it
    have hnil : s.fds = [] := List.length_eq_zero_iff.1 (h.refCount.symm.trans hzero)
    split
    · exact h
    · exact h
    case h_3 fifo hcreate =>
      have hq := RingBuffer.holds_create h.bufsz hcreate
      refine Inv.countOpen (s := { s with fifo := some fifo, accepted := [], returned := [] })
        ⟨h.bufsz, h.fds, h.readers, h.writers, h.refCount, fun hne => absurd hnil hne, h.idle,
          h.calls⟩ hroom ⟨fifo, _, rfl, hq, rfl⟩
  · rw [if_neg hzero]
    refine h.countOpen hroom (h.fifo fun hnil => hzero ?_)
    rw [h.refCount, hnil]
    rfl

/-- A descriptor less is counted. -/
theorem countP_close {p : PipeFd → Bool} {n : Nat} {l : List PipeFd} (hl : l.length ≤ 255)
    (hn : n = l.countP p) (hfd : fd ∈ l) :
    (if p fd then u8 (n + 2 ^ 8 - 1) else n) = (l.erase fd).countP p := by
  -- what is counted without the descriptor, and the descriptor
  have hcount : l.countP p = (l.erase fd).countP p + if p fd then 1 else 0 := by
    rw [(List.perm_cons_erase hfd).countP_eq, List.countP_cons]
  have hle : l.countP p ≤ l.length := List.countP_le_length
  rw [hn, hcount]
  split
  case isTrue hp =>
    rw [if_pos hp] at hcount
    unfold u8
    omega
  case isFalse => rfl

theorem Inv.close (h : s.Inv) (hfd : fd ∈ s.fds) (hidle : s.fds.length = 1 → s.calls = []) :
    (s.pipeFopsClose fd).2.Inv := by
  have hlen : (s.fds.erase fd).length = s.fds.length - 1 := List.length_erase_of_mem hfd
  have hpos : 0 < s.fds.length := List.length_pos_of_mem hfd
  have hfds := h.fds
  refine ⟨h.bufsz, ?_, countP_close h.fds h.readers hfd, countP_close h.fds h.writers hfd, ?_,
    fun hne => ?_, fun hnil => ?_, h.calls⟩
  · show (s.fds.erase fd).length ≤ 255
    omega
  · show u8 (s.refCount + 2 ^ 8 - 1) = (s.fds.erase fd).length
    rw [hlen, h.refCount]
    unfold u8
    omega
  -- a descriptor is left, so the buffer is not destroyed
  · have hone : s.refCount ≠ 1 := by
      intro hone
      rw [h.refCount] at hone
      have hzero : (s.fds.erase fd).length = 0 := by rw [hlen, hone]
      exact hne (List.length_eq_zero_iff.1 hzero)
    obtain ⟨fifo, q, hfifo, hrest⟩ := h.fifo (List.ne_nil_of_mem hfd)
    exact ⟨fifo, q, (if_neg hone).trans hfifo, hrest⟩
  -- no descriptor is left: this was the only one
  · refine hidle ?_
    have hzero : (s.fds.erase fd).length = 0 := by
      rw [show s.fds.erase fd = [] from hnil]
      rfl
    omega

/-- What a pass of a read does. -/
theorem Inv.readPass (h : s.Inv) (hcall : .read nonblock count ∈ s.calls) :
    (s.readPass nonblock count).2.Inv ∧
    (s.writers = 0 → (s.readPass nonblock count).1 = .eof) ∧
    (s.writers ≠ 0 → ∃ bytes, bytes = s.contents.take (u16 count) ∧
      (s.readPass nonblock count).1 =
        if bytes ≠ [] then .data bytes else if nonblock then .again else .goesOn) := by
  have hfds := h.open_of_call hcall
  obtain ⟨fifo, q, hfifo, hq, hcontents, -, haccepted⟩ := h.holds hfds
  have hcalls : ∀ nonblock' buf ret, .write nonblock' buf ret ∈ s.calls.erase
      (.read nonblock count) → ret < buf.length ∧ buf.length < 2 ^ 32 :=
    fun nonblock' buf ret hmem => h.calls nonblock' buf ret (List.mem_of_mem_erase hmem)
  unfold Pipe.readPass
  dsimp only
  -- without a writer the pass reports the end of the file
  by_cases hwriters : s.writers = 0
  · rw [if_pos hwriters]
    exact ⟨h.setCalls hfds hcalls, fun _ => rfl, fun hne => absurd hwriters hne⟩
  · obtain ⟨hbytes, hq'⟩ := RingBuffer.holds_get hq (u16 count)
    rw [if_neg hwriters, hfifo]
    dsimp only
    rw [hbytes, hcontents]
    -- the buffer behind the pass
    have hafter : ∀ calls : List PipeCall,
        (∀ nonblock' buf ret, .write nonblock' buf ret ∈ calls →
          ret < buf.length ∧ buf.length < 2 ^ 32) →
        Inv { s with
          fifo := some (fifo.rtRingbufferGet (u16 count)).2
          calls := calls
          returned := s.returned ++ q.items.take (u16 count) } := by
      intro calls hcalls
      refine ⟨h.bufsz, h.fds, h.readers, h.writers, h.refCount,
        fun _ => ⟨_, _, rfl, hq', ?_⟩, fun hnil => absurd hnil hfds, hcalls⟩
      show s.accepted = s.returned ++ q.items.take (u16 count) ++ q.items.drop (u16 count)
      rw [List.append_assoc, List.take_append_drop, ← hcontents]
      exact haccepted
    refine ⟨?_, fun hzero => absurd hzero hwriters, fun _ => ⟨_, rfl, ?_⟩⟩
    · split
      · exact hafter _ hcalls
      · split
        · exact hafter _ hcalls
        · refine hafter _ fun nonblock' buf ret hmem => ?_
          rcases List.mem_cons.1 hmem with heq | hmem
          · cases heq
          · exact hcalls nonblock' buf ret hmem
    · split
      · rfl
      · split <;> rfl

/-- What a pass of a write does. -/
theorem Inv.writePass (h : s.Inv) (hcall : .write nonblock buf ret ∈ s.calls) :
    (s.writePass nonblock buf ret).2.Inv ∧ (s.writePass nonblock buf ret).1 ≠ .eof ∧
    (s.readers ≠ 0 → (s.writePass nonblock buf ret).2.accepted.length =
      s.accepted.length + min (u16 (buf.length - ret)) s.space) := by
  have hfds := h.open_of_call hcall
  obtain ⟨fifo, q, hfifo, hq, hcontents, hspace, haccepted⟩ := h.holds hfds
  obtain ⟨hret, hlen⟩ := h.calls nonblock buf ret hcall
  have hcalls : ∀ nonblock' buf' ret', .write nonblock' buf' ret' ∈ s.calls.erase
      (.write nonblock buf ret) → ret' < buf'.length ∧ buf'.length < 2 ^ 32 :=
    fun nonblock' buf' ret' hmem => h.calls nonblock' buf' ret' (List.mem_of_mem_erase hmem)
  unfold Pipe.writePass
  dsimp only
  -- without a reader the pass gives up
  by_cases hreaders : s.readers = 0
  · rw [if_pos hreaders]
    refine ⟨h.setCalls hfds hcalls, ?_, fun hne => absurd hreaders hne⟩
    dsimp only
    split <;> exact fun heof => by cases heof
  · rw [if_neg hreaders, hfifo]
    dsimp only
    obtain ⟨hcount, hq'⟩ := RingBuffer.holds_put hq ((buf.drop ret).take (u16 (buf.length - ret)))
    -- what is handed over, and how much of it goes in
    have hoffer : ((buf.drop ret).take (u16 (buf.length - ret))).length =
        u16 (buf.length - ret) := by
      rw [List.length_take, List.length_drop]
      exact Nat.min_eq_left (Nat.mod_le _ _)
    rw [hoffer, ← hspace] at hcount
    generalize hn : (fifo.rtRingbufferPut ((buf.drop ret).take (u16 (buf.length - ret)))).1 = n
      at hcount ⊢
    have hle : n ≤ u16 (buf.length - ret) := hcount ▸ Nat.min_le_left _ _
    have hle' : u16 (buf.length - ret) ≤ buf.length - ret := Nat.mod_le _ _
    have hitems : (q.put ((buf.drop ret).take (u16 (buf.length - ret)))).items =
        q.items ++ (buf.drop ret).take n := by
      show q.items ++ ((buf.drop ret).take (u16 (buf.length - ret))).take _ = _
      rw [List.take_take, ← hspace, hcount, Nat.min_comm]
    have hafter : ∀ calls : List PipeCall,
        (∀ nonblock' buf' ret', .write nonblock' buf' ret' ∈ calls →
          ret' < buf'.length ∧ buf'.length < 2 ^ 32) →
        Inv { s with
          fifo := some (fifo.rtRingbufferPut ((buf.drop ret).take (u16 (buf.length - ret)))).2
          calls := calls
          accepted := s.accepted ++ (buf.drop ret).take n } := by
      intro calls hcalls
      refine ⟨h.bufsz, h.fds, h.readers, h.writers, h.refCount,
        fun _ => ⟨_, _, rfl, hq', ?_⟩, fun hnil => absurd hnil hfds, hcalls⟩
      rw [hitems, ← List.append_assoc, ← hcontents, ← haccepted]
    have hlength : (s.accepted ++ (buf.drop ret).take n).length =
        s.accepted.length + min (u16 (buf.length - ret)) s.space := by
      rw [List.length_append, List.length_take, List.length_drop, ← hcount]
      omega
    split
    · exact ⟨hafter _ hcalls, (fun heof => by cases heof), fun _ => hlength⟩
    · split
      · refine ⟨hafter _ hcalls, ?_, fun _ => hlength⟩
        dsimp only
        split <;> exact fun heof => by cases heof
      · refine ⟨hafter _ fun nonblock' buf' ret' hmem => ?_, (fun heof => by cases heof),
          fun _ => hlength⟩
        rcases List.mem_cons.1 hmem with heq | hmem
        · cases heq
          exact ⟨by omega, hlen⟩
        · exact hcalls nonblock' buf' ret' hmem

/-- **Every step keeps the invariant**, under the condition on the descriptors. -/
theorem Inv.step (h : s.Inv) (hok : s.Counted a) (hs : s.step a = some r) : r.2.Inv := by
  cases a with
  | «open» fd pool =>
    obtain ⟨-, rfl⟩ := Runs.takeIf_eq_some.1 hs
    exact h.open hok pool
  | close fd =>
    obtain ⟨hfd, rfl⟩ := Runs.takeIf_eq_some.1 hs
    exact h.close hfd hok
  | read fd count =>
    obtain ⟨⟨hfd, -⟩, rfl⟩ := Runs.takeIf_eq_some.1 hs
    unfold pipeFopsRead
    split
    · exact h
    · refine h.setCalls (List.ne_nil_of_mem hfd) fun nonblock buf ret hmem => ?_
      rcases List.mem_cons.1 hmem with heq | hmem
      · cases heq
      · exact h.calls nonblock buf ret hmem
  | readPass nonblock count =>
    obtain ⟨hcall, rfl⟩ := Runs.takeIf_eq_some.1 hs
    exact (h.readPass hcall).1
  | write fd buf =>
    obtain ⟨⟨hfd, hlen⟩, rfl⟩ := Runs.takeIf_eq_some.1 hs
    unfold pipeFopsWrite
    split
    · exact h
    · split
      · exact h
      case isFalse hpos =>
        refine h.setCalls (List.ne_nil_of_mem hfd) fun nonblock buf' ret hmem => ?_
        rcases List.mem_cons.1 hmem with heq | hmem
        · cases heq
          exact ⟨Nat.pos_of_ne_zero hpos, hlen⟩
        · exact h.calls nonblock buf' ret hmem
  | writePass nonblock buf ret =>
    obtain ⟨hcall, rfl⟩ := Runs.takeIf_eq_some.1 hs
    exact (h.writePass hcall).1

/-- What a read gets is what it asks for if the length keeps enough in 16 bits. -/
theorem take_u16_eq_iff {l : List UInt8} (hl : l ≠ []) (hcount : 0 < count) :
    (l.take (u16 count) ≠ [] ∧ l.take (u16 count) = l.take count) ↔
      min count l.length ≤ u16 count := by
  have hlen : 0 < l.length := List.length_pos_of_ne_nil hl
  have hle : u16 count ≤ count := Nat.mod_le _ _
  constructor
  · rintro ⟨-, heq⟩
    have hlength := congrArg List.length heq
    rw [List.length_take, List.length_take] at hlength
    omega
  · intro hmin
    constructor
    · apply List.ne_nil_of_length_pos
      rw [List.length_take]
      omega
    -- the request fits in 16 bits, or everything is taken
    · rcases Nat.lt_or_ge (u16 count) l.length with hsome | hall
      · rw [show u16 count = count by omega]
      · rw [List.take_of_length_le hall, List.take_of_length_le (hall.trans hle)]

/-- **When a step does what is said of it.** -/
theorem Inv.serves_iff (h : s.Inv) (hs : s.step a = some r) : Serves s a r ↔ s.Fits a := by
  cases a with
  | «open» fd pool =>
    obtain ⟨-, rfl⟩ := Runs.takeIf_eq_some.1 hs
    refine iff_of_true ⟨fun heof => ?_, (fun _ _ ha => by cases ha), fun _ _ _ ha => by cases ha⟩
      trivial
    unfold pipeFopsOpen at heof
    split at heof
    · split at heof <;> cases heof
    · cases heof
  | close fd =>
    obtain ⟨-, rfl⟩ := Runs.takeIf_eq_some.1 hs
    exact iff_of_true ⟨(fun heof => by cases heof), (fun _ _ ha => by cases ha),
      fun _ _ _ ha => by cases ha⟩ trivial
  | read fd count =>
    obtain ⟨-, rfl⟩ := Runs.takeIf_eq_some.1 hs
    unfold pipeFopsRead
    by_cases hwriters : s.writers = 0
    · rw [if_pos hwriters]
      exact ⟨fun hserves _ => hserves.eof rfl,
        fun hfits => ⟨fun _ => hfits hwriters, (fun _ _ ha => by cases ha),
          fun _ _ _ ha => by cases ha⟩⟩
    · rw [if_neg hwriters]
      exact iff_of_true ⟨(fun heof => by cases heof), (fun _ _ ha => by cases ha),
        fun _ _ _ ha => by cases ha⟩ fun hzero => absurd hzero hwriters
  | readPass nonblock count =>
    obtain ⟨hcall, rfl⟩ := Runs.takeIf_eq_some.1 hs
    obtain ⟨-, hnone, hsome⟩ := h.readPass hcall
    by_cases hwriters : s.writers = 0
    · -- the end of the file, whatever is there
      rw [Fits]
      constructor
      · intro hserves
        have hnil := hserves.eof (hnone hwriters)
        refine ⟨fun _ => hnil, ?_⟩
        rw [hnil, List.length_nil, Nat.min_zero]
        exact Nat.zero_le _
      · intro hfits
        exact ⟨fun _ => hfits.1 hwriters,
          fun _ _ _ _ hne => absurd (hfits.1 hwriters) hne, fun _ _ _ ha => by cases ha⟩
    -- the end of the file is not reported, so only the length matters
    · obtain ⟨bytes, hbytes, hout⟩ := hsome hwriters
      have hnot : (s.readPass nonblock count).1 ≠ .eof := by
        rw [hout]
        split
        · exact fun heof => by cases heof
        · split <;> exact fun heof => by cases heof
      have hdata : (s.readPass nonblock count).1 = .data (s.contents.take count) ↔
          s.contents.take (u16 count) ≠ [] ∧
            s.contents.take (u16 count) = s.contents.take count := by
        rw [hout, hbytes]
        by_cases hne : s.contents.take (u16 count) = []
        · rw [if_neg (not_not.2 hne)]
          refine iff_of_false ?_ fun hboth => hboth.1 hne
          split <;> exact fun heq => by cases heq
        · rw [if_pos hne, PipeOutcome.data.injEq]
          exact (and_iff_right hne).symm
      rw [Fits]
      constructor
      · intro hserves
        refine ⟨fun hzero => absurd hzero hwriters, ?_⟩
        by_cases hpos : 0 < count ∧ s.contents ≠ []
        · exact (take_u16_eq_iff hpos.2 hpos.1).1
            (hdata.1 (hserves.read nonblock count rfl hpos.1 hpos.2))
        · have hzero : min count s.contents.length = 0 := by
            by_cases hcount : 0 < count
            · rw [not_not.1 fun hne => hpos ⟨hcount, hne⟩, List.length_nil, Nat.min_zero]
            · omega
          omega
      · rintro ⟨-, hmin⟩
        refine ⟨fun heof => absurd heof hnot, fun _ _ ha hpos hne => ?_,
          fun _ _ _ ha => by cases ha⟩
        cases ha
        exact hdata.2 ((take_u16_eq_iff hne hpos).2 hmin)
  | write fd buf =>
    obtain ⟨-, rfl⟩ := Runs.takeIf_eq_some.1 hs
    refine iff_of_true ⟨fun heof => ?_, (fun _ _ ha => by cases ha), fun _ _ _ ha => by cases ha⟩
      trivial
    unfold pipeFopsWrite at heof
    split at heof
    · cases heof
    · split at heof <;> cases heof
  | writePass nonblock buf ret =>
    obtain ⟨hcall, rfl⟩ := Runs.takeIf_eq_some.1 hs
    obtain ⟨-, hnot, hcount⟩ := h.writePass hcall
    rw [Fits]
    constructor
    · intro hserves hreaders hspace
      have hlt := hserves.write nonblock buf ret rfl hreaders hspace
      rw [hcount hreaders] at hlt
      omega
    · intro hfits
      refine ⟨fun heof => absurd heof hnot, (fun _ _ ha => by cases ha),
        fun _ _ _ ha hreaders hspace => ?_⟩
      cases ha
      have hpos := hfits hreaders hspace
      rw [hcount hreaders]
      omega

/-- A pipe that was created meets the invariant. -/
theorem inv_create (isNamed : Bool) (bufsz : Nat) : Inv (rtPipeCreate isNamed bufsz) where
  bufsz := u16_lt bufsz
  fds := Nat.zero_le _
  readers := rfl
  writers := rfl
  refCount := rfl
  fifo hne := absurd rfl hne
  idle _ := rfl
  calls _ _ _ hmem := by cases hmem

end Steps

/-- **Pipes.** In every run in which at most 255 descriptors are open at a time and no call is in
its loop when the last one is closed, what writes have accepted since the pipe was opened is what
reads have returned, followed by what is in the pipe. A step does what is said of it just when it
finds a writer or no data, and when the length it has keeps enough in 16 bits. -/
theorem pipe_fifo {isNamed : Bool} {bufsz : Nat} {s : Pipe}
    (hrun : Runs (Runs.Exec exec) Counted (rtPipeCreate isNamed bufsz) s) :
    (s.fds ≠ [] → s.accepted = s.returned ++ s.contents) ∧
    (∀ c, c ∈ s.calls → ∃ fifo, s.fifo = some fifo) ∧
    ∀ a r, s.step a = some r → (Serves s a r ↔ s.Fits a) := by
  have h : s.Inv := by
    refine Runs.invariant (fun s₁ a s₂ hinv hok hs => ?_) hrun (inv_create isNamed bufsz)
    obtain ⟨r, hr, rfl⟩ := Option.map_eq_some_iff.1 hs
    exact hinv.step hok hr
  refine ⟨fun hfds => ?_, fun c hc => ?_, fun a r hs => h.serves_iff hs⟩
  · obtain ⟨-, -, -, -, -, -, haccepted⟩ := h.holds hfds
    exact haccepted
  · obtain ⟨fifo, -, hfifo, -⟩ := h.holds (h.open_of_call hc)
    exact ⟨fifo, hfifo⟩

/-- A descriptor to read from, and one to write to. -/
def readEnd : PipeFd := ⟨.rdonly, true⟩

def writeEnd : PipeFd := ⟨.wronly, true⟩

/-- Two bytes are written, and one of them is read. -/
def writeThenRead : List PipeAct :=
  [.open readEnd (some fun _ => 0), .open writeEnd none, .write writeEnd [7, 8],
    .writePass true [7, 8] 0, .read readEnd 1, .readPass true 1]

theorem pipe_fifo_two :
    ∃ s, Runs (Runs.Exec exec) Counted (rtPipeCreate true 8) s ∧ s.returned = [7] ∧
      s.accepted = s.returned ++ s.contents ∧ s.accepted = [7, 8] := by
  obtain ⟨s, -, hrun, hend⟩ := @Runs.exec_of_replay _ _ Counted (rtPipeCreate true 8) exec _
    writeThenRead (fun s => decide (s.fds ≠ [] ∧ s.returned = [7] ∧ s.accepted = [7, 8]))
    (by decide +kernel)
  obtain ⟨hfds, hreturned, haccepted⟩ := of_decide_eq_true hend
  exact ⟨s, hrun, hreturned, (pipe_fifo hrun).1 hfds, haccepted⟩

/-- The writer closes its descriptor. -/
def writerCloses : List PipeAct :=
  [.open readEnd (some fun _ => 0), .open writeEnd none, .write writeEnd [7],
    .writePass true [7] 0, .close writeEnd]

/-- A read that asks for 65536 bytes is in its loop. -/
def largeRead : List PipeAct :=
  [.open readEnd (some fun _ => 0), .open writeEnd none, .write writeEnd [7],
    .writePass true [7] 0, .read readEnd 65536]

/-- **Reads fail**: one reports the end of the file although there is data, and one of 65536 bytes
gets nothing. -/
theorem pipe_fails :
    (∃ s r, Runs (Runs.Exec exec) Runs.always (rtPipeCreate true 8) s ∧
      s.step (.read readEnd 1) = some r ∧ r.1 = .eof ∧ s.contents = [7]) ∧
    ∃ s r, Runs (Runs.Exec exec) Runs.always (rtPipeCreate true 8) s ∧
      s.step (.readPass true 65536) = some r ∧ r.1 = .again ∧ s.contents = [7] := by
  constructor
  · obtain ⟨s, -, hrun, hend⟩ := @Runs.exec_of_replay _ _ Runs.always (rtPipeCreate true 8) exec _
      writerCloses (fun s => decide ((s.step (.read readEnd 1)).map Prod.fst = some .eof ∧
        s.contents = [7])) (by decide +kernel)
    obtain ⟨hstep, hcontents⟩ := of_decide_eq_true hend
    obtain ⟨r, hr, heof⟩ := Option.map_eq_some_iff.1 hstep
    exact ⟨s, r, hrun, hr, heof, hcontents⟩
  · obtain ⟨s, -, hrun, hend⟩ := @Runs.exec_of_replay _ _ Runs.always (rtPipeCreate true 8) exec _
      largeRead (fun s => decide ((s.step (.readPass true 65536)).map Prod.fst = some .again ∧
        s.contents = [7])) (by decide +kernel)
    obtain ⟨hstep, hcontents⟩ := of_decide_eq_true hend
    obtain ⟨r, hr, hagain⟩ := Option.map_eq_some_iff.1 hstep
    exact ⟨s, r, hrun, hr, hagain, hcontents⟩

end Pipe

end RTThread
