import Mathlib.Data.Int.ModEq
import RTThread.Kernel.Waits
import RTThread.Lib.Deque
import RTThread.Lib.Ring

/-!
# Mailboxes (`ipc.c`)

A mailbox keeps the values that have been sent and not received in a pool of `size` words, used
as a ring. A sender that finds it full and a receiver that finds it empty suspend themselves,
each kind in a list of its own. Whoever stores or takes a value resumes one thread of the other
kind, and that thread looks again when it runs: what it was resumed for may be gone by then, and
it suspends itself again for what is left of its time-out.

Interrupts are disabled from where a call looks at the mailbox to its return or to its call of
`rt_schedule`, so these sections are the steps here. A thread that is not suspended may go on at
any time: the scheduler only chooses among these interleavings.

## Main results

* `Inv.step` — every section of a call does to the values what its outcome says.
* `mailbox_refines_deque` — in every run the mailbox is a bounded double-ended queue, and no
  receiver is suspended while there is a value that no resumed receiver will find.
-/

namespace RTThread

/-- The lists of a mailbox: `parent.suspend_thread` and `suspend_sender_thread`. -/
inductive MbList
  | recv
  | send
deriving DecidableEq

instance : Fintype MbList := ⟨{.recv, .send}, fun q => by cases q <;> decide⟩

/-- A call that waits, and what it goes on with. -/
inductive MbCall
  | send (value : UInt32) (timeout : Int)
  | recv (timeout : Int)

/-- The list a call waits in. -/
def MbCall.home : MbCall → MbList
  | .send _ _ => .send
  | .recv _ => .recv

/-- `struct rt_mailbox`. -/
structure Mailbox where
  msgPool : Nat → UInt32
  size : Nat
  entry : Nat
  inOffset : Nat
  outOffset : Nat
  flag : IpcFlag
  waits : Waits MbList MbCall

/-- How a section of a call ends. -/
inductive MbOutcome
  | sent (value : UInt32)
  | sentUrgent (value : UInt32)
  | received (value : UInt32)
  /-- The call returns this error. -/
  | failed (e : RtErr)
  /-- The call goes to `rt_schedule`. -/
  | suspended
  | reset
  | timedOut

namespace Mailbox

/-- `rt_mb_init`. -/
def rtMbInit (msgPool : Nat → UInt32) (size : Nat) (flag : IpcFlag) : Mailbox where
  msgPool := msgPool
  size := u16 size
  entry := 0
  inOffset := 0
  outOffset := 0
  flag := flag
  waits := .idle

/-- `RT_MB_ENTRY_MAX` -/
abbrev entryMax : Nat := 0xffff

/-- `rt_mb_send_wait` behind its loop. -/
def store (s : Mailbox) (value : UInt32) : MbOutcome × Mailbox :=
  -- set ptr, increase input offset
  let inOffset := u16 (s.inOffset + 1)
  let s := { s with
    msgPool := Function.update s.msgPool s.inOffset value
    inOffset := if s.size ≤ inOffset then 0 else inOffset }
  if s.entry < entryMax then
    -- increase message entry, resume suspended thread
    (.sent value, { s with entry := s.entry + 1, waits := s.waits.resume .recv })
  else
    -- value overflowed
    (.failed .efull, s)

/-- `rt_mb_send_wait` of the thread `t` from the test of its loop on. -/
def sendLoop (s : Mailbox) (priority : ThreadId → Nat) (t : ThreadId) (value : UInt32)
    (timeout : Int) : MbOutcome × Mailbox :=
  if s.entry = s.size then
    -- no waiting, return timeout
    if timeout = 0 then (.failed .efull, { s with waits := s.waits.setError t .eok })
    else
      (.suspended, { s with
        waits := s.waits.suspend .send (ipcInsert priority s.flag t (s.waits.queue .send)) t
          (.send value timeout) timeout })
  else s.store value

/-- `rt_mb_send_wait`. -/
def rtMbSendWait (s : Mailbox) (priority : ThreadId → Nat) (t : ThreadId) (value : UInt32)
    (timeout : Int) : MbOutcome × Mailbox :=
  -- for non-blocking call
  if s.entry = s.size ∧ timeout = 0 then (.failed .efull, s)
  else s.sendLoop priority t value timeout

/-- `rt_mb_urgent`. -/
def rtMbUrgent (s : Mailbox) (value : UInt32) : MbOutcome × Mailbox :=
  if s.entry = s.size then (.failed .efull, s)
  else
    -- rewind to the previous position
    let outOffset := if 0 < s.outOffset then s.outOffset - 1 else s.size - 1
    (.sentUrgent value, { s with
      msgPool := Function.update s.msgPool outOffset value
      outOffset := outOffset
      entry := u16 (s.entry + 1)
      waits := s.waits.resume .recv })

/-- `rt_mb_recv` behind its loop. -/
def take (s : Mailbox) : MbOutcome × Mailbox :=
  -- fill ptr, increase output offset
  let outOffset := u16 (s.outOffset + 1)
  (.received (s.msgPool s.outOffset), { s with
    outOffset := if s.size ≤ outOffset then 0 else outOffset
    entry := if 0 < s.entry then s.entry - 1 else s.entry
    waits := s.waits.resume .send })

/-- `rt_mb_recv` of the thread `t` from the test of its loop on. -/
def recvLoop (s : Mailbox) (priority : ThreadId → Nat) (t : ThreadId) (timeout : Int) :
    MbOutcome × Mailbox :=
  if s.entry = 0 then
    -- no waiting, return timeout
    if timeout = 0 then (.failed .etimeout, { s with waits := s.waits.setError t .etimeout })
    else
      (.suspended, { s with
        waits := s.waits.suspend .recv (ipcInsert priority s.flag t (s.waits.queue .recv)) t
          (.recv timeout) timeout })
  else s.take

/-- `rt_mb_recv`. -/
def rtMbRecv (s : Mailbox) (priority : ThreadId → Nat) (t : ThreadId) (timeout : Int) :
    MbOutcome × Mailbox :=
  -- for non-blocking call
  if s.entry = 0 ∧ timeout = 0 then (.failed .etimeout, s)
  else s.recvLoop priority t timeout

/-- A call behind its `rt_schedule`, `elapsed` ticks after it was suspended. -/
def woken (s : Mailbox) (priority : ThreadId → Nat) (t : ThreadId) (call : MbCall)
    (elapsed : Int) : MbOutcome × Mailbox :=
  let x := s.waits.thread t
  let s := { s with waits := s.waits.leave t }
  -- return error
  if x.error ≠ .eok then (.failed x.error, s)
  else
    match call with
    | .send value timeout => s.sendLoop priority t value (timeoutLeft timeout elapsed)
    | .recv timeout => s.recvLoop priority t (timeoutLeft timeout elapsed)

/-- `rt_mb_control(mb, RT_IPC_CMD_RESET, arg)`. -/
def rtMbReset (s : Mailbox) : MbOutcome × Mailbox :=
  (.reset, { s with
    waits := (s.waits.resumeAll .recv).resumeAll .send
    entry := 0
    inOffset := 0
    outOffset := 0 })

end Mailbox

/-- What happens to a mailbox. The priorities may have changed whenever a thread is put into a
list. -/
inductive MbAct
  | sendWait (priority : ThreadId → Nat) (t : ThreadId) (value : UInt32) (timeout : Int)
  | urgent (value : UInt32)
  | recv (priority : ThreadId → Nat) (t : ThreadId) (timeout : Int)
  /-- `rt_schedule` returns to the call of a thread. -/
  | woken (priority : ThreadId → Nat) (t : ThreadId) (elapsed : Int)
  | timeout (t : ThreadId)
  | reset

namespace Mailbox

/-- The outcome of an action, and the state it leads to. A call with the time-out 0 never waits:
an interrupt handler may make it whatever the interrupted thread is doing. -/
def step (s : Mailbox) : MbAct → Option (MbOutcome × Mailbox)
  | .sendWait priority t value timeout =>
    Runs.takeIf ((s.waits.thread t).call = none ∨ timeout = 0)
      (s.rtMbSendWait priority t value timeout)
  | .urgent value => some (s.rtMbUrgent value)
  | .recv priority t timeout =>
    Runs.takeIf ((s.waits.thread t).call = none ∨ timeout = 0) (s.rtMbRecv priority t timeout)
  | .woken priority t elapsed =>
    (s.waits.thread t).call.bind fun call =>
      Runs.takeIf (Queues.Free s.waits.queue t) (s.woken priority t call elapsed)
  | .timeout t =>
    Runs.takeIf (¬ Queues.Free s.waits.queue t ∧ (s.waits.thread t).timer = true)
      (.timedOut, { s with waits := s.waits.timeout t })
  | .reset => some s.rtMbReset

end Mailbox

/-- What an outcome tells of the values. -/
def MbOutcome.ops : MbOutcome → List (DequeOp UInt32)
  | .sent value => [.pushBack value]
  | .sentUrgent value => [.pushFront value]
  | .received value => [.popFront value]
  | .reset => [.clear]
  | .failed _ | .suspended | .timedOut => []

namespace Mailbox

/-- The step of an action, with what its outcome tells. -/
def exec (s : Mailbox) (a : MbAct) : Option (Mailbox × List (DequeOp UInt32)) :=
  (s.step a).map fun r => (r.2, r.1.ops)

-- --------
-- The invariant
-- --------

/-- The values in the mailbox, the next one to be received first. -/
def contents (s : Mailbox) : List UInt32 := Ring.read s.msgPool s.size s.outOffset s.entry

/-- The pool and its indices. -/
structure Indexed (s : Mailbox) : Prop where
  size_lt : s.size < 2 ^ 16
  entry_le : s.entry ≤ s.size
  out_lt : 0 < s.size → s.outOffset < s.size
  in_eq : s.inOffset = (s.outOffset + s.entry) % s.size

/-- No receiver is suspended unless enough of them have been resumed to take what is there, up
to `n` values. -/
def ServedBut (n : Nat) (s : Mailbox) : Prop :=
  ∃ R : Finset ThreadId, s.waits.WokenAre MbCall.home .recv R ∧
    (s.waits.queue .recv ≠ [] → s.entry ≤ R.card + n)

/-- **The invariant of a mailbox.** -/
structure Inv (s : Mailbox) : Prop where
  indexed : s.Indexed
  waits : s.waits.Inv MbCall.home
  served : s.ServedBut 0

/-- What a section does to the values is what its outcome tells, and an error changes nothing. -/
structure Does (s : Mailbox) (r : MbOutcome × Mailbox) : Prop where
  size : r.2.size = s.size
  ops : r.1.ops.foldlM (Deque.apply s.size) s.contents = some r.2.contents
  failed : ∀ e, r.1 = .failed e → r.2.msgPool = s.msgPool ∧ r.2.entry = s.entry ∧
    r.2.inOffset = s.inOffset ∧ r.2.outOffset = s.outOffset

section Sections

variable {s : Mailbox} {t : ThreadId} {value : UInt32} {timeout : Int}
  {priority : ThreadId → Nat}

theorem length_contents (s : Mailbox) : s.contents.length = s.entry := Ring.length_read

theorem succ_index {i : Nat} (hi : i < s.size) (hlt : s.size < 2 ^ 16) :
    (if s.size ≤ u16 (i + 1) then 0 else u16 (i + 1)) = (i + 1) % s.size := by
  rw [u16_of_lt (by omega)]
  by_cases hend : s.size ≤ i + 1
  · rw [if_pos hend, show i + 1 = s.size by omega, Nat.mod_self]
  · rw [if_neg hend, Nat.mod_eq_of_lt (by omega)]

theorem Indexed.waits (h : s.Indexed) (w : Waits MbList MbCall) :
    Indexed { s with waits := w } :=
  ⟨h.size_lt, h.entry_le, h.out_lt, h.in_eq⟩

theorem does_waits (w : Waits MbList MbCall) {o : MbOutcome} (ho : o.ops = []) :
    Does s (o, { s with waits := w }) where
  size := rfl
  ops := by
    rw [ho]
    rfl
  failed _ _ := ⟨rfl, rfl, rfl, rfl⟩

-- Storing a value

/-- A mail is stored behind the others, and a receiver is resumed. -/
theorem store_spec (value : UInt32) (h : s.Indexed) (hroom : s.entry ≠ s.size) :
    Does s (s.store value) ∧ (s.store value).2.Indexed ∧
      (s.store value).2.entry = s.entry + 1 ∧
      (s.store value).2.waits = s.waits.resume .recv := by
  have hlt := h.size_lt
  have hle := h.entry_le
  have hpos : 0 < s.size := by omega
  have hin : s.inOffset < s.size := by
    rw [h.in_eq]
    exact Nat.mod_lt _ hpos
  have hstore : s.store value = (.sent value, { s with
      msgPool := Function.update s.msgPool s.inOffset value
      inOffset := (s.inOffset + 1) % s.size
      entry := s.entry + 1
      waits := s.waits.resume .recv }) := by
    unfold store
    dsimp only
    -- there is room, and `size` fits in sixteen bits: `RT_MB_ENTRY_MAX` is not reached
    rw [succ_index hin hlt, if_pos (by unfold entryMax; omega)]
  rw [hstore]
  refine ⟨⟨rfl, ?_, fun e he => by cases he⟩, ⟨hlt, ?_, h.out_lt, ?_⟩, rfl, rfl⟩
  · show [DequeOp.pushBack value].foldlM (Deque.apply s.size) s.contents = _
    rw [List.foldlM_cons, Deque.apply_pushBack (by rw [length_contents]; omega)]
    show some (s.contents ++ [value]) = some _
    exact congrArg some (Ring.read_push_back (by omega) h.in_eq).symm
  · show s.entry + 1 ≤ s.size
    omega
  · show (s.inOffset + 1) % s.size = (s.outOffset + (s.entry + 1)) % s.size
    rw [h.in_eq, Nat.mod_add_mod, Nat.add_assoc]

/-- A mail is stored in front of the others, and a receiver is resumed. -/
theorem urgent_spec (value : UInt32) (h : s.Indexed) (hroom : s.entry ≠ s.size) :
    Does s (s.rtMbUrgent value) ∧ (s.rtMbUrgent value).2.Indexed ∧
      (s.rtMbUrgent value).2.entry = s.entry + 1 ∧
      (s.rtMbUrgent value).2.waits = s.waits.resume .recv := by
  have hlt := h.size_lt
  have hle := h.entry_le
  have hout := h.out_lt (by omega)
  -- `out` is the index in front of `out_offset`, around the ring
  obtain ⟨out, hout', hsucc, hrtMbUrgent⟩ : ∃ out, out < s.size ∧
      s.outOffset = (out + 1) % s.size ∧ s.rtMbUrgent value = (.sentUrgent value, { s with
        msgPool := Function.update s.msgPool out value
        outOffset := out
        entry := s.entry + 1
        waits := s.waits.resume .recv }) := by
    refine ⟨if 0 < s.outOffset then s.outOffset - 1 else s.size - 1, ?_, ?_, ?_⟩
    · split <;> omega
    · by_cases hzero : 0 < s.outOffset
      · rw [if_pos hzero, Nat.sub_add_cancel hzero, Nat.mod_eq_of_lt hout]
      · rw [if_neg hzero, Nat.sub_add_cancel (by omega), Nat.mod_self]
        omega
    · unfold rtMbUrgent
      rw [if_neg hroom, u16_of_lt (by omega)]
  rw [hrtMbUrgent]
  refine ⟨⟨rfl, ?_, fun e he => by cases he⟩, ⟨hlt, ?_, fun _ => hout', ?_⟩, rfl, rfl⟩
  · show [DequeOp.pushFront value].foldlM (Deque.apply s.size) s.contents = _
    rw [List.foldlM_cons, Deque.apply_pushFront (by rw [length_contents]; omega)]
    show some (value :: s.contents) = some _
    exact congrArg some (Ring.read_push_front (by omega) hout' hsucc).symm
  · show s.entry + 1 ≤ s.size
    omega
  · show s.inOffset = (out + (s.entry + 1)) % s.size
    rw [h.in_eq, hsucc, Nat.mod_add_mod, Nat.add_assoc, Nat.add_comm 1]

-- Taking a value

/-- The first mail is taken, and a sender is resumed. -/
theorem take_spec (h : s.Indexed) (hdata : s.entry ≠ 0) :
    Does s s.take ∧ s.take.2.Indexed ∧ s.take.2.entry + 1 = s.entry ∧
      s.take.2.waits = s.waits.resume .send := by
  have hlt := h.size_lt
  have hle := h.entry_le
  have hpos : 0 < s.size := by omega
  have hout := h.out_lt hpos
  have hrtMbRecv : s.take = (.received (s.msgPool s.outOffset), { s with
      outOffset := (s.outOffset + 1) % s.size
      entry := s.entry - 1
      waits := s.waits.resume .send }) := by
    unfold take
    dsimp only
    rw [succ_index hout hlt, if_pos (by omega)]
  obtain ⟨n, hn⟩ := Nat.exists_eq_succ_of_ne_zero hdata
  -- the value at `out_offset` is the first of the contents
  have hcontents : s.contents =
      s.msgPool s.outOffset :: Ring.read s.msgPool s.size ((s.outOffset + 1) % s.size) n := by
    unfold contents
    rw [hn, Ring.read_succ, Nat.mod_eq_of_lt hout, Ring.read_mod]
  rw [hrtMbRecv]
  refine ⟨⟨rfl, ?_, fun e he => by cases he⟩, ⟨hlt, ?_, fun _ => Nat.mod_lt _ hpos, ?_⟩, ?_, rfl⟩
  · show [DequeOp.popFront (s.msgPool s.outOffset)].foldlM (Deque.apply s.size) s.contents = _
    rw [List.foldlM_cons, hcontents, Deque.apply_popFront]
    show some _ = some (Ring.read s.msgPool s.size ((s.outOffset + 1) % s.size) (s.entry - 1))
    rw [hn, Nat.succ_sub_one]
  · show s.entry - 1 ≤ s.size
    omega
  · show s.inOffset = ((s.outOffset + 1) % s.size + (s.entry - 1)) % s.size
    rw [h.in_eq, Nat.mod_add_mod]
    congr 1
    omega
  · show s.entry - 1 + 1 = s.entry
    omega

-- Who is resumed

/-- **A value that is stored** is for the receiver that is resumed. -/
theorem ServedBut.store (h : s.ServedBut 0) (hw : s.waits.Inv MbCall.home) {s' : Mailbox}
    (hentry : s'.entry = s.entry + 1) (hwaits : s'.waits = s.waits.resume .recv) :
    s'.ServedBut 0 := by
  obtain ⟨R, hR, hle⟩ := h
  unfold ServedBut
  rw [hentry, hwaits]
  cases hq : s.waits.queue .recv with
  -- nobody to resume: the list of the receivers stays empty
  | nil =>
    rw [Waits.resume_nil hq]
    exact ⟨R, hR, fun hne => absurd hq hne⟩
  -- one value more, and one resumed receiver more for it
  | cons t l =>
    obtain ⟨hR', ht⟩ := hR.resume_self hw hq
    refine ⟨insert t R, hR', fun _ => ?_⟩
    have hle' := hle (by simp [hq])
    rw [Finset.card_insert_of_notMem ht]
    omega

/-- **A value that is taken** may have been for a resumed receiver. -/
theorem ServedBut.take (h : s.ServedBut 1) (hw : s.waits.Inv MbCall.home) {s' : Mailbox}
    (hentry : s'.entry + 1 = s.entry) (hwaits : s'.waits = s.waits.resume .send) :
    s'.ServedBut 0 := by
  obtain ⟨R, hR, hle⟩ := h
  unfold ServedBut
  rw [hwaits]
  refine ⟨R, hR.resume_of_ne hw (by decide), fun hne => ?_⟩
  -- only the list of the senders is changed
  rw [Waits.resume_queue (by decide)] at hne
  have hle' := hle hne
  omega

theorem servedBut_empty {s' : Mailbox} {R : Finset ThreadId} {n : Nat}
    (hR : s'.waits.WokenAre MbCall.home .recv R) (hentry : s'.entry = 0) : s'.ServedBut n :=
  ⟨R, hR, fun _ => by omega⟩

-- The loops

/-- What a section of a call does: the values, and the invariant behind it. -/
structure Section (s : Mailbox) (r : MbOutcome × Mailbox) : Prop where
  does : Does s r
  inv : r.2.Inv

/-- A round of a send is one operation of the deque, or waits. -/
theorem sendLoop_spec (h : s.Inv) (hcall : s.entry = s.size → (s.waits.thread t).call = none) :
    Section s (s.sendLoop priority t value timeout) := by
  obtain ⟨hI, hw, R, hR, hle⟩ := h
  unfold sendLoop
  by_cases hfull : s.entry = s.size
  · have hnone := hcall hfull
    have hfree := hw.free hnone
    rw [if_pos hfull]
    split
    · exact ⟨does_waits _ rfl, hI.waits _, hw.setError hfree _, R, hR.setError hnone _, hle⟩
    · -- the sender is put into its list, and the receivers stay where they are
      have hperm := ipcInsert_perm priority s.flag t (s.waits.queue .send)
      refine ⟨does_waits _ rfl, hI.waits _, hw.suspend hfree rfl hperm, R,
        hR.suspend_of_none hnone hperm, fun hne => hle fun hq => hne ?_⟩
      exact (Waits.suspend_queue (by decide)).trans hq
  -- room in the pool: the rest is `store`
  · rw [if_neg hfull]
    obtain ⟨hdoes, hI', hentry, hwaits⟩ := store_spec value hI hfull
    refine ⟨hdoes, hI', ?_, ServedBut.store ⟨R, hR, hle⟩ hw hentry hwaits⟩
    rw [hwaits]
    exact hw.resume _

/-- A round of a receive is one operation of the deque, or waits. -/
theorem recvLoop_spec (hI : s.Indexed) (hw : s.waits.Inv MbCall.home) (hs : s.ServedBut 1)
    (hcall : s.entry = 0 → (s.waits.thread t).call = none) :
    Section s (s.recvLoop priority t timeout) := by
  obtain ⟨R, hR, hle⟩ := hs
  unfold recvLoop
  by_cases hempty : s.entry = 0
  · have hnone := hcall hempty
    have hfree := hw.free hnone
    rw [if_pos hempty]
    split
    · exact ⟨does_waits _ rfl, hI.waits _, hw.setError hfree _,
        servedBut_empty (hR.setError hnone _) hempty⟩
    -- the receiver is put into its list, and there is no value it could miss
    · have hperm := ipcInsert_perm priority s.flag t (s.waits.queue .recv)
      exact ⟨does_waits _ rfl, hI.waits _, hw.suspend hfree rfl hperm,
        servedBut_empty (hR.suspend_of_none hnone hperm) hempty⟩
  · rw [if_neg hempty]
    obtain ⟨hdoes, hI', hentry, hwaits⟩ := take_spec hI hempty
    refine ⟨hdoes, hI', ?_, ServedBut.take ⟨R, hR, hle⟩ hw hentry hwaits⟩
    rw [hwaits]
    exact hw.resume _

/-- A call that was resumed goes on with a round, or fails. -/
theorem woken_spec {call : MbCall} {elapsed : Int} (h : s.Inv)
    (hcall : (s.waits.thread t).call = some call) (hfree : Queues.Free s.waits.queue t) :
    Section s (s.woken priority t call elapsed) := by
  obtain ⟨hI, hw, R, hR, hle⟩ := h
  have hleft : (s.waits.leave t).Inv MbCall.home := hw.leave hfree
  have hnone : ((s.waits.leave t).thread t).call = none := Waits.leave_call_self
  unfold woken
  dsimp only
  by_cases herror : (s.waits.thread t).error ≠ .eok
  · rw [if_pos herror]
    -- a thread that returns an error was not resumed for a value
    have hR' := hR.leave (t := t)
    rw [Finset.erase_eq_of_notMem fun ht => herror ((hR t).1 ht).2.1] at hR'
    exact ⟨does_waits _ rfl, hI.waits _, hleft, R, hR', hle⟩
  · rw [if_neg herror]
    cases call with
    | send value timeout =>
      have hR' := hR.leave (t := t)
      -- a sender is in no list of receivers, so it is not in `R`
      have hhome : MbCall.home (.send value timeout) ≠ .recv := by simp [MbCall.home]
      rw [Finset.erase_eq_of_notMem (hR.notMem_of_home hcall hhome)] at hR'
      obtain ⟨hdoes, hinv⟩ : Section { s with waits := s.waits.leave t }
          (sendLoop _ priority t value (timeoutLeft timeout elapsed)) :=
        sendLoop_spec ⟨hI.waits _, hleft, R, hR', hle⟩ fun _ => hnone
      exact ⟨⟨hdoes.size, hdoes.ops, hdoes.failed⟩, hinv⟩
    | recv timeout =>
      -- the receiver leaves `R` and looks again: for now a value may be without one
      have hserved : ServedBut 1 { s with waits := s.waits.leave t } := by
        refine ⟨R.erase t, hR.leave, fun hne => ?_⟩
        have hle' := hle hne
        have hcard := Finset.pred_card_le_card_erase (s := R) (a := t)
        dsimp only
        omega
      obtain ⟨hdoes, hinv⟩ : Section { s with waits := s.waits.leave t }
          (recvLoop _ priority t (timeoutLeft timeout elapsed)) :=
        recvLoop_spec (hI.waits _) hleft hserved fun _ => hnone
      exact ⟨⟨hdoes.size, hdoes.ops, hdoes.failed⟩, hinv⟩

/-- **Every section** does to the values what its outcome tells, and keeps the invariant. -/
theorem Inv.step {a : MbAct} {r : MbOutcome × Mailbox} (h : s.Inv) (hs : s.step a = some r) :
    Section s r := by
  cases a with
  | sendWait priority t value timeout =>
    obtain ⟨hcall, rfl⟩ := Runs.takeIf_eq_some.1 hs
    unfold rtMbSendWait
    split
    · exact ⟨does_waits s.waits rfl, h⟩
    case isFalse hwait =>
      -- the test in front of the loop lets a call pass that waits or finds room
      exact sendLoop_spec h fun hfull => hcall.resolve_right fun h0 => hwait ⟨hfull, h0⟩
  | urgent value =>
    cases hs
    by_cases hfull : s.entry = s.size
    · unfold rtMbUrgent
      rw [if_pos hfull]
      exact ⟨does_waits s.waits rfl, h⟩
    · obtain ⟨hdoes, hI', hentry, hwaits⟩ := urgent_spec value h.indexed hfull
      refine ⟨hdoes, hI', ?_, h.served.store h.waits hentry hwaits⟩
      rw [hwaits]
      exact h.waits.resume _
  | recv priority t timeout =>
    obtain ⟨hcall, rfl⟩ := Runs.takeIf_eq_some.1 hs
    unfold rtMbRecv
    split
    · exact ⟨does_waits s.waits rfl, h⟩
    case isFalse hwait =>
      obtain ⟨R, hR, hle⟩ := h.served
      exact recvLoop_spec h.indexed h.waits ⟨R, hR, fun hne => (hle hne).trans (Nat.le_succ _)⟩
        fun hempty => hcall.resolve_right fun h0 => hwait ⟨hempty, h0⟩
  | woken priority t elapsed =>
    obtain ⟨call, hcall, hs⟩ := Option.bind_eq_some_iff.1 hs
    obtain ⟨hfree, rfl⟩ := Runs.takeIf_eq_some.1 hs
    exact woken_spec h hcall hfree
  | timeout t =>
    obtain ⟨⟨hsus, -⟩, rfl⟩ := Runs.takeIf_eq_some.1 hs
    -- a thread that times out was in a list, so nobody had resumed it for a value
    obtain ⟨q, hq⟩ := not_forall_not.1 hsus
    obtain ⟨R, hR, hle⟩ := h.served
    refine ⟨does_waits _ rfl, h.indexed.waits _, h.waits.timeout t, R, hR.timeout h.waits hq,
      fun hne => hle fun hnil => hne ?_⟩
    show (s.waits.queue .recv).erase t = []
    rw [hnil]
    rfl
  | reset =>
    cases hs
    obtain ⟨R, hR, -⟩ := h.served
    refine ⟨⟨rfl, rfl, fun e he => by cases he⟩,
      ⟨h.indexed.size_lt, Nat.zero_le _, fun hpos => hpos, ?_⟩,
      (h.waits.resumeAll _).resumeAll _, servedBut_empty hR.resumeAll.resumeAll rfl⟩
    exact (Nat.zero_mod _).symm

end Sections

/-- The mailbox is empty at the start. -/
theorem inv_rtMbInit (msgPool : Nat → UInt32) (size : Nat) (flag : IpcFlag) :
    (rtMbInit msgPool size flag).Inv where
  indexed := ⟨u16_lt size, Nat.zero_le _, fun hpos => hpos, (Nat.zero_mod _).symm⟩
  waits := Waits.inv_idle
  served := servedBut_empty Waits.wokenAre_idle rfl

/-- **A mailbox is a bounded double-ended queue.** In every run of sends, urgent sends, receives,
time-outs and resets, what the calls have reported is a history of a queue of at most `size`
values that ends with the values in the mailbox: since the last reset nothing is lost and
nothing duplicated. The indices are as far apart as there are values, an error changes nothing,
and while a receiver is suspended there are at most as many values as receivers that have been
resumed and have not run yet. -/
theorem mailbox_refines_deque {msgPool : Nat → UInt32} {size : Nat} {flag : IpcFlag}
    {s : Mailbox} {ops : List (DequeOp UInt32)}
    (hrun : Runs (Runs.Exec (Runs.traced exec)) Runs.always (rtMbInit msgPool size flag, [])
      (s, ops)) :
    ops.foldlM (Deque.apply (u16 size)) [] = some s.contents ∧
    (Deque.pushed (Deque.sinceClear ops)).Perm
      (Deque.popped (Deque.sinceClear ops) ++ s.contents) ∧
    s.entry = s.contents.length ∧ s.entry ≤ u16 size ∧
    (s.inOffset - s.outOffset : Int) ≡ s.entry [ZMOD u16 size] ∧
    (∀ a e s', s.step a = some (.failed e, s') → s'.contents = s.contents ∧
      s'.entry = s.entry ∧ s'.inOffset = s.inOffset ∧ s'.outOffset = s.outOffset) ∧
    (∃ R : Finset ThreadId, s.waits.WokenAre MbCall.home .recv R ∧
      (s.waits.queue .recv ≠ [] → s.entry ≤ R.card)) := by
  have hinit := inv_rtMbInit msgPool size flag
  obtain ⟨⟨hinv, hsize⟩, hops⟩ := @Runs.refines _ _ _ _ _ _ contents
    (Deque.apply (u16 size)) (fun s => s.Inv ∧ s.size = u16 size) _ _
    (fun s tr a s' es hs _ hexec => by
      obtain ⟨⟨o, s₁⟩, hstep, heq⟩ := Option.map_eq_some_iff.1 hexec
      cases heq
      have hsec := hs.1.step hstep
      have hops := hsec.does.ops
      rw [hs.2] at hops
      exact ⟨⟨hsec.inv, hsec.does.size.trans hs.2⟩, hops⟩) hrun ⟨hinit, rfl⟩
  have hlen := length_contents s
  refine ⟨hops, Deque.perm_of_history hops, hlen.symm, hsize ▸ hinv.indexed.entry_le, ?_, ?_,
    hinv.served⟩
  -- the indices
  · rw [← hsize, hinv.indexed.in_eq]
    have hmod : (((s.outOffset + s.entry) % s.size : Nat) : Int) ≡
        (s.outOffset + s.entry : Nat) [ZMOD s.size] := by
      rw [Int.natCast_mod]
      exact Int.mod_modEq _ _
    have hsub := hmod.sub_right (s.outOffset : Int)
    rwa [Nat.cast_add, add_sub_cancel_left] at hsub
  -- a call that fails
  · intro a e s' hs
    have hdoes := (hinv.step hs).does
    obtain ⟨hpool, hentry, hin, hout⟩ := hdoes.failed e rfl
    refine ⟨?_, hentry, hin, hout⟩
    unfold contents
    rw [hpool, hentry, hout, show s'.size = s.size from hdoes.size]

/-- The thread 2 takes the value for which the thread 1 has been resumed. -/
def stolenValue : List MbAct :=
  [.recv (fun _ => 5) 1 (-1), .sendWait (fun _ => 5) 0 7 0, .recv (fun _ => 5) 2 0,
    .woken (fun _ => 5) 1 3, .urgent 9]

/-- The thread 1 has suspended itself again, and is resumed for the urgent value. -/
theorem mailbox_refines_deque_stolen :
    ∃ s, Runs (Runs.Exec (Runs.traced exec)) Runs.always (rtMbInit (fun _ => 0) 4 .fifo, [])
        (s, [.pushBack 7, .popFront 7, .pushFront 9]) ∧
      s.contents = [9] ∧ s.entry = 1 := by
  obtain ⟨⟨s, ops⟩, -, hrun, hend⟩ := @Runs.exec_of_replay _ _ Runs.always
    (rtMbInit (fun _ => 0) 4 .fifo, []) (Runs.traced exec) _ stolenValue
    (fun q => decide (q.2 = [.pushBack 7, .popFront 7, .pushFront 9])) (by decide +kernel)
  cases of_decide_eq_true hend
  obtain ⟨hops, -, hentry, -⟩ := mailbox_refines_deque hrun
  have hcontents : s.contents = [9] := (Option.some.inj hops).symm
  rw [hcontents] at hentry
  exact ⟨s, hrun, hcontents, hentry⟩

end Mailbox

end RTThread
