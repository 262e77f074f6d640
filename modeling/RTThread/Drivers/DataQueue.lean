import RTThread.Kernel.Waits
import RTThread.Lib.Deque
import RTThread.Lib.Ring

/-!
# Data queues (`dataqueue.c`)

A ring of items, each a pointer and a size. The two indices have 15 bits each and are equal when
the queue is empty and when it is full, so there is a flag for either. Pushes and pops test their
flag with interrupts disabled. `rt_data_queue_peek` and `rt_data_queue_len` test `is_empty` first
and disable interrupts behind the test, and so do the loops of `rt_data_queue_reset` with the
lists they empty: what runs in between can make the test wrong.

The steps are the sections with interrupts disabled, and the tests outside of them. The scheduler
being locked in a reset only takes interleavings away. The callback `evt_notify` is left out.

## Main results

* `Inv.step` — a step keeps the indices, and its outcome tells what it does to the items.
* `dataQueue_refines_fifo` — in every run in which no test has become wrong the queue is a
  bounded first-in first-out queue, with the exact length.
* `dataQueue_stale_test` — a run in which a peek returns an item that was never there, and the
  length of an empty queue is its size.
-/

namespace RTThread

/-- `struct rt_data_item` -/
structure DataItem where
  dataPtr : Nat
  dataSize : Nat
deriving DecidableEq

/-- The lists of a data queue: `suspended_push_list` and `suspended_pop_list`. -/
inductive DqList
  | push
  | pop
deriving DecidableEq

instance : Fintype DqList := ⟨{.push, .pop}, fun q => by cases q <;> decide⟩

/-- Where a call is. -/
inductive DqCall
  | push (item : DataItem) (timeout : Int)
  | pop (timeout : Int)
  /-- `rt_data_queue_peek` has found items. -/
  | peek
  /-- `rt_data_queue_len` has found items. -/
  | len
  /-- `rt_data_queue_reset` resumes the threads of a list; `found` is set when it has just found
  one there. -/
  | reset (list : DqList) (found : Bool)
deriving DecidableEq

/-- `struct rt_data_queue`. `badThread` is set when the reset resumes a thread from an empty
list: the thread is the head of the list. -/
structure DataQueue where
  queue : Nat → DataItem
  size : Nat
  lwm : Nat
  getIndex : Nat
  isEmpty : Bool
  putIndex : Nat
  isFull : Bool
  waits : Waits DqList DqCall
  badThread : Bool

/-- How a step of a call ends. -/
inductive DqOutcome
  | pushed (item : DataItem)
  | popped (item : DataItem)
  | peeked (item : DataItem)
  | length (len : Nat)
  | reset
  /-- The call returns this error. -/
  | failed (e : RtErr)
  /-- The peek returns `-RT_EEMPTY`. -/
  | noItem
  /-- The call goes on, or waits. -/
  | goesOn
deriving DecidableEq

namespace DataQueue

/-- What a bit field of 15 bits keeps of a value. -/
def u15 (n : Nat) : Nat := n % 2 ^ 15

/-- `rt_data_queue_init`, with the memory it gets for the items. -/
def rtDataQueueInit (queue : Nat → DataItem) (size lwm : Nat) : DataQueue where
  queue := queue
  size := size
  lwm := lwm
  getIndex := 0
  isEmpty := true
  putIndex := 0
  isFull := false
  waits := .idle
  badThread := false

/-- The call of a thread changes. -/
def setCall (s : DataQueue) (t : ThreadId) (call : Option DqCall) : DataQueue :=
  { s with waits := s.waits.setThread t { s.waits.thread t with call := call } }

-- Pushing

/-- `rt_data_queue_push` behind its loop. -/
def store (s : DataQueue) (item : DataItem) : DqOutcome × DataQueue :=
  let putIndex := u15 (s.putIndex + 1)
  let putIndex := if putIndex = s.size then 0 else putIndex
  (.pushed item, { s with
    queue := Function.update s.queue s.putIndex item
    putIndex := putIndex
    isEmpty := false
    isFull := if putIndex = s.getIndex then true else s.isFull
    -- there is at least one thread in suspended list
    waits := s.waits.resume .pop })

/-- `rt_data_queue_push` of the thread `t` from the test of its loop on. -/
def rtDataQueuePush (s : DataQueue) (t : ThreadId) (item : DataItem) (timeout : Int) :
    DqOutcome × DataQueue :=
  if s.isFull then
    -- queue is full
    if timeout = 0 then (.failed .etimeout, s)
    else
      -- suspend thread on the push list
      (.goesOn, { s with
        waits := s.waits.suspend .push (s.waits.queue .push ++ [t]) t (.push item timeout)
          timeout })
  else s.store item

-- The length

/-- What `rt_data_queue_len` computes in its section, through a signed variable of 16 bits. -/
def computeLen (s : DataQueue) : Nat :=
  let len : Int :=
    if s.getIndex < s.putIndex then (s.putIndex : Int) - s.getIndex
    else (s.size : Int) + s.putIndex - s.getIndex
  (len.bmod (2 ^ 16) % 2 ^ 16).toNat

/-- `rt_data_queue_len` with interrupts disabled around it. -/
def rtDataQueueLen (s : DataQueue) : Nat := if s.isEmpty then 0 else s.computeLen

-- Popping

/-- `rt_data_queue_pop` behind its loop. -/
def take (s : DataQueue) : DqOutcome × DataQueue :=
  let item := s.queue s.getIndex
  let getIndex := u15 (s.getIndex + 1)
  let getIndex := if getIndex = s.size then 0 else getIndex
  let s := { s with
    getIndex := getIndex
    isFull := false
    isEmpty := if s.putIndex = getIndex then true else s.isEmpty }
  (.popped item,
    if s.rtDataQueueLen ≤ s.lwm then { s with waits := s.waits.resume .push } else s)

/-- `rt_data_queue_pop` of the thread `t` from the test of its loop on. -/
def rtDataQueuePop (s : DataQueue) (t : ThreadId) (timeout : Int) : DqOutcome × DataQueue :=
  if s.isEmpty then
    -- queue is empty
    if timeout = 0 then (.failed .etimeout, s)
    else
      -- suspend thread on the pop list
      (.goesOn, { s with
        waits := s.waits.suspend .pop (s.waits.queue .pop ++ [t]) t (.pop timeout) timeout })
  else s.take

/-- A push or a pop behind its `rt_schedule`. The time-out is not computed again. -/
def woken (s : DataQueue) (t : ThreadId) (call : DqCall) : DqOutcome × DataQueue :=
  let result := (s.waits.thread t).error
  let s := { s with waits := s.waits.leave t }
  if result ≠ .eok then (.failed result, s)
  else
    match call with
    | .push item timeout => s.rtDataQueuePush t item timeout
    | .pop timeout => s.rtDataQueuePop t timeout
    | _ => (.goesOn, s)

-- Peeking and measuring

/-- The test of `rt_data_queue_peek`. -/
def rtDataQueuePeek (s : DataQueue) (t : ThreadId) : DqOutcome × DataQueue :=
  if s.isEmpty then (.noItem, s) else (.goesOn, s.setCall t (some .peek))

/-- The section of `rt_data_queue_peek`. -/
def peekSection (s : DataQueue) (t : ThreadId) : DqOutcome × DataQueue :=
  (.peeked (s.queue s.getIndex), s.setCall t none)

/-- `rt_data_queue_peek` with interrupts disabled around it. -/
def peekItem (s : DataQueue) : Option DataItem :=
  if s.isEmpty then none else some (s.queue s.getIndex)

/-- The test of `rt_data_queue_len`. -/
def lenTest (s : DataQueue) (t : ThreadId) : DqOutcome × DataQueue :=
  if s.isEmpty then (.length 0, s) else (.goesOn, s.setCall t (some .len))

/-- The section of `rt_data_queue_len`. -/
def lenSection (s : DataQueue) (t : ThreadId) : DqOutcome × DataQueue :=
  (.length s.computeLen, s.setCall t none)

-- Resetting

/-- The section of `rt_data_queue_reset`. -/
def rtDataQueueReset (s : DataQueue) (t : ThreadId) : DqOutcome × DataQueue :=
  (.reset, { s with
    getIndex := 0
    putIndex := 0
    isEmpty := true
    isFull := false }.setCall t (some (.reset .pop false)))

/-- A test of the loops of `rt_data_queue_reset`: first the pop list, then the push list. -/
def resetTest (s : DataQueue) (t : ThreadId) (list : DqList) : DqOutcome × DataQueue :=
  if s.waits.queue list ≠ [] then (.goesOn, s.setCall t (some (.reset list true)))
  else
    match list with
    | .pop => (.goesOn, s.setCall t (some (.reset .push false)))
    | .push => (.goesOn, s.setCall t none)

/-- The first thread of the list is resumed with an error. -/
def resumeError (w : Waits DqList DqCall) (list : DqList) : Waits DqList DqCall :=
  match w.queue list with
  | [] => w
  | u :: _ => (w.setError u .error).resume list

/-- A section of the loops of `rt_data_queue_reset`. -/
def resetSection (s : DataQueue) (t : ThreadId) (list : DqList) : DqOutcome × DataQueue :=
  (.goesOn, { s with
    waits := resumeError s.waits list
    badThread := s.badThread || (s.waits.queue list).isEmpty }.setCall t
      (some (.reset list false)))

end DataQueue

/-- What happens to a data queue. -/
inductive DqAct
  | push (t : ThreadId) (item : DataItem) (timeout : Int)
  | pop (t : ThreadId) (timeout : Int)
  /-- `rt_schedule` returns to a push or a pop. -/
  | woken (t : ThreadId)
  | peek (t : ThreadId)
  | peekSection (t : ThreadId)
  | len (t : ThreadId)
  | lenSection (t : ThreadId)
  | reset (t : ThreadId)
  | resetTest (t : ThreadId)
  | resetSection (t : ThreadId)
  | timeout (t : ThreadId)

namespace DataQueue

/-- The outcome of an action, and the state it leads to. -/
def step (s : DataQueue) : DqAct → Option (DqOutcome × DataQueue)
  | .push t item timeout =>
    Runs.takeIf ((s.waits.thread t).call = none) (s.rtDataQueuePush t item timeout)
  | .pop t timeout => Runs.takeIf ((s.waits.thread t).call = none) (s.rtDataQueuePop t timeout)
  | .woken t =>
    match (s.waits.thread t).call with
    | some (.push item timeout) =>
      Runs.takeIf (Queues.Free s.waits.queue t) (s.woken t (.push item timeout))
    | some (.pop timeout) => Runs.takeIf (Queues.Free s.waits.queue t) (s.woken t (.pop timeout))
    | _ => none
  | .peek t => Runs.takeIf ((s.waits.thread t).call = none) (s.rtDataQueuePeek t)
  | .peekSection t => Runs.takeIf ((s.waits.thread t).call = some .peek) (s.peekSection t)
  | .len t => Runs.takeIf ((s.waits.thread t).call = none) (s.lenTest t)
  | .lenSection t => Runs.takeIf ((s.waits.thread t).call = some .len) (s.lenSection t)
  | .reset t => Runs.takeIf ((s.waits.thread t).call = none) (s.rtDataQueueReset t)
  | .resetTest t =>
    match (s.waits.thread t).call with
    | some (.reset list false) => some (s.resetTest t list)
    | _ => none
  | .resetSection t =>
    match (s.waits.thread t).call with
    | some (.reset list true) => some (s.resetSection t list)
    | _ => none
  | .timeout t =>
    Runs.takeIf (¬ Queues.Free s.waits.queue t ∧ (s.waits.thread t).timer = true)
      (.goesOn, { s with waits := s.waits.timeout t })

end DataQueue

/-- What an outcome tells of the items. -/
def DqOutcome.ops : DqOutcome → List (DequeOp DataItem)
  | .pushed item => [.pushBack item]
  | .popped item => [.popFront item]
  | .reset => [.clear]
  | .peeked _ | .length _ | .failed _ | .noItem | .goesOn => []

namespace DataQueue

/-- The step of an action, with what its outcome tells. -/
def exec (s : DataQueue) (a : DqAct) : Option (DataQueue × List (DequeOp DataItem)) :=
  (s.step a).map fun r => (r.2, r.1.ops)

/-- **The tests have not become wrong**: the queue is not empty when the section of a peek or of
a length is executed, and the list is not empty when a reset resumes a thread. -/
def Tested (s : DataQueue) : DqAct → Prop
  | .peekSection _ | .lenSection _ => s.isEmpty = false
  | .resetSection t =>
    match (s.waits.thread t).call with
    | some (.reset list _) => s.waits.queue list ≠ []
    | _ => True
  | _ => True

instance (s : DataQueue) (a : DqAct) : Decidable (s.Tested a) := by
  unfold Tested
  split
  · infer_instance
  · infer_instance
  · split <;> infer_instance
  · infer_instance

-- --------
-- The indices
-- --------

/-- How many items there are. -/
def count (s : DataQueue) : Nat :=
  if s.isFull then s.size else (s.size + s.putIndex - s.getIndex) % s.size

/-- The items, the next one to be popped first. -/
def contents (s : DataQueue) : List DataItem := Ring.read s.queue s.size s.getIndex s.count

theorem length_contents (s : DataQueue) : s.contents.length = s.count := Ring.length_read

/-- The indices and the flags of a queue with `d` items. -/
structure Valid (s : DataQueue) (d : Nat) : Prop where
  pos : 0 < s.size
  lt : s.size < 2 ^ 15
  get_lt : s.getIndex < s.size
  le : d ≤ s.size
  put_eq : s.putIndex = (s.getIndex + d) % s.size
  empty_eq : s.isEmpty = decide (d = 0)
  full_eq : s.isFull = decide (d = s.size)

section Valid

variable {s : DataQueue} {d : Nat} {item : DataItem}

theorem Valid.put_lt (h : Valid s d) : s.putIndex < s.size := by
  rw [h.put_eq]
  exact Nat.mod_lt _ h.pos

/-- The put index is in front of the end, or has come around it. -/
theorem Valid.cases (h : Valid s d) :
    (s.getIndex + d < s.size ∧ s.putIndex = s.getIndex + d) ∨
      (s.size ≤ s.getIndex + d ∧ s.putIndex + s.size = s.getIndex + d) := by
  have hget := h.get_lt
  have hle := h.le
  have hput := h.put_eq
  by_cases hend : s.getIndex + d < s.size
  · rw [Nat.mod_eq_of_lt hend] at hput
    exact Or.inl ⟨hend, hput⟩
  · rw [Nat.mod_eq_sub_mod (by omega), Nat.mod_eq_of_lt (by omega)] at hput
    exact Or.inr ⟨by omega, by omega⟩

/-- **The number of items.** -/
theorem Valid.count_eq (h : Valid s d) : s.count = d := by
  have hget := h.get_lt
  have hle := h.le
  unfold count
  by_cases hfull : d = s.size
  · rw [h.full_eq, decide_eq_true hfull, if_pos rfl, hfull]
  · rw [h.full_eq, decide_eq_false hfull, if_neg Bool.false_ne_true]
    rcases h.cases with ⟨hend, hput⟩ | ⟨hend, hput⟩
    · rw [hput, show s.size + (s.getIndex + d) - s.getIndex = d + s.size by omega,
        Nat.add_mod_right, Nat.mod_eq_of_lt (by omega)]
    · rw [show s.size + s.putIndex - s.getIndex = d by omega, Nat.mod_eq_of_lt (by omega)]

/-- **The length is exact** where there are items. -/
theorem Valid.computeLen (h : Valid s d) (hd : d ≠ 0) : s.computeLen = d := by
  have hget := h.get_lt
  have hle := h.le
  have hlt := h.lt
  have hlen : (if s.getIndex < s.putIndex then (s.putIndex : Int) - s.getIndex
      else (s.size : Int) + s.putIndex - s.getIndex) = d := by
    rcases h.cases with ⟨hend, hput⟩ | ⟨hend, hput⟩
    · rw [if_pos (by omega)]
      omega
    · rw [if_neg (by omega)]
      omega
  unfold DataQueue.computeLen
  dsimp only
  rw [hlen, Int.bmod_eq_of_le (by omega) (by omega)]
  omega

theorem Valid.computeLen_empty (h : Valid s 0) : s.computeLen = s.size := by
  have hget := h.get_lt
  have hlt := h.lt
  have hput : s.putIndex = s.getIndex := by
    rw [h.put_eq, Nat.add_zero, Nat.mod_eq_of_lt hget]
  unfold DataQueue.computeLen
  dsimp only
  rw [hput, if_neg (Nat.lt_irrefl _), Int.add_sub_cancel, Int.bmod_eq_of_le (by omega) (by omega)]
  omega

theorem succ_index {i : Nat} (hi : i < s.size) (hlt : s.size < 2 ^ 15) :
    (if u15 (i + 1) = s.size then 0 else u15 (i + 1)) = (i + 1) % s.size := by
  have hu : u15 (i + 1) = i + 1 := Nat.mod_eq_of_lt (by omega)
  rw [hu]
  by_cases hend : i + 1 = s.size
  · rw [if_pos hend, hend, Nat.mod_self]
  · rw [if_neg hend, Nat.mod_eq_of_lt (by omega)]

/-- **A push.** -/
theorem Valid.store (item : DataItem) (h : Valid s d) (hroom : s.isFull = false) :
    Valid (s.store item).2 (d + 1) ∧ (s.store item).2.contents = s.contents ++ [item] := by
  have hget := h.get_lt
  have hd : d ≠ s.size := by
    rw [h.full_eq] at hroom
    exact of_decide_eq_false hroom
  have hle := h.le
  have hput : (if u15 (s.putIndex + 1) = s.size then 0 else u15 (s.putIndex + 1)) =
      (s.getIndex + (d + 1)) % s.size := by
    rw [succ_index h.put_lt h.lt, h.put_eq, Nat.mod_add_mod, Nat.add_assoc]
  have hfull : (s.store item).2.isFull = decide (d + 1 = s.size) := by
    show (if (if u15 (s.putIndex + 1) = s.size then 0 else u15 (s.putIndex + 1)) = s.getIndex then
      true else s.isFull) = _
    rw [hput, hroom]
    -- the indices meet again just when the queue has become full
    by_cases hend : d + 1 = s.size
    · rw [hend, Nat.add_mod_right, Nat.mod_eq_of_lt hget, if_pos rfl, decide_eq_true rfl]
    · have hne := Ring.mod_ne s.getIndex (Nat.succ_pos d) (show d + 1 < s.size by omega)
      rw [Nat.add_zero, Nat.mod_eq_of_lt hget] at hne
      rw [if_neg hne.symm, decide_eq_false hend]
  have hle' : d + 1 ≤ s.size := by omega
  have hvalid : Valid (s.store item).2 (d + 1) :=
    ⟨h.pos, h.lt, hget, hle', hput, rfl, hfull⟩
  refine ⟨hvalid, ?_⟩
  unfold contents
  rw [hvalid.count_eq, h.count_eq]
  exact Ring.read_push_back (show d < s.size by omega) h.put_eq

/-- **A pop.** -/
theorem Valid.take (h : Valid s d) (hdata : s.isEmpty = false) :
    ∃ item, s.take.1 = .popped item ∧ s.contents = item :: s.take.2.contents ∧
      Valid s.take.2 (d - 1) := by
  have hget := h.get_lt
  have hd : d ≠ 0 := by
    rw [h.empty_eq] at hdata
    exact of_decide_eq_false hdata
  have hle := h.le
  have hput := h.put_eq
  set s' := s.take.2 with hs'
  have hgetEq : (if u15 (s.getIndex + 1) = s.size then 0 else u15 (s.getIndex + 1)) =
      (s.getIndex + 1) % s.size := succ_index hget h.lt
  -- the fields, whoever is resumed
  obtain ⟨hqueue, hsize, hget', hput', hfull', hempty'⟩ : s'.queue = s.queue ∧ s'.size = s.size ∧
      s'.getIndex = (s.getIndex + 1) % s.size ∧ s'.putIndex = s.putIndex ∧ s'.isFull = false ∧
      s'.isEmpty = if s.putIndex = (s.getIndex + 1) % s.size then true else s.isEmpty := by
    rw [hs', DataQueue.take]
    dsimp only
    rw [hgetEq]
    generalize (if s.putIndex = (s.getIndex + 1) % s.size then true else s.isEmpty) = empty
    split
    · exact ⟨rfl, rfl, rfl, rfl, rfl, rfl⟩
    · exact ⟨rfl, rfl, rfl, rfl, rfl, rfl⟩
  have hvalid : Valid s' (d - 1) := by
    refine ⟨hsize ▸ h.pos, hsize ▸ h.lt, ?_, ?_, ?_, ?_, ?_⟩
    · rw [hget', hsize]
      exact Nat.mod_lt _ h.pos
    · rw [hsize]
      omega
    · rw [hput', hget', hsize, Nat.mod_add_mod, hput]
      congr 1
      omega
    · rw [hempty', hdata, hput]
      -- the indices meet again just when the last item was popped
      by_cases hlast : d = 1
      · rw [hlast, if_pos rfl]
        rfl
      · have hne := Ring.mod_ne s.getIndex (show 0 < d - 1 by omega)
          (show d - 1 < s.size by omega)
        have hne' : (s.getIndex + d) % s.size ≠ (s.getIndex + 1) % s.size := by
          -- a full queue: the indices were equal, and now are one apart
          by_cases hend : d = s.size
          · rw [hend, Nat.add_mod_right, Nat.mod_eq_of_lt hget]
            have h1 := Ring.mod_ne s.getIndex Nat.zero_lt_one
              (show 1 < s.size by omega)
            rwa [Nat.add_zero, Nat.mod_eq_of_lt hget] at h1
          · exact (Ring.mod_ne _ (by omega) (by omega)).symm
        rw [if_neg hne', decide_eq_false (by omega)]
    · rw [hfull', hsize, decide_eq_false (by omega)]
  refine ⟨s.queue s.getIndex, rfl, ?_, hvalid⟩
  unfold contents
  rw [hvalid.count_eq, h.count_eq, hqueue, hsize, hget', Ring.read_mod]
  obtain ⟨n, rfl⟩ := Nat.exists_eq_succ_of_ne_zero hd
  rw [Ring.read_succ, Nat.mod_eq_of_lt hget, Nat.succ_sub_one]

end Valid

-- --------
-- The steps
-- --------

/-- The indices are right, and no thread was resumed from an empty list. -/
def Inv (s : DataQueue) : Prop := (∃ d, Valid s d) ∧ s.badThread = false

/-- What a step does to the items is what its outcome tells. -/
structure Does (s : DataQueue) (r : DqOutcome × DataQueue) : Prop where
  inv : r.2.Inv
  size : r.2.size = s.size
  ops : r.1.ops.foldlM (Deque.apply s.size) s.contents = some r.2.contents
  /-- A peek returns the first item. -/
  peeked : ∀ item, r.1 = .peeked item → s.contents.head? = some item
  /-- A length is the number of the items. -/
  length : ∀ n, r.1 = .length n → n = s.contents.length
  /-- An error changes neither the items nor the indices. -/
  failed : ∀ e, r.1 = .failed e ∨ r.1 = .noItem → r.2.queue = s.queue ∧
    r.2.getIndex = s.getIndex ∧ r.2.putIndex = s.putIndex ∧ r.2.isEmpty = s.isEmpty ∧
    r.2.isFull = s.isFull

section Steps

variable {s : DataQueue} {d : Nat} {t : ThreadId} {item : DataItem} {timeout : Int}
  {r : DqOutcome × DataQueue} {o : DqOutcome}

theorem Valid.waits (h : Valid s d) (w : Waits DqList DqCall) : Valid { s with waits := w } d :=
  ⟨h.pos, h.lt, h.get_lt, h.le, h.put_eq, h.empty_eq, h.full_eq⟩

theorem Inv.waits (h : s.Inv) (w : Waits DqList DqCall) (hops : o.ops = [])
    (hpeeked : ∀ item, o = .peeked item → s.contents.head? = some item)
    (hlength : ∀ n, o = .length n → n = s.contents.length) :
    Does s (o, { s with waits := w }) := by
  obtain ⟨⟨d, hd⟩, hbad⟩ := h
  refine ⟨⟨⟨d, hd.waits w⟩, hbad⟩, rfl, ?_, hpeeked, hlength, fun _ _ => ⟨rfl, rfl, rfl, rfl, rfl⟩⟩
  rw [hops]
  rfl

theorem Inv.goesOn (h : s.Inv) (w : Waits DqList DqCall) :
    Does s (.goesOn, { s with waits := w }) :=
  h.waits w rfl (fun _ h => by cases h) (fun _ h => by cases h)

theorem Inv.failed (h : s.Inv) (w : Waits DqList DqCall) (e : RtErr) :
    Does s (.failed e, { s with waits := w }) :=
  h.waits w rfl (fun _ h => by cases h) (fun _ h => by cases h)

theorem Inv.push (h : s.Inv) : Does s (s.rtDataQueuePush t item timeout) := by
  unfold rtDataQueuePush
  split
  case isTrue =>
    split
    · exact h.failed s.waits _
    · exact h.goesOn _
  case isFalse hfull =>
    obtain ⟨⟨d, hd⟩, hbad⟩ := h
    rw [Bool.not_eq_true] at hfull
    obtain ⟨hvalid, hcontents⟩ := hd.store item hfull
    refine ⟨⟨⟨_, hvalid⟩, hbad⟩, rfl, ?_, (fun _ h => by cases h), (fun _ h => by cases h),
      fun _ he => he.elim (fun h => by cases h) (fun h => by cases h)⟩
    -- the flag says that there is room
    have hroom : s.contents.length < s.size := by
      have hle := hvalid.le
      rw [length_contents, hd.count_eq]
      exact hle
    show [DequeOp.pushBack item].foldlM _ _ = _
    rw [List.foldlM_cons, Deque.apply_pushBack hroom, hcontents]
    rfl

theorem Inv.pop (h : s.Inv) : Does s (s.rtDataQueuePop t timeout) := by
  unfold rtDataQueuePop
  split
  case isTrue =>
    split
    · exact h.failed s.waits _
    · exact h.goesOn _
  case isFalse hempty =>
    obtain ⟨⟨d, hd⟩, hbad⟩ := h
    rw [Bool.not_eq_true] at hempty
    obtain ⟨item, hout, hcontents, hvalid⟩ := hd.take hempty
    -- whoever is resumed
    have hsame : s.take.2.size = s.size ∧ s.take.2.badThread = s.badThread := by
      unfold DataQueue.take
      dsimp only
      generalize (if u15 (s.getIndex + 1) = s.size then 0 else u15 (s.getIndex + 1)) = getIndex
      generalize (if s.putIndex = getIndex then true else s.isEmpty) = empty
      split <;> exact ⟨rfl, rfl⟩
    refine ⟨⟨⟨_, hvalid⟩, hsame.2.trans hbad⟩, hsame.1, ?_, fun _ h => ?_, fun _ h => ?_,
      fun e he => ?_⟩
    · rw [hout, hcontents]
      show [DequeOp.popFront item].foldlM _ _ = _
      rw [List.foldlM_cons, Deque.apply_popFront]
      rfl
    · rw [hout] at h
      cases h
    · rw [hout] at h
      cases h
    · rw [hout] at he
      rcases he with he | he <;> cases he

/-- A pop of a queue with items takes the first one. -/
theorem Inv.pop_cons (h : s.Inv) {rest : List DataItem} (hcontents : s.contents = item :: rest) :
    (s.rtDataQueuePop t timeout).1 = .popped item ∧
      (s.rtDataQueuePop t timeout).2.contents = rest := by
  obtain ⟨⟨d, hd⟩, -⟩ := h
  have hempty : s.isEmpty = false := by
    rw [hd.empty_eq, decide_eq_false]
    rintro rfl
    have hlen := s.length_contents
    rw [hd.count_eq, hcontents] at hlen
    cases hlen
  obtain ⟨first, hout, htake, -⟩ := hd.take hempty
  rw [rtDataQueuePop, hempty, if_neg Bool.false_ne_true]
  rw [hcontents, List.cons.injEq] at htake
  rw [htake.1]
  exact ⟨hout, htake.2.symm⟩

theorem Inv.peekItem_eq (h : s.Inv) : s.peekItem = s.contents.head? := by
  obtain ⟨⟨d, hd⟩, -⟩ := h
  rw [peekItem, hd.empty_eq, contents, hd.count_eq]
  cases d with
  | zero => rfl
  | succ d =>
    rw [Ring.read_succ, Nat.mod_eq_of_lt hd.get_lt]
    rfl

theorem push_outcome :
    (s.rtDataQueuePush t item timeout).1 = .pushed item ∨
      (s.rtDataQueuePush t item timeout).1.ops = [] := by
  unfold rtDataQueuePush
  split
  · split
    · exact .inr rfl
    · exact .inr rfl
  · exact .inl rfl

theorem woken_outcome :
    (s.woken t (.push item timeout)).1 = .pushed item ∨
      (s.woken t (.push item timeout)).1.ops = [] := by
  unfold woken
  dsimp only
  split
  · exact .inr rfl
  · exact push_outcome

theorem Does.of_waits {w : Waits DqList DqCall} (h : Does { s with waits := w } r) : Does s r :=
  ⟨h.inv, h.size, h.ops, h.peeked, h.length, h.failed⟩

/-- **Every step keeps the indices right**, as long as no test has become wrong. -/
theorem Inv.step {a : DqAct} (h : s.Inv) (hok : s.Tested a) (hs : s.step a = some r) :
    Does s r := by
  cases a with
  | push t item timeout =>
    obtain ⟨-, rfl⟩ := Runs.takeIf_eq_some.1 hs
    exact h.push
  | pop t timeout =>
    obtain ⟨-, rfl⟩ := Runs.takeIf_eq_some.1 hs
    exact h.pop
  | woken t =>
    have hleft : Inv { s with waits := s.waits.leave t } := (h.goesOn _).inv
    dsimp only [DataQueue.step] at hs
    split at hs
    case h_1 =>
      obtain ⟨-, rfl⟩ := Runs.takeIf_eq_some.1 hs
      unfold woken
      dsimp only
      split
      · exact h.failed _ _
      · exact hleft.push.of_waits
    case h_2 =>
      obtain ⟨-, rfl⟩ := Runs.takeIf_eq_some.1 hs
      unfold woken
      dsimp only
      split
      · exact h.failed _ _
      · exact hleft.pop.of_waits
    case h_3 => cases hs
  | peek t =>
    obtain ⟨-, rfl⟩ := Runs.takeIf_eq_some.1 hs
    unfold rtDataQueuePeek
    split
    · exact h.waits s.waits rfl (fun _ h => by cases h) (fun _ h => by cases h)
    · exact h.goesOn _
  | peekSection t =>
    obtain ⟨-, rfl⟩ := Runs.takeIf_eq_some.1 hs
    refine h.waits _ rfl (fun item hitem => ?_) fun _ h => by cases h
    cases hitem
    obtain ⟨⟨d, hd⟩, -⟩ := h
    -- the test of the call is still right, so there is a first item
    have hempty : s.isEmpty = false := hok
    rw [hd.empty_eq] at hempty
    obtain ⟨n, rfl⟩ := Nat.exists_eq_succ_of_ne_zero (of_decide_eq_false hempty)
    unfold contents
    rw [hd.count_eq, Ring.read_succ, Nat.mod_eq_of_lt hd.get_lt]
    rfl
  | len t =>
    obtain ⟨-, rfl⟩ := Runs.takeIf_eq_some.1 hs
    unfold lenTest
    split
    case isTrue hempty =>
      refine h.waits s.waits rfl (fun _ h => by cases h) fun n hn => ?_
      cases hn
      obtain ⟨⟨d, hd⟩, -⟩ := h
      rw [hd.empty_eq, decide_eq_true_eq] at hempty
      rw [length_contents, hd.count_eq, hempty]
    · exact h.goesOn _
  | lenSection t =>
    obtain ⟨-, rfl⟩ := Runs.takeIf_eq_some.1 hs
    refine h.waits _ rfl (fun _ h => by cases h) fun n hn => ?_
    cases hn
    obtain ⟨⟨d, hd⟩, -⟩ := h
    -- the test of the call is still right, so the length is exact
    have hempty : s.isEmpty = false := hok
    rw [hd.empty_eq] at hempty
    rw [hd.computeLen (of_decide_eq_false hempty), length_contents, hd.count_eq]
  | reset t =>
    obtain ⟨-, rfl⟩ := Runs.takeIf_eq_some.1 hs
    obtain ⟨⟨d, hd⟩, hbad⟩ := h
    have hpos := hd.pos
    have hvalid : Valid (s.rtDataQueueReset t).2 0 :=
      ⟨hpos, hd.lt, hpos, Nat.zero_le _, (Nat.zero_mod _).symm, rfl,
        (decide_eq_false (show 0 ≠ s.size by omega)).symm⟩
    refine ⟨⟨⟨0, hvalid⟩, hbad⟩, rfl, ?_, (fun _ h => by cases h), (fun _ h => by cases h),
      fun _ he => he.elim (fun h => by cases h) (fun h => by cases h)⟩
    show some [] = some (s.rtDataQueueReset t).2.contents
    unfold contents
    rw [hvalid.count_eq]
    rfl
  | resetTest t =>
    dsimp only [DataQueue.step] at hs
    split at hs
    case h_1 list _ =>
      cases hs
      unfold resetTest
      split
      · exact h.goesOn _
      · cases list with
        | push => exact h.goesOn _
        | pop => exact h.goesOn _
    case h_2 => cases hs
  | resetSection t =>
    dsimp only [DataQueue.step] at hs
    split at hs
    case h_1 list hcall =>
      cases hs
      obtain ⟨⟨d, hd⟩, hbad⟩ := h
      -- the list that was tested still has a thread
      have hfound : s.waits.queue list ≠ [] := by
        simpa only [Tested, hcall] using hok
      have hbad' : (s.resetSection t list).2.badThread = false := by
        show (s.badThread || (s.waits.queue list).isEmpty) = false
        rw [hbad, Bool.false_or, List.isEmpty_eq_false_iff]
        exact hfound
      exact ⟨⟨⟨d, hd.pos, hd.lt, hd.get_lt, hd.le, hd.put_eq, hd.empty_eq, hd.full_eq⟩, hbad'⟩,
        rfl, rfl, (fun _ h => by cases h), (fun _ h => by cases h),
        fun _ he => he.elim (fun h => by cases h) (fun h => by cases h)⟩
    case h_2 => cases hs
  | timeout t =>
    obtain ⟨-, rfl⟩ := Runs.takeIf_eq_some.1 hs
    exact h.goesOn _

/-- **A test that has become wrong** shows: the peek returns an item of an empty queue, the length
is wrong, or the head of a list is resumed. -/
theorem Inv.untested {a : DqAct} (h : s.Inv) (hok : ¬ s.Tested a) (hs : s.step a = some r) :
    (s.contents = [] ∧ ∃ item, r.1 = .peeked item) ∨
      (∃ n, r.1 = .length n ∧ n ≠ s.contents.length) ∨ r.2.badThread = true := by
  obtain ⟨⟨d, hd⟩, -⟩ := h
  -- an empty queue
  have hempty : ¬ s.isEmpty = false → d = 0 ∧ s.contents = [] := by
    intro hne
    rw [Bool.not_eq_false, hd.empty_eq, decide_eq_true_eq] at hne
    refine ⟨hne, List.length_eq_zero_iff.1 ?_⟩
    rw [length_contents, hd.count_eq, hne]
  cases a with
  | peekSection t =>
    obtain ⟨-, rfl⟩ := Runs.takeIf_eq_some.1 hs
    exact Or.inl ⟨(hempty hok).2, _, rfl⟩
  | lenSection t =>
    obtain ⟨-, rfl⟩ := Runs.takeIf_eq_some.1 hs
    obtain ⟨rfl, hnil⟩ := hempty hok
    refine Or.inr (Or.inl ⟨_, rfl, ?_⟩)
    rw [hd.computeLen_empty, hnil]
    exact hd.pos.ne'
  | resetSection t =>
    dsimp only [DataQueue.step] at hs
    split at hs
    case h_1 list hcall =>
      cases hs
      have hnil : s.waits.queue list = [] := by
        simpa only [Tested, hcall, ne_eq, not_not] using hok
      refine Or.inr (Or.inr ?_)
      show (s.badThread || (s.waits.queue list).isEmpty) = true
      rw [hnil, List.isEmpty_nil, Bool.or_true]
    case h_2 => cases hs
  | _ => exact absurd trivial hok

end Steps

/-- The queue is valid at the start. -/
theorem init_valid {queue : Nat → DataItem} {size lwm : Nat} (hpos : 0 < size)
    (hlt : size ≤ 32767) : Valid (rtDataQueueInit queue size lwm) 0 :=
  ⟨hpos, show size < 2 ^ 15 by omega, hpos, Nat.zero_le _, (Nat.zero_mod _).symm, rfl,
    (decide_eq_false (show 0 ≠ size by omega)).symm⟩

/-- The queue is empty at the start. -/
theorem init_contents {queue : Nat → DataItem} {size lwm : Nat} (hpos : 0 < size)
    (hlt : size ≤ 32767) : (rtDataQueueInit queue size lwm).contents = [] := by
  rw [contents, (init_valid hpos hlt).count_eq]
  rfl

/-- **Data queues.** In every run of pushes, pops, peeks, lengths, time-outs and resets in which
no test has become wrong, what has been pushed and popped is a history of a bounded first-in
first-out queue: since the last reset nothing is lost, duplicated or reordered. The flags say
whether it is empty and full, a length is exact, a peek returns the first item, and a call that
returns an error changes neither the items nor the indices. A step behind a test that has become
wrong breaks one of these, or resumes the head of a list. -/
theorem dataQueue_refines_fifo {queue : Nat → DataItem} {size lwm : Nat} {s : DataQueue}
    {ops : List (DequeOp DataItem)} (hpos : 0 < size) (hlt : size ≤ 32767)
    (hrun : Runs (Runs.Exec (Runs.traced exec)) (fun p a => p.1.Tested a)
      (rtDataQueueInit queue size lwm, []) (s, ops)) :
    ops.foldlM (Deque.apply size) [] = some s.contents ∧
    Deque.pushed (Deque.sinceClear ops) = Deque.popped (Deque.sinceClear ops) ++ s.contents ∧
    (s.isEmpty = true ↔ s.contents.length = 0) ∧ (s.isFull = true ↔ s.contents.length = size) ∧
    s.rtDataQueueLen = s.contents.length ∧ s.badThread = false ∧
    (∀ a r, s.Tested a → s.step a = some r →
      (∀ item, r.1 = .peeked item → s.contents.head? = some item) ∧
      (∀ n, r.1 = .length n → n = s.contents.length) ∧
      (∀ e, r.1 = .failed e ∨ r.1 = .noItem → r.2.contents = s.contents ∧
        r.2.getIndex = s.getIndex ∧ r.2.putIndex = s.putIndex)) ∧
    (∀ a r, ¬ s.Tested a → s.step a = some r →
      (s.contents = [] ∧ ∃ item, r.1 = .peeked item) ∨
        (∃ n, r.1 = .length n ∧ n ≠ s.contents.length) ∨ r.2.badThread = true) := by
  have hvalid := @init_valid queue size lwm hpos hlt
  obtain ⟨⟨hinv, hsize⟩, hops⟩ := @Runs.refines _ _ _ _ _ _ contents
    (Deque.apply size) (fun s => s.Inv ∧ s.size = size) _ _
    (fun s tr a s' es hs hok hexec => by
      obtain ⟨⟨o, s₁⟩, hstep, heq⟩ := Option.map_eq_some_iff.1 hexec
      cases heq
      have hdoes := hs.1.step hok hstep
      have hops := hdoes.ops
      rw [hs.2] at hops
      exact ⟨⟨hdoes.inv, hdoes.size.trans hs.2⟩, hops⟩) hrun ⟨⟨⟨0, hvalid⟩, rfl⟩, rfl⟩
  dsimp only at hinv hsize hops
  -- nothing is ever pushed to the front, so the order is first in, first out
  have hurgent : ∀ item, DequeOp.pushFront item ∉ ops := by
    refine (@Runs.invariant _ _ _ _ _ _
      (fun p : DataQueue × List (DequeOp DataItem) => ∀ item, DequeOp.pushFront item ∉ p.2) ?_
      hrun (fun _ h => by cases h))
    rintro ⟨s₁, tr⟩ a ⟨s₂, tr'⟩ hnot - hs item hmem
    obtain ⟨⟨s₃, es⟩, hexec, heq⟩ := Option.map_eq_some_iff.1 hs
    cases heq
    obtain ⟨⟨o, s₄⟩, -, heq⟩ := Option.map_eq_some_iff.1 hexec
    cases heq
    rcases List.mem_append.1 hmem with hmem | hmem
    · exact hnot item hmem
    · cases o <;> simp [DqOutcome.ops] at hmem
  obtain ⟨⟨d, hd⟩, hbad⟩ := hinv
  have hlen : s.contents.length = d := by rw [length_contents, hd.count_eq]
  rw [init_contents hpos hlt] at hops
  refine ⟨hops, Deque.fifo_of_history hurgent hops, ?_, ?_, ?_, hbad, ?_,
    fun a r hok hs => Inv.untested ⟨⟨d, hd⟩, hbad⟩ hok hs⟩
  · rw [hd.empty_eq, hlen, decide_eq_true_eq]
  · rw [hd.full_eq, hlen, hsize, decide_eq_true_eq]
  · rw [hlen]
    unfold rtDataQueueLen
    by_cases h0 : d = 0
    · rw [hd.empty_eq, decide_eq_true h0, if_pos rfl, h0]
    · rw [hd.empty_eq, decide_eq_false h0, if_neg Bool.false_ne_true, hd.computeLen h0]
  · intro a r hok hs
    have hdoes := Inv.step ⟨⟨d, hd⟩, hbad⟩ hok hs
    refine ⟨hdoes.peeked, hdoes.length, fun e he => ?_⟩
    obtain ⟨hqueue, hget, hput, hempty, hfull⟩ := hdoes.failed e he
    refine ⟨?_, hget, hput⟩
    unfold contents count
    rw [hqueue, hget, hput, hfull, hdoes.size]

/-- Two items are pushed, and one of them is popped and peeked at. -/
def twoItems : List DqAct :=
  [.push 1 ⟨100, 4⟩ 0, .push 1 ⟨200, 8⟩ 0, .pop 2 0, .peek 2, .peekSection 2, .len 2,
    .lenSection 2]

theorem dataQueue_refines_fifo_two :
    ∃ s, Runs (Runs.Exec (Runs.traced exec)) (fun p a => p.1.Tested a)
        (rtDataQueueInit (fun _ => ⟨0, 0⟩) 2 0, [])
        (s, [.pushBack ⟨100, 4⟩, .pushBack ⟨200, 8⟩, .popFront ⟨100, 4⟩]) ∧
      s.contents = [⟨200, 8⟩] ∧ s.rtDataQueueLen = 1 := by
  obtain ⟨⟨s, ops⟩, -, hrun, hend⟩ := @Runs.exec_of_replay _ _ (fun p a => p.1.Tested a)
    (rtDataQueueInit (fun _ => ⟨0, 0⟩) 2 0, []) (Runs.traced exec) _ twoItems
    (fun q => decide (q.2 =
      [.pushBack ⟨100, 4⟩, .pushBack ⟨200, 8⟩, .popFront ⟨100, 4⟩])) (by decide +kernel)
  cases of_decide_eq_true hend
  obtain ⟨hops, -, -, -, hlen, -⟩ := dataQueue_refines_fifo (by decide) (by decide) hrun
  have hcontents : s.contents = [⟨200, 8⟩] := (Option.some.inj hops).symm
  rw [hcontents] at hlen
  exact ⟨s, hrun, hcontents, hlen⟩

/-- The only item is popped behind the tests of a peek and of a length. -/
def staleTest : List DqAct :=
  [.push 1 ⟨100, 4⟩ 0, .peek 2, .len 3, .pop 1 0]

/-- **A test becomes wrong**: the peek returns what the memory held before the queue was made,
and the length of the empty queue is its size. -/
theorem dataQueue_stale_test :
    ∃ s ops, Runs (Runs.Exec (Runs.traced exec)) Runs.always
        (rtDataQueueInit (fun _ => ⟨0, 0⟩) 2 0, []) (s, ops) ∧ s.contents = [] ∧
      (∃ s', s.step (.peekSection 2) = some (.peeked ⟨0, 0⟩, s')) ∧
      (∃ s', s.step (.lenSection 3) = some (.length 2, s')) := by
  obtain ⟨⟨s, ops⟩, -, hrun, hend⟩ := @Runs.exec_of_replay _ _ Runs.always
    (rtDataQueueInit (fun _ => ⟨0, 0⟩) 2 0, []) (Runs.traced exec) _ staleTest
    (fun q => decide (q.1.contents = [] ∧
      (q.1.step (.peekSection 2)).map Prod.fst = some (.peeked ⟨0, 0⟩) ∧
      (q.1.step (.lenSection 3)).map Prod.fst = some (.length 2))) (by decide +kernel)
  obtain ⟨hcontents, hpeek, hlen⟩ := of_decide_eq_true hend
  obtain ⟨⟨o, s₁⟩, hpeek, rfl⟩ := Option.map_eq_some_iff.1 hpeek
  obtain ⟨⟨o', s₂⟩, hlen, rfl⟩ := Option.map_eq_some_iff.1 hlen
  exact ⟨s, ops, hrun, hcontents, ⟨s₁, hpeek⟩, ⟨s₂, hlen⟩⟩

end DataQueue

end RTThread
