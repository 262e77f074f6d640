import RTThread.Kernel.Ipc
import RTThread.Lib.Runs

/-!
# Condition variables (`pthread_cond.c`)

A condition variable is a semaphore that starts without a unit. A wait unlocks the mutex, takes the
semaphore and locks the mutex again; between the first two the thread runs on and can be
preempted. A signal releases the semaphore once. A broadcast takes and releases it until a take
has succeeded, with the scheduler locked; a time-out that comes in between only leaves the list of
waiting threads earlier or later.
-/

namespace RTThread

/-- `pthread_cond_t`: the value of its semaphore, and the threads suspended on it. -/
structure PthreadCond where
  value : Nat := 0
  queue : List ThreadId := []

namespace PthreadCond

variable (c : PthreadCond)

/-- `rt_sem_take` up to its return, or to the suspension of the thread. -/
def rtSemTake (t : ThreadId) (timeout : Int) : Option RtErr × PthreadCond :=
  if 0 < c.value then (some .eok, { c with value := c.value - 1 })
  else if timeout = 0 then (some .etimeout, c)
  else (none, { c with queue := c.queue ++ [t] })

/-- `rt_sem_release`, and the thread that it resumes. -/
def rtSemRelease : Option ThreadId × PthreadCond :=
  match c.queue with
  | t :: rest => (some t, { c with queue := rest })
  | [] => if c.value < rtSemValueMax then (none, { c with value := c.value + 1 }) else (none, c)

/-- `pthread_cond_signal` -/
def signal : List ThreadId × PthreadCond :=
  ((c.rtSemRelease).1.toList, (c.rtSemRelease).2)

/-- The loop of `pthread_cond_broadcast`, at most `n` times, and the threads that it resumes. -/
def broadcastLoop (t : ThreadId) : Nat → PthreadCond → List ThreadId × PthreadCond
  | 0, c => ([], c)
  | n + 1, c =>
    match c.rtSemTake t 0 with
    | (some .eok, c) => c.signal
    | (_, c) =>
      let (woken, c) := c.signal
      let (rest, c) := broadcastLoop t n c
      (woken ++ rest, c)

/-- `pthread_cond_broadcast`: two rounds more than there are threads are enough
(`broadcastLoop_eq`). -/
def broadcast (t : ThreadId) : List ThreadId × PthreadCond :=
  broadcastLoop t (c.queue.length + 2) c

/-- The time-out of a suspended thread. -/
def timeout (t : ThreadId) : PthreadCond := { c with queue := c.queue.erase t }

/-- A semaphore as it is: nobody waits for a unit that is there. -/
structure Ok : Prop where
  empty : 0 < c.value → c.queue = []
  le : c.value ≤ rtSemValueMax

variable {c : PthreadCond} {t : ThreadId}

-- --------
-- What the calls do
-- --------

theorem signal_cons {rest : List ThreadId} (h : c.queue = t :: rest) :
    c.signal = ([t], { c with queue := rest }) := by
  unfold signal rtSemRelease
  rw [h]
  rfl

theorem signal_nil (h : c.queue = []) (hlt : c.value < rtSemValueMax) :
    c.signal = ([], { c with value := c.value + 1 }) := by
  unfold signal rtSemRelease
  rw [h]
  simp only [if_pos hlt, Option.toList_none]

theorem signal_full (h : c.queue = []) (hge : ¬ c.value < rtSemValueMax) : c.signal = ([], c) := by
  unfold signal rtSemRelease
  rw [h]
  simp only [if_neg hge, Option.toList_none]

theorem take_of_pos (h : 0 < c.value) (timeout : Int) :
    c.rtSemTake t timeout = (some .eok, { c with value := c.value - 1 }) := if_pos h

theorem take_of_zero (h : c.value = 0) {timeout : Int} (ht : timeout = 0) :
    c.rtSemTake t timeout = (some .etimeout, c) := by
  rw [rtSemTake, if_neg (by omega), if_pos ht]

theorem take_suspends (h : c.value = 0) {timeout : Int} (ht : timeout ≠ 0) :
    c.rtSemTake t timeout = (none, { c with queue := c.queue ++ [t] }) := by
  rw [rtSemTake, if_neg (by omega), if_neg ht]

theorem broadcastLoop_unit (h : c.Ok) (hpos : 0 < c.value) (n : Nat) :
    broadcastLoop t (n + 1) c = ([], c) := by
  have hle := h.le
  have hsignal := signal_nil (c := { c with value := c.value - 1 }) (h.empty hpos)
    (show c.value - 1 < rtSemValueMax by omega)
  have hback : { c with value := c.value - 1 + 1 } = c := by
    rw [Nat.sub_add_cancel hpos]
  rw [broadcastLoop, take_of_pos hpos]
  simp only
  rw [hsignal, hback]

/-- **The loop of a broadcast** resumes every suspended thread, and leaves one unit. -/
theorem broadcastLoop_eq {n : Nat} : ∀ {c : PthreadCond}, c.value = 0 → c.queue.length < n →
    broadcastLoop t (n + 1) c = (c.queue, { value := 1, queue := [] }) := by
  induction n with
  | zero => exact fun _ hlt => absurd hlt (Nat.not_lt_zero _)
  | succ n ih =>
    intro c hzero hlt
    rw [broadcastLoop, take_of_zero hzero rfl]
    simp only
    cases hqueue : c.queue with
    | nil =>
      have hone : ({ c with value := c.value + 1 } : PthreadCond) = { value := 1, queue := [] } := by
        rw [hzero, hqueue]
      have hok : ({ value := 1, queue := [] } : PthreadCond).Ok := ⟨fun _ => rfl, by decide⟩
      rw [signal_nil hqueue (by rw [hzero]; decide)]
      simp only [hone, broadcastLoop_unit hok (Nat.one_pos), List.nil_append]
    | cons w rest =>
      rw [hqueue, List.length_cons] at hlt
      rw [signal_cons hqueue]
      simp only [ih (c := { c with queue := rest }) hzero (by simpa using hlt)]
      rfl

/-- **A broadcast.** Every suspended thread is resumed, and there is a unit afterwards. -/
theorem broadcast_eq (h : c.Ok) :
    c.broadcast t = (c.queue, { value := max c.value 1, queue := [] }) := by
  unfold broadcast
  by_cases hpos : 0 < c.value
  · have hsame : c = { value := max c.value 1, queue := [] } := by
      rw [Nat.max_eq_left hpos, ← h.empty hpos]
    rw [broadcastLoop_unit h hpos, h.empty hpos, ← hsame]
  · have hzero : c.value = 0 := by omega
    rw [broadcastLoop_eq hzero (Nat.lt_succ_self _), hzero]
    rfl

theorem Ok.take (h : c.Ok) (timeout : Int) : (c.rtSemTake t timeout).2.Ok := by
  unfold rtSemTake
  split
  case isTrue hpos => exact ⟨fun _ => h.empty hpos, (Nat.sub_le _ _).trans h.le⟩
  case isFalse hzero =>
    split
    · exact h
    · exact ⟨fun hpos => absurd hpos hzero, h.le⟩

/-- A release resumes the first thread that is suspended, or leaves a unit. -/
theorem Ok.release (h : c.Ok) : c.queue = c.rtSemRelease.1.toList ++ c.rtSemRelease.2.queue ∧
    c.rtSemRelease.2.Ok ∧ (c.rtSemRelease.1.toList ≠ [] ∨ 0 < c.rtSemRelease.2.value) := by
  unfold rtSemRelease
  cases hqueue : c.queue with
  | cons w rest =>
    refine ⟨rfl, ⟨fun hpos => ?_, h.le⟩, Or.inl (by nofun)⟩
    rw [h.empty hpos] at hqueue
    cases hqueue
  | nil =>
    by_cases hlt : c.value < rtSemValueMax
    · simp only [if_pos hlt]
      exact ⟨rfl, ⟨fun _ => rfl, hlt⟩, Or.inr (Nat.succ_pos _)⟩
    · simp only [if_neg hlt]
      exact ⟨hqueue.symm, h, Or.inr (lt_of_lt_of_le (by decide) (not_lt.1 hlt))⟩

theorem Ok.signal (h : c.Ok) : c.signal.2.Ok := by
  cases hqueue : c.queue with
  | cons w rest =>
    rw [signal_cons hqueue]
    refine ⟨fun hpos => ?_, h.le⟩
    rw [h.empty hpos] at hqueue
    cases hqueue
  | nil =>
    by_cases hlt : c.value < rtSemValueMax
    · rw [signal_nil hqueue hlt]
      exact ⟨fun _ => hqueue, hlt⟩
    · rw [signal_full hqueue hlt]
      exact h

theorem Ok.broadcast (h : c.Ok) : (c.broadcast t).2.Ok := by
  rw [broadcast_eq h]
  exact ⟨fun _ => rfl, max_le h.le (by decide)⟩

theorem Ok.timeout (h : c.Ok) : (c.timeout t).Ok := by
  refine ⟨fun hpos => ?_, h.le⟩
  change c.queue.erase t = []
  rw [h.empty hpos]
  rfl

theorem ok_init : ({} : PthreadCond).Ok := ⟨fun _ => rfl, Nat.zero_le _⟩

end PthreadCond

end RTThread
