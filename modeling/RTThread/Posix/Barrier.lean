import RTThread.Posix.Cond

/-!
# Barriers (`pthread_barrier.c`)

A barrier counts down under its mutex. The thread that brings the counter to zero broadcasts, the
others wait for the condition variable. Nothing sets the counter again.

The records `entered` and `ticket` are not kept by the code: the waits that have come past the mutex,
and the number of the last one of each thread. With a count of `n` the wait with the number `k` is one
of the round `k / n`.

`barrier_rounds`: the barrier is right in a run as long as no round is complete.
-/

namespace RTThread

/-- Where a thread is. -/
inductive BarrierPc
  | out
  /-- `pthread_barrier_wait` has locked the mutex. -/
  | locked
  /-- In `pthread_cond_wait`, it has unlocked the mutex and goes to `rt_sem_take`. -/
  | gap
  | suspended
  /-- `rt_sem_take` has returned, and it goes to lock the mutex. -/
  | relock
  /-- About to unlock the mutex and return: 0, or `EINVAL`. -/
  | leaving (ok : Bool)
deriving DecidableEq

/-- `pthread_barrier_t` and the threads. -/
structure Barrier where
  count : Nat
  cond : PthreadCond
  owner : Option ThreadId
  pc : ThreadId → BarrierPc
  entered : Nat
  ticket : ThreadId → Nat

/-- What happens. -/
inductive BarrierAct
  /-- `pthread_barrier_wait` locks the mutex. -/
  | lock (t : ThreadId)
  /-- It counts, and broadcasts or unlocks the mutex in `pthread_cond_wait`. -/
  | count (t : ThreadId)
  | take (t : ThreadId)
  | relock (t : ThreadId)
  | unlock (t : ThreadId)

namespace Barrier

/-- `pthread_barrier_init` -/
def init (n : Nat) : Barrier where
  count := n
  cond := {}
  owner := none
  pc _ := .out
  entered := 0
  ticket _ := 0

variable (s : Barrier)

def setPc (t : ThreadId) (pc : BarrierPc) : Barrier := { s with pc := Function.update s.pc t pc }

/-- The threads whose `rt_sem_take` returns. -/
def resume (woken : List ThreadId) : Barrier :=
  { s with pc := fun t => if t ∈ woken then .relock else s.pc t }

/-- One more wait has come. -/
def enter (t : ThreadId) : Barrier :=
  { s with entered := s.entered + 1, ticket := Function.update s.ticket t s.entered }

/-- `pthread_barrier_wait` with the mutex. -/
def wait (t : ThreadId) : Barrier :=
  if s.count = 0 then s.setPc t (.leaving false)
  else
    let s := { s with count := s.count - 1 }
    if s.count = 0 then
      (({ s with cond := (s.cond.broadcast t).2 }).resume (s.cond.broadcast t).1).setPc t
        (.leaving true)
    else { s with owner := none }.setPc t .gap

/-- `rt_sem_take` of `pthread_cond_wait`. -/
def take (t : ThreadId) : Barrier :=
  { s with cond := (s.cond.rtSemTake t (-1)).2 }.setPc t
    (if (s.cond.rtSemTake t (-1)).1.isSome then .relock else .suspended)

/-- **A step.** -/
def step (s : Barrier) : BarrierAct → Option Barrier
  | .lock t =>
    Runs.takeIf (s.pc t = .out ∧ s.owner = none) ({ s with owner := some t }.setPc t .locked)
  | .count t => Runs.takeIf (s.pc t = .locked) ((s.wait t).enter t)
  | .take t => Runs.takeIf (s.pc t = .gap) (s.take t)
  | .relock t =>
    Runs.takeIf (s.pc t = .relock ∧ s.owner = none)
      ({ s with owner := some t }.setPc t (.leaving true))
  | .unlock t =>
    Runs.takeIf (s.pc t = .leaving true ∨ s.pc t = .leaving false)
      ({ s with owner := none }.setPc t .out)

-- --------
-- What is to hold
-- --------

/-- A thread has not been released: it is suspended, or more threads are on their way to the
semaphore than there are units. -/
def Stuck (s : Barrier) : Prop :=
  s.cond.queue ≠ [] ∨ ∃ ts : List ThreadId, ts.Nodup ∧ (∀ t ∈ ts, s.pc t = .gap) ∧
    s.cond.value < ts.length

/-- **A step is right** for a barrier of `n` threads. The counter is that of a new round when a
round is complete, and then nobody is stuck. A thread returns when its round is complete, and
returns 0. -/
def Right (n : Nat) (s : Barrier) (a : BarrierAct) : Prop :=
  ∀ s', s.step a = some s' →
    match a with
    | .count _ => s'.count = n - s'.entered % n ∧ (s'.entered % n = 0 → ¬ s'.Stuck)
    | .unlock t => n * (s.ticket t / n + 1) ≤ s.entered ∧ s.pc t = .leaving true
    | _ => True

/-- When it is: the wait is not the last one of a round. -/
def Partial (n : Nat) (s : Barrier) : BarrierAct → Prop
  | .count t => s.pc t = .locked → s.entered + 1 < n
  | _ => True

variable {s s' : Barrier} {n : Nat} {t : ThreadId} {a : BarrierAct}

/-- **The invariant of the first round** before it is complete: nobody has been released. -/
structure Waiting (n : Nat) (s : Barrier) : Prop where
  count : s.count + s.entered = n
  lt : s.entered < n
  value : s.cond.value = 0
  pc : ∀ t, s.pc t ≠ .relock ∧ ∀ ok, s.pc t ≠ .leaving ok

theorem waiting_init (hn : 1 ≤ n) : Waiting n (init n) :=
  ⟨rfl, hn, rfl, fun _ => ⟨nofun, fun _ => nofun⟩⟩

theorem Waiting.setPc (h : Waiting n s) {pc : BarrierPc} (hrelock : pc ≠ .relock)
    (hleaving : ∀ ok, pc ≠ .leaving ok) : Waiting n (s.setPc t pc) := by
  refine ⟨h.count, h.lt, h.value, fun u => ?_⟩
  change Function.update s.pc t pc u ≠ .relock ∧ ∀ ok, Function.update s.pc t pc u ≠ .leaving ok
  by_cases hu : u = t
  · subst hu
    rw [Function.update_self]
    exact ⟨hrelock, hleaving⟩
  · rw [Function.update_of_ne hu]
    exact h.pc u

theorem Waiting.ok (h : Waiting n s) : s.cond.Ok := by
  refine ⟨fun hpos => ?_, ?_⟩
  · rw [h.value] at hpos
    cases hpos
  · rw [h.value]
    exact Nat.zero_le _

theorem Waiting.owner (h : Waiting n s) (owner : Option ThreadId) :
    Waiting n { s with owner } := ⟨h.count, h.lt, h.value, h.pc⟩

/-- A wait that is not the last one. -/
theorem Waiting.wait (h : Waiting n s) (hlt : s.entered + 1 < n) :
    Waiting n ((s.wait t).enter t) := by
  have hcount := h.count
  have hwait : s.wait t = { { s with count := s.count - 1 } with owner := none }.setPc t .gap := by
    unfold Barrier.wait
    rw [if_neg (by omega)]
    simp only
    rw [if_neg (by omega)]
  have hkept : Waiting n ({ s with count := s.count - 1, entered := s.entered + 1 }) :=
    ⟨by change s.count - 1 + (s.entered + 1) = n; omega, hlt, h.value, h.pc⟩
  rw [hwait]
  have hgap := @Waiting.setPc _ _ t (hkept.owner none) .gap nofun nofun
  exact ⟨hgap.count, hgap.lt, hgap.value, hgap.pc⟩

/-- **A step of an incomplete round.** -/
theorem Waiting.preserved (h : Waiting n s) (hpiece : Partial n s a) (hs : s.step a = some s') :
    Waiting n s' := by
  cases a with
  | lock t =>
    obtain ⟨-, rfl⟩ := Runs.takeIf_eq_some.1 hs
    exact (h.owner (some t)).setPc nofun nofun
  | count t =>
    obtain ⟨hpc, rfl⟩ := Runs.takeIf_eq_some.1 hs
    exact h.wait (hpiece hpc)
  | take t =>
    obtain ⟨-, rfl⟩ := Runs.takeIf_eq_some.1 hs
    have htake := PthreadCond.take_suspends (t := t) h.value (show (-1 : Int) ≠ 0 by decide)
    unfold Barrier.take
    rw [htake]
    have hcond : Waiting n { s with cond := { s.cond with queue := s.cond.queue ++ [t] } } :=
      ⟨h.count, h.lt, h.value, h.pc⟩
    exact hcond.setPc nofun nofun
  | relock t =>
    obtain ⟨⟨hpc, -⟩, -⟩ := Runs.takeIf_eq_some.1 hs
    exact absurd hpc (h.pc t).1
  | unlock t =>
    obtain ⟨hpc | hpc, -⟩ := Runs.takeIf_eq_some.1 hs
    · exact absurd hpc ((h.pc t).2 true)
    · exact absurd hpc ((h.pc t).2 false)

theorem Waiting.last (h : Waiting n s) (hlast : n ≤ s.entered + 1) : (s.wait t).enter t =
    (((({ s with count := 0, cond := (s.cond.broadcast t).2 } : Barrier).resume
      (s.cond.broadcast t).1).setPc t (.leaving true)).enter t) := by
  have hcount := h.count
  have hlt := h.lt
  have hone : s.count - 1 = 0 := by omega
  unfold Barrier.wait
  rw [if_neg (by omega)]
  simp only [hone, if_true]

/-- **The last wait of a round leaves nothing for the next one**, and one unit for those that are
on their way to the semaphore. -/
theorem Waiting.complete (h : Waiting n s) (hpc : s.pc t = .locked)
    (hlast : n ≤ s.entered + 1) :
    ∃ s', s.step (.count t) = some s' ∧ s'.count = 0 ∧ s'.entered = n ∧
      s'.cond = { value := 1, queue := [] } := by
  have hlt := h.lt
  refine ⟨(s.wait t).enter t, Runs.takeIf_eq_some.2 ⟨hpc, rfl⟩, ?_⟩
  rw [h.last hlast, PthreadCond.broadcast_eq h.ok, h.value]
  refine ⟨rfl, ?_, rfl⟩
  change s.entered + 1 = n
  omega

/-- **The rounds of a barrier.** A barrier of `n` threads is right along a list of steps if and only if
it ends before a round is complete: after the last wait of a round the counter is zero and stays
so. -/
theorem barrier_rounds {n : Nat} (hn : 1 ≤ n) (as : List BarrierAct) :
    Runs.Along step (Right n) (init n) as ↔ Runs.Along step (Partial n) (init n) as := by
  refine Runs.along_iff (fun s a h => ⟨fun hright => ?_, fun hpiece s' hs => ?_⟩)
    (fun s a s' h hpiece hs => h.preserved hpiece hs) (waiting_init hn)
  · cases a with
    | count t =>
      intro hpc
      by_contra hlast
      obtain ⟨s', hs, hzero, hentered, -⟩ := h.complete hpc (by omega)
      obtain ⟨hcount, -⟩ := hright s' hs
      rw [hzero, hentered, Nat.mod_self] at hcount
      omega
    | lock t => trivial
    | take t => trivial
    | relock t => trivial
    | unlock t => trivial
  · have h' := h.preserved hpiece hs
    cases a with
    | count t =>
      have hcount := h'.count
      have hlt := h'.lt
      have hpos : 0 < s'.entered := by
        obtain ⟨hpc, rfl⟩ := Runs.takeIf_eq_some.1 hs
        exact Nat.succ_pos _
      refine ⟨?_, fun hmod => ?_⟩
      · rw [Nat.mod_eq_of_lt hlt]
        omega
      · rw [Nat.mod_eq_of_lt hlt] at hmod
        omega
    | unlock t =>
      obtain ⟨hpc | hpc, -⟩ := Runs.takeIf_eq_some.1 hs
      · exact absurd hpc ((h.pc t).2 true)
      · exact absurd hpc ((h.pc t).2 false)
    | lock t => trivial
    | take t => trivial
    | relock t => trivial

/-- One thread waits at a barrier for two. -/
theorem barrier_rounds_one : Runs.Along step (Right 2) (init 2) [.lock 0, .count 0] :=
  (barrier_rounds (n := 2) (by decide) [.lock 0, .count 0]).2
    ⟨trivial, fun s' hs => ⟨fun _ => by cases hs; decide, fun _ _ => trivial⟩⟩

/-- A barrier for two: the second wait completes the round, and the third thread gets `EINVAL`. A
barrier for three: two threads have unlocked the mutex when the third one broadcasts, one of them
finds a unit and the other one is suspended for ever. -/
theorem round_not_reset :
    ¬ Runs.Along step (Right 2) (init 2) [.lock 0, .count 0, .take 0, .lock 1, .count 1] ∧
    (Runs.replay step (init 2) [.lock 0, .count 0, .take 0, .lock 1, .count 1, .unlock 1, .lock 2,
      .count 2]).map (fun s => s.pc 2) = some (.leaving false) ∧
    (Runs.replay step (init 3) [.lock 0, .count 0, .lock 1, .count 1, .lock 2, .count 2, .unlock 2,
      .take 0, .relock 0, .unlock 0, .take 1]).map (fun s => (s.pc 1, s.cond.value)) =
        some (.suspended, 0) := by
  refine ⟨fun h => ?_, by decide, by decide⟩
  obtain ⟨hcount, -⟩ := ((((h.2 _ rfl).2 _ rfl).2 _ rfl).2 _ rfl).1 _ rfl
  exact absurd hcount (by decide)

end Barrier

end RTThread
