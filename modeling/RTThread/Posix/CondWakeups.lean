import RTThread.Posix.Cond
import Mathlib.Data.List.Perm.Basic

/-!
# The wake-ups of a condition variable

Threads lock and unlock the mutex of a condition variable, wait, signal and broadcast. A wake-up that
suspends nobody stays in the semaphore as a unit, whoever takes it.

The record `line` is not kept by the code: the threads that have unlocked the mutex in their wait
and have not come to the semaphore, and the units, in the order in which they came. A unit was
meant for a thread that stands before it.

`cond_wakeups`: the waits, the signals and the broadcasts are right along a list of steps if and only
if every signal finds somebody to wake, at every broadcast as many threads as units (and one if there
is none) are on their way to the semaphore, and no thread gets there when the
only units are older than its wait.
-/

namespace RTThread

/-- Where a thread is. -/
inductive CondPc
  /-- In none of the waits. -/
  | out
  /-- It has unlocked the mutex and goes to `rt_sem_take`. -/
  | gap (timeout : Int)
  | suspended (timed : Bool)
  /-- `rt_sem_take` has returned, and it goes to lock the mutex. -/
  | relock (result : RtErr)
deriving DecidableEq

/-- A condition variable, its mutex, and the threads. -/
structure CondSys where
  cond : PthreadCond
  owner : Option ThreadId
  pc : ThreadId → CondPc

/-- What happens. -/
inductive CondAct
  | lock (t : ThreadId)
  | unlock (t : ThreadId)
  /-- `_pthread_cond_timedwait` up to its `rt_sem_take`. -/
  | wait (t : ThreadId) (timeout : Int)
  | take (t : ThreadId)
  | timeout (t : ThreadId)
  /-- `_pthread_cond_timedwait` locks the mutex and returns. -/
  | relock (t : ThreadId)
  | signal (t : ThreadId)
  | broadcast (t : ThreadId)

namespace CondSys

def init : CondSys where
  cond := {}
  owner := none
  pc _ := .out

variable (s : CondSys)

def setPc (t : ThreadId) (pc : CondPc) : CondSys := { s with pc := Function.update s.pc t pc }

/-- The threads whose `rt_sem_take` returns `RT_EOK`. -/
def resume (woken : List ThreadId) : CondSys :=
  { s with pc := fun t => if t ∈ woken then .relock .eok else s.pc t }

/-- `rt_sem_take` of the wait. -/
def take (t : ThreadId) (timeout : Int) : CondSys :=
  let (result, cond) := s.cond.rtSemTake t timeout
  { s with cond }.setPc t (match result with
    | some result => .relock result
    | none => .suspended (decide (0 < timeout)))

def signal : CondSys := { s with cond := s.cond.signal.2 }.resume s.cond.signal.1

def broadcast (t : ThreadId) : CondSys :=
  { s with cond := (s.cond.broadcast t).2 }.resume (s.cond.broadcast t).1

/-- **A step.** The threads use the mutex correctly: they lock it when they do not have it, and
unlock it and wait when they have it. -/
def step (s : CondSys) : CondAct → Option CondSys
  | .lock t => Runs.takeIf (s.pc t = .out ∧ s.owner = none) { s with owner := some t }
  | .unlock t => Runs.takeIf (s.pc t = .out ∧ s.owner = some t) { s with owner := none }
  | .wait t timeout =>
    Runs.takeIf (s.pc t = .out ∧ s.owner = some t) ({ s with owner := none }.setPc t (.gap timeout))
  | .take t => match s.pc t with
    | .gap timeout => some (s.take t timeout)
    | _ => none
  | .timeout t =>
    Runs.takeIf (s.pc t = .suspended true)
      ({ s with cond := s.cond.timeout t }.setPc t (.relock .etimeout))
  | .relock t => match s.pc t with
    | .relock _ => Runs.takeIf (s.owner = none) ({ s with owner := some t }.setPc t .out)
    | _ => none
  | .signal t => Runs.takeIf (s.pc t = .out) s.signal
  | .broadcast t => Runs.takeIf (s.pc t = .out) (s.broadcast t)

end CondSys

-- --------
-- The line
-- --------

/-- A thread on its way to the semaphore, or a unit. -/
inductive CondMark
  | thread (t : ThreadId)
  | unit
deriving DecidableEq

namespace CondMark

def thread? : CondMark → Option ThreadId
  | thread t => some t
  | unit => none

/-- The threads of a line. -/
def threads (l : List CondMark) : List ThreadId := l.filterMap thread?

/-- There is a unit behind the thread. -/
def due (t : ThreadId) : List CondMark → Bool
  | [] => false
  | thread u :: l => if u = t then l.contains unit else due t l
  | unit :: l => due t l

/-- The thread leaves with the first unit behind it. -/
def leave (t : ThreadId) : List CondMark → List CondMark
  | [] => []
  | thread u :: l => if u = t then l.erase unit else thread u :: leave t l
  | unit :: l => unit :: leave t l

/-- The thread gets a unit: one behind it, or one that was not meant for it. -/
def granted (t : ThreadId) (l : List CondMark) : List CondMark :=
  if due t l then leave t l else (l.erase (thread t)).erase unit

variable {t : ThreadId} {l l' : List CondMark}

theorem threads_perm (h : l.Perm l') : (threads l).Perm (threads l') := h.filterMap _

theorem mem_threads : t ∈ threads l ↔ thread t ∈ l := by
  rw [threads, List.mem_filterMap]
  constructor
  · rintro ⟨m, hm, hmt⟩
    cases m with
    | thread u =>
      obtain rfl := Option.some.inj hmt
      exact hm
    | unit => cases hmt
  · exact fun h => ⟨thread t, h, rfl⟩

theorem threads_units (l : List CondMark) (n : Nat) :
    threads (l ++ List.replicate n unit) = threads l := by
  induction n with
  | zero => rw [List.replicate_zero, List.append_nil]
  | succ n ih =>
    rw [List.replicate_succ', ← List.append_assoc, threads, List.filterMap_append]
    rw [threads] at ih
    rw [ih]
    exact List.append_nil _

theorem count_units (l : List CondMark) (n : Nat) :
    (l ++ List.replicate n unit).count unit = l.count unit + n := by
  rw [List.count_append, List.count_replicate_self]

theorem threads_snoc (l : List CondMark) (t : ThreadId) :
    threads (l ++ [thread t]) = threads l ++ [t] := by
  rw [threads, List.filterMap_append]
  rfl

theorem leave_perm (h : due t l = true) : l.Perm (thread t :: unit :: leave t l) := by
  induction l with
  | nil => cases h
  | cons m l ih =>
    cases m with
    | unit =>
      have hrest := (ih h).cons unit
      rw [leave]
      exact hrest.trans ((List.Perm.swap _ _ _).trans ((List.Perm.swap _ _ _).cons _))
    | thread u =>
      rw [due] at h
      rw [leave]
      by_cases hu : u = t
      · rw [if_pos hu] at h ⊢
        rw [hu]
        exact (List.perm_cons_erase (List.contains_iff_mem.1 h)).cons _
      · rw [if_neg hu] at h ⊢
        have hrest := (ih h).cons (thread u)
        exact hrest.trans ((List.Perm.swap _ _ _).trans ((List.Perm.swap _ _ _).cons _))

theorem granted_perm (ht : t ∈ threads l) (hunit : unit ∈ l) :
    l.Perm (thread t :: unit :: granted t l) := by
  unfold granted
  split
  case isTrue hdue => exact leave_perm hdue
  case isFalse =>
    have hunit : unit ∈ l.erase (thread t) := (List.mem_erase_of_ne (by nofun)).2 hunit
    exact (List.perm_cons_erase (mem_threads.1 ht)).trans ((List.perm_cons_erase hunit).cons _)

end CondMark

open CondMark (threads)

namespace CondSys

/-- What is kept of a step. -/
def observe (l : List CondMark) (s : CondSys) : CondAct → List CondMark
  | .wait t _ => l ++ [.thread t]
  | .take t => if 0 < s.cond.value then CondMark.granted t l else l.erase (.thread t)
  | .signal _ => l ++ List.replicate (s.signal.cond.value - s.cond.value) .unit
  | .broadcast t => l ++ List.replicate ((s.broadcast t).cond.value - s.cond.value) .unit
  | _ => l

/-- A step with its record. -/
abbrev exec : CondSys × List CondMark → CondAct → Option (CondSys × List CondMark) :=
  Runs.execObserved step observe

-- --------
-- What is to hold
-- --------

/-- The wake-ups that a step gives: the threads that it resumes, and the units that it leaves. -/
def wakeUps (s s' : CondSys) : Nat :=
  (s.cond.queue.length - s'.cond.queue.length) + (s'.cond.value - s.cond.value)

/-- What a wake-up is to do. A signal wakes one thread, if there is one to wake. After a broadcast
every thread that waited has been resumed or will find a unit, and no more are left. A thread finds
only units that came after it had begun to wait. -/
def Delivered (p : CondSys × List CondMark) (s' : CondSys) (l' : List CondMark) : CondAct → Prop
  | .signal _ => p.1.wakeUps s' =
      if p.1.cond.queue = [] ∧ (threads p.2).length ≤ p.1.cond.value then 0 else 1
  | .broadcast _ => (∀ t timed, p.1.pc t = .suspended timed → s'.pc t = .relock .eok) ∧
      s'.cond.value = (threads l').length
  | .take t => 0 < p.1.cond.value → CondMark.due t p.2 = true
  | _ => True

/-- **A step is right.** A wait ends with the mutex, no unit is there without a thread that it is
for, and the wake-ups do what they are to do. -/
def Right (p : CondSys × List CondMark) (a : CondAct) : Prop :=
  ∀ s' l', exec p a = some (s', l') →
    (∀ t, p.1.pc t ≠ .out → s'.pc t = .out → s'.owner = some t) ∧
    s'.cond.value ≤ (threads l').length ∧ Delivered p s' l' a

/-- When it is. -/
def Fits (p : CondSys × List CondMark) : CondAct → Prop
  | .signal t => p.1.pc t = .out → p.1.cond.queue ≠ [] ∨
      (p.1.cond.value < (threads p.2).length ↔ p.1.cond.value < rtSemValueMax)
  | .broadcast t => p.1.pc t = .out → (threads p.2).length = max p.1.cond.value 1
  | .take t => (∃ timeout, p.1.pc t = .gap timeout) → 0 < p.1.cond.value →
      CondMark.due t p.2 = true
  | _ => True

-- --------
-- The invariant
-- --------

/-- **The record is that of the semaphore.** -/
structure Inv (p : CondSys × List CondMark) : Prop where
  ok : p.1.cond.Ok
  nodup : (threads p.2).Nodup
  gap : ∀ t, t ∈ threads p.2 ↔ ∃ timeout, p.1.pc t = .gap timeout
  queueNodup : p.1.cond.queue.Nodup
  queue : ∀ t, t ∈ p.1.cond.queue ↔ ∃ timed, p.1.pc t = .suspended timed
  units : p.2.count .unit = p.1.cond.value
  le : p.1.cond.value ≤ (threads p.2).length

variable {s s' : CondSys} {l l' : List CondMark} {t : ThreadId} {a : CondAct}

/-- Nobody waits at the start. -/
theorem inv_init : Inv (init, []) := by
  refine ⟨PthreadCond.ok_init, List.nodup_nil, fun t => ?_, List.nodup_nil, fun t => ?_, rfl, ?_⟩
  · exact iff_of_false nofun (by rintro ⟨_, h⟩; cases h)
  · exact iff_of_false nofun (by rintro ⟨_, h⟩; cases h)
  · exact Nat.zero_le _

theorem resume_of_mem {woken : List ThreadId} (h : t ∈ woken) :
    (s.resume woken).pc t = .relock .eok := if_pos h

theorem resume_of_not_mem {woken : List ThreadId} (h : t ∉ woken) :
    (s.resume woken).pc t = s.pc t := if_neg h

/-- **Threads at the head of the list are resumed, and units are left.** -/
theorem Inv.resume (h : Inv (s, l)) {woken rest : List ThreadId}
    (hqueue : s.cond.queue = woken ++ rest) {c : PthreadCond} (hok : c.Ok) (hrest : c.queue = rest)
    {n : Nat} (hvalue : c.value = s.cond.value + n)
    (hle : s.cond.value + n ≤ (threads l).length) :
    Inv (CondSys.resume { s with cond := c } woken, l ++ List.replicate n .unit) := by
  have hnodup := h.queueNodup
  rw [hqueue] at hnodup
  have hmem (u : ThreadId) (hu : u ∈ woken) : ∃ timed, s.pc u = .suspended timed :=
    (h.queue u).1 (hqueue ▸ List.mem_append_left rest hu)
  refine ⟨hok, ?_, fun u => ?_, ?_, fun u => ?_, ?_, ?_⟩
  · rw [CondMark.threads_units]
    exact h.nodup
  · rw [CondMark.threads_units, h.gap]
    by_cases hu : u ∈ woken
    · obtain ⟨timed, hpc⟩ := hmem u hu
      rw [resume_of_mem hu, hpc]
      exact iff_of_false (by rintro ⟨_, h⟩; cases h) (by rintro ⟨_, h⟩; cases h)
    · rw [resume_of_not_mem hu]
  · change c.queue.Nodup
    rw [hrest]
    exact (List.nodup_append.1 hnodup).2.1
  · change u ∈ c.queue ↔ _
    rw [hrest]
    by_cases hu : u ∈ woken
    · rw [resume_of_mem hu]
      refine iff_of_false (fun hu' => (List.nodup_append.1 hnodup).2.2 u hu u hu' rfl) ?_
      rintro ⟨_, h⟩
      cases h
    · rw [resume_of_not_mem hu, ← h.queue u, hqueue, List.mem_append, or_iff_right hu]
  · rw [CondMark.count_units, h.units]
    exact hvalue.symm
  · rw [CondMark.threads_units]
    exact hvalue.trans_le hle

theorem Inv.owner (h : Inv (s, l)) {owner : Option ThreadId} : Inv ({ s with owner }, l) :=
  ⟨h.ok, h.nodup, h.gap, h.queueNodup, h.queue, h.units, h.le⟩

/-- A thread that neither was nor is on its way or suspended. -/
theorem Inv.setPc (h : Inv (s, l)) {pc : CondPc} (hgap : ∀ timeout, s.pc t ≠ .gap timeout)
    (hqueue : ∀ timed, s.pc t ≠ .suspended timed) (hgap' : ∀ timeout, pc ≠ .gap timeout)
    (hqueue' : ∀ timed, pc ≠ .suspended timed) : Inv (s.setPc t pc, l) := by
  refine ⟨h.ok, h.nodup, fun u => ?_, h.queueNodup, fun u => ?_, h.units, h.le⟩
  · change u ∈ threads l ↔ ∃ timeout, Function.update s.pc t pc u = .gap timeout
    rw [h.gap]
    by_cases hu : u = t
    · subst hu
      rw [Function.update_self]
      exact iff_of_false (fun ⟨_, h⟩ => hgap _ h) (fun ⟨_, h⟩ => hgap' _ h)
    · rw [Function.update_of_ne hu]
  · change u ∈ s.cond.queue ↔ ∃ timed, Function.update s.pc t pc u = .suspended timed
    rw [h.queue]
    by_cases hu : u = t
    · subst hu
      rw [Function.update_self]
      exact iff_of_false (fun ⟨_, h⟩ => hqueue _ h) (fun ⟨_, h⟩ => hqueue' _ h)
    · rw [Function.update_of_ne hu]

/-- A thread unlocks the mutex in its wait. -/
theorem Inv.wait (h : Inv (s, l)) (hout : s.pc t = .out) {timeout : Int} :
    Inv (s.setPc t (.gap timeout), l ++ [.thread t]) := by
  have hnot : t ∉ threads l := by
    rw [h.gap, hout]
    rintro ⟨_, h⟩
    cases h
  refine ⟨h.ok, ?_, fun u => ?_, h.queueNodup, fun u => ?_, ?_, ?_⟩
  · rw [CondMark.threads_snoc]
    exact List.nodup_append.2 ⟨h.nodup, List.pairwise_singleton _ t, fun u hu v hv => by
      rw [List.mem_singleton] at hv
      rintro rfl
      exact hnot (hv ▸ hu)⟩
  · change _ ↔ ∃ timeout', Function.update s.pc t (.gap timeout) u = .gap timeout'
    rw [CondMark.threads_snoc, List.mem_append, List.mem_singleton, h.gap]
    by_cases hu : u = t
    · subst hu
      rw [Function.update_self]
      exact iff_of_true (Or.inr rfl) ⟨timeout, rfl⟩
    · rw [Function.update_of_ne hu, or_iff_left hu]
  · change u ∈ s.cond.queue ↔ ∃ timed, Function.update s.pc t (.gap timeout) u = .suspended timed
    rw [h.queue]
    by_cases hu : u = t
    · subst hu
      rw [Function.update_self, hout]
      exact iff_of_false (by rintro ⟨_, h⟩; cases h) (by rintro ⟨_, h⟩; cases h)
    · rw [Function.update_of_ne hu]
  · rw [List.count_append, h.units]
    rfl
  · rw [CondMark.threads_snoc, List.length_append]
    exact h.le.trans (Nat.le_add_right _ _)

/-- A thread comes to the semaphore. -/
theorem Inv.arrive (h : Inv (s, l)) (hl : (threads l).Perm (t :: threads l')) {pc : CondPc}
    (hpc : ∀ timeout, pc ≠ .gap timeout) {c : PthreadCond} (hok : c.Ok)
    (hnodup : c.queue.Nodup)
    (hqueue : ∀ u, u ∈ c.queue ↔ ∃ timed, Function.update s.pc t pc u = .suspended timed)
    (hunits : l'.count .unit = c.value) (hle : c.value ≤ (threads l').length) :
    Inv (CondSys.setPc { s with cond := c } t pc, l') := by
  obtain ⟨hnot, hnodup'⟩ := List.nodup_cons.1 (hl.nodup_iff.1 h.nodup)
  refine ⟨hok, hnodup', fun u => ?_, hnodup, hqueue, hunits, hle⟩
  change _ ↔ ∃ timeout, Function.update s.pc t pc u = .gap timeout
  by_cases hu : u = t
  · subst hu
    rw [Function.update_self]
    exact iff_of_false hnot fun ⟨_, h⟩ => hpc _ h
  · rw [Function.update_of_ne hu, ← h.gap, hl.mem_iff, List.mem_cons, or_iff_right hu]

/-- The suspended threads, when one comes to the semaphore and is not suspended. -/
theorem Inv.queue_update (h : Inv (s, l)) {timeout : Int} (hgap : s.pc t = .gap timeout)
    {result : RtErr} (u : ThreadId) : u ∈ s.cond.queue ↔
      ∃ timed, Function.update s.pc t (.relock result) u = .suspended timed := by
  by_cases hu : u = t
  · subst hu
    rw [Function.update_self]
    refine (h.queue u).trans (iff_of_false ?_ (by rintro ⟨_, h⟩; cases h))
    rintro ⟨_, h⟩
    rw [hgap] at h
    cases h
  · rw [Function.update_of_ne hu]
    exact h.queue u

/-- **A thread takes the semaphore**, or is suspended. -/
theorem Inv.take (h : Inv (s, l)) {timeout : Int} (hgap : s.pc t = .gap timeout) :
    Inv (s.take t timeout, observe l s (.take t)) := by
  have ht : t ∈ threads l := (h.gap t).2 ⟨timeout, hgap⟩
  have hok := h.ok.take (t := t) timeout
  unfold observe CondSys.take
  by_cases hpos : 0 < s.cond.value
  · have hunit : CondMark.unit ∈ l := by
      rw [← List.count_pos_iff, h.units]
      exact hpos
    have hperm := CondMark.granted_perm ht hunit
    have hthreads : (threads l).Perm (t :: threads (CondMark.granted t l)) :=
      CondMark.threads_perm hperm
    have hcount := hperm.count_eq .unit
    have hlen := hthreads.length_eq
    have hunits := h.units
    have hle := h.le
    rw [List.count_cons_of_ne (by nofun), List.count_cons_self] at hcount
    rw [List.length_cons] at hlen
    rw [PthreadCond.take_of_pos hpos] at hok
    simp only [PthreadCond.take_of_pos hpos, if_pos hpos]
    refine h.arrive hthreads (fun _ h => by cases h) hok h.queueNodup (h.queue_update hgap) ?_ ?_
    · change _ = s.cond.value - 1
      simp only at hunits
      omega
    · change s.cond.value - 1 ≤ _
      simp only at hle
      omega
  · have hzero : s.cond.value = 0 := by omega
    have hperm := List.perm_cons_erase (CondMark.mem_threads.1 ht)
    have hthreads : (threads l).Perm (t :: threads (l.erase (.thread t))) :=
      CondMark.threads_perm hperm
    have hunits : (l.erase (CondMark.thread t)).count .unit = s.cond.value := by
      rw [List.count_erase_of_ne (by nofun), h.units]
    simp only [if_neg hpos]
    by_cases htime : timeout = 0
    · rw [PthreadCond.take_of_zero hzero htime] at hok
      simp only [PthreadCond.take_of_zero hzero htime]
      refine h.arrive hthreads (fun _ h => by cases h) hok h.queueNodup (h.queue_update hgap) hunits ?_
      rw [hzero]
      exact Nat.zero_le _
    · rw [PthreadCond.take_suspends hzero htime] at hok
      simp only [PthreadCond.take_suspends hzero htime]
      have hnot : t ∉ s.cond.queue := by
        rw [h.queue, hgap]
        rintro ⟨_, h⟩
        cases h
      refine h.arrive hthreads (fun _ h => by cases h) hok ?_ (fun u => ?_) hunits ?_
      · exact List.nodup_append.2 ⟨h.queueNodup, List.pairwise_singleton _ t, fun u hu v hv => by
          rw [List.mem_singleton] at hv
          rintro rfl
          exact hnot (hv ▸ hu)⟩
      · rw [List.mem_append, List.mem_singleton, h.queue]
        by_cases hu : u = t
        · subst hu
          rw [Function.update_self]
          exact iff_of_true (Or.inr rfl) ⟨_, rfl⟩
        · rw [Function.update_of_ne hu, or_iff_left hu]
      · change s.cond.value ≤ _
        rw [hzero]
        exact Nat.zero_le _

/-- A suspended thread gives up. -/
theorem Inv.timeout (h : Inv (s, l)) (hpc : s.pc t = .suspended true) :
    Inv (CondSys.setPc { s with cond := s.cond.timeout t } t (.relock .etimeout), l) := by
  refine ⟨h.ok.timeout, h.nodup, fun u => ?_, h.queueNodup.erase t, fun u => ?_, h.units, h.le⟩
  · change u ∈ threads l ↔ ∃ timeout, Function.update s.pc t (.relock .etimeout) u = .gap timeout
    rw [h.gap]
    by_cases hu : u = t
    · subst hu
      rw [Function.update_self, hpc]
      exact iff_of_false (by rintro ⟨_, h⟩; cases h) (by rintro ⟨_, h⟩; cases h)
    · rw [Function.update_of_ne hu]
  · change u ∈ s.cond.queue.erase t ↔
      ∃ timed, Function.update s.pc t (.relock .etimeout) u = .suspended timed
    rw [h.queueNodup.mem_erase_iff, h.queue]
    by_cases hu : u = t
    · subst hu
      rw [Function.update_self]
      exact iff_of_false (fun h => h.1 rfl) (by rintro ⟨_, h⟩; cases h)
    · rw [Function.update_of_ne hu, and_iff_right hu]

/-- What a signal leaves. -/
theorem Inv.signal (h : Inv (s, l)) (hfits : s.cond.queue ≠ [] ∨
      (s.cond.value < (threads l).length ↔ s.cond.value < rtSemValueMax)) :
    Inv (s.signal, l ++ List.replicate (s.signal.cond.value - s.cond.value) .unit) ∧
      s.wakeUps s.signal =
        if s.cond.queue = [] ∧ (threads l).length ≤ s.cond.value then 0 else 1 := by
  have hok := h.ok.signal
  have hle : s.cond.value ≤ (threads l).length := h.le
  unfold wakeUps CondSys.signal
  cases hqueue : s.cond.queue with
  | cons w rest =>
    rw [PthreadCond.signal_cons hqueue] at hok
    have hinv := @Inv.resume _ _ h [w] _ hqueue _ hok rfl 0 rfl hle
    rw [PthreadCond.signal_cons hqueue, if_neg (by simp)]
    refine ⟨?_, ?_⟩
    · change Inv (_, l ++ List.replicate (s.cond.value - s.cond.value) .unit)
      rw [Nat.sub_self]
      exact hinv
    · change (w :: rest).length - rest.length + (s.cond.value - s.cond.value) = 1
      rw [List.length_cons]
      omega
  | nil =>
    have hiff := hfits.resolve_left (not_not.2 hqueue)
    by_cases hlt : s.cond.value < rtSemValueMax
    · have hroom := hiff.2 hlt
      rw [PthreadCond.signal_nil hqueue hlt] at hok
      have hinv := @Inv.resume _ _ h [] [] hqueue _ hok hqueue 1 rfl hroom
      rw [PthreadCond.signal_nil hqueue hlt, if_neg (by omega)]
      refine ⟨?_, ?_⟩
      · change Inv (_, l ++ List.replicate (s.cond.value + 1 - s.cond.value) .unit)
        rw [Nat.add_sub_cancel_left]
        exact hinv
      · change 0 - s.cond.queue.length + (s.cond.value + 1 - s.cond.value) = 1
        omega
    · have hroom : ¬ s.cond.value < (threads l).length := fun hroom => hlt (hiff.1 hroom)
      have hinv := @Inv.resume _ _ h [] [] hqueue _ h.ok hqueue 0 rfl hle
      rw [PthreadCond.signal_full hqueue hlt, if_pos ⟨rfl, not_lt.1 hroom⟩]
      refine ⟨?_, ?_⟩
      · change Inv (_, l ++ List.replicate (s.cond.value - s.cond.value) .unit)
        rw [Nat.sub_self]
        exact hinv
      · change 0 - s.cond.queue.length + (s.cond.value - s.cond.value) = 0
        omega

/-- What a broadcast leaves. -/
theorem Inv.broadcast (h : Inv (s, l)) (hfits : (threads l).length = max s.cond.value 1) :
    Inv (s.broadcast t,
      l ++ List.replicate ((s.broadcast t).cond.value - s.cond.value) .unit) := by
  have hok := h.ok.broadcast (t := t)
  have hvalue : (s.broadcast t).cond.value = max s.cond.value 1 := by
    change (s.cond.broadcast t).2.value = _
    rw [PthreadCond.broadcast_eq h.ok]
  rw [hvalue]
  unfold CondSys.broadcast
  rw [PthreadCond.broadcast_eq h.ok] at hok ⊢
  refine @Inv.resume _ _ h _ [] (List.append_nil _).symm _ hok rfl _ ?_ ?_
  · change max s.cond.value 1 = _
    omega
  · omega

-- --------
-- The steps
-- --------

theorem exec_eq_some {q : CondSys × List CondMark} (h : exec (s, l) a = some q) :
    step s a = some q.1 ∧ q.2 = observe l s a := by
  obtain ⟨s₁, hs, rfl⟩ := Option.map_eq_some_iff.1 h
  exact ⟨hs, rfl⟩

theorem step_take : CondSys.step s (.take t) = some s' ↔
    ∃ timeout, s.pc t = .gap timeout ∧ s.take t timeout = s' := by
  change (match s.pc t with | .gap timeout => some (s.take t timeout) | _ => none) = some s' ↔ _
  split
  case h_1 timeout hgap =>
    rw [hgap, Option.some.injEq]
    exact ⟨fun h => ⟨timeout, rfl, h⟩, fun ⟨_, hpc, h⟩ => by cases hpc; exact h⟩
  case h_2 hno =>
    exact iff_of_false nofun fun ⟨timeout, hgap, _⟩ => hno timeout hgap

theorem step_relock : CondSys.step s (.relock t) = some s' ↔ (∃ result, s.pc t = .relock result) ∧
    s.owner = none ∧ CondSys.setPc { s with owner := some t } t .out = s' := by
  change (match s.pc t with
    | .relock _ => Runs.takeIf (s.owner = none) (CondSys.setPc { s with owner := some t } t .out)
    | _ => none) = some s' ↔ _
  split
  case h_1 result hpc =>
    rw [hpc, Runs.takeIf_eq_some]
    exact (and_iff_right ⟨result, rfl⟩).symm
  case h_2 hno => exact iff_of_false nofun fun ⟨⟨result, hpc⟩, _⟩ => hno result hpc

theorem setPc_ne_out {pc : CondPc} (hpc : pc ≠ .out) {u : ThreadId} (hu : s.pc u ≠ .out) :
    (s.setPc t pc).pc u ≠ .out := by
  change Function.update s.pc t pc u ≠ .out
  by_cases hut : u = t
  · subst hut
    rw [Function.update_self]
    exact hpc
  · rw [Function.update_of_ne hut]
    exact hu

theorem resume_ne_out {woken : List ThreadId} {u : ThreadId} (hu : s.pc u ≠ .out) :
    (s.resume woken).pc u ≠ .out := by
  by_cases hmem : u ∈ woken
  · rw [resume_of_mem hmem]
    nofun
  · rw [resume_of_not_mem hmem]
    exact hu

/-- What is asked of a step, from the invariant behind it. -/
theorem Right.of_inv (hs : CondSys.step s a = some s') (hinv : Inv (s', observe l s a))
    (howner : ∀ t, s.pc t ≠ .out → s'.pc t = .out → s'.owner = some t)
    (hcase : Delivered (s, l) s' (observe l s a) a) : Right (s, l) a := by
  intro s₁ l₁ hexec
  obtain ⟨hs₁, rfl⟩ := exec_eq_some hexec
  obtain rfl := Option.some.inj (hs.symm.trans hs₁)
  exact ⟨howner, hinv.le, hcase⟩

/-- **A step that fits is right, and keeps the invariant.** -/
theorem Inv.preserved (h : Inv (s, l)) (hfits : Fits (s, l) a) (hs : CondSys.step s a = some s') :
    Inv (s', observe l s a) ∧ Right (s, l) a := by
  cases a with
  | lock t =>
    obtain ⟨-, rfl⟩ := Runs.takeIf_eq_some.1 hs
    exact ⟨h.owner, Right.of_inv hs h.owner (fun u hu hout => absurd hout hu) trivial⟩
  | unlock t =>
    obtain ⟨-, rfl⟩ := Runs.takeIf_eq_some.1 hs
    exact ⟨h.owner, Right.of_inv hs h.owner (fun u hu hout => absurd hout hu) trivial⟩
  | wait t timeout =>
    obtain ⟨⟨hout, -⟩, rfl⟩ := Runs.takeIf_eq_some.1 hs
    have hinv := @Inv.wait _ _ t (@Inv.owner _ _ h none) hout timeout
    exact ⟨hinv, Right.of_inv hs hinv
      (fun u hu hout => absurd hout (setPc_ne_out (fun h => by cases h) hu)) trivial⟩
  | take t =>
    obtain ⟨timeout, hgap, rfl⟩ := step_take.1 hs
    refine ⟨h.take hgap, Right.of_inv hs (h.take hgap) (fun u hu hout => ?_)
      (hfits ⟨timeout, hgap⟩)⟩
    refine absurd hout (setPc_ne_out (s := { s with cond := (s.cond.rtSemTake t timeout).2 }) ?_ hu)
    split <;> nofun
  | timeout t =>
    obtain ⟨hpc, rfl⟩ := Runs.takeIf_eq_some.1 hs
    exact ⟨h.timeout hpc, Right.of_inv hs (h.timeout hpc)
      (fun u hu hout => absurd hout (setPc_ne_out (fun h => by cases h) hu)) trivial⟩
  | relock t =>
    obtain ⟨⟨result, hpc⟩, -, rfl⟩ := step_relock.1 hs
    have hinv : Inv (CondSys.setPc { s with owner := some t } t .out, l) := by
      refine Inv.setPc h.owner (fun _ h => ?_) (fun _ h => ?_) nofun nofun
      · rw [show s.pc t = _ from h] at hpc
        cases hpc
      · rw [show s.pc t = _ from h] at hpc
        cases hpc
    refine ⟨hinv, Right.of_inv hs hinv (fun u hu hout => ?_) trivial⟩
    by_cases hut : u = t
    · rw [hut]
      rfl
    · have hout : Function.update s.pc t .out u = .out := hout
      rw [Function.update_of_ne hut] at hout
      exact absurd hout hu
  | signal t =>
    obtain ⟨hout, rfl⟩ := Runs.takeIf_eq_some.1 hs
    obtain ⟨hinv, hwake⟩ := h.signal (hfits hout)
    exact ⟨hinv, Right.of_inv hs hinv (fun u hu hout => absurd hout (resume_ne_out hu)) hwake⟩
  | broadcast t =>
    obtain ⟨hout, rfl⟩ := Runs.takeIf_eq_some.1 hs
    have hfits : (threads l).length = max s.cond.value 1 := hfits hout
    have hinv := h.broadcast (t := t) hfits
    refine ⟨hinv, Right.of_inv hs hinv (fun u hu hout => absurd hout (resume_ne_out hu))
      ⟨fun u timed hpc => resume_of_mem ?_, ?_⟩⟩
    · rw [PthreadCond.broadcast_eq h.ok]
      exact (h.queue u).2 ⟨timed, hpc⟩
    · change (s.cond.broadcast t).2.value =
        (threads (l ++ List.replicate ((s.broadcast t).cond.value - s.cond.value) .unit)).length
      rw [PthreadCond.broadcast_eq h.ok, CondMark.threads_units, hfits]

/-- **A step that is right fits.** -/
theorem Inv.fits (h : Inv (s, l)) (hright : Right (s, l) a) : Fits (s, l) a := by
  have hle : s.cond.value ≤ (threads l).length := h.le
  cases a with
  | take t =>
    rintro ⟨timeout, hgap⟩
    have hs : CondSys.step s (.take t) = some (s.take t timeout) := step_take.2 ⟨timeout, hgap, rfl⟩
    exact (hright _ _ (by rw [exec, Runs.execObserved, hs]; rfl)).2.2
  | signal t =>
    intro hout
    have hs : CondSys.step s (.signal t) = some s.signal := Runs.takeIf_eq_some.2 ⟨hout, rfl⟩
    obtain ⟨-, -, hwake⟩ := hright _ _ (by rw [exec, Runs.execObserved, hs]; rfl)
    by_contra hno
    obtain ⟨hqueue, hiff⟩ := not_or.1 hno
    have hqueue := not_not.1 hqueue
    have hwake : s.wakeUps s.signal =
        if s.cond.queue = [] ∧ (threads l).length ≤ s.cond.value then 0 else 1 := hwake
    rw [wakeUps, CondSys.signal] at hwake
    by_cases hlt : s.cond.value < rtSemValueMax
    · have hroom : (threads l).length ≤ s.cond.value := by
        by_contra hroom
        exact hiff (iff_of_true (not_le.1 hroom) hlt)
      rw [PthreadCond.signal_nil hqueue hlt, if_pos ⟨hqueue, hroom⟩] at hwake
      have hwake : s.cond.queue.length - s.cond.queue.length +
        (s.cond.value + 1 - s.cond.value) = 0 := hwake
      omega
    · have hroom : s.cond.value < (threads l).length := by
        by_contra hroom
        exact hiff (iff_of_false hroom hlt)
      rw [PthreadCond.signal_full hqueue hlt, if_neg (fun h => absurd hroom (not_lt.2 h.2))] at hwake
      have hwake : s.cond.queue.length - s.cond.queue.length +
        (s.cond.value - s.cond.value) = 1 := hwake
      omega
  | broadcast t =>
    intro hout
    have hs : CondSys.step s (.broadcast t) = some (s.broadcast t) := Runs.takeIf_eq_some.2 ⟨hout, rfl⟩
    obtain ⟨-, -, -, hvalue⟩ := hright _ _ (by rw [exec, Runs.execObserved, hs]; rfl)
    have hvalue : (s.cond.broadcast t).2.value = (threads (l ++
        List.replicate ((s.broadcast t).cond.value - s.cond.value) .unit)).length := hvalue
    rw [PthreadCond.broadcast_eq h.ok, CondMark.threads_units] at hvalue
    exact hvalue.symm
  | lock t => trivial
  | unlock t => trivial
  | wait t timeout => trivial
  | timeout t => trivial
  | relock t => trivial

/-- **The wake-ups of a condition variable.** Along any list of steps of any threads, the waits, the
signals and the broadcasts are right if and only if every step fits: a signal finds a suspended
thread, or one on its way for which there is no unit, and room in the semaphore; a broadcast
finds as many threads on their way as there are units, and one if there is none; and no
thread comes to the semaphore when the only units there are older than its wait. -/
theorem cond_wakeups (as : List CondAct) :
    Runs.Along exec Right (init, []) as ↔ Runs.Along exec Fits (init, []) as := by
  refine @Runs.along_iff _ _ _ Inv _ _ (fun p a h => ⟨h.fits, fun hfits => ?_⟩) ?_ _ _ inv_init
  · intro s' l' hexec
    obtain ⟨hs, -⟩ := exec_eq_some hexec
    exact (h.preserved hfits hs).2 s' l' hexec
  · rintro p a ⟨s', l'⟩ h hfits hexec
    obtain ⟨hs, rfl⟩ := exec_eq_some hexec
    exact (h.preserved hfits hs).1

/-- A signal that nobody waits for, and a wait that does not block. Then a broadcast while one thread
is suspended: it leaves a unit, and the thread does not block when it waits again. -/
theorem early_signal_kept :
    ¬ Runs.Along exec Right (init, []) [.signal 0] ∧
    ¬ Runs.Along exec Right (init, [])
      [.lock 1, .wait 1 (-1), .take 1, .broadcast 0] ∧
    (Runs.replay step init [.signal 0, .lock 1, .wait 1 (-1), .take 1]).map (fun s => s.pc 1) =
      some (.relock .eok) := by
  refine ⟨fun h => ?_, fun h => ?_, by decide⟩
  · have hle := (h.1 _ _ rfl).2.1
    exact absurd hle (by decide)
  · obtain ⟨-, -, -, hvalue⟩ := (((h.2 _ rfl).2 _ rfl).2 _ rfl).1 _ _ rfl
    exact absurd hvalue (by decide)

end CondSys

end RTThread
