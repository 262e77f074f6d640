import RTThread.Posix.Cond
import RTThread.Lib.SharedLock

/-!
# Read-write locks (`pthread_rwlock.c`)

The counters of a lock are read and written under its mutex. A thread that finds the lock taken
counts itself among those that wait, unlocks the mutex and takes the semaphore of a condition
variable; it counts itself out when it has locked the mutex again. An unlock wakes one writer, or
all readers if no writer waits. The lock is initialized, and mutexes give no errors.

The record `held` is not kept by the code: who has the lock.

`rwlock_shares`: the locks that are given and given back are a run of a lock that many share or one
owns, the counters are right in every state, and a reader gets the lock only when no writer waits.
`rwlock_wakes`: while nobody has the lock and anybody sleeps, some thread comes to the test of the
lock, as long as no writer that is the last one to wait gives up at a lock that nobody has.
-/

namespace RTThread

/-- A reader or a writer. -/
inductive RwKind
  | rd
  | wr
deriving DecidableEq

/-- `pthread_rwlock_try..lock`, `pthread_rwlock_..lock` or `pthread_rwlock_timed..lock`. -/
inductive RwWait
  | tries
  | forever
  | timed
deriving DecidableEq

inductive RwCall
  | lock (k : RwKind) (w : RwWait)
  | unlock
deriving DecidableEq

/-- Where a thread is. -/
inductive RwPc
  | out
  /-- It has locked the mutex, and comes to the test of the loop or to the body of the call. -/
  | locked (call : RwCall)
  /-- In its wait, it has unlocked the mutex and goes to `rt_sem_take`. -/
  | gap (k : RwKind) (w : RwWait) (timeout : Int)
  | suspended (k : RwKind) (w : RwWait) (timed : Bool)
  /-- `rt_sem_take` has returned, and it goes to lock the mutex. -/
  | relock (k : RwKind) (w : RwWait) (result : RtErr)
deriving DecidableEq

namespace RwPc

/-- It has counted itself among those that wait. -/
def waits : RwPc → Option RwKind
  | gap k _ _ => some k
  | suspended k _ _ => some k
  | relock k _ _ => some k
  | _ => none

/-- It sleeps, or is about to. -/
def parked : RwPc → Option RwKind
  | gap k _ _ => some k
  | suspended k _ _ => some k
  | _ => none

def sleeps : RwPc → Option RwKind
  | suspended k _ _ => some k
  | _ => none

/-- `rt_sem_take` of a suspended thread returns `RT_EOK`. -/
def wake : RwPc → RwPc
  | suspended k w _ => .relock k w .eok
  | pc => pc

end RwPc

/-- `pthread_rwlock_t` and the threads. -/
structure RwLock where
  rwRefcount : Int
  rwNwaitreaders : Int
  rwNwaitwriters : Int
  rwCondreaders : PthreadCond
  rwCondwriters : PthreadCond
  /-- Who has locked `rw_mutex`. -/
  rwMutex : Option ThreadId
  pc : ThreadId → RwPc
  held : SharedLock ThreadId

/-- What happens. -/
inductive RwAct
  /-- A call locks the mutex. -/
  | enter (t : ThreadId) (call : RwCall)
  /-- It goes on up to where it unlocks the mutex. A wait with a time-out begins with so many
  ticks. -/
  | body (t : ThreadId) (ticks : Int)
  | take (t : ThreadId)
  | timeout (t : ThreadId)
  | relock (t : ThreadId)
deriving DecidableEq

namespace RwLock

/-- `pthread_rwlock_init` -/
def init : RwLock where
  rwRefcount := 0
  rwNwaitreaders := 0
  rwNwaitwriters := 0
  rwCondreaders := {}
  rwCondwriters := {}
  rwMutex := none
  pc _ := .out
  held := .free

variable (s : RwLock)

def setPc (t : ThreadId) (pc : RwPc) : RwLock := { s with pc := Function.update s.pc t pc }

def cond : RwKind → PthreadCond
  | .rd => s.rwCondreaders
  | .wr => s.rwCondwriters

def setCond (k : RwKind) (c : PthreadCond) : RwLock :=
  match k with
  | .rd => { s with rwCondreaders := c }
  | .wr => { s with rwCondwriters := c }

def nwait : RwKind → Int
  | .rd => s.rwNwaitreaders
  | .wr => s.rwNwaitwriters

def addWait (k : RwKind) (n : Int) : RwLock :=
  match k with
  | .rd => { s with rwNwaitreaders := s.rwNwaitreaders + n }
  | .wr => { s with rwNwaitwriters := s.rwNwaitwriters + n }

/-- The lock is not to be had. -/
def blocked : RwKind → Bool
  | .rd => s.rwRefcount < 0 || 0 < s.rwNwaitwriters
  | .wr => s.rwRefcount ≠ 0

/-- The step of the record that goes with what the code does. -/
def record (a : SharedLock.Act ThreadId) : RwLock :=
  { s with held := (s.held.step a).getD s.held }

def act (k : RwKind) (t : ThreadId) : SharedLock.Act ThreadId :=
  match k with
  | .rd => .share t
  | .wr => .own t

/-- `rw_refcount` of a lock that is given. -/
def taken (k : RwKind) : RwLock :=
  match k with
  | .rd => { s with rwRefcount := s.rwRefcount + 1 }
  | .wr => { s with rwRefcount := -1 }

/-- The loop of a lock from its test on. -/
def attempt (t : ThreadId) (k : RwKind) (w : RwWait) (ticks : Int) :
    RwLock × List (SharedLock.Act ThreadId) :=
  if s.blocked k then
    match w with
    | .tries => ({ s with rwMutex := none }.setPc t .out, [])
    | .forever => ({ s.addWait k 1 with rwMutex := none }.setPc t (.gap k w (-1)), [])
    | .timed => ({ s.addWait k 1 with rwMutex := none }.setPc t (.gap k w ticks), [])
  else ({ (s.taken k).record (act k t) with rwMutex := none }.setPc t .out, [act k t])

/-- The threads of a list are resumed. -/
def woke (pc : ThreadId → RwPc) (woken : List ThreadId) (t : ThreadId) : RwPc :=
  if t ∈ woken then (pc t).wake else pc t

def resume (woken : List ThreadId) : RwLock := { s with pc := woke s.pc woken }

/-- The wake-ups of `pthread_rwlock_unlock`. -/
def wakeups (t : ThreadId) : RwLock :=
  if 0 < s.rwNwaitwriters then
    if s.rwRefcount = 0 then
      { s with rwCondwriters := s.rwCondwriters.signal.2 }.resume s.rwCondwriters.signal.1
    else s
  else if 0 < s.rwNwaitreaders then
    { s with rwCondreaders := (s.rwCondreaders.broadcast t).2 }.resume
      (s.rwCondreaders.broadcast t).1
  else s

/-- `pthread_rwlock_unlock` with the mutex. -/
def unlock (t : ThreadId) : RwLock × List (SharedLock.Act ThreadId) :=
  let refcount := if 0 < s.rwRefcount then s.rwRefcount - 1
    else if s.rwRefcount = -1 then 0 else s.rwRefcount
  let s := { s.record (.release t) with rwRefcount := refcount }
  ({ s.wakeups t with rwMutex := none }.setPc t .out, [.release t])

/-- `rt_sem_take` of the wait. -/
def take (t : ThreadId) (k : RwKind) (w : RwWait) (timeout : Int) : RwLock :=
  let (result, c) := (s.cond k).rtSemTake t timeout
  (s.setCond k c).setPc t (match result with
    | some result => .relock k w result
    | none => .suspended k w (decide (0 < timeout)))

/-- The wait returns: the thread goes back to the test, or out with an error. -/
def back (t : ThreadId) (k : RwKind) (w : RwWait) (result : RtErr) : RwLock :=
  let s := s.addWait k (-1)
  if result = .eok then { s with rwMutex := some t }.setPc t (.locked (.lock k w))
  else s.setPc t .out

/-- **A step**, and the locks that it gives or gives back. -/
def exec (s : RwLock) : RwAct → Option (RwLock × List (SharedLock.Act ThreadId))
  | .enter t call => Runs.takeIf (s.pc t = .out ∧ s.rwMutex = none)
      ({ s with rwMutex := some t }.setPc t (.locked call), [])
  | .body t ticks => match s.pc t with
    | .locked (.lock k w) => some (s.attempt t k w ticks)
    | .locked .unlock => some (s.unlock t)
    | _ => none
  | .take t => match s.pc t with
    | .gap k w timeout => some (s.take t k w timeout, [])
    | _ => none
  | .timeout t => match s.pc t with
    | .suspended k w true =>
      some ((s.setCond k ((s.cond k).timeout t)).setPc t (.relock k w .etimeout), [])
    | _ => none
  | .relock t => match s.pc t with
    | .relock k w result => Runs.takeIf (s.rwMutex = none) (s.back t k w result, [])
    | _ => none

-- --------
-- What is to hold
-- --------

/-- **The thread comes to the test** of the loop: it has locked the mutex for a lock, its wait has
returned `RT_EOK`, or there is a unit for it at the semaphore that it goes to. -/
def Comes (k : RwKind) (t : ThreadId) : Prop :=
  (∃ w, s.pc t = .locked (.lock k w)) ∨ (∃ w, s.pc t = .relock k w .eok) ∨
    ∃ w timeout, s.pc t = .gap k w timeout ∧ 0 < (s.cond k).value

/-- The wait of a writer has ended with an error: it is still counted, and will not come to the
test. -/
def Leaving (t : ThreadId) : Prop := ∃ w r, s.pc t = .relock .wr w r ∧ r ≠ .eok

/-- An unlock is by a thread that has the lock. -/
def Holds : RwAct → Prop
  | .body t _ => s.pc t = .locked .unlock → s.held.Has t
  | _ => True

instance : (a : RwAct) → Decidable (s.Holds a)
  | .body t _ => inferInstanceAs (Decidable (s.pc t = .locked .unlock → s.held.Has t))
  | .enter .. | .take .. | .timeout .. | .relock .. => isTrue trivial

/-- A writer gives up, the last one to wait, at a lock that nobody has and a reader sleeps at. -/
def GivesUp : RwAct → Prop
  | .relock t => s.Leaving t ∧ s.rwNwaitwriters = 1 ∧ s.rwRefcount = 0 ∧
      ∃ u, (s.pc u).parked = some .rd
  | _ => False

-- --------
-- The invariant
-- --------

/-- The threads suspended on a condition variable are those that sleep there. -/
def Queued (pc : ThreadId → RwPc) (k : RwKind) (c : PthreadCond) : Prop :=
  c.Ok ∧ c.queue.Nodup ∧ ∀ t, t ∈ c.queue ↔ (pc t).sleeps = some k

/-- **The invariant**: the counters are right. -/
structure Inv (s : RwLock) : Prop where
  level : s.rwRefcount = s.held.level
  nwait : ∀ k, Counts (fun t => (s.pc t).waits = some k) (s.nwait k)
  queued : ∀ k, Queued s.pc k (s.cond k)

/-- The lock is free at the start. -/
theorem inv_init : Inv init := by
  refine ⟨rfl, fun k => ⟨∅, fun t => ?_, ?_⟩, fun k => ?_⟩
  · exact iff_of_false (Finset.notMem_empty t) fun h => by cases h
  · cases k <;> rfl
  · cases k <;> exact ⟨PthreadCond.ok_init, List.nodup_nil, fun t => by
      simp [init, cond, RwPc.sleeps]⟩

variable {s s' : RwLock} {t u : ThreadId} {k k' : RwKind} {w : RwWait} {pc pc' : ThreadId → RwPc}
  {p : RwPc} {n : Int} {c c' : PthreadCond} {a : RwAct} {es : List (SharedLock.Act ThreadId)}

theorem woke_waits (pc : ThreadId → RwPc) (woken : List ThreadId) (u : ThreadId) :
    (woke pc woken u).waits = (pc u).waits := by
  unfold woke
  split
  · cases pc u <;> rfl
  · rfl

theorem counts_same (h : Counts (fun u => (pc u).waits = some k) n)
    (hp : ∀ u, (pc' u).waits = (pc u).waits) : Counts (fun u => (pc' u).waits = some k) n :=
  h.congr fun u => by rw [hp]

theorem update_waits (hp : p.waits = (pc t).waits) (u : ThreadId) :
    (Function.update pc t p u).waits = (pc u).waits := by
  by_cases hu : u = t
  · rw [hu, Function.update_self, hp]
  · rw [Function.update_of_ne hu]

theorem update_sleeps (hp : p.sleeps = (pc t).sleeps) (u : ThreadId) :
    (Function.update pc t p u).sleeps = (pc u).sleeps := by
  by_cases hu : u = t
  · rw [hu, Function.update_self, hp]
  · rw [Function.update_of_ne hu]

theorem Queued.same (h : Queued pc k c) (hp : ∀ u, (pc' u).sleeps = (pc u).sleeps) :
    Queued pc' k c :=
  ⟨h.1, h.2.1, fun u => by rw [hp]; exact h.2.2 u⟩

/-- One thread more waits, or one less. -/
theorem counts_add (h : Counts (fun u => (pc u).waits = some k) n) (ht : (pc t).waits = none)
    (hp : p.waits = some k') : Counts (fun u => (Function.update pc t p u).waits = some k)
      (n + if k = k' then 1 else 0) := by
  by_cases hk : k = k'
  · subst hk
    rw [if_pos rfl]
    refine h.insert (a := t) (by rw [ht]; simp) fun u => ?_
    by_cases hu : u = t
    · rw [hu, Function.update_self, hp]
      exact iff_of_true rfl (.inl rfl)
    · rw [Function.update_of_ne hu]
      exact (or_iff_right hu).symm
  · rw [if_neg hk, Int.add_zero]
    refine h.congr fun u => ?_
    by_cases hu : u = t
    · rw [hu, Function.update_self, hp, ht]
      exact iff_of_false (by simp) fun h => hk (Option.some.inj h).symm
    · rw [Function.update_of_ne hu]

theorem counts_sub (h : Counts (fun u => (pc u).waits = some k) n) (ht : (pc t).waits = some k')
    (hp : p.waits = none) : Counts (fun u => (Function.update pc t p u).waits = some k)
      (n + if k = k' then -1 else 0) := by
  by_cases hk : k = k'
  · subst hk
    rw [if_pos rfl]
    refine h.erase (a := t) ht fun u => ?_
    by_cases hu : u = t
    · rw [hu, Function.update_self, hp]
      exact iff_of_false (by simp) fun h => h.1 rfl
    · rw [Function.update_of_ne hu]
      exact (and_iff_right hu).symm
  · rw [if_neg hk, Int.add_zero]
    refine h.congr fun u => ?_
    by_cases hu : u = t
    · rw [hu, Function.update_self, hp, ht]
      exact iff_of_false (fun h => hk (Option.some.inj h).symm) (by simp)
    · rw [Function.update_of_ne hu]

theorem nwait_addWait : (s.addWait k' n).nwait k = s.nwait k + if k = k' then n else 0 := by
  cases k <;> cases k' <;> simp [addWait, nwait]

theorem setCond_frame : (s.setCond k c).pc = s.pc ∧ (s.setCond k c).held = s.held ∧
    (s.setCond k c).rwRefcount = s.rwRefcount ∧ (s.setCond k c).nwait = s.nwait := by
  cases k <;> exact ⟨rfl, rfl, rfl, rfl⟩

theorem addWait_frame : (s.addWait k n).pc = s.pc ∧ (s.addWait k n).held = s.held ∧
    (s.addWait k n).rwRefcount = s.rwRefcount ∧ (s.addWait k n).cond = s.cond := by
  cases k <;> exact ⟨rfl, rfl, rfl, rfl⟩

theorem cond_setCond : (s.setCond k' c).cond k = if k = k' then c else s.cond k := by
  cases k <;> cases k' <;> rfl

-- --------
-- The steps
-- --------

/-- A step that lets nobody wait or stop to wait. -/
theorem Inv.same (h : Inv s) (hl : s'.rwRefcount = s'.held.level) (hn : s'.nwait = s.nwait)
    (hc : s'.cond = s.cond) (hw : ∀ u, (s'.pc u).waits = (s.pc u).waits)
    (hs : ∀ u, (s'.pc u).sleeps = (s.pc u).sleeps) : Inv s' where
  level := hl
  nwait k := by rw [hn]; exact counts_same (h.nwait k) hw
  queued k := by rw [hc]; exact (h.queued k).same hs

/-- The body of a call goes on to its return. -/
theorem Inv.out (h : Inv s) {call : RwCall} (hpc : s.pc t = .locked call) :
    Inv ({ s with rwMutex := none }.setPc t .out) :=
  h.same h.level rfl rfl (update_waits (by rw [hpc]; rfl)) (update_sleeps (by rw [hpc]; rfl))

/-- The threads that are resumed leave the queue. -/
theorem Queued.resumed (h : Queued pc k c) {woken : List ThreadId} (hok : c'.Ok)
    (hsplit : c.queue = woken ++ c'.queue) :
    Queued (woke pc woken) k c' := by
  obtain ⟨-, hnodup, hmem⟩ := h
  rw [hsplit] at hnodup
  have hdisj := (List.nodup_append.mp hnodup).2.2
  refine ⟨hok, (List.nodup_append.mp hnodup).2.1, fun u => ?_⟩
  have hu := hmem u
  rw [hsplit, List.mem_append] at hu
  by_cases hw : u ∈ woken
  · rw [woke, if_pos hw]
    refine iff_of_false (fun hq => hdisj u hw u hq rfl) ?_
    cases pc u <;> simp [RwPc.wake, RwPc.sleeps]
  · rw [woke, if_neg hw, ← hu]
    exact (or_iff_right hw).symm

/-- The queue of the others is as it was. -/
theorem Queued.others (h : Queued pc k c) {woken : List ThreadId}
    (hw : ∀ u ∈ woken, (pc u).sleeps ≠ some k) :
    Queued (woke pc woken) k c := by
  refine ⟨h.1, h.2.1, fun u => ?_⟩
  rw [h.2.2]
  by_cases hu : u ∈ woken
  · rw [woke, if_pos hu]
    refine iff_of_false (hw u hu) ?_
    cases pc u <;> simp [RwPc.wake, RwPc.sleeps]
  · rw [woke, if_neg hu]

/-- The lock is given, and the record goes with it. -/
theorem taken_step (h : Inv s) (hb : s.blocked k = false) :
    ∃ held, s.held.step (act k t) = some held ∧ (s.taken k).rwRefcount = held.level := by
  have hl := h.level
  cases k with
  | rd =>
    have hpos : ¬ s.rwRefcount < 0 := by
      intro hlt
      simp [blocked, hlt] at hb
    obtain ⟨held, hstep, hlevel⟩ := SharedLock.step_share (a := t)
      (show 0 ≤ s.held.level by omega)
    exact ⟨held, hstep, by rw [hlevel, ← hl]; rfl⟩
  | wr =>
    have hzero : s.held.level = 0 := by
      rw [← hl]
      simpa [blocked] using hb
    obtain ⟨held, hstep, hlevel⟩ := SharedLock.step_own (a := t) hzero
    exact ⟨held, hstep, hlevel.symm⟩

theorem taken_same : (s.taken k).nwait = s.nwait ∧ (s.taken k).cond = s.cond ∧
    (s.taken k).pc = s.pc ∧ (s.taken k).held = s.held := by
  cases k <;> exact ⟨rfl, rfl, rfl, rfl⟩

/-- A thread begins to wait. -/
theorem Inv.waits (h : Inv s) (hpc : s.pc t = .locked (.lock k w)) (ticks : Int) :
    Inv ({ s.addWait k 1 with rwMutex := none }.setPc t (.gap k w ticks)) := by
  obtain ⟨hp, hheld, href, hc⟩ := addWait_frame (s := s) (k := k) (n := 1)
  refine ⟨?_, fun k' => ?_, fun k' => ?_⟩
  · show (s.addWait k 1).rwRefcount = (s.addWait k 1).held.level
    rw [hheld, href, h.level]
  · show Counts (fun u => (Function.update (s.addWait k 1).pc t _ u).waits = some k')
      ((s.addWait k 1).nwait k')
    rw [hp, nwait_addWait]
    exact counts_add (h.nwait k') (by rw [hpc]; rfl) rfl
  · show Queued (Function.update (s.addWait k 1).pc t _) k' ((s.addWait k 1).cond k')
    rw [hp, hc]
    exact (h.queued k').same (update_sleeps (by rw [hpc]; rfl))

/-- A test of the lock follows the abstract one. -/
theorem attempt_inv (h : Inv s) (hpc : s.pc t = .locked (.lock k w)) (ticks : Int) :
    Inv (s.attempt t k w ticks).1 ∧
      (s.attempt t k w ticks).2.foldlM SharedLock.step s.held =
        some (s.attempt t k w ticks).1.held := by
  have hout : RwPc.waits .out = (s.pc t).waits ∧ RwPc.sleeps .out = (s.pc t).sleeps := by
    rw [hpc]
    exact ⟨rfl, rfl⟩
  have hadd : (s.addWait k 1).held = s.held := addWait_frame.2.1
  unfold attempt
  cases hb : s.blocked k with
  | true =>
    rw [if_pos rfl]
    cases w with
    | tries => exact ⟨h.out hpc, rfl⟩
    | forever => exact ⟨h.waits hpc (-1), congrArg some hadd.symm⟩
    | timed => exact ⟨h.waits hpc ticks, congrArg some hadd.symm⟩
  | false =>
    rw [if_neg Bool.false_ne_true]
    obtain ⟨held, hstep, hlevel⟩ := taken_step (t := t) h hb
    obtain ⟨hn, hc, hp, hh⟩ := taken_same (s := s) (k := k)
    have hrec : ((s.taken k).record (act k t)).held = held := by
      rw [record, hh, hstep]
      rfl
    refine ⟨h.same ?_ hn hc ?_ ?_, ?_⟩
    · exact hlevel.trans (congrArg SharedLock.level hrec.symm)
    · show ∀ u, (Function.update (s.taken k).pc t _ u).waits = _
      rw [hp]
      exact update_waits hout.1
    · show ∀ u, (Function.update (s.taken k).pc t _ u).sleeps = _
      rw [hp]
      exact update_sleeps hout.2
    · rw [List.foldlM_cons, hstep]
      exact congrArg some hrec.symm

/-- The threads in the queue of a condition variable are those that sleep there. -/
theorem Inv.resumes (h : Inv s) {woken : List ThreadId} (hok : c.Ok)
    (hsplit : (s.cond k').queue = woken ++ c.queue) :
    Inv ((s.setCond k' c).resume woken) := by
  obtain ⟨hpc, hheld, href, hn⟩ := setCond_frame (s := s) (k := k') (c := c)
  refine ⟨?_, fun k => ?_, fun k => ?_⟩
  · show (s.setCond k' c).rwRefcount = (s.setCond k' c).held.level
    rw [hheld, href, h.level]
  · show Counts (fun u => (woke (s.setCond k' c).pc woken u).waits = some k)
      ((s.setCond k' c).nwait k)
    rw [hpc, hn]
    exact counts_same (h.nwait k) (woke_waits s.pc woken)
  · show Queued (woke (s.setCond k' c).pc woken) k ((s.setCond k' c).cond k)
    rw [hpc, cond_setCond]
    by_cases hk : k = k'
    · subst hk
      rw [if_pos rfl]
      exact (h.queued k).resumed hok hsplit
    · rw [if_neg hk]
      refine (h.queued k).others fun u hu hs => hk ?_
      have hmem : u ∈ (s.cond k').queue := by rw [hsplit]; exact List.mem_append_left _ hu
      rw [(h.queued k').2.2] at hmem
      exact Option.some.inj (hs.symm.trans hmem)

/-- The wake-ups of an unlock take from a queue whom they resume. -/
theorem wakeups_eq (h : Inv s) : s.wakeups t = s ∨ ∃ k c woken, c.Ok ∧
    (s.cond k).queue = woken ++ c.queue ∧ s.wakeups t = (s.setCond k c).resume woken := by
  unfold wakeups
  split
  · split
    · obtain ⟨hsplit, -, -⟩ := (h.queued .wr).1.release
      exact .inr ⟨.wr, _, _, (h.queued .wr).1.signal, hsplit, rfl⟩
    · exact .inl rfl
  · split
    · have hb : s.rwCondreaders.broadcast t = _ := PthreadCond.broadcast_eq (h.queued .rd).1
      refine .inr ⟨.rd, _, _, (h.queued .rd).1.broadcast, ?_, rfl⟩
      show s.rwCondreaders.queue = (s.rwCondreaders.broadcast t).1 ++
        (s.rwCondreaders.broadcast t).2.queue
      rw [hb]
      exact (List.append_nil _).symm
    · exact .inl rfl

theorem Inv.wakeups (h : Inv s) : Inv (s.wakeups t) := by
  rcases wakeups_eq (t := t) h with heq | ⟨k, c, woken, hok, hsplit, heq⟩
  · rw [heq]
    exact h
  · rw [heq]
    exact h.resumes hok hsplit

theorem wakeups_held : (s.wakeups t).held = s.held := by
  unfold RwLock.wakeups
  split
  · split <;> rfl
  · split <;> rfl

/-- Who comes to the body of a call neither waits nor sleeps behind the wake-ups. -/
theorem wakeups_pc (h : Inv s) {call : RwCall} (hpc : s.pc t = .locked call) :
    (s.wakeups t).pc t = .locked call := by
  rcases wakeups_eq (t := t) h with heq | ⟨k, c, woken, hok, hsplit, heq⟩
  · rw [heq, hpc]
  · rw [heq]
    have hset : (s.setCond k c).pc = s.pc := setCond_frame.1
    show woke (s.setCond k c).pc woken t = _
    rw [hset, woke, hpc]
    split <;> rfl

/-- `rw_refcount` behind an unlock. -/
def given (r : Int) : Int := if 0 < r then r - 1 else if r = -1 then 0 else r

/-- The counter follows the abstract lock. -/
theorem release_step (h : Inv s) (hhas : s.held.Has t) : ∃ held,
    s.held.step (.release t) = some held ∧ given s.rwRefcount = held.level := by
  obtain ⟨held, hstep, hlevel⟩ := SharedLock.step_release hhas
  refine ⟨held, hstep, ?_⟩
  have hne := hhas.level_ne
  have hbound : s.held.level = -1 ∨ 0 ≤ s.held.level := by
    unfold SharedLock.level
    split
    · exact .inl rfl
    · exact .inr (Int.natCast_nonneg _)
  rw [hlevel, h.level, given]
  split <;> split <;> omega

/-- The lock as an unlock leaves it in front of its wake-ups. -/
def freed (s : RwLock) (t : ThreadId) : RwLock :=
  { s.record (.release t) with rwRefcount := given s.rwRefcount }

theorem freed_inv (h : Inv s) (hhas : s.held.Has t) : Inv (s.freed t) ∧
    s.held.step (.release t) = some (s.freed t).held := by
  obtain ⟨held, hstep, hlevel⟩ := release_step h hhas
  have hrec : (s.freed t).held = held := by
    show (s.held.step (.release t)).getD s.held = held
    rw [hstep]
    rfl
  refine ⟨h.same ?_ rfl rfl (fun u => rfl) (fun u => rfl), by rw [hrec, hstep]⟩
  rw [hrec]
  exact hlevel

/-- `pthread_rwlock_unlock` is a release of the abstract lock. -/
theorem unlock_inv (h : Inv s) (hpc : s.pc t = .locked .unlock) (hhas : s.held.Has t) :
    Inv (s.unlock t).1 ∧ (s.unlock t).2.foldlM SharedLock.step s.held =
      some (s.unlock t).1.held := by
  obtain ⟨hfreed, hstep⟩ := freed_inv h hhas
  have hunlock : s.unlock t =
    ({ (s.freed t).wakeups t with rwMutex := none }.setPc t .out, [.release t]) := rfl
  rw [hunlock]
  refine ⟨hfreed.wakeups.out (wakeups_pc hfreed hpc), ?_⟩
  rw [List.foldlM_cons, hstep]
  exact congrArg some wakeups_held.symm

/-- A thread that waits moves, at its own condition variable. -/
theorem Inv.moves (h : Inv s) (hw : p.waits = (s.pc t).waits)
    (hq : Queued (Function.update s.pc t p) k c)
    (hp : p.sleeps = none ∨ p.sleeps = some k)
    (ht : (s.pc t).sleeps = none ∨ (s.pc t).sleeps = some k) :
    Inv ((s.setCond k c).setPc t p) := by
  obtain ⟨hpc, hheld, href, hn⟩ := setCond_frame (s := s) (k := k) (c := c)
  refine ⟨?_, fun k' => ?_, fun k' => ?_⟩
  · show (s.setCond k c).rwRefcount = (s.setCond k c).held.level
    rw [hheld, href, h.level]
  · show Counts (fun u => (Function.update (s.setCond k c).pc t p u).waits = some k')
      ((s.setCond k c).nwait k')
    rw [hpc, hn]
    exact counts_same (h.nwait k') (update_waits hw)
  · show Queued (Function.update (s.setCond k c).pc t p) k' ((s.setCond k c).cond k')
    rw [hpc, cond_setCond]
    by_cases hk : k' = k
    · rw [if_pos hk, hk]
      exact hq
    · rw [if_neg hk]
      have hother : ∀ {q : RwPc}, q.sleeps = none ∨ q.sleeps = some k → q.sleeps ≠ some k' := by
        rintro q (hq | hq) h
        · rw [hq] at h
          cases h
        · exact hk (Option.some.inj (h.symm.trans hq))
      obtain ⟨hok, hnodup, hmem⟩ := h.queued k'
      refine ⟨hok, hnodup, fun u => ?_⟩
      rw [hmem]
      by_cases hu : u = t
      · rw [hu, Function.update_self]
        exact iff_of_false (hother ht) (hother hp)
      · rw [Function.update_of_ne hu]

/-- A waiter takes the semaphore of its condition, or is suspended. -/
theorem take_inv (h : Inv s) {timeout : Int} (hpc : s.pc t = .gap k w timeout) :
    Inv (s.take t k w timeout) ∧ (s.take t k w timeout).held = s.held := by
  refine ⟨?_, setCond_frame.2.1⟩
  have hgap : (s.pc t).sleeps = none := by rw [hpc]; rfl
  obtain ⟨hok, hnodup, hmem⟩ := h.queued k
  have htake := hok.take (t := t) timeout
  unfold take
  by_cases hpos : 0 < (s.cond k).value
  · rw [PthreadCond.take_of_pos hpos] at htake ⊢
    refine h.moves (by rw [hpc]; rfl) ?_ (.inl rfl) (.inl hgap)
    exact Queued.same ⟨htake, hnodup, hmem⟩ (update_sleeps hgap.symm)
  · have hzero : (s.cond k).value = 0 := by omega
    by_cases htime : timeout = 0
    · rw [PthreadCond.take_of_zero hzero htime]
      refine h.moves (by rw [hpc]; rfl) ?_ (.inl rfl) (.inl hgap)
      exact (h.queued k).same (update_sleeps hgap.symm)
    · rw [PthreadCond.take_suspends hzero htime] at htake ⊢
      have hnot : t ∉ (s.cond k).queue := by
        rw [hmem, hgap]
        simp
      refine h.moves (by rw [hpc]; rfl) ⟨htake, ?_, fun u => ?_⟩ (.inr rfl) (.inl hgap)
      · exact List.nodup_append.mpr ⟨hnodup, List.nodup_singleton t, by
          rintro a ha b hb rfl
          exact hnot (List.mem_singleton.mp hb ▸ ha)⟩
      · show u ∈ (s.cond k).queue ++ [t] ↔ _
        rw [List.mem_append, List.mem_singleton, hmem]
        by_cases hu : u = t
        · rw [hu, Function.update_self]
          exact iff_of_true (.inr rfl) rfl
        · rw [Function.update_of_ne hu]
          exact or_iff_left hu

/-- A wait ends by its time-out. -/
theorem timeout_inv (h : Inv s) (hpc : s.pc t = .suspended k w true) :
    Inv ((s.setCond k ((s.cond k).timeout t)).setPc t (.relock k w .etimeout)) := by
  obtain ⟨hok, hnodup, hmem⟩ := h.queued k
  refine h.moves (by rw [hpc]; rfl) ⟨hok.timeout, hnodup.erase t, fun u => ?_⟩ (.inl rfl)
    (.inr (by rw [hpc]; rfl))
  show u ∈ (s.cond k).queue.erase t ↔ _
  rw [hnodup.mem_erase_iff, hmem]
  by_cases hu : u = t
  · rw [hu, Function.update_self]
    exact iff_of_false (fun h => h.1 rfl) (by simp [RwPc.sleeps])
  · rw [Function.update_of_ne hu]
    exact and_iff_right hu

/-- A waiter has the mutex again. -/
theorem back_inv (h : Inv s) {result : RtErr} (hpc : s.pc t = .relock k w result) :
    Inv (s.back t k w result) ∧ (s.back t k w result).held = s.held := by
  obtain ⟨hp, hheld, href, hc⟩ := addWait_frame (s := s) (k := k) (n := -1)
  have hall : ∀ {p : RwPc} (m : Option ThreadId), p.waits = none → p.sleeps = none →
      Inv ({ s.addWait k (-1) with rwMutex := m }.setPc t p) := by
    intro p m hw hs
    refine ⟨?_, fun k' => ?_, fun k' => ?_⟩
    · show (s.addWait k (-1)).rwRefcount = (s.addWait k (-1)).held.level
      rw [hheld, href, h.level]
    · show Counts (fun u => (Function.update (s.addWait k (-1)).pc t p u).waits = some k')
        ((s.addWait k (-1)).nwait k')
      rw [hp, nwait_addWait]
      exact counts_sub (h.nwait k') (by rw [hpc]; rfl) hw
    · show Queued (Function.update (s.addWait k (-1)).pc t p) k' ((s.addWait k (-1)).cond k')
      rw [hp, hc]
      exact (h.queued k').same (update_sleeps (by rw [hpc, hs]; rfl))
  unfold back
  split
  · exact ⟨hall (some t) rfl rfl, hheld⟩
  · exact ⟨hall _ rfl rfl, hheld⟩

/-- The steps, by what the thread comes to. -/
inductive Goes (s : RwLock) : RwAct → RwLock → List (SharedLock.Act ThreadId) → Prop
  | enter (t : ThreadId) (call : RwCall) (hpc : s.pc t = .out) :
    Goes s (.enter t call) ({ s with rwMutex := some t }.setPc t (.locked call)) []
  | lock (t : ThreadId) (ticks : Int) (k : RwKind) (w : RwWait)
    (hpc : s.pc t = .locked (.lock k w)) :
    Goes s (.body t ticks) (s.attempt t k w ticks).1 (s.attempt t k w ticks).2
  | unlock (t : ThreadId) (ticks : Int) (hpc : s.pc t = .locked .unlock) :
    Goes s (.body t ticks) (s.unlock t).1 (s.unlock t).2
  | take (t : ThreadId) (k : RwKind) (w : RwWait) (timeout : Int)
    (hpc : s.pc t = .gap k w timeout) : Goes s (.take t) (s.take t k w timeout) []
  | timeout (t : ThreadId) (k : RwKind) (w : RwWait) (hpc : s.pc t = .suspended k w true) :
    Goes s (.timeout t) ((s.setCond k ((s.cond k).timeout t)).setPc t (.relock k w .etimeout)) []
  | relock (t : ThreadId) (k : RwKind) (w : RwWait) (result : RtErr)
    (hpc : s.pc t = .relock k w result) : Goes s (.relock t) (s.back t k w result) []

theorem exec_goes (hs : s.exec a = some (s', es)) : Goes s a s' es := by
  cases a with
  | enter t call =>
    obtain ⟨⟨hpc, -⟩, heq⟩ := Runs.takeIf_eq_some.1 hs
    cases heq
    exact .enter t call hpc
  | body t ticks =>
    cases hpc : s.pc t with
    | locked call =>
      cases call with
      | lock k w =>
        have heq : s.attempt t k w ticks = (s', es) := by simpa [exec, hpc] using hs
        have hgoes := Goes.lock t ticks k w hpc
        rw [heq] at hgoes
        exact hgoes
      | unlock =>
        have heq : s.unlock t = (s', es) := by simpa [exec, hpc] using hs
        have hgoes := Goes.unlock t ticks hpc
        rw [heq] at hgoes
        exact hgoes
    | _ => simp [exec, hpc] at hs
  | take t =>
    cases hpc : s.pc t with
    | gap k w timeout =>
      obtain ⟨rfl, rfl⟩ : s.take t k w timeout = s' ∧ [] = es := by simpa [exec, hpc] using hs
      exact .take t k w timeout hpc
    | _ => simp [exec, hpc] at hs
  | timeout t =>
    cases hpc : s.pc t with
    | suspended k w timed =>
      cases timed with
      | true =>
        obtain ⟨rfl, rfl⟩ : (s.setCond k ((s.cond k).timeout t)).setPc t (.relock k w .etimeout) =
          s' ∧ [] = es := by simpa [exec, hpc] using hs
        exact .timeout t k w hpc
      | false => simp [exec, hpc] at hs
    | _ => simp [exec, hpc] at hs
  | relock t =>
    cases hpc : s.pc t with
    | relock k w result =>
      obtain ⟨-, rfl, rfl⟩ : s.rwMutex = none ∧ s.back t k w result = s' ∧ [] = es := by
        simpa [exec, hpc, Runs.takeIf_eq_some] using hs
      exact .relock t k w result hpc
    | _ => simp [exec, hpc] at hs

/-- **The invariant**, and the record is a step of the lock that many share or one owns. -/
theorem exec_inv (h : Inv s) (hholds : s.Holds a) (hs : s.exec a = some (s', es)) :
    Inv s' ∧ es.foldlM SharedLock.step s.held = some s'.held := by
  cases exec_goes hs with
  | enter t call hpc =>
    exact ⟨h.same h.level rfl rfl (update_waits (by rw [hpc]; rfl))
      (update_sleeps (by rw [hpc]; rfl)), rfl⟩
  | lock t ticks k w hpc => exact attempt_inv h hpc ticks
  | unlock t ticks hpc => exact unlock_inv h hpc (hholds hpc)
  | take t k w timeout hpc =>
    obtain ⟨hinv, hheld⟩ := take_inv h hpc
    exact ⟨hinv, congrArg some hheld.symm⟩
  | timeout t k w hpc => exact ⟨timeout_inv h hpc, congrArg some setCond_frame.2.1.symm⟩
  | relock t k w result hpc =>
    obtain ⟨hinv, hheld⟩ := back_inv h hpc
    exact ⟨hinv, congrArg some hheld.symm⟩

-- --------
-- Nobody is left behind
-- --------

/-- **The second invariant.** At a lock that nobody has, a writer that sleeps has a writer that
comes to the test. A reader has a reader or a writer there, if no writer waits. -/
structure Watched (s : RwLock) : Prop where
  writers : s.rwRefcount = 0 → (∃ t, (s.pc t).parked = some .wr) → ∃ t, s.Comes .wr t
  readers : s.rwRefcount = 0 → s.rwNwaitwriters = 0 → (∃ t, (s.pc t).parked = some .rd) →
    ∃ t, s.Comes .rd t ∨ ∃ w, s.pc t = .locked (.lock .wr w)

/-- A step that parks nobody, and after which those that come still come. -/
theorem Watched.kept (h : Watched s) (href : s'.rwRefcount = s.rwRefcount)
    (hn : s.rwRefcount = 0 → s'.rwNwaitwriters = 0 → (∃ u, (s.pc u).parked = some .rd) →
      s.rwNwaitwriters = 0)
    (hpark : ∀ k u, (s'.pc u).parked = some k → (s.pc u).parked = some k)
    (hcomes : ∀ k u, s.Comes k u → ∃ v, s'.Comes k v)
    (hlocked : ∀ u w, s.pc u = .locked (.lock .wr w) → s'.pc u = .locked (.lock .wr w)) :
    Watched s' := by
  constructor
  · rintro hr ⟨u, hu⟩
    rw [href] at hr
    obtain ⟨v, hv⟩ := h.writers hr ⟨u, hpark _ u hu⟩
    exact hcomes _ v hv
  · rintro hr hw ⟨u, hu⟩
    rw [href] at hr
    obtain ⟨v, hv | ⟨w, hv⟩⟩ := h.readers hr (hn hr hw ⟨u, hpark _ u hu⟩) ⟨u, hpark _ u hu⟩
    · obtain ⟨v', hv'⟩ := hcomes _ v hv
      exact ⟨v', .inl hv'⟩
    · exact ⟨v, .inr ⟨w, hlocked v w hv⟩⟩

/-- At a lock that somebody has there is nothing to show. -/
theorem watched_of_ne (h : s.rwRefcount ≠ 0) : Watched s :=
  ⟨fun hr => absurd hr h, fun hr => absurd hr h⟩

/-- Another thread than the one that moves comes as before. -/
theorem Comes.other {s s' : RwLock} {u : ThreadId} (h : s.Comes k u) (hpc : s'.pc u = s.pc u)
    (hc : (s.cond k).value ≤ (s'.cond k).value) : s'.Comes k u := by
  rcases h with ⟨w, h⟩ | ⟨w, h⟩ | ⟨w, timeout, h, hpos⟩
  · exact .inl ⟨w, hpc.trans h⟩
  · exact .inr (.inl ⟨w, hpc.trans h⟩)
  · exact .inr (.inr ⟨w, timeout, hpc.trans h, lt_of_lt_of_le hpos hc⟩)

/-- Where a thread moves, the others are where they were. -/
theorem Watched.moves (h : Watched s) (hpc : s'.pc = Function.update s.pc t p)
    (href : s'.rwRefcount = s.rwRefcount)
    (hn : s.rwRefcount = 0 → s'.rwNwaitwriters = 0 → (∃ u, (s.pc u).parked = some .rd) →
      s.rwNwaitwriters = 0)
    (hc : ∀ k u, u ≠ t → s.Comes k u → (s.cond k).value ≤ (s'.cond k).value ∨ s'.Comes k t)
    (hpark : ∀ k, p.parked = some k → (s.pc t).parked = some k)
    (ht : ∀ k, s.Comes k t → s'.Comes k t) (hl : ∀ w, s.pc t ≠ .locked (.lock .wr w)) :
    Watched s' := by
  have hother : ∀ u, u ≠ t → s'.pc u = s.pc u := fun u hu => by
    rw [hpc, Function.update_of_ne hu]
  refine h.kept href hn (fun k u hu => ?_) (fun k u hu => ?_) (fun u w hu => ?_)
  · by_cases hut : u = t
    · rw [hut, hpc, Function.update_self] at hu
      rw [hut]
      exact hpark k hu
    · rwa [hother u hut] at hu
  · by_cases hut : u = t
    · exact ⟨t, ht k (hut ▸ hu)⟩
    · rcases hc k u hut hu with hle | hcomes
      · exact ⟨u, hu.other (hother u hut) hle⟩
      · exact ⟨t, hcomes⟩
  · have hut : u ≠ t := by
      rintro rfl
      exact hl w hu
    rw [hother u hut, hu]

/-- Who is woken comes, or a unit is there for who goes to the semaphore. -/
theorem comes_of_wake (h : Inv s) {woken : List ThreadId}
    (h' : Inv ((s.setCond k c).resume woken)) (hsplit : (s.cond k).queue = woken ++ c.queue)
    (hwake : woken ≠ [] ∨ 0 < c.value)
    (hu : (((s.setCond k c).resume woken).pc u).parked = some k) :
    ∃ v, ((s.setCond k c).resume woken).Comes k v := by
  have hset : (s.setCond k c).pc = s.pc := setCond_frame.1
  have hcond : ((s.setCond k c).resume woken).cond k = c := by cases k <;> rfl
  rcases hwake with hne | hpos
  · obtain ⟨v, rest, rfl⟩ := List.exists_cons_of_ne_nil hne
    have hv : v ∈ (s.cond k).queue := by rw [hsplit]; exact List.mem_append_left _ (by simp)
    rw [(h.queued k).2.2] at hv
    refine ⟨v, .inr (.inl ?_)⟩
    show ∃ w, woke (s.setCond k c).pc (v :: rest) v = _
    rw [hset, woke, if_pos List.mem_cons_self]
    cases hp : s.pc v with
    | suspended k' w timed =>
      rw [hp] at hv
      obtain rfl : k' = k := Option.some.inj hv
      exact ⟨w, rfl⟩
    | _ => rw [hp] at hv; cases hv
  · obtain ⟨hok, -, hmem⟩ := h'.queued k
    rw [hcond] at hok hmem
    cases hp : ((s.setCond k c).resume woken).pc u with
    | gap k' w timeout =>
      rw [hp] at hu
      obtain rfl : k' = k := Option.some.inj hu
      exact ⟨u, .inr (.inr ⟨w, timeout, hp, by rw [hcond]; exact hpos⟩)⟩
    | suspended k' w timed =>
      rw [hp] at hu
      obtain rfl : k' = k := Option.some.inj hu
      have hq := (hmem u).mpr (by rw [hp]; rfl)
      rw [hok.empty hpos] at hq
      cases hq
    | _ => rw [hp] at hu; cases hu

theorem parked_waits (h : p.parked = some k) : p.waits = some k := by
  cases p <;> first | exact h | cases h

theorem nwait_pos (h : Inv s) (hu : (s.pc u).waits = some k) : 0 < s.nwait k :=
  (h.nwait k).pos_iff.mpr ⟨u, hu⟩

/-- The wake-ups of an unlock. -/
theorem wakeups_watched (h : Inv s) : Watched (s.wakeups t) := by
  have hinv := h.wakeups (t := t)
  unfold RwLock.wakeups at hinv ⊢
  split at hinv
  case isTrue hw =>
    rw [if_pos hw]
    by_cases hr : s.rwRefcount = 0
    · rw [if_pos hr] at hinv ⊢
      obtain ⟨hsplit, -, hwake⟩ := (h.queued .wr).1.release
      exact ⟨fun _ ⟨u, hu⟩ => comes_of_wake (k := .wr) h hinv hsplit hwake hu,
        fun _ (hzero : s.rwNwaitwriters = 0) => absurd hw (by rw [hzero]; decide)⟩
    · rw [if_neg hr]
      exact watched_of_ne hr
  case isFalse hw =>
    have hnone : ∀ {f : RwLock}, Inv f → f.rwNwaitwriters = s.rwNwaitwriters →
        ∀ u, (f.pc u).parked ≠ some .wr := fun hf hn u hu =>
      hw (hn ▸ nwait_pos (k := .wr) hf (parked_waits hu))
    rw [if_neg hw]
    by_cases hr : 0 < s.rwNwaitreaders
    · rw [if_pos hr] at hinv ⊢
      have hb : s.rwCondreaders.broadcast t = _ := PthreadCond.broadcast_eq (h.queued .rd).1
      refine ⟨fun _ ⟨u, hu⟩ => absurd hu (hnone hinv rfl u), fun _ _ ⟨u, hu⟩ => ?_⟩
      obtain ⟨v, hv⟩ := comes_of_wake (k := .rd) h hinv
        (by rw [hb]; exact (List.append_nil _).symm)
        (.inr (by rw [hb]; exact lt_max_of_lt_right Nat.one_pos)) hu
      exact ⟨v, .inl hv⟩
    · rw [if_neg hr] at hinv ⊢
      exact ⟨fun _ ⟨u, hu⟩ => absurd hu (hnone h rfl u),
        fun _ _ ⟨u, hu⟩ => absurd (nwait_pos (k := .rd) h (parked_waits hu)) hr⟩

theorem Comes.not_idle (h : s.Comes k t) : s.pc t ≠ .out ∧ s.pc t ≠ .locked .unlock ∧
    (s.pc t).sleeps = none := by
  rcases h with ⟨w, h⟩ | ⟨w, h⟩ | ⟨w, timeout, h, -⟩ <;> rw [h] <;> exact ⟨by simp, by simp, rfl⟩

theorem cond_value (hc : c.value = (s.cond k).value) (k' : RwKind) :
    (s.cond k').value ≤ (((s.setCond k c).setPc t p).cond k').value := by
  show _ ≤ ((s.setCond k c).cond k').value
  rw [cond_setCond]
  split
  case isTrue hk => rw [hk, hc]
  case isFalse => exact le_rfl

theorem attempt_watched (hw : Watched s) (hpc : s.pc t = .locked (.lock k w)) (ticks : Int) :
    Watched (s.attempt t k w ticks).1 := by
  cases hb : s.blocked k with
  | false =>
    have hne : (s.taken k).rwRefcount ≠ 0 := by
      cases k with
      | rd =>
        have hpos : ¬ s.rwRefcount < 0 := fun hlt => by simp [blocked, hlt] at hb
        show s.rwRefcount + 1 ≠ 0
        omega
      | wr => exact (by decide : (-1 : Int) ≠ 0)
    unfold attempt
    rw [hb, if_neg Bool.false_ne_true]
    exact watched_of_ne hne
  | true =>
    -- a reader that is kept out by writers leaves the writers as they are
    obtain ⟨p, hp, hpark, href, hn, hc⟩ : ∃ p, (s.attempt t k w ticks).1.pc =
        Function.update s.pc t p ∧ (p.parked = none ∨ p.parked = some k) ∧
        (s.attempt t k w ticks).1.rwRefcount = s.rwRefcount ∧
        (k = .rd → (s.attempt t k w ticks).1.rwNwaitwriters = s.rwNwaitwriters) ∧
        (s.attempt t k w ticks).1.cond = s.cond := by
      unfold attempt
      rw [hb, if_pos rfl]
      cases w with
      | tries => exact ⟨.out, rfl, .inl rfl, rfl, fun _ => rfl, rfl⟩
      | forever => cases k <;> exact ⟨_, rfl, .inr rfl, rfl, fun hk => by cases hk <;> rfl, rfl⟩
      | timed => cases k <;> exact ⟨_, rfl, .inr rfl, rfl, fun hk => by cases hk <;> rfl, rfl⟩
    by_cases hr : s.rwRefcount = 0
    · cases k with
      | wr => simp [blocked, hr] at hb
      | rd =>
        have hpos : 0 < s.rwNwaitwriters := by simpa [blocked, hr] using hb
        refine ⟨fun _ ⟨u, hu⟩ => ?_, fun _ hzero => absurd hpos (by rw [← hn rfl, hzero]; decide)⟩
        have hut : u ≠ t := by
          rintro rfl
          rw [hp, Function.update_self] at hu
          rcases hpark with h | h <;> rw [h] at hu <;> cases hu
        rw [hp, Function.update_of_ne hut] at hu
        obtain ⟨v, hv⟩ := hw.writers hr ⟨u, hu⟩
        have hvt : v ≠ t := by
          rintro rfl
          rcases hv with ⟨w', hv⟩ | ⟨w', hv⟩ | ⟨w', n, hv, -⟩ <;> rw [hpc] at hv <;> cases hv
        exact ⟨v, hv.other (by rw [hp, Function.update_of_ne hvt]) (by rw [hc])⟩
    · exact watched_of_ne (by rw [href]; exact hr)

theorem back_watched (hw : Watched s) {result : RtErr}
    (hpc : s.pc t = .relock k w result) (hgives : ¬ s.GivesUp (.relock t)) :
    Watched (s.back t k w result) := by
  obtain ⟨hp, -, href, hc⟩ := addWait_frame (s := s) (k := k) (n := -1)
  have hcomes : ∀ k', s.Comes k' t → k' = k ∧ result = .eok := by
    rintro k' (⟨w', hk⟩ | ⟨w', hk⟩ | ⟨w', n, hk, -⟩) <;> rw [hpc] at hk <;> cases hk
    exact ⟨rfl, rfl⟩
  have hl : ∀ w', s.pc t ≠ .locked (.lock .wr w') := fun w' hl => by rw [hpc] at hl; cases hl
  have hcond : ∀ k' u, u ≠ t → s.Comes k' u → (s.cond k').value ≤
      ((s.addWait k (-1)).cond k').value := fun k' u _ _ => by rw [hc]
  unfold back
  split
  case isTrue hres =>
    have hself : ∀ f : RwLock, (f.setPc t (.locked (.lock k w))).pc t = .locked (.lock k w) :=
      fun f => Function.update_self ..
    cases k with
    | wr => exact ⟨fun _ _ => ⟨t, .inl ⟨w, hself _⟩⟩, fun _ _ _ => ⟨t, .inr ⟨w, hself _⟩⟩⟩
    | rd =>
      refine hw.moves rfl rfl (fun _ hn _ => hn) (fun k' u hu hk => .inl (hcond k' u hu hk))
        (fun k' hp => by cases hp) (fun k' hk => ?_) hl
      obtain ⟨rfl, -⟩ := hcomes k' hk
      exact .inl ⟨w, hself _⟩
  case isFalse hres =>
    refine hw.moves (congrArg (Function.update · t _) hp) href ?_
      (fun k' u hu hk => .inl (hcond k' u hu hk)) (fun k' hp => by cases hp)
      (fun k' hk => absurd (hcomes k' hk).2 hres) hl
    cases k with
    | rd => exact fun _ hn _ => hn
    | wr =>
      -- the last writer gives up
      intro hr (hn : s.rwNwaitwriters + -1 = 0) hpark
      exact absurd ⟨⟨w, result, hpc, hres⟩, by omega, hr, hpark⟩ hgives

/-- **The second invariant is kept** by every step in which no writer gives up. -/
theorem exec_watched (h : Inv s) (hw : Watched s) (hholds : s.Holds a) (hgives : ¬ s.GivesUp a)
    (hs : s.exec a = some (s', es)) : Watched s' := by
  cases exec_goes hs with
  | enter t call hpc =>
    exact hw.moves rfl rfl (fun _ hn _ => hn) (fun k u _ _ => .inl le_rfl) (fun k hp => by cases hp)
      (fun k hk => absurd hpc hk.not_idle.1) (fun w hl => by rw [hpc] at hl; cases hl)
  | lock t ticks k w hpc => exact attempt_watched hw hpc ticks
  | unlock t ticks hpc =>
    have hfreed := (freed_inv h (hholds hpc)).1
    have hpc' : ((s.freed t).wakeups t).pc t = .locked .unlock := wakeups_pc hfreed hpc
    exact (wakeups_watched hfreed).moves rfl rfl (fun _ hn _ => hn) (fun k u _ _ => .inl le_rfl)
      (fun k hp => by cases hp) (fun k hk => absurd hpc' hk.not_idle.2.1)
      (fun w hl => by rw [hpc'] at hl; cases hl)
  | take t k w timeout hpc =>
    have hset := fun c : PthreadCond => setCond_frame (s := s) (k := k) (c := c)
    have hn : ∀ c, (s.setCond k c).rwNwaitwriters = s.rwNwaitwriters :=
      fun c => congrFun (hset c).2.2.2 .wr
    have hl : ∀ w', s.pc t ≠ .locked (.lock .wr w') := fun w' hl => by rw [hpc] at hl; cases hl
    have hcomes : ∀ k', s.Comes k' t → k' = k ∧ 0 < (s.cond k).value := by
      rintro k' (⟨w', hk⟩ | ⟨w', hk⟩ | ⟨w', n, hk, hpos⟩) <;> rw [hpc] at hk <;> cases hk
      exact ⟨rfl, hpos⟩
    unfold take
    by_cases hpos : 0 < (s.cond k).value
    · rw [PthreadCond.take_of_pos hpos]
      have hown : ∀ c, ((s.setCond k c).setPc t (.relock k w .eok)).Comes k t :=
        fun c => .inr (.inl ⟨w, Function.update_self _ _ _⟩)
      refine hw.moves (congrArg (Function.update · t _) (hset _).1) (hset _).2.2.1
        (fun _ hz _ => (hn _).symm.trans hz) (fun k' u _ _ => ?_) (fun k' hp => by cases hp)
        (fun k' hk => (hcomes k' hk).1 ▸ hown _) hl
      by_cases hk : k' = k
      · exact .inr (hk ▸ hown _)
      · exact .inl (le_of_eq (congrArg PthreadCond.value (cond_setCond.trans (if_neg hk)).symm))
    · have hzero : (s.cond k).value = 0 := by omega
      by_cases htime : timeout = 0
      · rw [PthreadCond.take_of_zero hzero htime]
        exact hw.moves (congrArg (Function.update · t _) (hset _).1) (hset _).2.2.1
          (fun _ hz _ => (hn _).symm.trans hz) (fun k' u _ _ => .inl (cond_value rfl k'))
          (fun k' hp => by cases hp) (fun k' hk => absurd (hcomes k' hk).2 hpos) hl
      · rw [PthreadCond.take_suspends hzero htime]
        exact hw.moves (congrArg (Function.update · t _) (hset _).1) (hset _).2.2.1
          (fun _ hz _ => (hn _).symm.trans hz) (fun k' u _ _ => .inl
            (cond_value (c := { s.cond k with queue := (s.cond k).queue ++ [t] }) rfl k'))
          (fun k' hp => by rw [hpc]; exact hp) (fun k' hk => absurd (hcomes k' hk).2 hpos) hl
  | timeout t k w hpc =>
    have hset := fun c : PthreadCond => setCond_frame (s := s) (k := k) (c := c)
    have hn : ∀ c, (s.setCond k c).rwNwaitwriters = s.rwNwaitwriters :=
      fun c => congrFun (hset c).2.2.2 .wr
    exact hw.moves (congrArg (Function.update · t _) (hset _).1) (hset _).2.2.1
      (fun _ hz _ => (hn _).symm.trans hz) (fun k' u _ _ => .inl
        (cond_value (c := (s.cond k).timeout t) rfl k')) (fun k' hp => by cases hp)
      (fun k' hk => by have := hk.not_idle.2.2; rw [hpc] at this; cases this)
      (fun w' hl => by rw [hpc] at hl; cases hl)
  | relock t k w result hpc => exact back_watched hw hpc hgives

theorem watched_init : Watched init :=
  ⟨fun _ ⟨_, hu⟩ => (by cases hu), fun _ _ ⟨_, hu⟩ => (by cases hu)⟩

/-- A writer that waits keeps the readers out. -/
theorem exec_share (h : Inv s) (hs : s.exec a = some (s', es)) (hmem : .share t ∈ es) :
    (s.pc u).waits ≠ some .wr := by
  intro hu
  have hpos : 0 < s.rwNwaitwriters := nwait_pos (k := .wr) h hu
  cases exec_goes hs with
  | enter => cases hmem
  | unlock t' => cases List.mem_singleton.mp hmem
  | take => cases hmem
  | timeout => cases hmem
  | relock => cases hmem
  | lock t' ticks k w hpc =>
    unfold attempt at hmem
    split at hmem
    case isTrue => cases w <;> cases hmem
    case isFalse hb =>
      have heq : .share t = act k t' := List.mem_singleton.mp hmem
      cases k with
      | rd => exact hb (by simp [blocked, hpos])
      | wr => cases heq

/-- **Readers and writers.** In every run in which who unlocks has the lock, the locks that are
given and given back are a run of a lock that many share or one owns. The counters say how the lock
is held and how many wait, and a reader that gets the lock gets it when no writer waits. -/
theorem rwlock_shares {tr : List (SharedLock.Act ThreadId)}
    (hrun : Runs (Runs.Exec (Runs.traced exec)) (fun p a => p.1.Holds a) (init, []) (s, tr)) :
    tr.foldlM SharedLock.step .free = some s.held ∧ s.rwRefcount = s.held.level ∧
      (∀ k, Counts (fun t => (s.pc t).waits = some k) (s.nwait k)) ∧
      ∀ a s' es t u, s.exec a = some (s', es) → .share t ∈ es → (s.pc u).waits ≠ some .wr := by
  obtain ⟨hinv, htr⟩ := @Runs.refines _ _ _ _ _ _ held SharedLock.step Inv _ _
    (fun s _ a s' es hinv hok hs => exec_inv hinv hok hs) hrun inv_init
  exact ⟨htr, hinv.level, hinv.nwait, fun a s' es t u hs hmem => exec_share hinv hs hmem⟩

/-- A reader and, behind it, a writer that waits for it. -/
theorem rwlock_shares_run : ∃ s : RwLock, s.rwRefcount = s.held.level ∧ s.rwRefcount = 1 ∧
    s.rwNwaitwriters = 1 := by
  have hreplay : (Runs.replay (Runs.execOk (Runs.traced exec) fun p a => p.1.Holds a) (init, [])
      [.enter 0 (.lock .rd .timed), .body 0 5, .enter 1 (.lock .wr .forever), .body 1 0]).any
      (fun p => p.1.rwRefcount = 1 ∧ p.1.rwNwaitwriters = 1) = true := rfl
  obtain ⟨⟨s, tr⟩, -, hrun, hend⟩ := Runs.exec_of_replay hreplay
  exact ⟨s, (rwlock_shares hrun).2.1, of_decide_eq_true hend⟩

/-- **Nobody is left behind.** In every run in which who unlocks has the lock, and no last writer
gives up where a reader sleeps at a lock that nobody has: if the lock is free and a thread sleeps
at it, or is about to, then some thread comes to the test of the lock, where not all the writers
that wait are leaving. -/
theorem rwlock_wakes {tr : List (SharedLock.Act ThreadId)}
    (hrun : Runs (Runs.Exec (Runs.traced exec)) (fun p a => p.1.Holds a ∧ ¬ p.1.GivesUp a)
      (init, []) (s, tr)) (hfree : s.rwRefcount = 0)
    (hpark : ∃ t k, (s.pc t).parked = some k)
    (hstay : (∃ t, (s.pc t).waits = some .wr) → ∃ t, (s.pc t).waits = some .wr ∧ ¬ s.Leaving t) :
    ∃ t k, s.Comes k t := by
  obtain ⟨⟨hinv, hw⟩, -⟩ := @Runs.refines _ _ _ _ _ _ held SharedLock.step
    (fun s => Inv s ∧ Watched s) _ _ (fun s _ a s' es ⟨hinv, hw⟩ ⟨hok, hno⟩ hs =>
      have ⟨hinv', hes⟩ := exec_inv hinv hok hs
      ⟨⟨hinv', exec_watched hinv hw hok hno hs⟩, hes⟩) hrun ⟨inv_init, watched_init⟩
  have hwriter : (∃ u, (s.pc u).parked = some .wr) → ∃ v k, s.Comes k v := fun hu =>
    (hw.writers hfree hu).imp fun _ hv => ⟨.wr, hv⟩
  obtain ⟨t, k, ht⟩ := hpark
  cases k with
  | wr => exact hwriter ⟨t, ht⟩
  | rd =>
    by_cases hn : s.rwNwaitwriters = 0
    · obtain ⟨v, hv | ⟨w, hv⟩⟩ := hw.readers hfree hn ⟨t, ht⟩
      · exact ⟨v, .rd, hv⟩
      · exact ⟨v, .wr, .inl ⟨w, hv⟩⟩
    · -- a writer waits that is not leaving: it sleeps, or it has been woken
      have hnonneg : 0 ≤ s.rwNwaitwriters := (hinv.nwait .wr).nonneg
      obtain ⟨u, hu, hstays⟩ :=
        hstay ((hinv.nwait .wr).pos_iff.mp (show 0 < s.rwNwaitwriters by omega))
      cases hp : s.pc u with
      | gap k w n => exact hwriter ⟨u, by rw [hp] at hu ⊢; exact hu⟩
      | suspended k w b => exact hwriter ⟨u, by rw [hp] at hu ⊢; exact hu⟩
      | relock k w r =>
        rw [hp] at hu
        obtain rfl : k = .wr := Option.some.inj hu
        obtain rfl : r = .eok := by_contra fun hr => hstays ⟨w, r, hp, hr⟩
        exact ⟨u, .wr, .inr (.inl ⟨w, hp⟩)⟩
      | _ => rw [hp] at hu; cases hu

/-- A writer gives the lock back, and a writer and a reader wait: the writer is woken. -/
theorem rwlock_wakes_run : ∃ s : RwLock, (s.pc 2).parked = some .rd ∧ ∃ t k, s.Comes k t := by
  let acts : List RwAct := [.enter 0 (.lock .wr .tries), .body 0 0, .enter 1 (.lock .wr .timed),
    .body 1 5, .take 1, .enter 2 (.lock .rd .forever), .body 2 0, .enter 0 .unlock, .body 0 0]
  have hno : ∀ a ∈ acts, ∀ s : RwLock, ¬ s.GivesUp a := by simp [acts, GivesUp]
  have hreplay : (Runs.replay (Runs.execOk (Runs.traced exec) fun p a => p.1.Holds a ∧ a ∈ acts)
      (init, []) acts).any (fun p => p.1.rwRefcount = 0 ∧ (p.1.pc 2).parked = some .rd ∧
        p.1.pc 1 = .relock .wr .timed .eok) = true := rfl
  obtain ⟨⟨s, tr⟩, -, hrun, hend⟩ := Runs.exec_of_replay hreplay
  obtain ⟨hfree, hpark, hpc⟩ := of_decide_eq_true hend
  have hstay : ¬ s.Leaving 1 := by
    rintro ⟨w, r, hr, hne⟩
    rw [hpc] at hr
    cases hr
    exact hne rfl
  refine ⟨s, hpark, rwlock_wakes (@Runs.mono _ _ _ _ _ _ _ (fun _ => True) ?_ ?_ hrun trivial)
    hfree ⟨2, .rd, hpark⟩ fun _ => ⟨1, by rw [hpc]; rfl, hstay⟩⟩
  · exact fun p a _ ⟨hok, hmem⟩ => ⟨hok, hno a hmem p.1⟩
  · exact fun _ _ _ _ _ _ => trivial

end RwLock

end RTThread
