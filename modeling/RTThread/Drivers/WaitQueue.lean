import Mathlib.Data.Finset.Basic
import RTThread.Kernel.Thread
import RTThread.Lib.Runs

/-!
# Wait queues (`waitqueue.c`)

A thread that waits puts a node of its stack behind the others and suspends itself. A wakeup sets
the flag of the queue, resumes the thread of the first node, and takes the node away; a wait that
finds the flag set returns at once. A thread that goes on clears the flag, whatever has woken it,
and then takes its node away if it is still there. A time-out resumes the thread alone: its node
stays until the thread runs.

So a wakeup can meet the node of a thread whose time-out has fired, and a flag that is meant for
the next wait can be cleared by a thread that was woken earlier.

The record `owed` is not kept by the code: a wakeup has found nobody suspended, and no wait has
returned at once since.

## Main results

* `waitQueue_wakeup` — under the condition every wakeup resumes a suspended thread, or is seen by
  the next wait.
* `waitQueue_lost` — two runs in which a wakeup is lost.
-/

namespace RTThread

/-- `rt_wqueue_t`, with what it sees of the threads. -/
structure WaitQueue where
  flag : Bool
  /-- The threads of the nodes in `waiting_list`. -/
  waitingList : List ThreadId
  /-- The threads in `rt_wqueue_wait` behind their first section that have not cleared the flag. -/
  waiting : Finset ThreadId
  /-- The threads that have cleared the flag and have not yet removed their node. -/
  leaving : Finset ThreadId
  suspended : Finset ThreadId
  error : ThreadId → RtErr
  timer : ThreadId → Bool
  owed : Bool

/-- How a step ends. -/
inductive WaitQueueOutcome
  /-- `rt_wqueue_wait` returns. -/
  | returned (result : RtErr)
  | goesOn

/-- `RT_WAITING_FOREVER` -/
abbrev waitingForever : Int := -1

namespace WaitQueue

/-- `rt_wqueue_init`. -/
def rtWqueueInit : WaitQueue where
  flag := false
  waitingList := []
  waiting := ∅
  leaving := ∅
  suspended := ∅
  error _ := .eok
  timer _ := false
  owed := false

/-- `rt_wqueue_wait` of the thread `t` up to its return, or to its call of `rt_schedule`. -/
def rtWqueueWait (s : WaitQueue) (t : ThreadId) (condition : Bool) (tick : Int) :
    WaitQueueOutcome × WaitQueue :=
  if condition ∨ tick = 0 then (.returned .eok, s)
  else
    -- reset thread error
    let s := { s with error := Function.update s.error t .eok }
    -- already wakeup
    if s.flag then (.returned .eok, { s with flag := false, owed := false })
    else
      -- add the node, suspend the thread, start its timer
      (.goesOn, { s with
        waitingList := s.waitingList ++ [t]
        waiting := insert t s.waiting
        suspended := insert t s.suspended
        timer := Function.update s.timer t (decide (tick ≠ waitingForever)) })

/-- `rt_wqueue_wait` behind its call of `rt_schedule`: the flag is cleared. -/
def clearFlag (s : WaitQueue) (t : ThreadId) : WaitQueue :=
  { s with flag := false, waiting := s.waiting.erase t, leaving := insert t s.leaving }

/-- `rt_wqueue_wait` removes its node and returns. -/
def removeNode (s : WaitQueue) (t : ThreadId) : WaitQueueOutcome × WaitQueue :=
  (.returned (s.error t), { s with
    waitingList := s.waitingList.erase t
    leaving := s.leaving.erase t })

/-- `rt_thread_resume`, which refuses a thread that is not suspended. -/
def resume (s : WaitQueue) (t : ThreadId) : WaitQueue :=
  if t ∈ s.suspended then
    { s with
      suspended := s.suspended.erase t
      timer := Function.update s.timer t false }
  else s

/-- `rt_wqueue_wakeup`. The nodes of the waits have the default wakeup function, which accepts
the first one. -/
def rtWqueueWakeup (s : WaitQueue) : WaitQueue :=
  -- set wakeup flag in the queue
  let s := { s with flag := true, owed := s.owed || decide (s.suspended = ∅) }
  match s.waitingList with
  | [] => s
  | t :: l => { s.resume t with waitingList := l }

/-- `_thread_timeout` of a suspended thread. -/
def threadTimeout (s : WaitQueue) (t : ThreadId) : WaitQueue :=
  { s with
    suspended := s.suspended.erase t
    error := Function.update s.error t .etimeout
    timer := Function.update s.timer t false }

end WaitQueue

/-- What happens to a wait queue. -/
inductive WaitQueueAct
  | wait (t : ThreadId) (condition : Bool) (tick : Int)
  | clearFlag (t : ThreadId)
  | removeNode (t : ThreadId)
  | wakeup
  | timeout (t : ThreadId)

namespace WaitQueue

/-- The outcome of an action, and the state it leads to. -/
def step (s : WaitQueue) : WaitQueueAct → Option (WaitQueueOutcome × WaitQueue)
  | .wait t condition tick =>
    Runs.takeIf (t ∉ s.waiting ∧ t ∉ s.leaving) (s.rtWqueueWait t condition tick)
  | .clearFlag t => Runs.takeIf (t ∈ s.waiting ∧ t ∉ s.suspended) (.goesOn, s.clearFlag t)
  | .removeNode t => Runs.takeIf (t ∈ s.leaving) (s.removeNode t)
  | .wakeup => some (.goesOn, s.rtWqueueWakeup)
  | .timeout t =>
    Runs.takeIf (t ∈ s.suspended ∧ s.timer t = true) (.goesOn, s.threadTimeout t)

def exec (s : WaitQueue) (a : WaitQueueAct) : Option WaitQueue := (s.step a).map Prod.snd

/-- A wakeup meets a suspended thread: the one of the first node. -/
def MeetsSuspended (s : WaitQueue) : Prop := ∃ t ∈ s.waitingList.head?, t ∈ s.suspended

instance (s : WaitQueue) : Decidable s.MeetsSuspended :=
  match h : s.waitingList.head? with
  | none => isFalse (by simp [MeetsSuspended, h])
  | some t => decidable_of_iff (t ∈ s.suspended) (by simp [MeetsSuspended, h])

/-- **The condition**: when threads are suspended, the one of the first node is; and when none
is, no thread that has been woken has yet to clear the flag. -/
def Heard (s : WaitQueue) : WaitQueueAct → Prop
  | .wakeup => if s.suspended = ∅ then s.waiting = ∅ else s.MeetsSuspended
  | _ => True

instance (s : WaitQueue) (a : WaitQueueAct) : Decidable (s.Heard a) := by
  unfold Heard
  split
  · infer_instance
  · infer_instance

/-- **The invariant of a wait queue.** -/
structure Inv (s : WaitQueue) : Prop where
  nodup : s.waitingList.Nodup
  node : ∀ t, t ∈ s.waitingList → t ∈ s.waiting ∨ t ∈ s.leaving
  suspended : ∀ t, t ∈ s.suspended → t ∈ s.waiting ∧ t ∈ s.waitingList ∧ s.error t = .eok
  apart : ∀ t, t ∈ s.waiting → t ∉ s.leaving

/-- What is owed is in the flag, and nobody is there who could clear it. -/
def Kept (s : WaitQueue) : Prop := s.owed = true → s.flag = true ∧ s.waiting = ∅

section Steps

variable {s s' : WaitQueue} {a : WaitQueueAct} {r : WaitQueueOutcome × WaitQueue} {t u : ThreadId}
  {l : List ThreadId}

theorem wakeup_nil (hl : s.waitingList = []) : s.rtWqueueWakeup =
    { s with flag := true, owed := s.owed || decide (s.suspended = ∅) } := by
  unfold rtWqueueWakeup
  dsimp only
  rw [hl]

theorem wakeup_cons (hl : s.waitingList = t :: l) : s.rtWqueueWakeup =
    { resume { s with flag := true, owed := s.owed || decide (s.suspended = ∅) } t with
      waitingList := l } := by
  unfold rtWqueueWakeup
  dsimp only
  rw [hl]

theorem resume_fields (s : WaitQueue) (t : ThreadId) :
    (s.resume t).suspended = s.suspended.erase t ∧ (s.resume t).waiting = s.waiting ∧
      (s.resume t).leaving = s.leaving ∧ (s.resume t).error = s.error ∧
      (s.resume t).flag = s.flag ∧ (s.resume t).owed = s.owed := by
  unfold resume
  split
  case isTrue => exact ⟨rfl, rfl, rfl, rfl, rfl, rfl⟩
  case isFalse ht => exact ⟨(Finset.erase_eq_of_notMem ht).symm, rfl, rfl, rfl, rfl, rfl⟩

/-- The fields behind a wakeup. -/
theorem wakeup_fields (s : WaitQueue) :
    s.rtWqueueWakeup.flag = true ∧ s.rtWqueueWakeup.waiting = s.waiting ∧
      s.rtWqueueWakeup.leaving = s.leaving ∧ s.rtWqueueWakeup.error = s.error ∧
      s.rtWqueueWakeup.waitingList = s.waitingList.tail ∧
      s.rtWqueueWakeup.owed = (s.owed || decide (s.suspended = ∅)) ∧
      ∀ u, u ∈ s.rtWqueueWakeup.suspended ↔ s.waitingList.head? ≠ some u ∧ u ∈ s.suspended := by
  cases hl : s.waitingList with
  | nil =>
    rw [wakeup_nil hl]
    refine ⟨rfl, rfl, rfl, rfl, hl, rfl, fun u => ?_⟩
    exact (and_iff_right (by simp)).symm
  | cons t l =>
    obtain ⟨hsus, hwaiting, hleaving, herror, hflag, howed⟩ :=
      resume_fields { s with flag := true, owed := s.owed || decide (s.suspended = ∅) } t
    rw [wakeup_cons hl]
    refine ⟨hflag, hwaiting, hleaving, herror, rfl, howed, fun u => ?_⟩
    dsimp only
    rw [hsus, Finset.mem_erase, List.head?_cons, Ne, Ne, Option.some.injEq]
    exact and_congr_left fun _ => not_congr eq_comm

/-- **The invariant holds whatever happens.** -/
theorem Inv.step (h : s.Inv) (hs : s.step a = some r) : r.2.Inv := by
  cases a with
  | wait t condition tick =>
    obtain ⟨⟨hwaiting, hleaving⟩, rfl⟩ := Runs.takeIf_eq_some.1 hs
    -- a thread that calls `rt_wqueue_wait` has left its earlier waits
    have hnode : t ∉ s.waitingList := fun ht => (h.node t ht).elim hwaiting hleaving
    have hsus : t ∉ s.suspended := fun ht => hwaiting (h.suspended t ht).1
    have herror : ∀ u, u ∈ s.suspended → Function.update s.error t RtErr.eok u = .eok := by
      intro u hu
      rw [Function.update_of_ne (by rintro rfl; exact hsus hu)]
      exact (h.suspended u hu).2.2
    unfold rtWqueueWait
    split
    · exact h
    · dsimp only
      split
      · exact ⟨h.nodup, h.node, fun u hu =>
          ⟨(h.suspended u hu).1, (h.suspended u hu).2.1, herror u hu⟩, h.apart⟩
      · refine ⟨?_, fun u hu => ?_, fun u hu => ?_, fun u hu => ?_⟩
        · exact (List.perm_append_singleton t s.waitingList).nodup_iff.2
            (List.nodup_cons.2 ⟨hnode, h.nodup⟩)
        · rcases List.mem_append.1 hu with hu | hu
          · exact (h.node u hu).imp_left Finset.mem_insert_of_mem
          · rw [List.mem_singleton] at hu
            exact Or.inl (hu ▸ Finset.mem_insert_self u s.waiting)
        · rcases Finset.mem_insert.1 hu with rfl | hu
          · exact ⟨Finset.mem_insert_self _ _, List.mem_append_right _ List.mem_cons_self,
              Function.update_self _ _ _⟩
          · obtain ⟨hw, hl, -⟩ := h.suspended u hu
            exact ⟨Finset.mem_insert_of_mem hw, List.mem_append_left _ hl, herror u hu⟩
        · rcases Finset.mem_insert.1 hu with rfl | hu
          · exact hleaving
          · exact h.apart u hu
  | clearFlag t =>
    obtain ⟨⟨-, hsus⟩, rfl⟩ := Runs.takeIf_eq_some.1 hs
    refine ⟨h.nodup, fun u hu => ?_, fun u hu => ?_, fun u hu => ?_⟩
    -- the node of `t` stays until the thread removes it
    · by_cases hut : u = t
      · exact Or.inr (hut ▸ Finset.mem_insert_self u s.leaving)
      · exact (h.node u hu).imp (fun hw => Finset.mem_erase.2 ⟨hut, hw⟩)
          Finset.mem_insert_of_mem
    · obtain ⟨hw, hl, herror⟩ := h.suspended u hu
      refine ⟨Finset.mem_erase.2 ⟨?_, hw⟩, hl, herror⟩
      rintro rfl
      exact hsus hu
    · obtain ⟨hut, hw⟩ := Finset.mem_erase.1 hu
      intro hl
      rcases Finset.mem_insert.1 hl with hu' | hl
      · exact hut hu'
      · exact h.apart u hw hl
  | removeNode t =>
    obtain ⟨ht, rfl⟩ := Runs.takeIf_eq_some.1 hs
    refine ⟨h.nodup.erase t, fun u hu => ?_, fun u hu => ?_, fun u hu hl => ?_⟩
    · obtain ⟨hut, hu⟩ := h.nodup.mem_erase_iff.1 hu
      exact (h.node u hu).imp_right fun hl => Finset.mem_erase.2 ⟨hut, hl⟩
    · obtain ⟨hw, hl, herror⟩ := h.suspended u hu
      refine ⟨hw, h.nodup.mem_erase_iff.2 ⟨?_, hl⟩, herror⟩
      rintro rfl
      exact h.apart u hw ht
    · exact h.apart u hu (Finset.mem_of_mem_erase hl)
  | wakeup =>
    cases hs
    obtain ⟨-, hwaiting, hleaving, herror, hlist, -, hsus⟩ := wakeup_fields s
    dsimp only
    refine ⟨?_, fun u hu => ?_, fun u hu => ?_, fun u hu => ?_⟩
    · rw [hlist]
      exact h.nodup.tail
    · rw [hlist] at hu
      rw [hwaiting, hleaving]
      exact h.node u (List.mem_of_mem_tail hu)
    -- who is still suspended was not first
    · obtain ⟨hhead, hu⟩ := (hsus u).1 hu
      obtain ⟨hw, hl, heok⟩ := h.suspended u hu
      rw [hwaiting, hlist, herror]
      refine ⟨hw, ?_, heok⟩
      cases hlist' : s.waitingList with
      | nil =>
        rw [hlist'] at hl
        cases hl
      | cons t l =>
        rw [hlist'] at hl hhead
        rcases List.mem_cons.1 hl with rfl | hl
        · exact absurd rfl hhead
        · exact hl
    · rw [hwaiting] at hu
      rw [hleaving]
      exact h.apart u hu
  | timeout t =>
    obtain ⟨-, rfl⟩ := Runs.takeIf_eq_some.1 hs
    refine ⟨h.nodup, h.node, fun u hu => ?_, h.apart⟩
    obtain ⟨hut, hu⟩ := Finset.mem_erase.1 hu
    obtain ⟨hw, hl, herror⟩ := h.suspended u hu
    exact ⟨hw, hl, (Function.update_of_ne hut _ _).trans herror⟩

/-- **What is owed is kept**, under the condition. -/
theorem Kept.step (hk : s.Kept) (h : s.Inv) (hok : s.Heard a) (hs : s.step a = some r) :
    r.2.Kept := by
  cases a with
  | wait t condition tick =>
    obtain ⟨-, rfl⟩ := Runs.takeIf_eq_some.1 hs
    unfold rtWqueueWait
    split
    · exact hk
    · dsimp only
      split
      · intro howed
        cases howed
      -- the flag is not set, so nothing is owed
      case isFalse hflag => exact fun howed => absurd (hk howed).1 hflag
  | clearFlag t =>
    obtain ⟨⟨hw, -⟩, rfl⟩ := Runs.takeIf_eq_some.1 hs
    intro howed
    -- while something is owed there is nobody who could clear the flag
    rw [(hk howed).2] at hw
    exact absurd hw (Finset.notMem_empty t)
  | removeNode t =>
    obtain ⟨-, rfl⟩ := Runs.takeIf_eq_some.1 hs
    exact hk
  | wakeup =>
    cases hs
    obtain ⟨hflag, hwaiting, -, -, -, howed', -⟩ := wakeup_fields s
    intro howed
    dsimp only at howed ⊢
    rw [howed', Bool.or_eq_true, decide_eq_true_eq] at howed
    refine ⟨hflag, hwaiting.trans ?_⟩
    -- owed before, or by this wakeup, which the condition then allows only with nobody there
    rcases howed with howed | hnobody
    · exact (hk howed).2
    · unfold Heard at hok
      dsimp only at hok
      rwa [if_pos hnobody] at hok
  | timeout t =>
    obtain ⟨⟨hsus, -⟩, rfl⟩ := Runs.takeIf_eq_some.1 hs
    intro howed
    have hw := (h.suspended t hsus).1
    rw [(hk howed).2] at hw
    exact absurd hw (Finset.notMem_empty t)

/-- **A wakeup that meets a suspended thread** makes it runnable. -/
theorem wakeup_resumes (h : s.Inv) (hmeets : s.MeetsSuspended) :
    ∃ t ∈ s.suspended, t ∉ s.rtWqueueWakeup.suspended ∧ s.rtWqueueWakeup.error t = .eok := by
  obtain ⟨t, hhead, ht⟩ := hmeets
  obtain ⟨-, -, -, herror, -, -, hsus⟩ := wakeup_fields s
  refine ⟨t, ht, fun hmem => ((hsus t).1 hmem).1 hhead, ?_⟩
  rw [herror]
  exact (h.suspended t ht).2.2

/-- **A wakeup that does not** leaves all threads suspended that are. -/
theorem wakeup_nobody (hmeets : ¬ s.MeetsSuspended) :
    s.rtWqueueWakeup.suspended = s.suspended := by
  obtain ⟨-, -, -, -, -, -, hsus⟩ := wakeup_fields s
  ext u
  rw [hsus u]
  exact and_iff_right_of_imp fun hu hhead => hmeets ⟨u, hhead, hu⟩

/-- **A wakeup that comes too early**: a thread that was woken earlier clears the flag. -/
theorem wakeup_cleared (ht : t ∈ s.waiting) (hnobody : s.suspended = ∅) :
    s.rtWqueueWakeup.owed = true ∧ ∃ s'', s.rtWqueueWakeup.exec (.clearFlag t) = some s'' ∧
      s''.owed = true ∧ s''.flag = false := by
  obtain ⟨-, hwaiting, -, -, -, howed, hsus⟩ := wakeup_fields s
  have howed' : s.rtWqueueWakeup.owed = true := by
    rw [howed, decide_eq_true hnobody, Bool.or_true]
  refine ⟨howed', s.rtWqueueWakeup.clearFlag t, ?_, howed', rfl⟩
  -- `t` may go on: nobody is suspended
  have hnot : t ∉ s.rtWqueueWakeup.suspended := by
    intro hmem
    have ht' := ((hsus t).1 hmem).2
    rw [hnobody] at ht'
    exact Finset.notMem_empty t ht'
  have hstep : s.rtWqueueWakeup.step (.clearFlag t) =
      some (.goesOn, s.rtWqueueWakeup.clearFlag t) :=
    Runs.takeIf_eq_some.2 ⟨⟨hwaiting ▸ ht, hnot⟩, rfl⟩
  unfold exec
  rw [hstep]
  rfl

end Steps

/-- **Wait queues.** In every run in which each wakeup meets the condition, a wakeup that is
executed while threads are suspended makes one of them runnable, and one that is executed while
none is stays in the flag until the next wait, which then returns at once. A wakeup that does not
meet the condition leaves the threads suspended that are, or the thread that was woken earlier
clears its flag. -/
theorem waitQueue_wakeup {s : WaitQueue}
    (hrun : Runs (Runs.Exec exec) Heard rtWqueueInit s) :
    (s.Heard .wakeup → s.suspended ≠ ∅ →
      ∃ t ∈ s.suspended, t ∉ s.rtWqueueWakeup.suspended ∧ s.rtWqueueWakeup.error t = .eok) ∧
    (s.owed = true → s.flag = true) ∧
    (∀ t tick r, s.owed = true → tick ≠ 0 → s.step (.wait t false tick) = some r →
      r.1 = .returned .eok) ∧
    (¬ s.Heard .wakeup →
      (s.suspended ≠ ∅ ∧ s.rtWqueueWakeup.suspended = s.suspended) ∨
        (s.suspended = ∅ ∧ s.rtWqueueWakeup.owed = true ∧
          ∃ t s', s.rtWqueueWakeup.exec (.clearFlag t) = some s' ∧ s'.owed = true ∧
            s'.flag = false)) := by
  have hinit : Inv rtWqueueInit ∧ Kept rtWqueueInit :=
    ⟨⟨List.nodup_nil, (fun t ht => by cases ht), fun t ht => absurd ht (Finset.notMem_empty t),
      fun t ht => absurd ht (Finset.notMem_empty t)⟩, fun h => by cases h⟩
  obtain ⟨h, hk⟩ : s.Inv ∧ s.Kept := by
    refine @Runs.invariant _ _ _ _ _ _ (fun s : WaitQueue => s.Inv ∧ s.Kept) ?_ hrun hinit
    rintro s₁ a s₂ ⟨hinv, hkept⟩ hok hs
    obtain ⟨r, hr, rfl⟩ := Option.map_eq_some_iff.1 hs
    exact ⟨hinv.step hr, hkept.step hinv hok hr⟩
  refine ⟨fun hok hsome => ?_, fun howed => (hk howed).1, ?_, fun hnot => ?_⟩
  · unfold Heard at hok
    dsimp only at hok
    rw [if_neg hsome] at hok
    exact wakeup_resumes h hok
  · intro t tick r howed htick hs
    obtain ⟨-, rfl⟩ := Runs.takeIf_eq_some.1 hs
    unfold rtWqueueWait
    rw [if_neg (by simpa using htick)]
    dsimp only
    rw [if_pos (hk howed).1]
  · unfold Heard at hnot
    dsimp only at hnot
    by_cases hnobody : s.suspended = ∅
    · rw [if_pos hnobody] at hnot
      obtain ⟨t, ht⟩ := Finset.nonempty_iff_ne_empty.2 hnot
      obtain ⟨howed, s', hs', howed', hflag'⟩ := wakeup_cleared ht hnobody
      exact Or.inr ⟨hnobody, howed, t, s', hs', howed', hflag'⟩
    · rw [if_neg hnobody] at hnot
      exact Or.inl ⟨hnobody, wakeup_nobody hnot⟩

/-- One thread is woken and goes on; then a wakeup finds nobody. -/
def wokenInTurn : List WaitQueueAct :=
  [.wait 1 false 10, .wait 2 false (-1), .wakeup, .clearFlag 1, .wakeup, .removeNode 1,
    .clearFlag 2, .wakeup]

theorem waitQueue_wakeup_in_turn :
    ∃ s, Runs (Runs.Exec exec) Heard rtWqueueInit s ∧ s.owed = true ∧ s.flag = true := by
  obtain ⟨s, -, hrun, howed⟩ := @Runs.exec_of_replay _ _ Heard rtWqueueInit exec _
    wokenInTurn (fun s => s.owed) (by decide +kernel)
  exact ⟨s, hrun, howed, (waitQueue_wakeup hrun).2.1 howed⟩

/-- The time-out of the first thread fires before the wakeup. -/
def behindTimeout : List WaitQueueAct :=
  [.wait 1 false 10, .wait 2 false (-1), .timeout 1]

/-- A wakeup comes between the time-out of the only thread and its going on. -/
def beforeClear : List WaitQueueAct :=
  [.wait 1 false 10, .timeout 1, .wakeup, .clearFlag 1, .removeNode 1]

/-- **Wakeups are lost**: the node of a thread whose time-out has fired takes one from the thread
that is suspended, and a thread that goes on clears one that was executed while nobody was. -/
theorem waitQueue_lost :
    (∃ s, Runs (Runs.Exec exec) Runs.always rtWqueueInit s ∧ s.suspended = {2} ∧
      s.rtWqueueWakeup.suspended = {2}) ∧
    ∃ s, Runs (Runs.Exec exec) Runs.always rtWqueueInit s ∧ s.owed = true ∧ s.flag = false ∧
      s.waiting = ∅ := by
  constructor
  · obtain ⟨s, -, hrun, hend⟩ := @Runs.exec_of_replay _ _ Runs.always rtWqueueInit exec _
      behindTimeout
      (fun s => decide (s.suspended = {2} ∧ s.rtWqueueWakeup.suspended = {2}))
      (by decide +kernel)
    exact ⟨s, hrun, of_decide_eq_true hend⟩
  · obtain ⟨s, -, hrun, hend⟩ := @Runs.exec_of_replay _ _ Runs.always rtWqueueInit exec _
      beforeClear
      (fun s => decide (s.owed = true ∧ s.flag = false ∧ s.waiting = ∅)) (by decide +kernel)
    exact ⟨s, hrun, of_decide_eq_true hend⟩

end WaitQueue

end RTThread
