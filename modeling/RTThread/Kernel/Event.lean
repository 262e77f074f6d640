import RTThread.Kernel.Blocking

/-!
# Events (`ipc.c`)

An event is a set of 32 bits. A thread waits for all bits of a request or for one of them, and
may clear what it gets. `rt_event_send` walks the suspended threads once; it takes bits away
from the set while it walks, and the thread it looks at out of the list.

The calls disable interrupts around everything they do with the event, so each is a step here,
and what `rt_event_recv` does behind `rt_schedule` is another one. A thread that is not suspended
may go on at any time: the scheduler only chooses among these interleavings. The priorities
may have changed whenever a thread is put into the list.

## Main results

* `sendLoop_spec` — what one walk does, waiter by waiter.
* `event_no_satisfied_waiter` — between the calls nobody waits for what is there.
-/

namespace RTThread

/-- `RT_EVENT_FLAG_AND`, `RT_EVENT_FLAG_OR` and `RT_EVENT_FLAG_CLEAR` of an option. -/
structure EventOption where
  and : Bool
  or : Bool
  clear : Bool
deriving DecidableEq

/-- What an event sees of a thread: its fields `event_set`, `event_info` and `error`, whether it
is in `rt_event_recv`, and whether its timer has been started there. -/
structure EventThread where
  eventSet : BitVec 32
  eventInfo : EventOption
  error : RtErr
  inRecv : Bool
  timer : Bool

/-- `struct rt_event`, and the threads. -/
structure Event where
  set : BitVec 32
  flag : IpcFlag
  suspendThread : List ThreadId
  thread : ThreadId → EventThread

/-- The codes `rt_event_send` returns. -/
inductive EventSent
  /-- `RT_EOK` -/
  | eok
  /-- `-RT_ERROR` -/
  | error
  /-- `-RT_EINVAL` -/
  | einval

namespace Event

def setThread (s : Event) (t : ThreadId) (x : EventThread) : Event :=
  { s with thread := Function.update s.thread t x }

/-- `rt_event_init`, with threads that are in no call. -/
def rtEventInit (flag : IpcFlag) : Event where
  set := 0#32
  flag := flag
  suspendThread := []
  thread _ := ⟨0#32, ⟨false, false, false⟩, .eok, false, false⟩

/-- `rt_event_send` resumes a thread whose condition holds, with the set it gets. -/
def receive (s : Event) (t : ThreadId) (eventSet : BitVec 32) : Event :=
  let x := { s.thread t with eventSet := eventSet }
  -- clear event
  let set := if x.eventInfo.clear then s.set &&& ~~~eventSet else s.set
  -- resume thread, and thread list breaks out
  { s.setThread t { x with timer := false } with
    set := set, suspendThread := s.suspendThread.erase t }

/-- The loop of `rt_event_send` from the node `n` on. -/
def sendLoop : List ThreadId → Event → EventSent × Event
  | [], s => (.eok, s)
  | t :: n, s =>
    let x := s.thread t
    if x.eventInfo.and then
      if x.eventSet &&& s.set = x.eventSet then sendLoop n (s.receive t x.eventSet)
      else sendLoop n s
    else if x.eventInfo.or then
      -- save the received event set
      if x.eventSet &&& s.set ≠ 0#32 then sendLoop n (s.receive t (x.eventSet &&& s.set))
      else sendLoop n s
    else (.einval, s)

/-- `rt_event_send`. -/
def rtEventSend (s : Event) (set : BitVec 32) : EventSent × Event :=
  if set = 0#32 then (.error, s)
  else
    let s := { s with set := s.set ||| set }
    sendLoop s.suspendThread s

/-- What a call of `rt_event_recv` returns: its code and what it stores behind `recved`. -/
abbrev Recved := RtErr × Option (BitVec 32)

/-- `rt_event_recv` of the thread `t` up to its return, or to its call of `rt_schedule`. -/
def rtEventRecv (s : Event) (priority : ThreadId → Nat) (t : ThreadId) (set : BitVec 32)
    (option : EventOption) (timeout : Int) : Option Recved × Event :=
  if set = 0#32 then (some (.error, none), s)
  else
    -- reset thread error
    let x := { s.thread t with error := .eok }
    let received :=
      if option.and then decide (s.set &&& set = set) else decide (s.set &&& set ≠ 0#32)
    if received then
      (some (.eok, some (s.set &&& set)),
        { s.setThread t { x with eventSet := s.set &&& set, eventInfo := option } with
          set := if option.clear then s.set &&& ~~~set else s.set })
    else if timeout = 0 then
      (some (.etimeout, none), s.setThread t { x with error := .etimeout })
    else
      -- fill thread event info, put thread to suspended thread list
      (none, { s.setThread t
          { x with
            eventSet := set, eventInfo := option, inRecv := true, timer := decide (0 < timeout) }
        with suspendThread := ipcInsert priority s.flag t s.suspendThread })

/-- `rt_event_recv` behind its call of `rt_schedule`. -/
def rtEventRecvWoken (s : Event) (t : ThreadId) : Recved × Event :=
  let x := s.thread t
  (if x.error ≠ .eok then (x.error, none) else (.eok, some x.eventSet),
    s.setThread t { x with inRecv := false })

/-- `rt_event_control(event, RT_IPC_CMD_RESET, arg)`: all waiting threads are resumed with an
error. -/
def rtEventReset (s : Event) : Event where
  set := 0#32
  flag := s.flag
  suspendThread := []
  thread t :=
    if t ∈ s.suspendThread then { s.thread t with error := .error, timer := false } else s.thread t

/-- `_thread_timeout` of a suspended thread. -/
def threadTimeout (s : Event) (t : ThreadId) : Event :=
  { s.setThread t { s.thread t with error := .etimeout, timer := false } with
    suspendThread := s.suspendThread.erase t }

end Event

/-- What happens to an event. -/
inductive EventAct
  | send (set : BitVec 32)
  | recv (priority : ThreadId → Nat) (t : ThreadId) (set : BitVec 32) (option : EventOption)
      (timeout : Int)
  /-- `rt_schedule` returns to `rt_event_recv`. -/
  | woken (t : ThreadId)
  | timeout (t : ThreadId)
  | reset

/-- The state an action leads to. `rt_event_recv` asserts that the option says how to wait. -/
def Event.exec (s : Event) : EventAct → Option Event
  | .send set => some (s.rtEventSend set).2
  | .recv priority t set option timeout =>
    Runs.takeIf ((s.thread t).inRecv = false ∧ (option.and = true ∨ option.or = true))
      (s.rtEventRecv priority t set option timeout).2
  | .woken t =>
    Runs.takeIf ((s.thread t).inRecv = true ∧ t ∉ s.suspendThread) (s.rtEventRecvWoken t).2
  | .timeout t =>
    Runs.takeIf (t ∈ s.suspendThread ∧ (s.thread t).timer = true) (s.threadTimeout t)
  | .reset => some s.rtEventReset

-- --------
-- What a waiter waits for
-- --------

/-- The condition of a thread that waits for `request`, when `set` is there. -/
def EventOption.Satisfied (option : EventOption) (request set : BitVec 32) : Prop :=
  if option.and then request &&& set = request else request &&& set ≠ 0#32

instance (option : EventOption) (request set : BitVec 32) :
    Decidable (option.Satisfied request set) := by
  unfold EventOption.Satisfied
  infer_instance

/-- The condition of a thread. -/
abbrev EventThread.Satisfied (x : EventThread) (set : BitVec 32) : Prop :=
  x.eventInfo.Satisfied x.eventSet set

/-- What is left of the set when the thread has been looked at. -/
def EventThread.leaves (x : EventThread) (set : BitVec 32) : BitVec 32 :=
  if x.Satisfied set ∧ x.eventInfo.clear = true then set &&& ~~~(x.eventSet &&& set) else set

/-- What is left of the set when the threads of a list have been looked at. -/
def leftBy (thread : ThreadId → EventThread) (l : List ThreadId) (set : BitVec 32) : BitVec 32 :=
  l.foldl (fun set t => (thread t).leaves set) set

section Sets

variable {a b c : BitVec 32} {x : EventThread}

/-- A set within another one. -/
def Within (a b : BitVec 32) : Prop := a &&& b = a

theorem Within.refl (a : BitVec 32) : Within a a := BitVec.and_self

theorem Within.trans (h : Within a b) (h' : Within b c) : Within a c := by
  unfold Within at *
  rw [← h, BitVec.and_assoc, h']

theorem within_and (a b : BitVec 32) : Within (a &&& b) a := by
  unfold Within
  rw [BitVec.and_comm a b, BitVec.and_assoc, BitVec.and_self]

theorem EventThread.leaves_within (x : EventThread) (set : BitVec 32) :
    Within (x.leaves set) set := by
  unfold EventThread.leaves
  split
  · exact within_and _ _
  · exact Within.refl _

theorem leftBy_within (thread : ThreadId → EventThread) (l : List ThreadId) (set : BitVec 32) :
    Within (leftBy thread l set) set := by
  induction l generalizing set with
  | nil => exact Within.refl _
  | cons t l ih => exact (ih _).trans ((thread t).leaves_within set)

theorem EventThread.satisfied_and (hand : x.eventInfo.and = true) :
    x.Satisfied a ↔ x.eventSet &&& a = x.eventSet := by
  unfold EventThread.Satisfied EventOption.Satisfied
  rw [if_pos hand]

theorem EventThread.satisfied_or (hand : ¬ x.eventInfo.and = true) :
    x.Satisfied a ↔ x.eventSet &&& a ≠ 0#32 := by
  unfold EventThread.Satisfied EventOption.Satisfied
  rw [if_neg hand]

/-- **A smaller set satisfies no more**: a condition that fails goes on failing. -/
theorem EventThread.Satisfied.mono (h : Within a b) (hx : x.Satisfied a) : x.Satisfied b := by
  by_cases hand : x.eventInfo.and = true
  · rw [EventThread.satisfied_and hand] at hx ⊢
    exact Within.trans hx h
  · rw [EventThread.satisfied_or hand] at hx ⊢
    intro hzero
    have hsub : x.eventSet &&& a = x.eventSet &&& b &&& a := by
      rw [BitVec.and_assoc, BitVec.and_comm b a, h]
    rw [hzero, BitVec.zero_and] at hsub
    exact hx hsub

end Sets

-- --------
-- The walk
-- --------

namespace Event

/-- What `rt_event_send` does with one waiter. -/
def visit (s : Event) (t : ThreadId) : Event :=
  if (s.thread t).Satisfied s.set then s.receive t ((s.thread t).eventSet &&& s.set) else s

section Walk

variable {s s' : Event} {t u : ThreadId} {n : List ThreadId} {e : BitVec 32}

theorem receive_self : (s.receive t e).thread t =
    { s.thread t with eventSet := e, timer := false } :=
  Function.update_self _ _ _

theorem receive_of_ne (hu : u ≠ t) : (s.receive t e).thread u = s.thread u :=
  Function.update_of_ne hu _ _

theorem visit_set : (s.visit t).set = (s.thread t).leaves s.set := by
  unfold visit EventThread.leaves
  by_cases hs : (s.thread t).Satisfied s.set
  · rw [if_pos hs]
    show (if (s.thread t).eventInfo.clear = true then _ else _) = _
    simp only [hs, true_and]
  · rw [if_neg hs, if_neg fun h => hs h.1]

theorem visit_of_ne (hu : u ≠ t) : (s.visit t).thread u = s.thread u := by
  unfold visit
  split
  · exact receive_of_ne hu
  · rfl

/-- The loop, waiter by waiter. -/
theorem sendLoop_eq (hnodup : n.Nodup) : ∀ {s : Event},
    (∀ t, t ∈ n → (s.thread t).eventInfo.and = true ∨ (s.thread t).eventInfo.or = true) →
    sendLoop n s = (.eok, n.foldl visit s) := by
  induction n with
  | nil =>
    intro s _
    rfl
  | cons t n ih =>
    intro s hmode
    have hnot : t ∉ n := (List.nodup_cons.1 hnodup).1
    -- either way of waiting, the test of the loop is the condition of the thread
    have hvisit : sendLoop (t :: n) s = sendLoop n (s.visit t) := by
      unfold visit
      conv_lhs => unfold sendLoop
      dsimp only
      by_cases hand : (s.thread t).eventInfo.and = true
      · have hiff : (s.thread t).Satisfied s.set ↔
            (s.thread t).eventSet &&& s.set = (s.thread t).eventSet :=
          EventThread.satisfied_and hand
        rw [if_pos hand]
        by_cases hs : (s.thread t).eventSet &&& s.set = (s.thread t).eventSet
        · rw [if_pos hs, if_pos (hiff.2 hs), hs]
        · rw [if_neg hs, if_neg fun h => hs (hiff.1 h)]
      · have hiff : (s.thread t).Satisfied s.set ↔ (s.thread t).eventSet &&& s.set ≠ 0#32 :=
          EventThread.satisfied_or hand
        rw [if_neg hand, if_pos ((hmode t List.mem_cons_self).resolve_left hand)]
        by_cases hs : (s.thread t).eventSet &&& s.set ≠ 0#32
        · rw [if_pos hs, if_pos (hiff.2 hs)]
        · rw [if_neg hs, if_neg fun h => hs (hiff.1 h)]
    -- the waiters behind it are still those of the state before
    rw [hvisit, List.foldl_cons]
    refine ih (List.nodup_cons.1 hnodup).2 fun u hu => ?_
    have hut : u ≠ t := by
      rintro rfl
      exact hnot hu
    rw [visit_of_ne hut]
    exact hmode u (List.mem_cons_of_mem t hu)

/-- The threads of a list have been looked at, in its order. -/
structure Walked (n : List ThreadId) (s s' : Event) : Prop where
  set : s'.set = leftBy s.thread n s.set
  resumed : ∀ pre t post, n = pre ++ t :: post →
    (s.thread t).Satisfied (leftBy s.thread pre s.set) →
    t ∉ s'.suspendThread ∧ s'.thread t =
      { s.thread t with
        eventSet := (s.thread t).eventSet &&& leftBy s.thread pre s.set, timer := false }
  left : ∀ pre t post, n = pre ++ t :: post →
    ¬ (s.thread t).Satisfied (leftBy s.thread pre s.set) →
    (t ∈ s'.suspendThread ↔ t ∈ s.suspendThread) ∧ s'.thread t = s.thread t
  others : ∀ t, t ∉ n → (t ∈ s'.suspendThread ↔ t ∈ s.suspendThread) ∧ s'.thread t = s.thread t
  sublist : s'.suspendThread.Sublist s.suspendThread

theorem leftBy_congr {thread thread' : ThreadId → EventThread} :
    ∀ {l : List ThreadId} {set : BitVec 32}, (∀ t, t ∈ l → thread' t = thread t) →
      leftBy thread' l set = leftBy thread l set := by
  intro l
  induction l with
  | nil =>
    intro set _
    rfl
  | cons t l ih =>
    intro set h
    show leftBy thread' l ((thread' t).leaves set) = leftBy thread l ((thread t).leaves set)
    rw [h t List.mem_cons_self]
    exact ih fun u hu => h u (List.mem_cons_of_mem t hu)

/-- **What one walk does**, by induction on the waiters that are left. -/
theorem walked (hnodup : n.Nodup) : ∀ {s : Event}, s.suspendThread.Nodup →
    Walked n s (n.foldl visit s) := by
  induction n with
  | nil =>
    intro s _
    exact ⟨rfl, fun pre t post h => by simp at h, fun pre t post h => by simp at h,
      fun _ _ => ⟨Iff.rfl, rfl⟩, List.Sublist.refl _⟩
  | cons t n ih =>
    intro s hs
    obtain ⟨hnot, hn⟩ := List.nodup_cons.1 hnodup
    have hne : ∀ u, u ∈ n → u ≠ t := by
      rintro u hu rfl
      exact hnot hu
    -- one visit takes at most its own thread out of the list
    have hsub : (s.visit t).suspendThread.Sublist s.suspendThread := by
      unfold visit
      split
      · exact List.erase_sublist
      · exact List.Sublist.refl _
    have hmem : ∀ u, u ≠ t → (u ∈ (s.visit t).suspendThread ↔ u ∈ s.suspendThread) := by
      intro u hu
      unfold visit
      split
      · show u ∈ s.suspendThread.erase t ↔ _
        rw [hs.mem_erase_iff]
        exact and_iff_right hu
      · exact Iff.rfl
    -- the rest of the walk, from the state behind the first waiter
    have hw := ih hn (s := s.visit t) (hsub.nodup hs)
    -- what a prefix leaves there is what it leaves here with the first waiter in front
    have hleft : ∀ l, (∀ u, u ∈ l → u ∈ n) → leftBy (s.visit t).thread l (s.visit t).set =
        leftBy s.thread (t :: l) s.set := by
      intro l hl
      rw [leftBy_congr fun u hu => visit_of_ne (hne u (hl u hu)), visit_set]
      rfl
    rw [List.foldl_cons]
    refine ⟨?_, ?_, ?_, ?_, hw.sublist.trans hsub⟩
    · rw [hw.set]
      exact hleft n fun u hu => hu
    · intro pre u post heq hsat
      cases pre with
      | nil =>
        cases heq
        -- the thread at the head is looked at with the whole set
        obtain ⟨hsus, hthread⟩ := hw.others t hnot
        have hvisit : s.visit t = s.receive t ((s.thread t).eventSet &&& s.set) := if_pos hsat
        refine ⟨fun hu => ?_, ?_⟩
        · have hu' := hsus.1 hu
          rw [hvisit] at hu'
          exact (hs.mem_erase_iff.1 hu').1 rfl
        · rw [hthread, hvisit, receive_self]
          rfl
      | cons v pre =>
        -- a later waiter: the rest of the walk decides
        cases heq
        have hpre : ∀ w, w ∈ pre → w ∈ pre ++ u :: post := fun w hw => List.mem_append_left _ hw
        have hu : u ≠ t := hne u (by simp)
        have hthread : (s.visit t).thread u = s.thread u := visit_of_ne hu
        have hstep := hw.resumed pre u post rfl (by rw [hthread, hleft pre hpre]; exact hsat)
        rw [hthread, hleft pre hpre] at hstep
        exact hstep
    · intro pre u post heq hsat
      cases pre with
      | nil =>
        -- the thread at the head is passed over
        cases heq
        obtain ⟨hsus, hthread⟩ := hw.others t hnot
        have hvisit : s.visit t = s := if_neg hsat
        rw [hvisit] at hsus hthread
        rw [hvisit]
        exact ⟨hsus, hthread⟩
      | cons v pre =>
        cases heq
        have hpre : ∀ w, w ∈ pre → w ∈ pre ++ u :: post := fun w hw => List.mem_append_left _ hw
        have hu : u ≠ t := hne u (by simp)
        have hthread : (s.visit t).thread u = s.thread u := visit_of_ne hu
        obtain ⟨hsus, hkept⟩ :=
          hw.left pre u post rfl (by rw [hthread, hleft pre hpre]; exact hsat)
        exact ⟨hsus.trans (hmem u hu), hkept.trans hthread⟩
    · intro u hu
      rw [List.mem_cons, not_or] at hu
      obtain ⟨hsus, hthread⟩ := hw.others u hu.2
      exact ⟨hsus.trans (hmem u hu.1), hthread.trans (visit_of_ne hu.1)⟩

end Walk

-- --------
-- The reachable states
-- --------

/-- **The invariant of an event**: a thread in its list waits there, and not for what is there. -/
structure Inv (s : Event) : Prop where
  nodup : s.suspendThread.Nodup
  waiting : ∀ t, t ∈ s.suspendThread → (s.thread t).inRecv = true ∧
    ((s.thread t).eventInfo.and = true ∨ (s.thread t).eventInfo.or = true) ∧
    ¬ (s.thread t).Satisfied s.set
  /-- `rt_event_recv` has reset the error of a thread that waits. -/
  error : ∀ t, t ∈ s.suspendThread → (s.thread t).error = .eok

section Steps

variable {s s' : Event} {t u : ThreadId} {a : EventAct} {set : BitVec 32}

theorem setThread_of_ne (x : EventThread) (hu : u ≠ t) : (s.setThread t x).thread u = s.thread u :=
  Function.update_of_ne hu _ _

theorem Inv.walk (h : s.Inv) (hset : set ≠ 0#32) :
    (s.rtEventSend set).1 = .eok ∧
      Walked s.suspendThread { s with set := s.set ||| set } (s.rtEventSend set).2 := by
  have hloop : s.rtEventSend set =
      (.eok, s.suspendThread.foldl visit { s with set := s.set ||| set }) := by
    unfold rtEventSend
    rw [if_neg hset]
    exact sendLoop_eq h.nodup fun t ht => (h.waiting t ht).2.1
  rw [hloop]
  exact ⟨rfl, walked h.nodup h.nodup⟩

/-- **A send leaves no waiter behind** whose condition holds: the set only shrinks while the
waiters are looked at. -/
theorem Inv.send (h : s.Inv) (set : BitVec 32) : (s.rtEventSend set).2.Inv := by
  by_cases hset : set = 0#32
  · unfold rtEventSend
    rw [if_pos hset]
    exact h
  · obtain ⟨-, hw⟩ := h.walk hset
    -- a waiter that stays was looked at with what the ones before it had left
    have hstays : ∀ t, t ∈ (s.rtEventSend set).2.suspendThread → ∃ pre post,
        s.suspendThread = pre ++ t :: post ∧
        ¬ (s.thread t).Satisfied (leftBy s.thread pre (s.set ||| set)) ∧
        (s.rtEventSend set).2.thread t = s.thread t := by
      intro t ht
      obtain ⟨pre, post, hsplit⟩ := List.append_of_mem (hw.sublist.subset ht)
      have hnot : ¬ (s.thread t).Satisfied (leftBy s.thread pre (s.set ||| set)) :=
        fun hsat => (hw.resumed pre t post hsplit hsat).1 ht
      exact ⟨pre, post, hsplit, hnot, (hw.left pre t post hsplit hnot).2⟩
    refine ⟨hw.sublist.nodup h.nodup, fun t ht => ?_, fun t ht => ?_⟩
    · obtain ⟨pre, post, hsplit, hnot, hthread⟩ := hstays t ht
      have hold := h.waiting t (hw.sublist.subset ht)
      rw [hthread, hw.set]
      refine ⟨hold.1, hold.2.1, fun hsat => hnot (hsat.mono ?_)⟩
      -- what is left in the end is within that set
      show Within (leftBy s.thread s.suspendThread (s.set ||| set)) _
      rw [hsplit]
      unfold leftBy
      rw [List.foldl_append]
      exact leftBy_within s.thread (t :: post) _
    · obtain ⟨pre, post, -, -, hthread⟩ := hstays t ht
      rw [hthread]
      exact h.error t (hw.sublist.subset ht)

theorem Inv.not_suspended (h : s.Inv) (ht : (s.thread t).inRecv = false) :
    t ∉ s.suspendThread := by
  intro hmem
  have hin := (h.waiting t hmem).1
  rw [ht] at hin
  cases hin

/-- A thread outside the list changes, and the set shrinks. -/
theorem Inv.touch (h : s.Inv) (ht : t ∉ s.suspendThread) (x : EventThread)
    (hset : Within set s.set) : Inv { s.setThread t x with set := set } where
  nodup := h.nodup
  waiting u hu := by
    have hut : u ≠ t := by
      rintro rfl
      exact ht hu
    have hwait := h.waiting u hu
    show ((s.setThread t x).thread u).inRecv = true ∧ _ ∧
      ¬ ((s.setThread t x).thread u).Satisfied set
    rw [setThread_of_ne x hut]
    exact ⟨hwait.1, hwait.2.1, fun hsat => hwait.2.2 (hsat.mono hset)⟩
  error u hu := by
    have hut : u ≠ t := by
      rintro rfl
      exact ht hu
    exact (congrArg EventThread.error (setThread_of_ne x hut)).trans (h.error u hu)

theorem Inv.recv {priority : ThreadId → Nat} {option : EventOption} {timeout : Int} (h : s.Inv)
    (ht : (s.thread t).inRecv = false) (hoption : option.and = true ∨ option.or = true) :
    (s.rtEventRecv priority t set option timeout).2.Inv := by
  have hnot := h.not_suspended ht
  unfold rtEventRecv
  by_cases hset : set = 0#32
  · rw [if_pos hset]
    exact h
  · rw [if_neg hset]
    dsimp only
    -- the test made now, for both ways of waiting
    generalize hrec : (if option.and = true then decide (s.set &&& set = set)
      else decide (s.set &&& set ≠ 0#32)) = received
    cases received with
    | true =>
      rw [if_pos rfl]
      refine h.touch hnot _ ?_
      split
      · exact within_and _ _
      · exact Within.refl _
    | false =>
      rw [if_neg (by decide)]
      split
      · exact h.touch hnot _ (Within.refl _)
      · -- the thread is put into the list because its condition does not hold
        have hmem : ∀ u, u ∈ ipcInsert priority s.flag t s.suspendThread → u ≠ t →
            u ∈ s.suspendThread := fun u hu hut =>
          (List.mem_cons.1 ((ipcInsert_perm _ _ _ _).mem_iff.1 hu)).resolve_left hut
        refine ⟨?_, fun u hu => ?_, fun u hu => ?_⟩
        · show (ipcInsert priority s.flag t s.suspendThread).Nodup
          rw [(ipcInsert_perm _ _ _ _).nodup_iff, List.nodup_cons]
          exact ⟨hnot, h.nodup⟩
        · by_cases hut : u = t
          · subst hut
            simp only [setThread, Function.update_self]
            refine ⟨trivial, hoption, fun hsat => ?_⟩
            by_cases hand : option.and = true
            · rw [EventThread.satisfied_and hand] at hsat
              rw [if_pos hand, BitVec.and_comm] at hrec
              exact of_decide_eq_false hrec hsat
            · rw [EventThread.satisfied_or hand] at hsat
              rw [if_neg hand, BitVec.and_comm] at hrec
              exact of_decide_eq_false hrec hsat
          -- the others wait as before
          · show ((s.setThread t _).thread u).inRecv = true ∧ _ ∧
              ¬ ((s.setThread t _).thread u).Satisfied s.set
            rw [setThread_of_ne _ hut]
            exact h.waiting u (hmem u hu hut)
        · show ((s.setThread t _).thread u).error = .eok
          by_cases hut : u = t
          · subst hut
            simp only [setThread, Function.update_self]
          · rw [setThread_of_ne _ hut]
            exact h.error u (hmem u hu hut)

/-- **Every call keeps the invariant.** -/
theorem Inv.step (h : s.Inv) (hs : s.exec a = some s') : s'.Inv := by
  cases a with
  | send set =>
    cases hs
    exact h.send set
  | recv priority t set option timeout =>
    obtain ⟨⟨ht, hoption⟩, rfl⟩ := Runs.takeIf_eq_some.1 hs
    exact h.recv ht hoption
  | woken t =>
    obtain ⟨⟨-, ht⟩, rfl⟩ := Runs.takeIf_eq_some.1 hs
    exact h.touch ht _ (Within.refl _)
  | timeout t =>
    obtain ⟨-, rfl⟩ := Runs.takeIf_eq_some.1 hs
    -- the thread leaves the list, the others do not change
    have hothers : ∀ u, u ∈ s.suspendThread.erase t →
        u ∈ s.suspendThread ∧ (s.threadTimeout t).thread u = s.thread u := by
      intro u hu
      obtain ⟨hut, hu⟩ := h.nodup.mem_erase_iff.1 hu
      exact ⟨hu, setThread_of_ne _ hut⟩
    refine ⟨h.nodup.erase t, fun u hu => ?_, fun u hu => ?_⟩
    · obtain ⟨hu, hthread⟩ := hothers u hu
      rw [hthread]
      exact h.waiting u hu
    · obtain ⟨hu, hthread⟩ := hothers u hu
      rw [hthread]
      exact h.error u hu
  | reset =>
    cases hs
    exact ⟨List.nodup_nil, fun t ht => absurd ht List.not_mem_nil,
      fun t ht => absurd ht List.not_mem_nil⟩

/-- A thread that has been resumed keeps what it got until it goes on. -/
theorem Inv.kept (h : s.Inv) (hs : s.exec a = some s') (hin : (s.thread t).inRecv = true)
    (ht : t ∉ s.suspendThread) (ha : a ≠ .woken t) :
    s'.thread t = s.thread t ∧ t ∉ s'.suspendThread := by
  cases a with
  | send set =>
    cases hs
    by_cases hset : set = 0#32
    · unfold rtEventSend
      rw [if_pos hset]
      exact ⟨rfl, ht⟩
    -- a send touches only threads of the list
    · obtain ⟨-, hw⟩ := h.walk hset
      obtain ⟨hsus, hthread⟩ := hw.others t ht
      exact ⟨hthread, fun hmem => ht (hsus.1 hmem)⟩
  | recv priority u set option timeout =>
    obtain ⟨⟨hu, -⟩, rfl⟩ := Runs.takeIf_eq_some.1 hs
    have htu : t ≠ u := by
      rintro rfl
      rw [hin] at hu
      cases hu
    unfold rtEventRecv
    split
    · exact ⟨rfl, ht⟩
    · dsimp only
      generalize (if option.and = true then decide (s.set &&& set = set)
        else decide (s.set &&& set ≠ 0#32)) = received
      cases received with
      | true => exact ⟨setThread_of_ne _ htu, ht⟩
      | false =>
        rw [if_neg (by decide)]
        split
        · exact ⟨setThread_of_ne _ htu, ht⟩
        · refine ⟨setThread_of_ne _ htu, fun hmem => ?_⟩
          -- another thread joins the list
          have hcons := (ipcInsert_perm priority s.flag u s.suspendThread).mem_iff.1 hmem
          exact ht ((List.mem_cons.1 hcons).resolve_left htu)
  | woken u =>
    obtain ⟨-, rfl⟩ := Runs.takeIf_eq_some.1 hs
    have htu : t ≠ u := by
      rintro rfl
      exact ha rfl
    exact ⟨setThread_of_ne _ htu, ht⟩
  | timeout u =>
    obtain ⟨⟨hu, -⟩, rfl⟩ := Runs.takeIf_eq_some.1 hs
    have htu : t ≠ u := by
      rintro rfl
      exact ht hu
    exact ⟨setThread_of_ne _ htu, fun hmem => ht (List.mem_of_mem_erase hmem)⟩
  | reset =>
    cases hs
    exact ⟨if_neg ht, List.not_mem_nil⟩

/-- And over any run in which it does not go on. -/
theorem Inv.kept_run (h : s.Inv) (hin : (s.thread t).inRecv = true) (ht : t ∉ s.suspendThread)
    (hrun : Runs (Runs.Exec Event.exec) (fun _ a => a ≠ .woken t) s s') :
    s'.thread t = s.thread t ∧ t ∉ s'.suspendThread := by
  have hboth : s'.Inv ∧ s'.thread t = s.thread t ∧ t ∉ s'.suspendThread := by
    refine @Runs.invariant _ _ _ _ _ _
      (fun s' => s'.Inv ∧ s'.thread t = s.thread t ∧ t ∉ s'.suspendThread) ?_ hrun ⟨h, rfl, ht⟩
    rintro s₁ a s₂ ⟨hinv, hthread, hout⟩ ha hs
    obtain ⟨hsame, hout'⟩ := hinv.kept hs (hthread ▸ hin) hout ha
    exact ⟨hinv.step hs, hsame.trans hthread, hout'⟩
  exact hboth.2

/-- What `rt_event_send` does with the threads that wait. -/
structure SentTo (s : Event) (new : BitVec 32) (r : EventSent × Event) : Prop where
  code : r.1 = .eok
  set : r.2.set = leftBy s.thread s.suspendThread (s.set ||| new)
  /-- A waiter is resumed if and only if its condition holds for what the waiters before it
  have left. -/
  resumed_iff : ∀ pre t post, s.suspendThread = pre ++ t :: post →
    (t ∉ r.2.suspendThread ↔ (s.thread t).Satisfied (leftBy s.thread pre (s.set ||| new)))
  /-- It gets the bits of its request that are there: they are what its call returns when the
  thread goes on, whatever happens in the meantime. -/
  received : ∀ pre t post, s.suspendThread = pre ++ t :: post → t ∉ r.2.suspendThread →
    ∀ s', Runs (Runs.Exec Event.exec) (fun _ a => a ≠ .woken t) r.2 s' →
      (s'.thread t).inRecv = true ∧ t ∉ s'.suspendThread ∧
      (s'.rtEventRecvWoken t).1 =
        (.eok, some ((s.thread t).eventSet &&& leftBy s.thread pre (s.set ||| new)))
  /-- Of two waiters that clear the same bits one at most is resumed. -/
  exclusive : ∀ pre t mid u post, s.suspendThread = pre ++ t :: (mid ++ u :: post) →
    (s.thread t).eventSet = (s.thread u).eventSet → (s.thread t).eventSet ≠ 0#32 →
    (s.thread t).eventInfo.clear = true →
    t ∉ r.2.suspendThread → u ∈ r.2.suspendThread
  /-- Of two waiters that clear the same bit exactly one is resumed, the first, unless a waiter
  before them has cleared it. -/
  one : ∀ pre t mid u post i, s.suspendThread = pre ++ t :: (mid ++ u :: post) → i < 32 →
    (s.thread t).eventSet = BitVec.twoPow 32 i → (s.thread u).eventSet = BitVec.twoPow 32 i →
    (s.thread t).eventInfo.clear = true →
    (leftBy s.thread pre (s.set ||| new)).getLsbD i = true →
    t ∉ r.2.suspendThread ∧ u ∈ r.2.suspendThread

/-- What is left behind a waiter that clears what it gets. -/
theorem leftBy_cleared {thread : ThreadId → EventThread} {pre : List ThreadId}
    (mid : List ThreadId)
    (hsat : (thread t).Satisfied (leftBy thread pre set))
    (hclear : (thread t).eventInfo.clear = true) :
    (thread t).eventSet &&& leftBy thread (pre ++ t :: mid) set = 0#32 := by
  have hsplit : leftBy thread (pre ++ t :: mid) set =
      leftBy thread mid ((thread t).leaves (leftBy thread pre set)) := by
    unfold leftBy
    rw [List.foldl_append]
    rfl
  have hleaves : (thread t).leaves (leftBy thread pre set) =
      leftBy thread pre set &&& ~~~((thread t).eventSet &&& leftBy thread pre set) :=
    if_pos ⟨hsat, hclear⟩
  have hw := leftBy_within thread mid ((thread t).leaves (leftBy thread pre set))
  unfold Within at hw
  rw [hsplit, ← hw, hleaves]
  -- bit by bit, whatever the waiters between them take away
  generalize leftBy thread mid _ = c
  generalize leftBy thread pre set = b
  ext i hi
  simp only [BitVec.getElem_and, BitVec.getElem_not, BitVec.getElem_zero]
  cases (thread t).eventSet[i] <;> cases b[i] <;> simp

theorem Inv.sentTo (h : s.Inv) (hset : set ≠ 0#32) : SentTo s set (s.rtEventSend set) := by
  obtain ⟨hcode, hw⟩ := h.walk hset
  have hresumed : ∀ pre t post, s.suspendThread = pre ++ t :: post →
      (t ∉ (s.rtEventSend set).2.suspendThread ↔
        (s.thread t).Satisfied (leftBy s.thread pre (s.set ||| set))) := by
    intro pre t post hsplit
    constructor
    · intro ht
      by_contra hsat
      have hold : t ∈ s.suspendThread := by simp [hsplit]
      exact ht ((hw.left pre t post hsplit hsat).1.2 hold)
    · intro hsat
      exact (hw.resumed pre t post hsplit hsat).1
  have hexclusive : ∀ pre t mid u post, s.suspendThread = pre ++ t :: (mid ++ u :: post) →
      (s.thread t).eventSet = (s.thread u).eventSet → (s.thread t).eventSet ≠ 0#32 →
      (s.thread t).eventInfo.clear = true → t ∉ (s.rtEventSend set).2.suspendThread →
      u ∈ (s.rtEventSend set).2.suspendThread := by
    intro pre t mid u post hsplit hsame hne hclear ht
    -- the first of the two has cleared what both wait for
    have hcleared := leftBy_cleared mid ((hresumed pre t _ hsplit).1 ht) hclear
    by_contra hu
    have hsat := (hresumed (pre ++ t :: mid) u post (by simp [hsplit])).1 hu
    rw [hsame] at hcleared hne
    by_cases hand : (s.thread u).eventInfo.and = true
    · rw [EventThread.satisfied_and hand, hcleared] at hsat
      exact hne hsat.symm
    · rw [EventThread.satisfied_or hand] at hsat
      exact hsat hcleared
  refine ⟨hcode, hw.set, hresumed, ?_, hexclusive, ?_⟩
  · intro pre t post hsplit ht s' hrun
    have hold : t ∈ s.suspendThread := by simp [hsplit]
    have hthread := (hw.resumed pre t post hsplit ((hresumed pre t post hsplit).1 ht)).2
    have hin : ((s.rtEventSend set).2.thread t).inRecv = true := by
      rw [hthread]
      exact (h.waiting t hold).1
    have herror : ((s.rtEventSend set).2.thread t).error = .eok := by
      rw [hthread]
      exact h.error t hold
    obtain ⟨hkept, hout⟩ := (h.send set).kept_run hin ht hrun
    refine ⟨hkept ▸ hin, hout, ?_⟩
    unfold rtEventRecvWoken
    dsimp only
    rw [hkept, herror, if_neg (not_not_intro rfl), hthread]
  · intro pre t mid u post i hsplit hi hbit hbit' hclear hthere
    have hpos : BitVec.twoPow 32 i ≠ 0#32 := by
      intro hzero
      have hget := congrArg (fun x => BitVec.getLsbD x i) hzero
      simp [hi] at hget
    -- the request is a single bit, and it is there
    have hand : BitVec.twoPow 32 i &&& leftBy s.thread pre (s.set ||| set) =
        BitVec.twoPow 32 i := by
      rw [BitVec.twoPow_and, if_pos hthere]
    have ht : t ∉ (s.rtEventSend set).2.suspendThread := by
      rw [hresumed pre t _ hsplit]
      by_cases hmode : (s.thread t).eventInfo.and = true
      · rw [EventThread.satisfied_and hmode, hbit]
        exact hand
      · rw [EventThread.satisfied_or hmode, hbit, hand]
        exact hpos
    refine ⟨ht, hexclusive pre t mid u post hsplit (hbit.trans hbit'.symm) ?_ hclear ht⟩
    rw [hbit]
    exact hpos

/-- **Events.** After any run of sends, receives, time-outs and resets, no thread waits for a
condition that holds; a send looks at the waiters once, in the order of the list, resumes those
whose condition holds for what the ones before them have left, and gives them the bits that are
there, which are what their calls return; and a thread that has been resumed keeps what it got
until its call returns. -/
theorem event_no_satisfied_waiter {flag : IpcFlag}
    (hrun : Runs (Runs.Exec Event.exec) Runs.always (rtEventInit flag) s) :
    (∀ t, t ∈ s.suspendThread → ¬ (s.thread t).Satisfied s.set) ∧
    (∀ set, set ≠ 0#32 → SentTo s set (s.rtEventSend set)) ∧
    (∀ t a s', (s.thread t).inRecv = true → t ∉ s.suspendThread → s.exec a = some s' →
      a ≠ .woken t → s'.thread t = s.thread t ∧ t ∉ s'.suspendThread) := by
  have hinit : (rtEventInit flag).Inv := ⟨List.nodup_nil, fun t ht => absurd ht List.not_mem_nil,
    fun t ht => absurd ht List.not_mem_nil⟩
  have h : s.Inv := Runs.invariant (fun _ _ _ hinv _ hs => Inv.step hinv hs) hrun hinit
  refine ⟨fun t ht => (h.waiting t ht).2.2, fun set hset => h.sentTo hset, ?_⟩
  intro t a s' hin ht hs ha
  exact h.kept hs hin ht ha

end Steps

/-- Two threads wait for the bit 0 and clear it. -/
def twoClearing : List EventAct :=
  [.recv (fun _ => 5) 1 1#32 ⟨false, true, true⟩ (-1),
    .recv (fun _ => 5) 2 1#32 ⟨true, false, true⟩ 10]

/-- The first one gets it, and its call returns it. -/
theorem event_no_satisfied_waiter_two :
    ∃ s, Runs (Runs.Exec Event.exec) Runs.always (rtEventInit .prio) s ∧
      ((s.rtEventSend 1#32).2.rtEventRecvWoken 1).1 = (.eok, some 1#32) ∧
      1 ∉ (s.rtEventSend 1#32).2.suspendThread ∧ 2 ∈ (s.rtEventSend 1#32).2.suspendThread := by
  obtain ⟨s, -, hrun, hend⟩ := @Runs.exec_of_replay _ _ Runs.always (rtEventInit .prio) Event.exec _
    twoClearing (fun s => decide (s.suspendThread = [1, 2] ∧ s.set = 0#32 ∧
      (s.thread 1).eventSet = BitVec.twoPow 32 0 ∧ (s.thread 2).eventSet = BitVec.twoPow 32 0 ∧
      (s.thread 1).eventInfo.clear = true)) (by decide +kernel)
  -- both wait, and the set is empty
  obtain ⟨hlist, hset, h1, h2, hclear⟩ := of_decide_eq_true hend
  have hsent := (event_no_satisfied_waiter hrun).2.1 1#32 (by decide)
  have hone := hsent.one [] 1 [] 2 [] 0 (by simp [hlist]) (by decide) h1 h2 hclear (by
    show (s.set ||| 1#32).getLsbD 0 = true
    rw [hset]
    decide)
  obtain ⟨-, -, hgot⟩ := hsent.received [] 1 [2] (by simp [hlist]) hone.1 _ Runs.refl
  refine ⟨s, hrun, hgot.trans ?_, hone⟩
  show (RtErr.eok, some ((s.thread 1).eventSet &&& (s.set ||| 1#32))) = _
  rw [h1, hset]
  decide

end Event

end RTThread
