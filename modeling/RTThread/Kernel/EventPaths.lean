import RTThread.Kernel.Event

/-!
# The two ways through `rt_event_recv` (`ipc.c`)

A thread whose condition holds takes its bits in `rt_event_recv`; one that has to wait is given
them by the send that satisfies it, from its own `event_set`, and takes them from there when it
goes on. For a thread that waits alone the two come to the same: sends that satisfy nobody only
add to the set, and clearing what was received clears the request.
-/

namespace RTThread.Event

/-- One `rt_event_send` after the other. -/
def sendAll (s : Event) (sends : List (BitVec 32)) : Event :=
  sends.foldl (fun s set => (s.rtEventSend set).2) s

/-- The event set when all of `sends` has been added to it. -/
def gathered (set : BitVec 32) (sends : List (BitVec 32)) : BitVec 32 :=
  sends.foldl (fun set new => set ||| new) set

variable {s : Event} {t : ThreadId} {request set last : BitVec 32} {sends : List (BitVec 32)}
  {option : EventOption}

theorem within_or (a b : BitVec 32) : Within a (a ||| b) := by
  unfold Within
  ext i hi
  simp only [BitVec.getElem_and, BitVec.getElem_or]
  cases a[i] <;> simp

theorem within_gathered (set : BitVec 32) (sends : List (BitVec 32)) :
    Within set (gathered set sends) := by
  induction sends generalizing set with
  | nil => exact Within.refl _
  | cons new sends ih => exact (within_or set new).trans (ih (set ||| new))

theorem foldl_visit_of_unsatisfied {n : List ThreadId}
    (h : ∀ u ∈ n, ¬ (s.thread u).Satisfied s.set) : n.foldl visit s = s := by
  induction n with
  | nil => rfl
  | cons u n ih =>
    have hvisit : s.visit u = s := if_neg (h u List.mem_cons_self)
    rw [List.foldl_cons, hvisit]
    exact ih fun u hu => h u (List.mem_cons_of_mem _ hu)

/-- The waiters of the event say how they wait. -/
def Waiting (s : Event) : Prop := s.suspendThread.Nodup ∧
  ∀ u ∈ s.suspendThread, (s.thread u).eventInfo.and = true ∨ (s.thread u).eventInfo.or = true

/-- One send: the set grows, and the loop runs over the waiters. -/
theorem rtEventSend_eq (h : s.Waiting) (hset : set ≠ 0#32) : (s.rtEventSend set).2 =
    s.suspendThread.foldl visit { s with set := s.set ||| set } := by
  rw [rtEventSend, if_neg hset]
  exact congrArg Prod.snd (sendLoop_eq h.1 (s := { s with set := s.set ||| set }) h.2)

/-- **Sends that satisfy nobody** add to the set; by induction on the sends, each with a set
that is within the last one. -/
theorem sendAll_eq (h : s.Waiting)
    (hnot : ∀ u ∈ s.suspendThread, ¬ (s.thread u).Satisfied (gathered s.set sends)) :
    s.sendAll sends = { s with set := gathered s.set sends } := by
  induction sends generalizing s with
  | nil => rfl
  | cons set sends ih =>
    have hnext : (s.rtEventSend set).2 = { s with set := s.set ||| set } := by
      by_cases hset : set = 0#32
      · rw [rtEventSend, if_pos hset, hset, BitVec.or_zero]
      · rw [rtEventSend_eq h hset]
        exact foldl_visit_of_unsatisfied fun u hu hsat =>
          hnot u hu (hsat.mono (within_gathered (s.set ||| set) sends))
    rw [sendAll, List.foldl_cons, hnext]
    exact ih h hnot

/-- The test `rt_event_recv` makes. -/
theorem received_iff : (if option.and = true then decide (set &&& request = request)
    else decide (set &&& request ≠ 0#32)) = true ↔ option.Satisfied request set := by
  rw [EventOption.Satisfied, BitVec.and_comm request set]
  by_cases hand : option.and = true
  · rw [if_pos hand, if_pos hand, decide_eq_true_eq]
  · rw [if_neg hand, if_neg hand, decide_eq_true_eq]

/-- Clearing the bits that were received is clearing the request. -/
theorem and_not_received (request set : BitVec 32) :
    set &&& ~~~(request &&& set) = set &&& ~~~request := by
  ext i hi
  simp only [BitVec.getElem_and, BitVec.getElem_not]
  cases set[i] <;> simp

theorem ipcInsert_nil (priority : ThreadId → Nat) (flag : IpcFlag) (t : ThreadId) :
    ipcInsert priority flag t [] = [t] := List.perm_singleton.mp (ipcInsert_perm priority flag t [])

/-- What a thread that blocks leaves: it waits alone, with its request. -/
def blocked (s : Event) (t : ThreadId) (request : BitVec 32) (option : EventOption)
    (timeout : Int) : Event :=
  { s.setThread t { s.thread t with
      eventSet := request, eventInfo := option, error := .eok, inRecv := true
      timer := decide (0 < timeout) } with suspendThread := [t] }

theorem rtEventRecv_blocks {priority : ThreadId → Nat} {timeout : Int}
    (halone : s.suspendThread = []) (hrequest : request ≠ 0#32) (htimeout : timeout ≠ 0)
    (hnot : ¬ option.Satisfied request s.set) :
    s.rtEventRecv priority t request option timeout =
      (none, s.blocked t request option timeout) := by
  rw [rtEventRecv, if_neg hrequest]
  dsimp only
  rw [if_neg fun h => hnot (received_iff.mp h), if_neg htimeout, halone, ipcInsert_nil]
  rfl

/-- The thread calls `rt_event_recv`, and then the sends come. -/
def sentAfter (s : Event) (priority : ThreadId → Nat) (t : ThreadId) (request : BitVec 32)
    (option : EventOption) (timeout : Int) (sends : List (BitVec 32)) : Event :=
  (s.rtEventRecv priority t request option timeout).2.sendAll sends

/-- **The blocked and the immediate path agree.** A thread that is alone blocks in
`rt_event_recv`, sends follow of which the last is the first to satisfy the request, and the
thread goes on; or the sends come first, and then the thread calls `rt_event_recv`. What it
receives and the set that remains are the same. -/
theorem rtEventRecv_blocked_eq (priority : ThreadId → Nat) (timeout timeout' : Int)
    (halone : s.suspendThread = []) (hoption : option.and = true ∨ option.or = true)
    (hrequest : request ≠ 0#32) (htimeout : timeout ≠ 0)
    (hnot : ¬ option.Satisfied request (gathered s.set sends))
    (hsat : option.Satisfied request (gathered s.set (sends ++ [last]))) :
    (s.rtEventRecv priority t request option timeout).1 = none ∧
      t ∉ (s.sentAfter priority t request option timeout (sends ++ [last])).suspendThread ∧
      ((s.sendAll (sends ++ [last])).rtEventRecv priority t request option timeout').1 =
        some ((s.sentAfter priority t request option timeout
          (sends ++ [last])).rtEventRecvWoken t).1 ∧
      ((s.sentAfter priority t request option timeout
        (sends ++ [last])).rtEventRecvWoken t).1.1 = .eok ∧
      ((s.sentAfter priority t request option timeout
        (sends ++ [last])).rtEventRecvWoken t).2.set =
        ((s.sendAll (sends ++ [last])).rtEventRecv priority t request option timeout').2.set := by
  have hstart : ¬ option.Satisfied request s.set := fun h =>
    hnot (@EventThread.Satisfied.mono _ _ ⟨request, option, .eok, false, false⟩
      (within_gathered _ _) h)
  have hgather : gathered s.set (sends ++ [last]) = gathered s.set sends ||| last :=
    List.foldl_append
  have hlast : last ≠ 0#32 := by
    rintro rfl
    rw [hgather, BitVec.or_zero] at hsat
    exact hnot hsat
  obtain ⟨b, hb⟩ : ∃ b, b = s.blocked t request option timeout := ⟨_, rfl⟩
  have hself : b.thread t = { s.thread t with
      eventSet := request, eventInfo := option, error := .eok, inRecv := true
      timer := decide (0 < timeout) } := by
    rw [hb]
    exact Function.update_self _ _ _
  have hbset : b.set = s.set := by rw [hb]; rfl
  have hbsus : b.suspendThread = [t] := by rw [hb]; rfl
  -- the sends after the thread has blocked: the last one resumes it
  have hwait : b.Waiting := by
    rw [Waiting, hbsus]
    refine ⟨List.nodup_singleton t, fun u hu => ?_⟩
    rw [List.mem_singleton.mp hu, hself]
    exact hoption
  have hsent : b.sendAll sends = { b with set := gathered s.set sends } := by
    rw [← hbset]
    refine sendAll_eq hwait fun u hu => ?_
    rw [hbsus] at hu
    rw [List.mem_singleton.mp hu, hself, hbset]
    exact hnot
  have hresumed : b.sendAll (sends ++ [last]) =
      Event.receive { b with set := gathered s.set (sends ++ [last]) } t
        (request &&& gathered s.set (sends ++ [last])) := by
    rw [sendAll, List.foldl_append]
    change (Event.rtEventSend (b.sendAll sends) last).2 = _
    rw [hsent, rtEventSend_eq (by exact hwait) hlast, hgather]
    dsimp only
    rw [hbsus, List.foldl_cons, List.foldl_nil, visit]
    dsimp only
    rw [hself]
    exact if_pos (hgather ▸ hsat)
  -- the sends without a waiter
  have hfree : s.sendAll (sends ++ [last]) = { s with set := gathered s.set (sends ++ [last]) } := by
    refine sendAll_eq ⟨halone ▸ List.nodup_nil, ?_⟩ ?_
    · simp [halone]
    · simp [halone]
  have himmediate := received_iff.mpr hsat
  rw [sentAfter, rtEventRecv_blocks halone hrequest htimeout hstart, ← hb]
  dsimp only
  rw [hresumed, hfree, rtEventRecv, if_neg hrequest]
  dsimp only
  rw [himmediate, if_pos rfl, rtEventRecvWoken, receive_self]
  dsimp only
  rw [hself]
  refine ⟨rfl, ?_, ?_, rfl, ?_⟩
  · change t ∉ b.suspendThread.erase t
    rw [hbsus, List.erase_cons_head]
    exact List.not_mem_nil
  · rw [BitVec.and_comm]
    rfl
  · change (if (b.thread t).eventInfo.clear = true then _ else _) = _
    rw [hself]
    dsimp only
    rw [and_not_received]

/-- A thread waits for the bits 0 and 1 and clears them; they come one at a time, and the bit 2
with the second. -/
theorem rtEventRecv_blocked_eq_two :
    (((rtEventInit .fifo).sentAfter (fun _ => 5) 1 3#32 ⟨true, false, true⟩ (-1)
      ([1#32] ++ [6#32])).rtEventRecvWoken 1).2.set = 4#32 := by
  have himmediate : (((rtEventInit .fifo).sendAll ([1#32] ++ [6#32])).rtEventRecv (fun _ => 5) 1
      3#32 ⟨true, false, true⟩ 0).2.set = 4#32 := by decide
  exact (@rtEventRecv_blocked_eq (rtEventInit .fifo) 1 3#32 6#32 [1#32] ⟨true, false, true⟩
    (fun _ => 5) (-1) 0 rfl (.inl rfl) (by decide) (by decide) (by decide)
    (by decide)).2.2.2.2.trans himmediate

end RTThread.Event
