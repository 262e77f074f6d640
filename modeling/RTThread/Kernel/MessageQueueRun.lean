import RTThread.Kernel.MessageQueuePlaces

/-!
# Runs of a message queue

Each section of a call moves the first buffer of one place to another one: a sender takes it from
the free list and later puts it behind the last message, or in front of the first one, and a
receiver takes it from there and later puts it back to the free list. A reset moves the messages
one after the other to the free list, and leaves the buffers in the hands of calls alone.

## Main results

* `InvAt.grab`, `InvAt.linkBack`, `InvAt.linkFront`, `InvAt.unlink`, `InvAt.putFree` — the moves.
* `messageQueue_buffers` — in every run every buffer is in one place, and the queue is a bounded
  double-ended queue of the messages that its senders have copied.
-/

namespace RTThread.MessageQueue

open LinkedList

variable {s s' : MessageQueue} {Q Q' : MqPlace → List Nat} {t u : ThreadId} {m y size : Nat}

-- --------
-- The calls of the threads
-- --------

@[simp] theorem call_setCall_self (c : Option MqCall) : (s.setCall t c).call t = c := by
  show (Function.update s.waits.thread t _ t).call = c
  rw [Function.update_self]

theorem call_setCall_of_ne (hu : u ≠ t) (c : Option MqCall) :
    (s.setCall t c).call u = s.call u := by
  show (Function.update s.waits.thread t _ u).call = _
  rw [Function.update_of_ne hu]
  rfl

theorem Housed.held_setCall (h : Housed s Q) {c : Option MqCall} (hu : u ≠ t)
    (hs' : s'.waits = s.waits) : Q (.held u) = ((s'.setCall t c).holding u).toList := by
  rw [h.held u]
  unfold holding
  rw [call_setCall_of_ne hu]
  unfold call
  rw [hs']

/-- The messages in the queue, as their senders have copied them. -/
def contents (s : MessageQueue) : List (List UInt8) :=
  (nodes s.next s.msgQueueHead s.entry).map s.sent

theorem InvAt.contents_eq (h : InvAt s Q) : s.contents = (Q .queued).map s.sent := by
  unfold contents
  rw [h.entry, h.lists.queued.nodes_eq]

-- --------
-- Taking a free buffer
-- --------

theorem InvAt.grab (urgent : Bool) (h : InvAt s Q) (hfree : s.msgQueueFree ≠ null)
    (hnone : s.holding t = none) (hsize : size ≤ s.pool.msgSize) :
    ∃ Q', InvAt (s.grab t size urgent) Q' ∧ Q' .queued = Q .queued := by
  obtain ⟨l, hq, hl⟩ := h.lists.free.exists_cons hfree
  have hheld : Q (.held t) = [] := h.housed.held_nil hnone
  have hm : s.msgQueueFree ∈ Q .free := Queues.head_mem hq
  have hmb := h.housed.mem_buffers hm
  have hperm : [s.msgQueueFree].Perm (s.msgQueueFree :: Q (.held t)) := by rw [hheld]
  have hne : MqPlace.free ≠ .held t := by simp
  have hpool : (s.grab t size urgent).pool = s.pool := by cases urgent <;> rfl
  -- only the link of the buffer changes
  have hnext : ∀ y ∈ s.pool.buffers, y ≠ s.msgQueueFree →
      (s.grab t size urgent).next y = s.next y := by
    intro y hy hym
    cases urgent with
    | false => exact load32_link hmb hy hym
    | true => rfl
  have hbytes : SameBytes s.pool s.mem (s.grab t size urgent).mem := by
    cases urgent with
    | false => exact sameBytes_link hmb
    | true => exact SameBytes.refl _ _
  have hcall : (s.grab t size urgent).call t =
      some (.filling s.msgQueueFree size [] urgent) := by
    cases urgent <;> exact call_setCall_self _
  have hcall_ne : ∀ u, u ≠ t → (s.grab t size urgent).call u = s.call u := by
    intro u hu
    cases urgent <;> exact call_setCall_of_ne hu _
  refine ⟨Queues.move Q .free l (.held t) [s.msgQueueFree], ⟨?_, ?_, ?_, ?_⟩,
    Queues.move_other (by simp) (by simp)⟩
  -- the place: out of the free list into the hands of `t`
  · refine h.housed.move hq hperm hne hpool fun u => ?_
    by_cases hu : u = t
    · subst hu
      rw [Queues.move_to, holding_of_call hcall]
      rfl
    · rw [Queues.move_other (by simp) (by simpa using hu), h.housed.held u]
      unfold holding
      rw [hcall_ne u hu]
  · refine ⟨?_, ?_, ?_⟩
    · rw [Queues.move_from hne]
      -- the free list goes on behind its first buffer
      have hnd : (s.msgQueueFree :: l).Nodup := hq ▸ h.housed.apart.nodup _
      have hfree' : (s.grab t size urgent).msgQueueFree = s.next s.msgQueueFree := by
        cases urgent <;> rfl
      rw [hfree']
      refine hl.congr fun y hy => hnext y ?_ ?_
      · exact h.housed.mem_buffers (p := .free) (by rw [hq]; exact List.mem_cons_of_mem _ hy)
      · rintro rfl
        exact (List.nodup_cons.1 hnd).1 hy
    · rw [Queues.move_other (by simp) (by simp)]
      have hhead : (s.grab t size urgent).msgQueueHead = s.msgQueueHead := by
        cases urgent <;> rfl
      rw [hhead]
      exact h.lists.queued.congr fun y hy =>
        hnext y (h.housed.mem_buffers hy) (h.housed.ne hm hy (by simp))
    · rw [Queues.move_other (by simp) (by simp), ← h.lists.tail]
      cases urgent <;> rfl
  · refine h.kept.move h.housed hq hperm hne hpool hbytes ?_ ?_ ?_
    · intro y _
      cases urgent <;> rfl
    · intro u
      by_cases hu : u = t
      · subst hu
        -- the call of `t` is new, and it held no buffer
        refine Or.inr ⟨fun y hy => ?_, fun c hc => ?_⟩
        · rw [hheld] at hy
          exact absurd hy List.not_mem_nil
        · cases hcall.symm.trans hc
          refine ⟨Nat.zero_le _, hpool ▸ hsize, ?_⟩
          rintro rfl
          exact ByteMem.load32_store32_self (by decide)
      · exact Or.inl ⟨hcall_ne u hu, fun y hy =>
          hnext y (h.housed.mem_buffers hy) (h.housed.ne hm hy (by simp))⟩
    · rw [carries_of_call hcall]
      exact ⟨Nat.zero_le _, ByteMem.holds_nil⟩
  · rw [Queues.move_other (by simp) (by simp), ← h.entry]
    cases urgent <;> rfl

-- --------
-- Copying
-- --------

section Copying

variable {done bytes got : List UInt8} {len : Nat} {urgent : Bool} {byte : UInt8}

/-- A sender copies a byte. -/
theorem InvAt.copyIn (h : InvAt s Q) (hc : s.call t = some (.filling m size done urgent))
    (hlt : done.length < size) : InvAt (s.copyIn t m size done urgent byte) Q := by
  have hheld : Q (.held t) = [m] := h.housed.held_eq (holding_of_call hc)
  have hm : m ∈ Q (.held t) := Queues.head_mem hheld
  have hmb := h.housed.mem_buffers hm
  obtain ⟨-, hsize, hlink⟩ := h.kept.calls hc
  have hheader : MqPool.header = 4 := rfl
  have hcall : (s.copyIn t m size done urgent byte).call t =
      some (.filling m size (done ++ [byte]) urgent) := call_setCall_self _
  have hcall_ne : ∀ u, u ≠ t → (s.copyIn t m size done urgent byte).call u = s.call u :=
    fun u hu => call_setCall_of_ne hu _
  -- no link changes
  have hnext : ∀ y ∈ s.pool.buffers, (s.copyIn t m size done urgent byte).next y = s.next y := by
    intro y hy
    refine ByteMem.load32_update_out ?_
    by_cases hym : y = m
    · omega
    · have hsep := MqPool.apart hy hmb hym
      omega
  refine ⟨⟨h.housed.apart, h.housed.buffer, fun u => ?_⟩, ⟨?_, ?_, h.lists.tail⟩, ⟨?_, ?_⟩,
    h.entry⟩
  · by_cases hu : u = t
    · subst hu
      rw [hheld, holding_of_call hcall]
      rfl
    · exact h.housed.held_setCall hu rfl
  · exact h.lists.free.congr fun y hy => hnext y (h.housed.mem_buffers hy)
  · exact h.lists.queued.congr fun y hy => hnext y (h.housed.mem_buffers hy)
  · intro p y hy
    -- the buffer that is being filled has one byte more, and the others are apart from it
    by_cases hp : p = .held t
    · subst hp
      rw [hheld, List.mem_singleton] at hy
      subst hy
      have hholds := (h.kept.bytes hm).2
      rw [carries_of_call hc] at hholds
      rw [carries_of_call hcall]
      refine ⟨?_, hholds.snoc⟩
      show (done ++ [byte]).length ≤ s.pool.msgSize
      rw [List.length_append, List.length_singleton]
      exact Nat.le_trans hlt hsize
    · have hcarries : (s.copyIn t m size done urgent byte).carries p y = s.carries p y := by
        cases p with
        | free => rfl
        | queued => rfl
        | held u => exact carries_congr (hcall_ne u fun hu => hp (by rw [hu]))
      obtain ⟨hlen, hholds⟩ := h.kept.bytes hy
      have hsep := MqPool.apart hmb (h.housed.mem_buffers hy) (h.housed.ne hy hm hp)
      rw [hcarries]
      refine ⟨hlen, hholds.congr fun i hi => ?_⟩
      have hpool : (s.copyIn t m size done urgent byte).pool = s.pool := rfl
      exact Function.update_of_ne (by omega) _ _
  · intro u c hu
    by_cases hut : u = t
    · subst hut
      cases hcall.symm.trans hu
      refine ⟨?_, hsize, fun hurgent => (hnext m hmb).trans (hlink hurgent)⟩
      rw [List.length_append, List.length_singleton]
      exact hlt
    -- a buffer that another call fills keeps its link
    · have hold := h.kept.calls ((hcall_ne u hut).symm.trans hu)
      cases c with
      | filling m₁ size₁ done₁ urgent₁ =>
        obtain ⟨hdone, hsize₁, hlink₁⟩ := hold
        have hm₁ : m₁ ∈ Q (.held u) :=
          Queues.head_mem (h.housed.held_eq (holding_of_call ((hcall_ne u hut).symm.trans hu)))
        exact ⟨hdone, hsize₁, fun hurgent =>
          (hnext m₁ (h.housed.mem_buffers hm₁)).trans (hlink₁ hurgent)⟩
      | send size timeout => exact hold
      | recv size timeout => trivial
      | draining m₁ len bytes got => exact hold

/-- A receiver copies a byte: it is one of the message, as far as the message goes. -/
theorem InvAt.copyOut (h : InvAt s Q) (hc : s.call t = some (.draining m len bytes got))
    (hlt : got.length < len) : InvAt (s.copyOut t m len bytes got) Q := by
  have hm : m ∈ Q (.held t) :=
    Queues.head_mem (h.housed.held_eq (holding_of_call hc))
  obtain ⟨hlen, -, hagree⟩ := h.kept.calls hc
  refine h.waits _ fun u => ?_
  by_cases hu : u = t
  · subst hu
    have hcall : (s.copyOut u m len bytes got).call u =
        some (.draining m len bytes (got ++ [s.mem (m + MqPool.header + got.length)])) :=
      call_setCall_self _
    refine Or.inr ⟨?_, ?_, fun c hc' => ?_⟩
    · rw [holding_of_call hc]
      exact congrArg (Option.bind · MqCall.holds) hcall
    · show (((s.copyOut u m len bytes got).call u).map MqCall.carries).getD [] = _
      rw [hcall, hc]
      rfl
    · cases hcall.symm.trans hc'
      refine ⟨hlen, ?_, fun i hi hi' => ?_⟩
      · rw [List.length_append, List.length_singleton]
        exact hlt
      · rw [List.length_append, List.length_singleton] at hi
        -- the byte that was copied last, and the earlier ones
        by_cases hlast : i = got.length
        · subst hlast
          have hholds : s.mem.Holds (m + MqPool.header) bytes := by
            have hcarries := (h.kept.bytes hm).2
            rwa [carries_of_call hc] at hcarries
          rw [List.getElem?_concat_length, hholds _ hi', List.getElem?_eq_getElem hi']
        · rw [List.getElem?_append_left (by omega)]
          exact hagree i (by omega) hi'
  · exact Or.inl (call_setCall_of_ne hu _)

end Copying

-- --------
-- Linking a message
-- --------

section Linking

variable {done : List UInt8} {urgent : Bool}

/-- What linking a buffer to the queue does to the links. -/
structure Relinked (s s' : MessageQueue) (Q : MqPlace → List Nat) (m : Nat) (l : List Nat) :
    Prop where
  queued : Linked s'.next null s'.msgQueueHead l
  tail : s'.msgQueueTail = l.getLast?.getD null
  bytes : SameBytes s.pool s.mem s'.mem
  next : ∀ y ∈ s.pool.buffers, y ∉ Q .queued → y ≠ m → s'.next y = s.next y

theorem InvAt.linkBack (h : InvAt s Q) (hm : m ∈ Q (.held t)) (hnull : s.next m = null) :
    Relinked s (s.linkBack m) Q m (Q .queued ++ [m]) := by
  have hmb := h.housed.mem_buffers hm
  have hm0 := MqPool.ne_null hmb
  have htail' : (s.linkBack m).msgQueueTail = (Q .queued ++ [m]).getLast?.getD null := by
    rw [List.getLast?_concat]
    rfl
  rcases List.eq_nil_or_concat' (Q .queued) with hnil | ⟨l, z, hconcat⟩
  · -- the queue is empty
    have htail := h.lists.tail_null hnil
    have hhead : s.msgQueueHead = null := h.lists.queued.null_iff.2 hnil
    have hmem : (s.linkBack m).mem = s.mem := if_neg (not_not.2 htail)
    have hnext : (s.linkBack m).next = s.next := by
      unfold next
      rw [hmem]
    refine ⟨?_, htail', ?_, fun y _ _ _ => by rw [hnext]⟩
    · have hhead' : (s.linkBack m).msgQueueHead = m := if_pos hhead
      rw [hhead', hnil, hnext]
      exact ⟨rfl, hm0, hnull⟩
    · rw [hmem]
      exact SameBytes.refl _ _
  · -- the last message names the new one
    have hz : z ∈ Q .queued := by
      rw [hconcat]
      exact List.mem_append_right _ List.mem_cons_self
    have hzb := h.housed.mem_buffers hz
    have htail := h.lists.tail_last hconcat
    have hhead : s.msgQueueHead ≠ null := by
      rw [Ne, h.lists.queued.null_iff, hconcat]
      simp
    have hmem : (s.linkBack m).mem = s.mem.store32 z m := by
      show (if s.msgQueueTail ≠ null then s.mem.store32 s.msgQueueTail m else s.mem) = _
      rw [htail, if_pos (MqPool.ne_null hzb)]
    have hnext : ∀ y ∈ s.pool.buffers, y ≠ z → (s.linkBack m).next y = s.next y := by
      intro y hy hyz
      unfold next
      rw [hmem]
      exact load32_link hzb hy hyz
    have hmz : m ≠ z := h.housed.ne hz hm (by simp)
    refine ⟨?_, htail', ?_, fun y hy hyq _ => hnext y hy ?_⟩
    · have hhead' : (s.linkBack m).msgQueueHead = s.msgQueueHead := if_neg hhead
      have hnd : (l ++ [z]).Nodup := hconcat ▸ h.housed.apart.nodup _
      rw [hhead', hconcat, List.append_assoc]
      refine Linked.push_back (hconcat ▸ h.lists.queued) hm0 ?_ ((hnext m hmb hmz).trans hnull)
        fun y hy => hnext y ?_ ?_
      · unfold next
        rw [hmem]
        exact ByteMem.load32_store32_self (MqPool.lt_of_mem hmb)
      · exact h.housed.mem_buffers (p := .queued) (hconcat ▸ List.mem_append_left _ hy)
      · rintro rfl
        exact (List.nodup_append.1 hnd).2.2 y hy y List.mem_cons_self rfl
    · rw [hmem]
      exact sameBytes_link hzb
    · rintro rfl
      exact hyq hz

theorem InvAt.linkFront (h : InvAt s Q) (hm : m ∈ Q (.held t)) :
    Relinked s (s.linkFront m) Q m (m :: Q .queued) := by
  have hmb := h.housed.mem_buffers hm
  have hnext : ∀ y ∈ s.pool.buffers, y ≠ m → (s.linkFront m).next y = s.next y :=
    fun y hy hym => load32_link hmb hy hym
  refine ⟨?_, ?_, sameBytes_link hmb, fun y hy _ hym => hnext y hy hym⟩
  -- the link holds the head, which is null or the address of a buffer
  · have hhead : s.msgQueueHead < 2 ^ 32 := by
      by_cases hnull : s.msgQueueHead = null
      · rw [hnull]
        decide
      · obtain ⟨l, hl, -⟩ := h.lists.queued.exists_cons hnull
        exact MqPool.lt_of_mem (h.housed.mem_buffers (p := .queued) (by
          rw [hl]
          exact List.mem_cons_self))
    exact h.lists.queued.push (MqPool.ne_null hmb) (ByteMem.load32_store32_self hhead)
      fun y hy => hnext y (h.housed.mem_buffers hy) (h.housed.ne hm hy (by simp))
  -- the tail is new just for an empty queue
  · show (if s.msgQueueTail = null then m else s.msgQueueTail) = _
    rcases List.eq_nil_or_concat' (Q .queued) with hnil | ⟨l, z, hconcat⟩
    · rw [if_pos (h.lists.tail_null hnil), hnil]
      rfl
    · have hz : z ∈ Q .queued := by
        rw [hconcat]
        exact List.mem_append_right _ List.mem_cons_self
      rw [h.lists.tail_last hconcat, if_neg (MqPool.ne_null (h.housed.mem_buffers hz)), hconcat, ← List.cons_append,
        List.getLast?_concat]
      rfl

/-- The list of messages when a sender has linked its buffer. -/
def linkedList (l : List Nat) (m : Nat) (urgent : Bool) : List Nat :=
  if urgent then m :: l else l ++ [m]

theorem linkedList_perm (l : List Nat) (m : Nat) (urgent : Bool) :
    (linkedList l m urgent).Perm (m :: l) := by
  cases urgent with
  | false => exact List.perm_append_singleton _ _
  | true => exact List.Perm.refl _

/-- **A sender links its message.** -/
theorem InvAt.link (h : InvAt s Q) (hc : s.call t = some (.filling m size done urgent)) :
    (s.link t m done urgent).1 = .linked done urgent ∧
      ∃ Q', InvAt (s.link t m done urgent).2 Q' ∧ Q' .queued = linkedList (Q .queued) m urgent ∧
        (s.link t m done urgent).2.sent = Function.update s.sent m done ∧
        (s.link t m done urgent).2.pool = s.pool := by
  have hheld : Q (.held t) = [m] := h.housed.held_eq (holding_of_call hc)
  have hm : m ∈ Q (.held t) := Queues.head_mem hheld
  obtain ⟨-, hsize, hlink⟩ := h.kept.calls hc
  have hentry : s.entry < entryMax := by
    -- the buffer in hand is not queued, so not all of them are
    have hlt := h.housed.length_lt hm (show _ ≠ MqPlace.queued by simp)
    have hmax := s.pool.max_lt
    have hmaxEq : entryMax = 65535 := rfl
    rw [h.entry]
    omega
  -- the queue with the new links, before the rest of the section
  obtain ⟨s₁, hs₁, hlinked, hsame⟩ : ∃ s₁ : MessageQueue,
      (if urgent then s.linkFront m else s.linkBack m) = s₁ ∧
      Relinked s s₁ Q m (linkedList (Q .queued) m urgent) ∧
      s₁.pool = s.pool ∧ s₁.entry = s.entry ∧ s₁.msgQueueFree = s.msgQueueFree ∧
      s₁.waits = s.waits ∧ s₁.sent = s.sent := by
    cases urgent with
    | false => exact ⟨s.linkBack m, rfl, h.linkBack hm (hlink rfl), rfl, rfl, rfl, rfl, rfl⟩
    | true => exact ⟨s.linkFront m, rfl, h.linkFront hm, rfl, rfl, rfl, rfl, rfl⟩
  obtain ⟨hpool, hentry₁, hfree₁, hwaits₁, hsent₁⟩ := hsame
  have hr : s.link t m done urgent = (.linked done urgent,
      { { s₁ with entry := s.entry + 1, sent := Function.update s.sent m done }.setCall t none with
        waits := (s₁.setCall t none).waits.resume .recv }) := by
    unfold MessageQueue.link
    rw [hs₁]
    dsimp only
    rw [if_pos (hentry₁ ▸ hentry), hentry₁, hsent₁]
    rfl
  rw [hr]
  refine ⟨rfl, Queues.move Q (.held t) [] .queued (linkedList (Q .queued) m urgent), ?_,
    Queues.move_to, rfl, hpool⟩
  have hne : MqPlace.held t ≠ .queued := by simp
  have hperm := linkedList_perm (Q .queued) m urgent
  -- first the calls and lists without the receiver that is resumed
  set s₂ : MessageQueue :=
    { s₁ with entry := s.entry + 1, sent := Function.update s.sent m done }.setCall t none with hs₂
  have hcall_ne : ∀ u, u ≠ t → s₂.call u = s.call u := by
    intro u hu
    rw [hs₂, call_setCall_of_ne hu]
    unfold call
    dsimp only
    rw [hwaits₁]
  have hcall : s₂.call t = none := call_setCall_self _
  have h₂ : InvAt s₂ (Queues.move Q (.held t) [] .queued (linkedList (Q .queued) m urgent)) := by
    refine ⟨h.housed.move hheld hperm hne hpool fun u => ?_, ⟨?_, ?_, ?_⟩, ?_, ?_⟩
    · by_cases hu : u = t
      · subst hu
        rw [Queues.move_from hne, holding_of_none hcall]
        rfl
      · rw [Queues.move_other (by simpa using hu) (by simp), h.housed.held u]
        unfold holding
        rw [hcall_ne u hu]
    · rw [Queues.move_other (by simp) (by simp)]
      have hfree₂ : s₂.msgQueueFree = s.msgQueueFree := hfree₁
      rw [hfree₂]
      exact h.lists.free.congr fun y hy => hlinked.next y (h.housed.mem_buffers hy)
        (fun hq => by cases h.housed.apart.same hy hq) (h.housed.ne hm hy (by simp))
    · rw [Queues.move_to]
      exact hlinked.queued
    · rw [Queues.move_to]
      exact hlinked.tail
    · refine h.kept.move h.housed hheld hperm hne hpool hlinked.bytes
        (fun y hy => Function.update_of_ne hy _ _) (fun u => ?_) ?_
      · by_cases hu : u = t
        · subst hu
          refine Or.inr ⟨fun y hy => ?_, fun c hc' => ?_⟩
          · rw [hheld] at hy
            exact List.mem_singleton.1 hy
          · rw [hcall] at hc'
            cases hc'
        · exact Or.inl ⟨hcall_ne u hu, fun y hy => hlinked.next y (h.housed.mem_buffers hy)
            (fun hq => by cases h.housed.apart.same hy hq)
            (h.housed.ne hm hy (by simpa using Ne.symm hu))⟩
      · have hcarries : s₂.carries .queued m = done := Function.update_self _ _ _
        obtain ⟨hlen, hholds⟩ := h.kept.bytes hm
        rw [carries_of_call hc] at hlen hholds
        have hpool₂ : s₂.pool = s.pool := hpool
        rw [hcarries, hpool₂]
        exact ⟨hlen, hlinked.bytes.holds (h.housed.mem_buffers hm) hlen hholds⟩
    · rw [Queues.move_to, hperm.length_eq, List.length_cons, ← h.entry]
      rfl
  refine h₂.waits _ fun u => Or.inl ?_
  exact Waits.resume_call _ _ _

end Linking

-- --------
-- Taking the first message
-- --------

theorem tail_of_cons {l : List Nat} (hnd : (m :: l).Nodup) :
    (if (m :: l).getLast?.getD null = m then null else (m :: l).getLast?.getD null) =
      l.getLast?.getD null := by
  rcases List.eq_nil_or_concat' l with rfl | ⟨l, z, rfl⟩
  · exact if_pos rfl
  · rw [← List.cons_append, List.getLast?_concat, List.getLast?_concat]
    refine if_neg ?_
    rintro rfl
    exact (List.nodup_cons.1 hnd).1 (List.mem_append_right _ List.mem_cons_self)

/-- **A receiver takes the first message.** -/
theorem InvAt.unlink (h : InvAt s Q) (hnone : s.holding t = none) (hentry : s.entry ≠ 0) :
    ∃ m l Q', Q .queued = m :: l ∧ (s.unlink t size).1 = .unlinked (s.sent m) ∧
      InvAt (s.unlink t size).2 Q' ∧ Q' .queued = l := by
  have hhead : s.msgQueueHead ≠ null := by
    rw [Ne, h.lists.queued.null_iff]
    intro hnil
    exact hentry (h.entry.trans (congrArg List.length hnil))
  obtain ⟨l, hq, hl⟩ := h.lists.queued.exists_cons hhead
  have hheld : Q (.held t) = [] := h.housed.held_nil hnone
  have hm : s.msgQueueHead ∈ Q .queued := Queues.head_mem hq
  have hperm : [s.msgQueueHead].Perm (s.msgQueueHead :: Q (.held t)) := by rw [hheld]
  have hne : MqPlace.queued ≠ .held t := by simp
  have hnd : (s.msgQueueHead :: l).Nodup := hq ▸ h.housed.apart.nodup _
  set len := if s.pool.msgSize < size then s.pool.msgSize else size with hlen
  have hcall : (s.unlink t size).2.call t =
      some (.draining s.msgQueueHead len (s.sent s.msgQueueHead) []) := call_setCall_self _
  have hcall_ne : ∀ u, u ≠ t → (s.unlink t size).2.call u = s.call u :=
    fun u hu => call_setCall_of_ne hu _
  refine ⟨s.msgQueueHead, l, Queues.move Q .queued l (.held t) [s.msgQueueHead], hq, rfl,
    ⟨?_, ⟨?_, ?_, ?_⟩, ?_, ?_⟩, Queues.move_from hne⟩
  · refine h.housed.move hq hperm hne rfl fun u => ?_
    by_cases hu : u = t
    · subst hu
      rw [Queues.move_to, holding_of_call hcall]
      rfl
    · rw [Queues.move_other (by simp) (by simpa using hu)]
      exact h.housed.held_setCall hu rfl
  · rw [Queues.move_other (by simp) (by simp)]
    exact h.lists.free
  · rw [Queues.move_from hne]
    exact hl
  · rw [Queues.move_from hne, ← tail_of_cons hnd, ← hq, ← h.lists.tail]
    rfl
  -- the message is what the receiver will copy
  · refine h.kept.move h.housed hq hperm hne rfl (SameBytes.refl _ _) (fun _ _ => rfl)
      (fun u => ?_) ?_
    · by_cases hu : u = t
      · subst hu
        refine Or.inr ⟨fun y hy => ?_, fun c hc => ?_⟩
        · rw [hheld] at hy
          exact absurd hy List.not_mem_nil
        · cases hcall.symm.trans hc
          refine ⟨?_, Nat.zero_le _, fun i hi => absurd hi (Nat.not_lt_zero i)⟩
          rw [hlen]
          split
          · exact Nat.le_refl _
          · exact Nat.le_of_not_lt ‹_›
      · exact Or.inl ⟨hcall_ne u hu, fun _ _ => rfl⟩
    · rw [carries_of_call hcall]
      exact h.kept.bytes hm
  · have hlength := h.entry
    rw [hq, List.length_cons] at hlength
    rw [Queues.move_from hne]
    show (if 0 < s.entry then s.entry - 1 else s.entry) = l.length
    rw [if_pos (by omega), hlength, Nat.add_sub_cancel]

-- --------
-- Freeing a buffer
-- --------

/-- What `putFree` does to the links. -/
theorem InvAt.putFree_links (hH : Housed s Q) (hL : Lists s Q) {p : MqPlace} (hm : m ∈ Q p)
    (hp : p ≠ .free) :
    Linked (s.putFree m).next null m (m :: Q .free) ∧
      ∀ y ∈ s.pool.buffers, y ≠ m → (s.putFree m).next y = s.next y := by
  have hmb := hH.mem_buffers hm
  have hnext : ∀ y ∈ s.pool.buffers, y ≠ m → (s.putFree m).next y = s.next y :=
    fun y hy hym => load32_link hmb hy hym
  have hfree : s.msgQueueFree < 2 ^ 32 := by
    by_cases hnull : s.msgQueueFree = null
    · rw [hnull]
      decide
    · obtain ⟨l, hl, -⟩ := hL.free.exists_cons hnull
      exact MqPool.lt_of_mem (hH.mem_buffers (p := .free) (by
        rw [hl]
        exact List.mem_cons_self))
  exact ⟨hL.free.push (MqPool.ne_null hmb) (ByteMem.load32_store32_self hfree)
    fun y hy => hnext y (hH.mem_buffers hy) (hH.ne hm hy hp), hnext⟩

/-- **A receiver frees its buffer.** -/
theorem InvAt.release {len : Nat} {bytes got : List UInt8} (h : InvAt s Q)
    (hc : s.call t = some (.draining m len bytes got)) :
    ∃ Q', InvAt (s.release t m got).2 Q' ∧ Q' .queued = Q .queued := by
  have hheld : Q (.held t) = [m] := h.housed.held_eq (holding_of_call hc)
  have hm : m ∈ Q (.held t) := Queues.head_mem hheld
  have hmb := h.housed.mem_buffers hm
  have hne : MqPlace.held t ≠ .free := by simp
  obtain ⟨hlinked, hnext⟩ := InvAt.putFree_links h.housed h.lists hm hne
  set s₁ : MessageQueue := (s.putFree m).setCall t none with hs₁
  have hcall_ne : ∀ u, u ≠ t → s₁.call u = s.call u := fun u hu => call_setCall_of_ne hu _
  have hcall : s₁.call t = none := call_setCall_self _
  have h₁ : InvAt s₁ (Queues.move Q (.held t) [] .free (m :: Q .free)) := by
    refine ⟨h.housed.move hheld (List.Perm.refl _) hne rfl fun u => ?_, ⟨?_, ?_, ?_⟩, ?_, ?_⟩
    · by_cases hu : u = t
      · subst hu
        rw [Queues.move_from hne, holding_of_none hcall]
        rfl
      · rw [Queues.move_other (by simpa using hu) (by simp)]
        exact h.housed.held_setCall hu rfl
    · rw [Queues.move_to]
      exact hlinked
    · rw [Queues.move_other (by simp) (by simp)]
      exact h.lists.queued.congr fun y hy =>
        hnext y (h.housed.mem_buffers hy) (h.housed.ne hm hy (by simp))
    · rw [Queues.move_other (by simp) (by simp)]
      exact h.lists.tail
    · refine h.kept.move h.housed hheld (List.Perm.refl _) hne rfl (sameBytes_link hmb)
        (fun _ _ => rfl) (fun u => ?_) ⟨Nat.zero_le _, ByteMem.holds_nil⟩
      by_cases hu : u = t
      · subst hu
        refine Or.inr ⟨fun y hy => ?_, fun c hc' => ?_⟩
        · rw [hheld] at hy
          exact List.mem_singleton.1 hy
        · rw [hcall] at hc'
          cases hc'
      · exact Or.inl ⟨hcall_ne u hu, fun y hy => hnext y (h.housed.mem_buffers hy)
          (h.housed.ne hm hy (by simpa using Ne.symm hu))⟩
    · rw [Queues.move_other (by simp) (by simp)]
      exact h.entry
  refine ⟨_, h₁.waits _ fun u => Or.inl (Waits.resume_call _ _ _), ?_⟩
  exact Queues.move_other (by simp) (by simp)

-- --------
-- The reset
-- --------

/-- **The loop of the reset** frees the messages one after the other: by induction on the fuel,
which the length of the queue bounds. -/
theorem resetLoop_spec (n : Nat) : ∀ {s : MessageQueue} {Q : MqPlace → List Nat},
    Housed s Q → Lists s Q → Kept s Q → (Q .queued).length ≤ n →
    ∃ Q', Housed (resetLoop n s) Q' ∧ Lists (resetLoop n s) Q' ∧ Kept (resetLoop n s) Q' ∧
      Q' .queued = [] ∧ (resetLoop n s).pool = s.pool := by
  induction n with
  | zero =>
    intro s Q hH hL hK hn
    exact ⟨Q, hH, hL, hK, List.length_eq_zero_iff.1 (Nat.le_zero.1 hn), rfl⟩
  | succ n ih =>
    intro s Q hH hL hK hn
    unfold resetLoop
    by_cases hhead : s.msgQueueHead = null
    · rw [if_pos hhead]
      exact ⟨Q, hH, hL, hK, hL.queued.null_iff.1 hhead, rfl⟩
    · rw [if_neg hhead]
      obtain ⟨l, hq, hl⟩ := hL.queued.exists_cons hhead
      have hm : s.msgQueueHead ∈ Q .queued := Queues.head_mem hq
      have hmb := hH.mem_buffers hm
      have hne : MqPlace.queued ≠ .free := by simp
      have hnd : (s.msgQueueHead :: l).Nodup := hq ▸ hH.apart.nodup _
      obtain ⟨hlinked, hnext⟩ := InvAt.putFree_links hH hL hm hne
      -- one turn of the loop
      set s₁ : MessageQueue := { s with
        msgQueueHead := s.next s.msgQueueHead
        msgQueueTail := if s.msgQueueTail = s.msgQueueHead then null else s.msgQueueTail }.putFree
          s.msgQueueHead with hs₁
      have hH₁ : Housed s₁ (Queues.move Q .queued l .free (s.msgQueueHead :: Q .free)) := by
        refine hH.move hq (List.Perm.refl _) hne rfl fun u => ?_
        rw [Queues.move_other (by simp) (by simp), hH.held u]
        rfl
      have hL₁ : Lists s₁ (Queues.move Q .queued l .free (s.msgQueueHead :: Q .free)) := by
        refine ⟨?_, ?_, ?_⟩
        · rw [Queues.move_to]
          exact hlinked
        · rw [Queues.move_from hne]
          refine hl.congr fun y hy => hnext y ?_ ?_
          · exact hH.mem_buffers (p := .queued) (by rw [hq]; exact List.mem_cons_of_mem _ hy)
          · rintro rfl
            exact (List.nodup_cons.1 hnd).1 hy
        · rw [Queues.move_from hne, ← tail_of_cons hnd, ← hq, ← hL.tail]
          rfl
      have hK₁ : Kept s₁ (Queues.move Q .queued l .free (s.msgQueueHead :: Q .free)) :=
        hK.move hH hq (List.Perm.refl _) hne rfl (sameBytes_link hmb) (fun _ _ => rfl)
          (fun u => Or.inl ⟨rfl, fun y hy =>
            hnext y (hH.mem_buffers hy) (hH.ne hm hy (by simp))⟩)
          ⟨Nat.zero_le _, ByteMem.holds_nil⟩
      have hn₁ :
          (Queues.move Q .queued l .free (s.msgQueueHead :: Q .free) .queued).length ≤ n := by
        rw [Queues.move_from hne]
        rw [hq, List.length_cons] at hn
        omega
      obtain ⟨Q', hH', hL', hK', hnil, hpool⟩ := ih hH₁ hL₁ hK₁ hn₁
      exact ⟨Q', hH', hL', hK', hnil, hpool⟩

theorem InvAt.reset (h : InvAt s Q) :
    ∃ Q', InvAt s.rtMqReset.2 Q' ∧ Q' .queued = [] ∧ s.rtMqReset.2.pool = s.pool := by
  have h₁ : InvAt { s with waits := (s.waits.resumeAll .recv).resumeAll .send } Q :=
    h.waits _ fun u => Or.inl ((Waits.resumeAll_call _ _ _).trans (Waits.resumeAll_call _ _ _))
  obtain ⟨Q', hH, hL, hK, hnil, hpool⟩ :=
    resetLoop_spec s.pool.maxMsgs h₁.housed h₁.lists h₁.kept h.housed.length_le
  refine ⟨Q', ⟨⟨hH.apart, hH.buffer, hH.held⟩, ⟨hL.free, hL.queued, hL.tail⟩,
    ⟨fun {p m} hm => ?_, fun {t c} hc => ?_⟩, ?_⟩, hnil, hpool⟩
  · have hold := hK.bytes hm
    cases p <;> exact hold
  · have hold := hK.calls hc
    cases c <;> exact hold
  · rw [hnil]
    rfl

-- --------
-- The steps
-- --------

/-- What a section does to the messages is what its outcome tells. -/
structure Does (s : MessageQueue) (r : MqOutcome × MessageQueue) : Prop where
  inv : r.2.Inv
  pool : r.2.pool = s.pool
  ops : r.1.ops.foldlM (Deque.apply s.pool.maxMsgs) s.contents = some r.2.contents

section Steps

variable {priority : ThreadId → Nat} {timeout : Int} {r : MqOutcome × MessageQueue}

theorem InvAt.does (h : InvAt s Q) (h' : InvAt r.2 Q') (hq : Q' .queued = Q .queued)
    (hsent : r.2.sent = s.sent) (hpool : r.2.pool = s.pool) (ho : r.1.ops = []) : Does s r where
  inv := ⟨Q', h'⟩
  pool := hpool
  ops := by
    -- nothing is told, and the contents are the same
    rw [ho, h.contents_eq, h'.contents_eq, hq, hsent]
    rfl

/-- A call that waits holds no buffer. -/
theorem InvAt.suspend (h : InvAt s Q) {q : MqList} {l : List ThreadId} {c : MqCall}
    (hcall : s.call t = none) (hholds : c.holds = none) (hcarries : c.carries = [])
    (hok : s.CallOk c) : InvAt { s with waits := s.waits.suspend q l t c timeout } Q := by
  refine h.waits _ fun u => ?_
  by_cases hu : u = t
  · subst hu
    refine Or.inr ?_
    rw [Waits.suspend_call_self, holding_of_none hcall, hcall, Option.bind_some, hholds,
      Option.map_some, hcarries]
    refine ⟨rfl, rfl, fun c' hc => ?_⟩
    cases hc
    exact hok
  · exact Or.inl (Waits.suspend_call_of_ne hu)

theorem InvAt.sendLoop (h : InvAt s Q) (hcall : s.call t = none)
    (hsize : size ≤ s.pool.msgSize) : Does s (s.sendLoop priority t size timeout) := by
  unfold MessageQueue.sendLoop
  by_cases hfull : s.msgQueueFree = null
  · rw [if_pos hfull]
    split
    · refine h.does (h.waits _ fun u => Or.inl ?_) rfl rfl rfl rfl
      exact Waits.setError_call _ _ _ _
    · exact h.does (h.suspend hcall rfl rfl hsize) rfl rfl rfl rfl
  · rw [if_neg hfull]
    obtain ⟨Q', h', hq⟩ := h.grab false hfull (holding_of_none hcall) hsize
    exact h.does h' hq rfl rfl rfl

theorem InvAt.recvLoop (h : InvAt s Q) (hcall : s.call t = none) :
    Does s (s.recvLoop priority t size timeout) := by
  unfold MessageQueue.recvLoop
  by_cases hempty : s.entry = 0
  · rw [if_pos hempty]
    split
    · refine h.does (h.waits _ fun u => Or.inl ?_) rfl rfl rfl rfl
      exact Waits.setError_call _ _ _ _
    · exact h.does (h.suspend hcall rfl rfl trivial) rfl rfl rfl rfl
  · rw [if_neg hempty]
    obtain ⟨m, l, Q', hq, hout, h', hq'⟩ := h.unlink (holding_of_none hcall) hempty
    refine ⟨⟨Q', h'⟩, rfl, ?_⟩
    rw [hout, h.contents_eq, h'.contents_eq, hq, hq']
    show [DequeOp.popFront (s.sent m)].foldlM _ (s.sent m :: l.map s.sent) = _
    rw [List.foldlM_cons, Deque.apply_popFront]
    rfl

theorem InvAt.leave (h : InvAt s Q) {c : MqCall} (hc : s.call t = some c) (hholds : c.holds = none)
    (hcarries : c.carries = []) : InvAt { s with waits := s.waits.leave t } Q := by
  refine h.waits _ fun u => ?_
  by_cases hu : u = t
  · subst hu
    refine Or.inr ?_
    rw [Waits.leave_call_self, holding_of_call hc, hholds, hc, Option.map_some, hcarries]
    exact ⟨rfl, rfl, fun c hc' => by cases hc'⟩
  · exact Or.inl (Waits.leave_call_of_ne hu)

/-- **Every section of a call** keeps the invariant and does to the messages what its outcome
tells. -/
theorem Inv.step {a : MqAct} (h : s.Inv) (hs : s.step a = some r) : Does s r := by
  obtain ⟨Q, h⟩ := h
  cases a with
  | sendWait priority t size timeout =>
    obtain ⟨⟨hcall, -⟩, rfl⟩ := Runs.takeIf_eq_some.1 hs
    unfold rtMqSendWait
    split
    · exact h.does h rfl rfl rfl rfl
    case isFalse hsize =>
      split
      · exact h.does h rfl rfl rfl rfl
      · exact h.sendLoop hcall (Nat.le_of_not_lt hsize)
  | urgent t size =>
    obtain ⟨⟨hcall, -⟩, rfl⟩ := Runs.takeIf_eq_some.1 hs
    unfold rtMqUrgent
    split
    · exact h.does h rfl rfl rfl rfl
    case isFalse hsize =>
      split
      · exact h.does h rfl rfl rfl rfl
      case isFalse hfull =>
        obtain ⟨Q', h', hq⟩ := h.grab true hfull (holding_of_none hcall) (Nat.le_of_not_lt hsize)
        exact h.does h' hq rfl rfl rfl
  | copyIn t byte =>
    dsimp only [MessageQueue.step] at hs
    split at hs
    case h_1 msg size done urgent hc =>
      obtain ⟨hlt, rfl⟩ := Runs.takeIf_eq_some.1 hs
      exact h.does (h.copyIn hc hlt) rfl rfl rfl rfl
    case h_2 => cases hs
  | link t =>
    dsimp only [MessageQueue.step] at hs
    split at hs
    case h_1 msg size done urgent hc =>
      obtain ⟨-, rfl⟩ := Runs.takeIf_eq_some.1 hs
      obtain ⟨hout, Q', h', hq', hsent, hpool⟩ := h.link hc
      have hm : msg ∈ Q (.held t) :=
        Queues.head_mem (h.housed.held_eq (holding_of_call hc))
      -- the buffer was in the hands of the sender, so there is room for its message
      have hroom : (Q .queued).length < s.pool.maxMsgs := h.housed.length_lt hm (by simp)
      -- the messages that were there keep their bytes
      have hold : (Q .queued).map (Function.update s.sent msg done) = (Q .queued).map s.sent := by
        refine List.map_congr_left fun y hy => Function.update_of_ne ?_ _ _
        exact h.housed.ne hm hy (by simp)
      refine ⟨⟨Q', h'⟩, hpool, ?_⟩
      · rw [hout, h.contents_eq, h'.contents_eq, hq', hsent]
        cases urgent with
        | false =>
          show [DequeOp.pushBack done].foldlM _ _ = some ((Q .queued ++ [msg]).map _)
          rw [List.foldlM_cons, Deque.apply_pushBack (by rwa [List.length_map]), List.map_append,
            hold, List.map_singleton, Function.update_self]
          rfl
        | true =>
          show [DequeOp.pushFront done].foldlM _ _ = some ((msg :: Q .queued).map _)
          rw [List.foldlM_cons, Deque.apply_pushFront (by rwa [List.length_map]), List.map_cons,
            hold, Function.update_self]
          rfl
    case h_2 => cases hs
  | recv priority t size timeout =>
    obtain ⟨⟨hcall, -⟩, rfl⟩ := Runs.takeIf_eq_some.1 hs
    unfold rtMqRecv
    split
    · exact h.does h rfl rfl rfl rfl
    · exact h.recvLoop hcall
  | copyOut t =>
    dsimp only [MessageQueue.step] at hs
    split at hs
    case h_1 msg len bytes got hc =>
      obtain ⟨hlt, rfl⟩ := Runs.takeIf_eq_some.1 hs
      exact h.does (h.copyOut hc hlt) rfl rfl rfl rfl
    case h_2 => cases hs
  | release t =>
    dsimp only [MessageQueue.step] at hs
    split at hs
    case h_1 msg len bytes got hc =>
      obtain ⟨-, rfl⟩ := Runs.takeIf_eq_some.1 hs
      obtain ⟨Q', h', hq'⟩ := h.release hc
      exact h.does h' hq' rfl rfl rfl
    case h_2 => cases hs
  | woken priority t elapsed =>
    dsimp only [MessageQueue.step] at hs
    split at hs
    case h_1 size timeout hc =>
      obtain ⟨-, rfl⟩ := Runs.takeIf_eq_some.1 hs
      have h' := h.leave hc rfl rfl
      unfold woken
      dsimp only
      split
      · exact h.does h' rfl rfl rfl rfl
      · have hdoes : Does _ (MessageQueue.sendLoop _ priority t size
            (timeoutLeft timeout elapsed)) :=
          h'.sendLoop Waits.leave_call_self (h.kept.calls hc)
        exact ⟨hdoes.inv, hdoes.pool, hdoes.ops⟩
    case h_2 size timeout hc =>
      obtain ⟨-, rfl⟩ := Runs.takeIf_eq_some.1 hs
      have h' := h.leave hc rfl rfl
      unfold woken
      dsimp only
      split
      · exact h.does h' rfl rfl rfl rfl
      · have hdoes : Does _ (MessageQueue.recvLoop _ priority t size
            (timeoutLeft timeout elapsed)) :=
          h'.recvLoop Waits.leave_call_self
        exact ⟨hdoes.inv, hdoes.pool, hdoes.ops⟩
    case h_3 => cases hs
  | timeout t =>
    obtain ⟨-, rfl⟩ := Runs.takeIf_eq_some.1 hs
    exact h.does (h.waits _ fun u => Or.inl (Waits.timeout_call _ _ _)) rfl rfl rfl rfl
  | reset =>
    cases hs
    obtain ⟨Q', h', hnil, hpool⟩ := h.reset
    refine ⟨⟨Q', h'⟩, hpool, ?_⟩
    rw [h'.contents_eq, hnil]
    rfl

end Steps

/-- **Message queues.** In every run of the sections of sends, urgent sends and receives, of the
bytes of their copies, of time-outs and resets: every buffer of the pool is in one place, the
free list, the list of messages or the hands of one caller; `entry` is the length of the list of
messages and `msg_queue_tail` its last one; what has been linked and unlinked is a history of a
bounded double-ended queue; and what a receiver returns is the message that its sender copied, as
far as both go. -/
theorem messageQueue_buffers {mem : ByteMem} {pool : MqPool} {flag : IpcFlag}
    {ops : List (DequeOp (List UInt8))}
    (hrun : Runs (Runs.Exec (Runs.traced exec)) Runs.always (initLists mem pool flag, [])
      (s, ops)) :
    (∃ Q : MqPlace → List Nat, (∀ m ∈ pool.buffers, ∃! p, m ∈ Q p) ∧
      (∀ p, (Q p).Nodup ∧ ∀ m ∈ Q p, m ∈ pool.buffers) ∧
      Linked s.next null s.msgQueueFree (Q .free) ∧
      Linked s.next null s.msgQueueHead (Q .queued) ∧
      (∀ t, Q (.held t) = (s.holding t).toList) ∧
      s.entry = (Q .queued).length ∧
      s.msgQueueTail = (Q .queued).getLast?.getD null ∧
      (s.msgQueueTail = null ↔ Q .queued = []) ∧
      s.contents = (Q .queued).map s.sent ∧
      ∀ m ∈ Q .queued, s.mem.Holds (m + MqPool.header) (s.sent m)) ∧
    ops.foldlM (Deque.apply pool.maxMsgs) [] = some s.contents ∧
    (∀ t r, s.step (.release t) = some r → ∃ m len bytes got,
      s.call t = some (.draining m len bytes got) ∧ r.1 = .received got ∧ got.length = len ∧
      Agree got bytes) := by
  obtain ⟨⟨⟨Q, h⟩, hpool⟩, hops⟩ := @Runs.refines _ _ _ _ _ _ contents
    (Deque.apply pool.maxMsgs) (fun s => s.Inv ∧ s.pool = pool) _ _
    (fun s tr a s' es hs _ hexec => by
      obtain ⟨⟨o, s₁⟩, hstep, heq⟩ := Option.map_eq_some_iff.1 hexec
      cases heq
      have hdoes := hs.1.step hstep
      have hops := hdoes.ops
      rw [hs.2] at hops
      exact ⟨⟨hdoes.inv, hdoes.pool.trans hs.2⟩, hops⟩) hrun ⟨inv_initLists mem pool flag, rfl⟩
  dsimp only at h hpool hops
  -- the tail is null for an empty queue alone: no buffer is at the address 0
  have htail : s.msgQueueTail = null ↔ Q .queued = [] := by
    rw [h.lists.tail]
    rcases List.eq_nil_or_concat' (Q .queued) with hnil | ⟨l, z, hconcat⟩
    · rw [hnil]
      exact iff_of_true rfl rfl
    · have hz : z ∈ Q .queued := by
        rw [hconcat]
        exact List.mem_append_right _ List.mem_cons_self
      rw [hconcat, List.getLast?_concat]
      exact iff_of_false (MqPool.ne_null (h.housed.mem_buffers hz)) (by simp)
  refine ⟨⟨Q, fun m hm => ?_, fun p => ⟨h.housed.apart.nodup p, fun m hm => ?_⟩, h.lists.free,
    h.lists.queued, h.housed.held, h.entry, h.lists.tail, htail, h.contents_eq,
    fun m hm => (h.kept.bytes hm).2⟩, hops, ?_⟩
  · obtain ⟨p, hp⟩ := (h.housed.buffer m).1 (hpool ▸ hm)
    exact ⟨p, hp, fun p' hp' => h.housed.apart.same hp' hp⟩
  · exact hpool ▸ h.housed.mem_buffers hm
  · intro t r hr
    dsimp only [MessageQueue.step] at hr
    split at hr
    case h_1 msg len bytes got hc =>
      obtain ⟨hlen, rfl⟩ := Runs.takeIf_eq_some.1 hr
      exact ⟨msg, len, bytes, got, hc, rfl, hlen, (h.kept.calls hc).2.2⟩
    case h_2 => cases hr

/-- Two buffers for messages of four bytes. -/
def twoBuffers : MqPool := ⟨64, 4, 2, by decide, by decide, by decide⟩

/-- An urgent message overtakes one that is still being copied, and a reset comes while it is
being received. -/
def overtaken : List MqAct :=
  [.sendWait (fun _ => 5) 1 2 (-1), .copyIn 1 10, .urgent 2 1, .copyIn 2 7, .link 2,
    .recv (fun _ => 5) 3 4 0, .copyIn 1 11, .copyOut 3, .reset, .copyOut 3, .link 1, .copyOut 3,
    .copyOut 3]

/-- The reset leaves both buffers alone: one holds a message behind it, the other one is still
with its receiver. -/
theorem messageQueue_buffers_overtaken :
    ∃ s, Runs (Runs.Exec (Runs.traced exec)) Runs.always
        (initLists (fun _ => 0) twoBuffers .fifo, [])
        (s, [.pushFront [7], .popFront [7], .clear, .pushBack [10, 11]]) ∧
      s.contents = [[10, 11]] ∧ s.holding 3 = some 64 := by
  obtain ⟨⟨s, ops⟩, -, hrun, hend⟩ := @Runs.exec_of_replay _ _ Runs.always
    (initLists (fun _ => 0) twoBuffers .fifo, []) (Runs.traced exec) _ overtaken
    (fun q => decide (q.2 = [.pushFront [7], .popFront [7], .clear, .pushBack [10, 11]] ∧
      q.1.holding 3 = some 64)) (by decide +kernel)
  obtain ⟨rfl, hheld⟩ := of_decide_eq_true hend
  have hops := (messageQueue_buffers hrun).2.1
  exact ⟨s, hrun, (Option.some.inj hops).symm, hheld⟩

end RTThread.MessageQueue
