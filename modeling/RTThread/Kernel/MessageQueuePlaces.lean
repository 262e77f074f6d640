import RTThread.Kernel.MessageQueue
import RTThread.Lib.Slots

/-!
# Where the buffers of a message queue are

Every buffer is in one place: the free list, the list of messages, or the hands of one call. The
places are queues that share their entries, and the sections of the calls move the first buffer
of one place to another one. Beside its place a buffer has a content: the bytes that its sender
has copied so far, and later the bytes of the message.

A section changes one link at most, and a copy changes one byte behind the link, so what is
known of the other buffers, and of the other calls, is kept (`Kept.move`).

## Main results

* `Inv` — the places, the two lists, and the contents.
* `inv_initLists` — the invariant of a new queue.
-/

namespace RTThread

open LinkedList

-- --------
-- The buffers of a pool
-- --------

namespace MqPool

variable {pool : MqPool} {m m' : Nat}

def buffers (pool : MqPool) : List Nat := (List.range pool.maxMsgs).map pool.slot

theorem buffers_eq :
    pool.buffers = Slots.all pool.msgPool (pool.msgSize + header) pool.maxMsgs := rfl

theorem mem_buffers : m ∈ pool.buffers ↔ ∃ k < pool.maxMsgs, pool.slot k = m := Slots.mem_all

theorem slot_le {j k : Nat} (h : j < k) :
    pool.slot j + (pool.msgSize + header) ≤ pool.slot k :=
  Slots.addr_add_le _ _ h

/-- **Two buffers do not overlap.** -/
theorem apart (hm : m ∈ pool.buffers) (hm' : m' ∈ pool.buffers) (hne : m ≠ m') :
    m + (pool.msgSize + header) ≤ m' ∨ m' + (pool.msgSize + header) ≤ m :=
  Slots.apart hm hm' hne

theorem ne_null (hm : m ∈ pool.buffers) : m ≠ MessageQueue.null := by
  rw [buffers_eq] at hm
  have hle := (Slots.bounds hm).1
  have hpos := pool.pos
  show m ≠ 0
  omega

theorem lt_of_mem (hm : m ∈ pool.buffers) : m < 2 ^ 32 := by
  rw [buffers_eq] at hm
  have hle := (Slots.bounds hm).2
  have hfits := pool.fits
  have hheader : header = 4 := rfl
  unfold Slots.addr at hle
  omega

theorem length_le {l : List Nat} (hnd : l.Nodup) (hl : ∀ m ∈ l, m ∈ pool.buffers) :
    l.length ≤ pool.maxMsgs :=
  Slots.length_le hnd hl

end MqPool

-- --------
-- The frame of a write
-- --------

section Writes

variable {pool : MqPool} {mem mem' : ByteMem} {x y : Nat} {bs : List UInt8}

theorem load32_link {v : Nat} (hx : x ∈ pool.buffers) (hy : y ∈ pool.buffers) (hne : y ≠ x) :
    (mem.store32 x v).load32 y = mem.load32 y := by
  have hsep := MqPool.apart hy hx hne
  have hheader : MqPool.header = 4 := rfl
  exact ByteMem.load32_store32_out (by omega)

/-- What two memories have in common that hold the same messages. -/
def SameBytes (pool : MqPool) (mem mem' : ByteMem) : Prop :=
  ∀ y ∈ pool.buffers, ∀ i < pool.msgSize,
    mem' (y + MqPool.header + i) = mem (y + MqPool.header + i)

theorem SameBytes.refl (pool : MqPool) (mem : ByteMem) : SameBytes pool mem mem :=
  fun _ _ _ _ => rfl

theorem sameBytes_link {v : Nat} (hx : x ∈ pool.buffers) :
    SameBytes pool mem (mem.store32 x v) := by
  intro y hy i hi
  have hheader : MqPool.header = 4 := rfl
  refine ByteMem.store32_out ?_
  by_cases hxy : x = y
  · omega
  · have hsep := MqPool.apart hx hy hxy
    omega

theorem SameBytes.holds (h : SameBytes pool mem mem') (hy : y ∈ pool.buffers)
    (hlen : bs.length ≤ pool.msgSize) (hbs : mem.Holds (y + MqPool.header) bs) :
    mem'.Holds (y + MqPool.header) bs :=
  hbs.congr fun i hi => h y hy i (by omega)

end Writes

-- --------
-- The places
-- --------

/-- Where a buffer can be. -/
inductive MqPlace
  | free
  | queued
  | held (t : ThreadId)
deriving DecidableEq

/-- The bytes that are known to be in the buffer of a call. -/
def MqCall.carries : MqCall → List UInt8
  | .filling _ _ done _ => done
  | .draining _ _ bytes _ => bytes
  | .send .. | .recv .. => []

/-- What has been copied out of a message, as far as the message goes. -/
def Agree (got bytes : List UInt8) : Prop :=
  ∀ i, i < got.length → i < bytes.length → got[i]? = bytes[i]?

namespace MessageQueue

/-- The call a thread is in. -/
def call (s : MessageQueue) (t : ThreadId) : Option MqCall := (s.waits.thread t).call

/-- The buffer in the hands of a thread. -/
def holding (s : MessageQueue) (t : ThreadId) : Option Nat := (s.call t).bind MqCall.holds

/-- What is known of the bytes of a buffer in some place. -/
def carries (s : MessageQueue) : MqPlace → Nat → List UInt8
  | .free, _ => []
  | .queued, m => s.sent m
  | .held t, _ => ((s.call t).map MqCall.carries).getD []

/-- What holds of a call. -/
def CallOk (s : MessageQueue) : MqCall → Prop
  | .send size _ => size ≤ s.pool.msgSize
  | .filling m size done urgent =>
    done.length ≤ size ∧ size ≤ s.pool.msgSize ∧ (urgent = false → s.next m = null)
  | .recv .. => True
  | .draining _ len bytes got => len ≤ s.pool.msgSize ∧ got.length ≤ len ∧ Agree got bytes

/-- Every buffer is in one place. -/
structure Housed (s : MessageQueue) (Q : MqPlace → List Nat) : Prop where
  apart : Queues.Apart Q
  buffer : ∀ m, m ∈ s.pool.buffers ↔ ∃ p, m ∈ Q p
  held : ∀ t, Q (.held t) = (s.holding t).toList

/-- The two lists. -/
structure Lists (s : MessageQueue) (Q : MqPlace → List Nat) : Prop where
  free : Linked s.next null s.msgQueueFree (Q .free)
  queued : Linked s.next null s.msgQueueHead (Q .queued)
  tail : s.msgQueueTail = (Q .queued).getLast?.getD null

/-- The contents of the buffers, and the calls. -/
structure Kept (s : MessageQueue) (Q : MqPlace → List Nat) : Prop where
  bytes : ∀ {p m}, m ∈ Q p → (s.carries p m).length ≤ s.pool.msgSize ∧
    s.mem.Holds (m + MqPool.header) (s.carries p m)
  calls : ∀ {t c}, s.call t = some c → s.CallOk c

/-- **The invariant of a message queue**, with the places of the buffers. -/
structure InvAt (s : MessageQueue) (Q : MqPlace → List Nat) : Prop where
  housed : Housed s Q
  lists : Lists s Q
  kept : Kept s Q
  entry : s.entry = (Q .queued).length

/-- **The invariant of a message queue.** -/
def Inv (s : MessageQueue) : Prop := ∃ Q, InvAt s Q

section Places

variable {s s' : MessageQueue} {Q : MqPlace → List Nat} {t u : ThreadId} {m y : Nat}
  {p p' : MqPlace} {l l' : List Nat} {c : MqCall}

theorem Housed.mem_buffers (h : Housed s Q) (hm : m ∈ Q p) : m ∈ s.pool.buffers :=
  (h.buffer m).2 ⟨p, hm⟩

theorem Housed.held_eq (h : Housed s Q) (ht : s.holding t = some m) : Q (.held t) = [m] := by
  rw [h.held t, ht]
  rfl

theorem Housed.held_nil (h : Housed s Q) (ht : s.holding t = none) : Q (.held t) = [] := by
  rw [h.held t, ht]
  rfl

theorem holding_of_call (hc : s.call t = some c) : s.holding t = c.holds := by
  unfold holding
  rw [hc]
  rfl

theorem holding_of_none (hc : s.call t = none) : s.holding t = none := by
  unfold holding
  rw [hc]
  rfl

theorem carries_of_call (hc : s.call t = some c) : s.carries (.held t) m = c.carries := by
  show ((s.call t).map MqCall.carries).getD [] = _
  rw [hc]
  rfl

theorem carries_congr (hcall : s'.call u = s.call u) :
    s'.carries (.held u) m = s.carries (.held u) m := by
  show ((s'.call u).map MqCall.carries).getD [] = _
  rw [hcall]
  rfl

theorem Lists.tail_null (h : Lists s Q) (hnil : Q .queued = []) : s.msgQueueTail = null := by
  rw [h.tail, hnil]
  rfl

theorem Lists.tail_last (h : Lists s Q) (hlast : Q .queued = l ++ [m]) : s.msgQueueTail = m := by
  rw [h.tail, hlast, List.getLast?_concat]
  rfl

/-- **The buffers that are in no list** are in the hands of calls: a call that holds one finds
room in the other lists. -/
theorem Housed.length_lt (h : Housed s Q) (hm : m ∈ Q p) (hne : p ≠ p') :
    (Q p').length < s.pool.maxMsgs := by
  have hnot : m ∉ Q p' := fun hm' => hne (h.apart.same hm hm')
  -- the entries of the other place and this buffer are different buffers
  have hle := s.pool.length_le (l := m :: Q p') (List.nodup_cons.2 ⟨hnot, h.apart.nodup p'⟩) (by
    intro y hy
    rcases List.mem_cons.1 hy with rfl | hy
    · exact h.mem_buffers hm
    · exact h.mem_buffers hy)
  rw [List.length_cons] at hle
  omega

theorem Housed.length_le (h : Housed s Q) : (Q p).length ≤ s.pool.maxMsgs :=
  s.pool.length_le (h.apart.nodup p) fun _ hy => h.mem_buffers hy

theorem Housed.move (h : Housed s Q) (hq : Q p = m :: l) (hl' : l'.Perm (m :: Q p'))
    (hne : p ≠ p') (hpool : s'.pool = s.pool)
    (hheld : ∀ u, Queues.move Q p l p' l' (.held u) = (s'.holding u).toList) :
    Housed s' (Queues.move Q p l p' l') where
  apart := h.apart.move hq hl' hne
  buffer y := by
    rw [hpool, h.buffer y, h.apart.exists_mem_move hq hl' hne]
  held := hheld

/-- **What is kept when a buffer moves.** Its links and its content are new; a call goes on as it
was, or held nothing but this buffer. -/
theorem Kept.move (h : Kept s Q) (hH : Housed s Q) (hq : Q p = m :: l)
    (hl' : l'.Perm (m :: Q p')) (hne : p ≠ p') (hpool : s'.pool = s.pool)
    (hmem : SameBytes s.pool s.mem s'.mem) (hsent : ∀ y, y ≠ m → s'.sent y = s.sent y)
    (hcalls : ∀ u, (s'.call u = s.call u ∧ ∀ y ∈ Q (.held u), s'.next y = s.next y) ∨
      ((∀ y ∈ Q (.held u), y = m) ∧ ∀ c, s'.call u = some c → s'.CallOk c))
    (hnew : (s'.carries p' m).length ≤ s'.pool.msgSize ∧
      s'.mem.Holds (m + MqPool.header) (s'.carries p' m)) :
    Kept s' (Queues.move Q p l p' l') where
  bytes {q y} hy := by
    -- the buffer that moves, and the others
    rcases (hH.apart.mem_move hq hl' hne).1 hy with ⟨rfl, rfl⟩ | ⟨hym, hy⟩
    · exact hnew
    · have hcarries : s'.carries q y = s.carries q y := by
        cases q with
        | free => rfl
        | queued => exact hsent y hym
        | held u =>
          rcases hcalls u with ⟨hcall, -⟩ | ⟨honly, -⟩
          · exact carries_congr hcall
          -- a call of which nothing is kept held no other buffer
          · exact absurd (honly y hy) hym
      obtain ⟨hlen, hholds⟩ := h.bytes hy
      rw [hcarries, hpool]
      exact ⟨hlen, hmem.holds (hH.mem_buffers hy) hlen hholds⟩
  calls {u c} hc := by
    rcases hcalls u with ⟨hcall, hnext⟩ | ⟨-, hok⟩
    · have hold := h.calls (hcall ▸ hc)
      cases c with
      | send size timeout =>
        unfold CallOk at *
        rwa [hpool]
      | filling m₁ size done urgent =>
        -- the buffer that is being filled is in the hands of this call, so its link is kept
        have hm₁ : m₁ ∈ Q (.held u) :=
          Queues.head_mem (hH.held_eq (holding_of_call (hcall ▸ hc)))
        obtain ⟨hdone, hsize, hlink⟩ := hold
        refine ⟨hdone, hpool ▸ hsize, fun hu => ?_⟩
        rw [hnext m₁ hm₁]
        exact hlink hu
      | recv size timeout => trivial
      | draining m₁ len bytes got =>
        unfold CallOk at *
        rwa [hpool]
    · exact hok c hc

theorem Housed.ne (h : Housed s Q) (hm : m ∈ Q p) (hy : y ∈ Q p') (hne : p ≠ p') : y ≠ m := by
  rintro rfl
  exact hne (h.apart.same hm hy)

/-- **Only the calls change**, and neither the buffers in their hands nor what is known of these. -/
theorem InvAt.waits (h : InvAt s Q) (w : Waits MqList MqCall)
    (hcalls : ∀ u, (w.thread u).call = s.call u ∨
      ((w.thread u).call.bind MqCall.holds = s.holding u ∧
        ((w.thread u).call.map MqCall.carries).getD [] = ((s.call u).map MqCall.carries).getD [] ∧
        ∀ c, (w.thread u).call = some c → s.CallOk c)) :
    InvAt { s with waits := w } Q where
  housed :=
    { apart := h.housed.apart
      buffer := h.housed.buffer
      held := fun u => by
        rw [h.housed.held u]
        show _ = ((w.thread u).call.bind MqCall.holds).toList
        rcases hcalls u with hsame | ⟨hsame, -⟩
        · rw [hsame]
          rfl
        · rw [hsame] }
  lists := ⟨h.lists.free, h.lists.queued, h.lists.tail⟩
  kept :=
    { bytes := fun {p m} hm => by
        have hcarries : carries { s with waits := w } p m = s.carries p m := by
          cases p with
          | free => rfl
          | queued => rfl
          | held u =>
            rcases hcalls u with hsame | ⟨-, hsame, -⟩
            · exact carries_congr hsame
            · exact hsame
        rw [hcarries]
        exact h.kept.bytes hm
      calls := fun {u c} hc => by
        rcases hcalls u with hsame | ⟨-, -, hnew⟩
        · have hold := h.kept.calls (hsame.symm.trans hc)
          cases c <;> exact hold
        · have hok := hnew c hc
          cases c <;> exact hok }
  entry := h.entry

end Places

-- --------
-- A new queue
-- --------

section Init

variable {pool : MqPool} {mem : ByteMem} {free : Nat} {l : List Nat}

/-- **The buffers are linked into the free list** one after the other: by induction on the
buffers that are left. -/
theorem freeLoop_linked (n : Nat) : ∀ {temp : Nat} {mem : ByteMem} {free : Nat} {l : List Nat},
    temp + n ≤ pool.maxMsgs → free < 2 ^ 32 → (∀ y ∈ l, ∃ k < temp, pool.slot k = y) →
    Linked mem.load32 null free l →
    Linked (freeLoop pool temp n (mem, free)).1.load32 null (freeLoop pool temp n (mem, free)).2
      (((List.range' temp n).map pool.slot).reverse ++ l) := by
  induction n with
  | zero =>
    intro temp mem free l _ _ _ h
    exact h
  | succ n ih =>
    intro temp mem free l hmax hfree hl h
    have htemp : pool.slot temp ∈ pool.buffers := MqPool.mem_buffers.2 ⟨temp, by omega, rfl⟩
    -- one buffer is pushed in front of those with smaller numbers
    have hpush : Linked (mem.store32 (pool.slot temp) free).load32 null (pool.slot temp)
        (pool.slot temp :: l) := by
      refine h.push (MqPool.ne_null htemp) (ByteMem.load32_store32_self hfree) fun y hy => ?_
      obtain ⟨k, hk, rfl⟩ := hl y hy
      have hslot := pool.slot_le hk
      have hheader : MqPool.header = 4 := rfl
      exact ByteMem.load32_store32_out (by omega)
    have hrec := @ih (temp + 1) _ _ _ (by omega) (MqPool.lt_of_mem htemp) (by
      intro y hy
      rcases List.mem_cons.1 hy with rfl | hy
      · exact ⟨temp, by omega, rfl⟩
      · obtain ⟨k, hk, rfl⟩ := hl y hy
        exact ⟨k, by omega, rfl⟩) hpush
    rw [List.range'_succ, List.map_cons, List.reverse_cons, List.append_assoc]
    exact hrec

/-- Where the buffers of a new queue are. -/
def initPlaces (pool : MqPool) : MqPlace → List Nat
  | .free => pool.buffers.reverse
  | _ => []

theorem nodup_buffers (pool : MqPool) : pool.buffers.Nodup :=
  Slots.nodup_all (Nat.add_pos_right _ (by decide))

/-- **A new queue**: all buffers are free. -/
theorem inv_initLists (mem : ByteMem) (pool : MqPool) (flag : IpcFlag) :
    (initLists mem pool flag).Inv := by
  refine ⟨initPlaces pool, ⟨⟨?_, ?_⟩, ?_, ?_⟩, ⟨?_, rfl, rfl⟩, ⟨?_, ?_⟩, rfl⟩
  · intro p
    cases p with
    | free => exact List.nodup_reverse.2 (nodup_buffers pool)
    | queued => exact List.nodup_nil
    | held t => exact List.nodup_nil
  · intro p p' m hm hm'
    cases p with
    | free =>
      cases p' with
      | free => rfl
      | queued => exact absurd hm' List.not_mem_nil
      | held t => exact absurd hm' List.not_mem_nil
    | queued => exact absurd hm List.not_mem_nil
    | held t => exact absurd hm List.not_mem_nil
  · intro m
    constructor
    · intro hm
      exact ⟨.free, List.mem_reverse.2 hm⟩
    · rintro ⟨p, hm⟩
      cases p with
      | free => exact List.mem_reverse.1 hm
      | queued => exact absurd hm List.not_mem_nil
      | held t => exact absurd hm List.not_mem_nil
  · intro t
    rfl
  -- the free list is what the loop has built
  · have hloop := @freeLoop_linked pool pool.maxMsgs 0 mem 0 [] (by omega) (by decide)
      (fun y hy => absurd hy List.not_mem_nil) rfl
    rw [List.append_nil, ← List.range_eq_range'] at hloop
    exact hloop
  · intro p m hm
    cases p with
    | free => exact ⟨Nat.zero_le _, ByteMem.holds_nil⟩
    | queued => exact absurd hm List.not_mem_nil
    | held t => exact absurd hm List.not_mem_nil
  · intro t c hc
    cases hc

end Init

end MessageQueue

end RTThread
