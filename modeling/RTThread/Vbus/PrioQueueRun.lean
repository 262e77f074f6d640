import RTThread.Vbus.PrioQueue
import Mathlib.Algebra.BigOperators.Group.Finset.Basic

/-!
# Priority queues deliver what they are given

A thread that pushes holds its block until the item is linked, and a thread that pops until it
has copied it. So every block that is allocated is in one place, and what is done to it anywhere
else leaves its bytes alone.

## Main results

* `Lists.doPush`, `Lists.doPop` — what the two functions do to the lists.
* `Inv.step` — every step keeps the invariant, and is a step of a queue with levels.
* `prioQueue_delivers` — the deliveries of every run.
-/

namespace RTThread

open LinkedList

namespace MemPool

/-- A step that leaves the blocks where they are, and what is in them behind the first word. -/
structure Bodies (s s' : MemPool) : Prop where
  startAddress : s'.startAddress = s.startAddress
  blockSize : s'.blockSize = s.blockSize
  total : s'.blockTotalCount = s.blockTotalCount
  byte : ∀ b ∈ s.blocks, ∀ i < s.blockSize, s'.mem (b + header + i) = s.mem (b + header + i)

variable {s s' : MemPool} {free : List Nat} {b b' i v : Nat} {t : ThreadId} {time : Int}
  {a : MpAct} {o : MpOutcome}

theorem bodies_waits (s : MemPool) (w : Waits Unit Int) : Bodies s { s with waits := w } :=
  ⟨rfl, rfl, rfl, fun _ _ _ _ => rfl⟩

/-- The first word of a block is outside of what the blocks keep. -/
theorem store32_body {mem : ByteMem} (hb : b ∈ s.blocks) (hb' : b' ∈ s.blocks)
    (hi : i < s.blockSize) : mem.store32 b v (b' + header + i) = mem (b' + header + i) := by
  have hheader : header = 4 := rfl
  refine ByteMem.store32_out ?_
  by_cases hne : b' = b
  · subst hne
    omega
  · have hsep := Slots.apart hb' hb hne
    omega

/-- The end of a block is inside of the address space. -/
theorem Laid.block_end (h : s.Laid) (hb : b ∈ s.blocks) : b + header + s.blockSize ≤ 2 ^ 32 := by
  obtain ⟨-, hend⟩ := Slots.bounds hb
  have hfits := h.fits
  have htotal := h.total
  unfold Slots.addr at hend
  omega

/-- What `rt_mp_alloc` does: it returns a block that was free, or none and leaves the blocks
alone. -/
inductive Alloc (s : MemPool) : MpOutcome → MemPool → Prop
  | block (s₁ : MemPool) (b : Nat) (hb : b ∈ s.blocks) (hfree : b ∉ s.allocated)
      (hbodies : Bodies s s₁) (hallocated : s₁.allocated = b :: s.allocated) :
      Alloc s (.block (b + header)) s₁
  | null (s₁ : MemPool) (hbodies : Bodies s s₁) (hallocated : s₁.allocated = s.allocated) :
      Alloc s .null s₁
  | goesOn (s₁ : MemPool) (hbodies : Bodies s s₁) (hallocated : s₁.allocated = s.allocated) :
      Alloc s .goesOn s₁

theorem Alloc.of_waits {w : Waits Unit Int} (h : Alloc { s with waits := w } o s') :
    Alloc s o s' := by
  cases h with
  | block _ b hb hfree hbodies hallocated =>
    exact .block _ b hb hfree ⟨hbodies.1, hbodies.2, hbodies.3, hbodies.4⟩ hallocated
  | null _ hbodies hallocated =>
    exact .null _ ⟨hbodies.1, hbodies.2, hbodies.3, hbodies.4⟩ hallocated
  | goesOn _ hbodies hallocated =>
    exact .goesOn _ ⟨hbodies.1, hbodies.2, hbodies.3, hbodies.4⟩ hallocated

theorem Inv.alloc_take (h : Inv s free) (hcount : s.blockFreeCount ≠ 0) :
    Alloc s s.take.1 s.take.2 := by
  obtain ⟨b, l, rfl⟩ : ∃ b l, free = b :: l := by
    cases free with
    | nil => exact absurd h.count hcount
    | cons b l => exact ⟨b, l, rfl⟩
  obtain ⟨hb, hne, -⟩ := h.linked
  have hmem : b ∈ s.blocks := h.free_blocks List.mem_cons_self
  have hnd := h.nodup
  rw [List.cons_append, List.nodup_cons] at hnd
  unfold MemPool.take
  dsimp only
  rw [hb, if_neg hne]
  exact .block _ b hmem (fun hb' => hnd.1 (List.mem_append_right _ hb'))
    ⟨rfl, rfl, rfl, fun b' hb' i hi => store32_body hmem hb' hi⟩ rfl

theorem Inv.alloc_cases (h : Inv s free) (t : ThreadId) (time : Int) :
    Alloc s (s.rtMpAlloc t time).1 (s.rtMpAlloc t time).2 := by
  unfold rtMpAlloc
  split
  · split
    · exact .null _ (bodies_waits s s.waits) rfl
    · exact .goesOn _ (bodies_waits s _) rfl
  case isFalse hcount => exact h.alloc_take hcount

/-- **Waiting for a block** and getting one. -/
theorem Inv.alloc_step (h : Inv s free)
    (ha : (∃ t time, a = .alloc t time) ∨ (∃ t elapsed, a = .woken t elapsed))
    (hs : s.step a = some (o, s')) : Alloc s o s' := by
  rcases ha with ⟨t, time, rfl⟩ | ⟨t, elapsed, rfl⟩
  · obtain ⟨-, heq⟩ := Runs.takeIf_eq_some.1 hs
    have hcases := h.alloc_cases t time
    rwa [heq] at hcases
  · obtain ⟨time, -, hs⟩ := Option.bind_eq_some_iff.1 hs
    obtain ⟨-, heq⟩ := Runs.takeIf_eq_some.1 hs
    unfold woken at heq
    dsimp only at heq
    split at heq
    · cases heq
      exact .null _ (bodies_waits s _) rfl
    · have hcases := (h.waits (s.waits.leave t)).alloc_cases t (timeoutLeft time elapsed)
      rw [heq] at hcases
      exact hcases.of_waits

theorem Laid.sub_header (h : s.Laid) (hb : b ∈ s.blocks) (hsize : 0 < s.blockSize) :
    Word32.sub (b + header) header = b := by
  have hend := h.block_end hb
  have hheader : header = 4 := rfl
  rw [Word32.sub_of_le (by omega) (by omega), Nat.add_sub_cancel]

/-- **Freeing a block** that is allocated. -/
theorem Inv.free_cases (h : Inv s free) (hb : b ∈ s.allocated) (hsize : 0 < s.blockSize) :
    ∃ s', s.rtMpFree (b + header) = (.goesOn, s') ∧ (∃ free', Inv s' free') ∧ Bodies s s' ∧
      s'.allocated = s.allocated.erase b := by
  have hmem := h.allocated_blocks hb
  have hsub := h.laid.sub_header hmem hsize
  have hsub' : Word32.sub (b + header) header ∈ s.allocated := by rwa [hsub]
  obtain ⟨hinv, -⟩ := h.release hsub'
  have heq : s.rtMpFree (b + header) = (.goesOn, (s.rtMpFree (b + header)).2) ∧
      Bodies s (s.rtMpFree (b + header)).2 ∧
      (s.rtMpFree (b + header)).2.allocated = s.allocated.erase b := by
    unfold rtMpFree
    dsimp only
    rw [hsub, if_neg (show b + header ≠ null from Nat.succ_ne_zero _),
      if_neg (not_not.2 (h.owner b hb))]
    exact ⟨rfl, ⟨rfl, rfl, rfl, fun b' hb' i hi => store32_body hmem hb' hi⟩, rfl⟩
  exact ⟨_, heq.1, hinv, heq.2⟩

/-- What is written behind the first words of the blocks is of no interest to the pool. -/
theorem Inv.setMem (h : Inv s free) {mem : ByteMem}
    (heq : ∀ b ∈ s.blocks, mem.load32 b = s.mem.load32 b) : Inv { s with mem := mem } free :=
  ⟨⟨h.laid.pos, h.laid.fits, h.laid.width, h.laid.total, h.laid.self⟩,
    h.linked.congr fun y hy => heq y (h.free_blocks hy), h.count, h.perm,
    fun b hb => (heq b (h.allocated_blocks hb)).trans (h.owner b hb), h.written⟩

end MemPool

namespace PrioQueue

open MemPool (null Bodies)
open LevelQueue (Does History)

/-- What follows the first word of a block. -/
def Item (s : PrioQueue) (x : Nat) : Prop := ∃ b ∈ s.pool.blocks, x = b + MemPool.header

/-- The block a thread knows of. -/
def inHand : Option PqCall → List Nat
  | some (.pushing _ _ item) => [item]
  | some (.popping item) => [item]
  | _ => []

/-- The item a thread has taken out of its list. -/
def popping : Option PqCall → Option Nat
  | some (.popping item) => some item
  | _ => none

/-- Where the items are: in the list of a priority, or with a thread. -/
def places (call : ThreadId → Option PqCall) (Q : Nat → List Nat) : Nat ⊕ ThreadId → List Nat
  | .inl p => Q p
  | .inr t => inHand (call t)

/-- The lists of a queue. -/
structure Lists (s : PrioQueue) (Q : Nat → List Nat) : Prop where
  linked : ∀ p < prioMax, Linked s.pool.mem.load32 null (s.head p) (Q p)
  tail : ∀ p l z, Q p = l ++ [z] → s.tail p = z
  bitmap : ∀ p, s.bitmap.getLsbD p = true ↔ Q p ≠ []

/-- Every block that is allocated is in one place. -/
structure Housed (s : PrioQueue) (Q : Nat → List Nat) : Prop where
  apart : Queues.Apart (places s.call Q)
  allocated : ∀ x, (∃ pl, x ∈ places s.call Q pl) ↔
    ∃ b ∈ s.pool.allocated, x = b + MemPool.header

/-- What a call knows of what it pushes. -/
def CallOk (itemSz : Nat) : Option PqCall → Prop
  | some (.allocating prio data) => prio < prioMax ∧ data.length = itemSz
  | some (.pushing prio data _) => prio < prioMax ∧ data.length = itemSz
  | _ => True

/-- What the calls know. -/
structure Calls (s : PrioQueue) : Prop where
  known : ∀ t, CallOk s.itemSz (s.call t)
  waiting : ∀ t, (s.popList.thread t).call ≠ none → s.call t = none

/-- The items in the lists. -/
def present (Q : Nat → List Nat) : Nat := ∑ p ∈ Finset.range prioMax, (Q p).length

/-- No thread waits for an item while there is one for it: as many threads have been resumed. -/
structure Awake (s : PrioQueue) (Q : Nat → List Nat) : Prop where
  waits : Waits.Inv (fun _ => ()) s.popList
  resumed : ∃ R, Waits.WokenAre (fun _ => ()) s.popList () R ∧
    (s.popList.queue () ≠ [] → present Q ≤ R.card)

/-- **The invariant of a priority queue.** -/
structure Inv (s : PrioQueue) (Q : Nat → List Nat) : Prop where
  pool : ∃ free, s.pool.Inv free
  room : itemHeader + s.itemSz ≤ s.pool.blockSize
  lists : s.Lists Q
  housed : s.Housed Q
  calls : s.Calls
  awake : s.Awake Q

/-- The queue as its users see it. -/
def view (s : PrioQueue) (Q : Nat → List Nat) : LevelQueue Nat ThreadId (List UInt8) where
  level p := (Q p).map s.data
  hand t := (popping (s.call t)).map s.data

variable {s s' : PrioQueue} {Q : Nat → List Nat} {p x y : Nat} {t : ThreadId}

-- Items

theorem mem_inHand {c : Option PqCall} (h : popping c = some x) : x ∈ inHand c := by
  unfold popping at h
  split at h
  case h_1 =>
    cases h
    exact List.mem_cons_self
  case h_2 => cases h

theorem Housed.item (h : s.Housed Q) (hpool : ∃ free, s.pool.Inv free)
    {pl : Nat ⊕ ThreadId} (hx : x ∈ places s.call Q pl) : s.Item x := by
  obtain ⟨b, hb, rfl⟩ := (h.allocated x).1 ⟨pl, hx⟩
  obtain ⟨free, hfree⟩ := hpool
  exact ⟨b, hfree.allocated_blocks hb, rfl⟩

theorem Item.ne_null (h : s.Item x) : x ≠ null := by
  obtain ⟨b, -, rfl⟩ := h
  exact Nat.succ_ne_zero _

/-- Two items do not overlap. -/
theorem Item.apart (hx : s.Item x) (hy : s.Item y) (hne : x ≠ y) :
    x + s.pool.blockSize ≤ y ∨ y + s.pool.blockSize ≤ x := by
  obtain ⟨b, hb, rfl⟩ := hx
  obtain ⟨b', hb', rfl⟩ := hy
  have hsep := Slots.apart hb hb' fun heq => hne (heq ▸ rfl)
  omega

/-- An item does not reach to the first word of a block. -/
theorem Item.header (hx : s.Item x) {b : Nat} (hb : b ∈ s.pool.blocks) :
    x + s.pool.blockSize ≤ b ∨ b + MemPool.header ≤ x := by
  obtain ⟨b', hb', rfl⟩ := hx
  by_cases hne : b' = b
  · subst hne
    exact Or.inr (Nat.le_refl _)
  · have hsep := Slots.apart hb' hb hne
    omega

theorem Item.lt (hx : s.Item x) (hpool : ∃ free, s.pool.Inv free) (hroom : 0 < s.pool.blockSize) :
    x < 2 ^ 32 := by
  obtain ⟨b, hb, rfl⟩ := hx
  obtain ⟨free, hfree⟩ := hpool
  have hend := hfree.laid.block_end hb
  omega

/-- What is kept in the items stays. -/
structure Kept (s s' : PrioQueue) (x : Nat) : Prop where
  next : s'.pool.mem.load32 x = s.pool.mem.load32 x
  data : s'.data x = s.data x

theorem kept_of_bytes (hroom : itemHeader + s.itemSz ≤ s.pool.blockSize)
    (hitem : s'.itemSz = s.itemSz)
    (hbytes : ∀ i < s.pool.blockSize, s'.pool.mem (x + i) = s.pool.mem (x + i)) :
    Kept s s' x where
  next := ByteMem.load32_congr fun i hi => hbytes i (by
    have hheader : itemHeader = 4 := rfl
    omega)
  data := by
    unfold PrioQueue.data ByteMem.loadBytes
    rw [hitem]
    refine List.map_congr_left fun i hi => ?_
    have hi := List.mem_range.1 hi
    have hheader : itemHeader = 4 := rfl
    rw [Nat.add_assoc]
    exact hbytes (itemHeader + i) (by omega)

theorem Item.kept_of_bodies (hx : s.Item x) (hroom : itemHeader + s.itemSz ≤ s.pool.blockSize)
    (hitem : s'.itemSz = s.itemSz) (h : Bodies s.pool s'.pool) : Kept s s' x := by
  obtain ⟨b, hb, rfl⟩ := hx
  exact kept_of_bytes hroom hitem fun i hi => h.byte b hb i hi

/-- A write into one item leaves the others alone. -/
theorem Item.kept_of_write (hx : s.Item x) (hy : s.Item y) (hne : x ≠ y)
    (hroom : itemHeader + s.itemSz ≤ s.pool.blockSize) (hitem : s'.itemSz = s.itemSz)
    (hout : ∀ a, a < y ∨ y + s.pool.blockSize ≤ a → s'.pool.mem a = s.pool.mem a) :
    Kept s s' x := by
  have hsep := hx.apart hy hne
  refine kept_of_bytes hroom hitem fun i hi => hout _ ?_
  omega

theorem Lists.of_kept (h : s.Lists Q) (hhead : s'.head = s.head) (htail : s'.tail = s.tail)
    (hbitmap : s'.bitmap = s.bitmap)
    (hnext : ∀ p, ∀ x ∈ Q p, s'.pool.mem.load32 x = s.pool.mem.load32 x) : s'.Lists Q where
  linked p hp := by
    rw [hhead]
    exact (h.linked p hp).congr (hnext p)
  tail p l z hz := by
    rw [htail]
    exact h.tail p l z hz
  bitmap p := by
    rw [hbitmap]
    exact h.bitmap p

-- Places

theorem places_call (call : ThreadId → Option PqCall) (Q : Nat → List Nat) (t : ThreadId)
    (c : Option PqCall) : places (Function.update call t c) Q =
      Function.update (places call Q) (.inr t) (inHand c) := by
  funext pl
  cases pl with
  | inl p => rw [Function.update_of_ne (by simp)]; rfl
  | inr u =>
    by_cases hu : u = t
    · subst hu
      rw [Function.update_self]
      show inHand (Function.update call u c u) = _
      rw [Function.update_self]
    · rw [Function.update_of_ne fun heq => hu (Sum.inr.inj heq)]
      show inHand (Function.update call t c u) = _
      rw [Function.update_of_ne hu]
      rfl

theorem places_list (call : ThreadId → Option PqCall) (Q : Nat → List Nat) (p : Nat)
    (l : List Nat) : places call (Function.update Q p l) =
      Function.update (places call Q) (.inl p) l := by
  funext pl
  cases pl with
  | inr t => rw [Function.update_of_ne (by simp)]; rfl
  | inl p' =>
    by_cases hp : p' = p
    · subst hp
      rw [Function.update_self]
      exact Function.update_self _ _ _
    · rw [Function.update_of_ne fun heq => hp (Sum.inl.inj heq)]
      exact Function.update_of_ne hp _ _

/-- A call changes in which the thread has no item before and behind. -/
theorem Housed.setCall (h : s.Housed Q) {c : Option PqCall} (hc : inHand c = inHand (s.call t))
    {pool : MemPool} (hpool : pool.allocated = s.pool.allocated) :
    Housed ({ s with pool := pool }.setCall t c) Q := by
  have hplaces : places (Function.update s.call t c) Q = places s.call Q := by
    rw [places_call, hc]
    exact Function.update_eq_self _ _
  constructor
  · show Queues.Apart (places (Function.update s.call t c) Q)
    rw [hplaces]
    exact h.apart
  · intro x
    show (∃ pl, x ∈ places (Function.update s.call t c) Q pl) ↔ ∃ b ∈ pool.allocated, _
    rw [hplaces, hpool]
    exact h.allocated x

-- What is present

theorem present_push {l : List Nat} (hp : p < prioMax) (hl : l.length = (Q p).length + 1) :
    present (Function.update Q p l) = present Q + 1 := by
  have hmem : p ∈ Finset.range prioMax := Finset.mem_range.2 hp
  unfold present
  rw [← Finset.add_sum_erase _ _ hmem, ← Finset.add_sum_erase _ _ hmem, Function.update_self, hl,
    Nat.add_right_comm]
  refine congrArg (fun n => (Q p).length + n + 1) (Finset.sum_congr rfl fun p' hp' => ?_)
  rw [Function.update_of_ne (Finset.ne_of_mem_erase hp')]

theorem present_nil (h : ∀ p, Q p = []) : present Q = 0 := by
  refine Finset.sum_eq_zero fun p _ => ?_
  rw [h p]
  rfl

-- Pushing

/-- Only the links of the lists change, and the link of one item. -/
structure Relinked (s s' : PrioQueue) : Prop where
  popList : s'.popList = s.popList
  itemSz : s'.itemSz = s.itemSz
  call : s'.call = s.call
  pool : s'.pool = { s.pool with mem := s'.pool.mem }
  link : ∃ z, s.Item z ∧ ∀ a, a < z ∨ z + itemHeader ≤ a → s'.pool.mem a = s.pool.mem a

theorem Relinked.data (h : Relinked s s') (hroom : itemHeader + s.itemSz ≤ s.pool.blockSize)
    (hx : s.Item x) : s'.data x = s.data x := by
  obtain ⟨z, hz, hout⟩ := h.link
  unfold PrioQueue.data ByteMem.loadBytes
  rw [h.itemSz]
  refine List.map_congr_left fun i hi => ?_
  have hi := List.mem_range.1 hi
  -- behind the first word of the item, or in another one
  refine hout _ ?_
  by_cases hne : x = z
  · subst hne
    omega
  · have hsep := hx.apart hz hne
    omega

theorem Relinked.inv (h : Relinked s s') (hpool : ∃ free, s.pool.Inv free)
    (hroom : itemHeader + s.itemSz ≤ s.pool.blockSize) : ∃ free, s'.pool.Inv free := by
  obtain ⟨z, hz, hout⟩ := h.link
  obtain ⟨free, hfree⟩ := hpool
  refine ⟨free, ?_⟩
  rw [h.pool]
  refine hfree.setMem fun b hb => ByteMem.load32_congr fun i hi => hout _ ?_
  have hsep := hz.header hb
  have hheader : MemPool.header = 4 := rfl
  omega

/-- What there is to know of an item that is put into a list. -/
structure Fresh (s : PrioQueue) (Q : Nat → List Nat) (x : Nat) : Prop where
  item : s.Item x
  lt : x < 2 ^ 32
  next : s.pool.mem.load32 x = null
  others : ∀ p, ∀ y ∈ Q p, s.Item y ∧ y ≠ x

theorem getLsbD_mask_insert {b : BitVec 32} (hp : p < prioMax) (hb : ∀ p', b.getLsbD p' = true ↔
    Q p' ≠ []) {l : List Nat} (hl : l ≠ []) (p' : Nat) :
    (b ||| BitSet.mask 32 p).getLsbD p' = true ↔ Function.update Q p l p' ≠ [] := by
  rw [BitSet.getLsbD_insert b hp]
  by_cases hpp : p' = p
  · subst hpp
    rw [Function.update_self]
    simp [hl]
  · rw [Function.update_of_ne hpp, ← hb p']
    simp [hpp]

/-- **`_do_push`** puts an item behind the others of its priority. -/
theorem Lists.doPush (h : s.Lists Q) (happart : ∀ p p', ∀ y ∈ Q p, y ∈ Q p' → p = p')
    (hnodup : ∀ p, (Q p).Nodup) (hroom : itemHeader ≤ s.pool.blockSize) (hp : p < prioMax)
    (hx : Fresh s Q x) : ∃ s', s.doPush p x = .ok s' ∧ Relinked s s' ∧
      s'.Lists (Function.update Q p (Q p ++ [x])) := by
  have hheader : itemHeader = 4 := rfl
  -- an item that is last is the tail
  have htail : ∀ p' l z, Function.update Q p (Q p ++ [x]) p' = l ++ [z] →
      Function.update s.tail p x p' = z := by
    intro p' l z hz
    by_cases hpp : p' = p
    · subst hpp
      rw [Function.update_self] at hz ⊢
      exact (List.append_inj' hz rfl).2 |> List.cons.inj |>.1
    · rw [Function.update_of_ne hpp] at hz ⊢
      exact h.tail p' l z hz
  have hlinked := h.linked p hp
  unfold PrioQueue.doPush
  by_cases hnil : s.head p = null
  · have hQ := hlinked.null_iff.1 hnil
    rw [if_pos hnil]
    refine ⟨_, rfl, ⟨rfl, rfl, rfl, rfl, x, hx.item, fun a _ => rfl⟩, ⟨fun p' hp' => ?_, htail,
      getLsbD_mask_insert hp h.bitmap (by simp)⟩⟩
    by_cases hpp : p' = p
    · subst hpp
      show Linked _ null (Function.update s.head p' x p') _
      rw [Function.update_self, Function.update_self, hQ]
      exact ⟨rfl, hx.item.ne_null, hx.next⟩
    · show Linked _ null (Function.update s.head p x p') _
      rw [Function.update_of_ne hpp, Function.update_of_ne hpp]
      exact h.linked p' hp'
  · -- the list has a last item, and this is the tail
    obtain ⟨l, z, hQ⟩ : ∃ l z, Q p = l ++ [z] := by
      rcases List.eq_nil_or_concat' (Q p) with hQ | hQ
      · exact absurd (hlinked.null_iff.2 hQ) hnil
      · exact hQ
    have hz := h.tail p l z hQ
    have hmem : z ∈ Q p := by
      rw [hQ]
      exact List.mem_append_right _ List.mem_cons_self
    obtain ⟨hzitem, hzx⟩ := hx.others p z hmem
    have hnext : ∀ y, s.Item y → y ≠ z →
        (s.pool.mem.store32 z x).load32 y = s.pool.mem.load32 y := by
      intro y hy hne
      have hsep := hy.apart hzitem hne
      exact ByteMem.load32_store32_out (by omega)
    rw [if_neg hnil, rtAssert_bind (by rw [hz]; exact hzitem.ne_null), hz]
    refine ⟨_, rfl, ⟨rfl, rfl, rfl, rfl, z, hzitem, fun a ha => ByteMem.store32_out ha⟩,
      ⟨fun p' hp' => ?_, htail, fun p' => ?_⟩⟩
    · show Linked (s.pool.mem.store32 z x).load32 null (s.head p') _
      by_cases hpp : p' = p
      · subst hpp
        rw [Function.update_self, hQ, List.append_assoc]
        rw [hQ] at hlinked
        refine hlinked.push_back hx.item.ne_null (ByteMem.load32_store32_self hx.lt) ?_ ?_
        · rw [hnext x hx.item (Ne.symm hzx), hx.next]
        · intro y hy
          have hyQ : y ∈ Q p' := by
            rw [hQ]
            exact List.mem_append_left _ hy
          refine hnext y (hx.others p' y hyQ).1 ?_
          rintro rfl
          have hnd := hnodup p'
          rw [hQ] at hnd
          exact (List.nodup_append.1 hnd).2.2 y hy y List.mem_cons_self rfl
      · rw [Function.update_of_ne hpp]
        refine (h.linked p' hp').congr fun y hy => hnext y (hx.others p' y hy).1 ?_
        rintro rfl
        exact hpp (happart p' p y hy hmem)
    · show s.bitmap.getLsbD p' = true ↔ _
      rw [h.bitmap p']
      by_cases hpp : p' = p
      · subst hpp
        rw [Function.update_self, hQ]
        simp
      · rw [Function.update_of_ne hpp]

-- Popping

/-- **`_do_pop`** takes the first item of the lowest priority that has one. -/
theorem Lists.doPop (h : s.Lists Q) :
    (s.doPop = .ok (none, s) ∧ ∀ p, Q p = []) ∨
    ∃ p x l s', p < prioMax ∧ rtFfs s.bitmap - 1 = p ∧ Q p = x :: l ∧ (∀ p' < p, Q p' = []) ∧
      s.doPop = .ok (some x, s') ∧ s'.Lists (Function.update Q p l) ∧
      s' = { s with head := s'.head, bitmap := s'.bitmap } := by
  unfold PrioQueue.doPop
  by_cases hzero : s.bitmap = 0#32
  · refine Or.inl ⟨?_, fun p => ?_⟩
    · rw [hzero]
      rfl
    · by_contra hne
      have hbit := (h.bitmap p).2 hne
      rw [hzero, BitVec.getLsbD_zero] at hbit
      cases hbit
  right
  have hlow := rtFfs_isLowest hzero
  have hpos := rtFfs_pos hzero
  obtain ⟨p, hffs⟩ : ∃ p, rtFfs s.bitmap - 1 = p := ⟨_, rfl⟩
  rw [hffs] at hlow
  have hp : p < prioMax := hlow.lt
  have hlinked := h.linked p hp
  obtain ⟨x, l, hQ⟩ := List.exists_cons_of_ne_nil ((h.bitmap p).1 hlow.mem)
  rw [hQ] at hlinked
  obtain ⟨hhead, hne, hrest⟩ := hlinked
  have hurgent : ∀ p' < p, Q p' = [] := by
    intro p' hp'
    by_contra hne'
    have hbit := (h.bitmap p').2 hne'
    rw [hlow.least p' hp'] at hbit
    cases hbit
  refine ⟨p, x, l, { s with
    head := Function.update s.head p (s.pool.mem.load32 x)
    bitmap := if s.pool.mem.load32 x = null then s.bitmap &&& ~~~BitSet.mask 32 p else s.bitmap },
    hp, hffs, hQ, hurgent, ?_, ?_, rfl⟩
  · dsimp only
    rw [if_neg hpos.ne', hffs, hhead, rtAssert_bind hne]
    rfl
  · refine ⟨fun p' hp' => ?_, fun p' l' z hz => ?_, fun p' => ?_⟩
    · show Linked s.pool.mem.load32 null (Function.update s.head p _ p') _
      by_cases hpp : p' = p
      · subst hpp
        rw [Function.update_self, Function.update_self]
        exact hrest
      · rw [Function.update_of_ne hpp, Function.update_of_ne hpp]
        exact h.linked p' hp'
    · show s.tail p' = z
      by_cases hpp : p' = p
      · subst hpp
        rw [Function.update_self] at hz
        exact h.tail p' (x :: l') z (by rw [hQ, hz, List.cons_append])
      · rw [Function.update_of_ne hpp] at hz
        exact h.tail p' l' z hz
    · -- the bit goes with the last item
      show (if s.pool.mem.load32 x = null then s.bitmap &&& ~~~BitSet.mask 32 p
        else s.bitmap).getLsbD p' = true ↔ _
      by_cases hpp : p' = p
      · subst hpp
        rw [Function.update_self]
        split
        case isTrue hnil =>
          rw [BitSet.getLsbD_erase _ hp, hrest.null_iff.1 hnil]
          simp
        case isFalse hsome =>
          exact iff_of_true hlow.mem fun hl => hsome (hrest.null_iff.2 hl)
      · rw [Function.update_of_ne hpp, ← h.bitmap p']
        split
        · rw [BitSet.getLsbD_erase _ hp]
          exact and_iff_left hpp
        · rfl

-- --------
-- The steps
-- --------

/-- What a step does: it ends, keeps the invariant, and goes on with every history of what the
users see. -/
def Goes (s : PrioQueue) (Q : Nat → List Nat) (t : ThreadId)
    (r : Except Fault (PqOutcome × PrioQueue)) : Prop :=
  ∃ o s' Q', r = .ok (o, s') ∧ s'.Inv Q' ∧
    ∀ es, History es (s.view Q) → History (es ++ o.events t) (s'.view Q')

theorem goes_silent {o : PqOutcome} (hinv : s'.Inv Q) (hevents : o.events t = [])
    (hview : s'.view Q = s.view Q) : Goes s Q t (.ok (o, s')) := by
  refine ⟨o, s', Q, rfl, hinv, fun es hes => ?_⟩
  rw [hevents, List.append_nil, hview]
  exact hes

theorem Calls.setCall {c : Option PqCall} (h : s.Calls) (hitem : s'.itemSz = s.itemSz)
    (hcall : s'.call = Function.update s.call t c) (hc : CallOk s.itemSz c)
    (hwait : ∀ u, (s'.popList.thread u).call ≠ none →
      (u = t → c = none) ∧ (u ≠ t → (s.popList.thread u).call ≠ none)) : s'.Calls where
  known u := by
    rw [hitem, hcall]
    by_cases hu : u = t
    · subst hu
      rwa [Function.update_self]
    · rw [Function.update_of_ne hu]
      exact h.known u
  waiting u hu := by
    rw [hcall]
    by_cases hut : u = t
    · subst hut
      rw [Function.update_self]
      exact (hwait u hu).1 rfl
    · rw [Function.update_of_ne hut]
      exact h.waiting u ((hwait u hu).2 hut)

section Pool

variable {pool : MemPool} {c : Option PqCall} {o : MpOutcome} {prio : Nat} {data : List UInt8}
  {Q' : Nat → List Nat} {item : Nat}

theorem Inv.kept (h : s.Inv Q) (hbodies : Bodies s.pool pool) (t : ThreadId) (c : Option PqCall)
    {pl : Nat ⊕ ThreadId} (hx : x ∈ places s.call Q pl) :
    Kept s ({ s with pool := pool }.setCall t c) x :=
  (h.housed.item h.pool hx).kept_of_bodies h.room rfl hbodies

/-- A step of the pool, behind which the thread is in another call. -/
theorem Inv.setPool (h : s.Inv Q) (hbodies : Bodies s.pool pool) (hpool : ∃ free, pool.Inv free)
    (hhoused : Housed ({ s with pool := pool }.setCall t c) Q) (hc : CallOk s.itemSz c)
    (hout : (s.popList.thread t).call = none) :
    Inv ({ s with pool := pool }.setCall t c) Q where
  pool := hpool
  room := by
    show itemHeader + s.itemSz ≤ pool.blockSize
    rw [hbodies.blockSize]
    exact h.room
  lists := h.lists.of_kept rfl rfl rfl fun p x hx =>
    (h.kept hbodies t c (show x ∈ places s.call Q (.inl p) from hx)).next
  housed := hhoused
  calls := h.calls.setCall rfl rfl hc fun u hu =>
    ⟨fun hut => absurd hout (hut ▸ hu), fun _ => hu⟩
  awake := ⟨h.awake.waits, h.awake.resumed⟩

/-- The users see nothing of a block that is allocated. -/
theorem Inv.view_setPool (h : s.Inv Q) (hbodies : Bodies s.pool pool)
    (hc : popping c = none) (hcall : popping (s.call t) = none) :
    ({ s with pool := pool }.setCall t c).view Q = s.view Q := by
  have hdata : ∀ pl, ∀ x ∈ places s.call Q pl,
      ({ s with pool := pool }.setCall t c).data x = s.data x :=
    fun pl x hx => (h.kept hbodies t c hx).data
  unfold view
  congr 1
  · funext p
    exact List.map_congr_left fun x hx => hdata (.inl p) x hx
  · funext u
    show (popping (Function.update s.call t c u)).map _ = _
    by_cases hu : u = t
    · subst hu
      rw [Function.update_self, hc, hcall]
      rfl
    · rw [Function.update_of_ne hu]
      exact Option.map_congr fun x hx => hdata (.inr u) x (mem_inHand hx)

theorem Housed.alloc (h : s.Housed Q) (hhand : inHand (s.call t) = []) {b : Nat}
    (hfree : b ∉ s.pool.allocated) (hallocated : pool.allocated = b :: s.pool.allocated) :
    Housed ({ s with pool := pool }.setCall t
      (some (.pushing prio data (b + MemPool.header)))) Q := by
  have hnew : Queues.Free (places s.call Q) (b + MemPool.header) := by
    intro pl hpl
    obtain ⟨b', hb', heq⟩ := (h.allocated _).1 ⟨pl, hpl⟩
    obtain rfl : b = b' := Nat.add_right_cancel heq
    exact hfree hb'
  have hperm : [b + MemPool.header].Perm ((b + MemPool.header) :: places s.call Q (.inr t)) := by
    rw [show places s.call Q (.inr t) = [] from hhand]
  constructor
  · show Queues.Apart (places (Function.update s.call t _) Q)
    rw [places_call]
    exact h.apart.put hnew hperm
  · intro x
    show (∃ pl, x ∈ places (Function.update s.call t _) Q pl) ↔ ∃ b ∈ pool.allocated, _
    rw [places_call, hallocated]
    constructor
    · rintro ⟨pl, hpl⟩
      rcases (Queues.mem_put hperm).1 hpl with ⟨rfl, -⟩ | hold
      · exact ⟨b, List.mem_cons_self, rfl⟩
      · obtain ⟨b', hb', rfl⟩ := (h.allocated x).1 ⟨pl, hold⟩
        exact ⟨b', List.mem_cons_of_mem _ hb', rfl⟩
    · rintro ⟨b', hb', rfl⟩
      rcases List.mem_cons.1 hb' with rfl | hold
      · exact ⟨.inr t, (Queues.mem_put hperm).2 (Or.inl ⟨rfl, rfl⟩)⟩
      · obtain ⟨pl, hpl⟩ := (h.allocated _).2 ⟨b', hold, rfl⟩
        exact ⟨pl, (Queues.mem_put hperm).2 (Or.inr hpl)⟩

/-- **Getting a block**, or waiting for one. -/
theorem Inv.allocated (h : s.Inv Q) (hcall : s.call t = none ∨
      ∃ prio data, s.call t = some (.allocating prio data))
    (hout : (s.popList.thread t).call = none) (hp : prio < prioMax)
    (hlength : data.length = s.itemSz) (halloc : MemPool.Alloc s.pool o pool)
    (hpool : ∃ free, pool.Inv free) : Goes s Q t (s.allocated t prio data (o, pool)) := by
  have hhand : inHand (s.call t) = [] := by
    rcases hcall with hcall | ⟨prio', data', hcall⟩
    · rw [hcall]
      rfl
    · rw [hcall]
      rfl
  have hnone : ∀ c, inHand c = [] → inHand c = inHand (s.call t) := fun c hc => hc.trans hhand.symm
  have hno : popping (s.call t) = none := by
    by_contra hsome
    obtain ⟨x, hx⟩ := Option.ne_none_iff_exists'.1 hsome
    have hmem := mem_inHand hx
    rw [hhand] at hmem
    cases hmem
  cases halloc with
  | block _ b hb hfree hbodies hallocated =>
    exact goes_silent
      (h.setPool hbodies hpool (h.housed.alloc hhand hfree hallocated) ⟨hp, hlength⟩ hout) rfl
      (h.view_setPool hbodies rfl hno)
  | null _ hbodies hallocated =>
    exact goes_silent
      (h.setPool hbodies hpool (h.housed.setCall (hnone _ rfl) hallocated) trivial hout) rfl
      (h.view_setPool hbodies rfl hno)
  | goesOn _ hbodies hallocated =>
    exact goes_silent
      (h.setPool hbodies hpool (h.housed.setCall (hnone _ rfl) hallocated) ⟨hp, hlength⟩ hout) rfl
      (h.view_setPool hbodies rfl hno)

end Pool

section Link

variable {prio item : Nat} {data : List UInt8} {l l' : List Nat} {pl pl' : Nat ⊕ ThreadId}
  {Q' : Nat → List Nat}

/-- An item moves from one place to another. -/
theorem Housed.move (h : s.Housed Q) (hpl : places s.call Q pl = x :: l)
    (hl' : l'.Perm (x :: places s.call Q pl')) (hne : pl ≠ pl')
    (hplaces : places s'.call Q' = Queues.move (places s.call Q) pl l pl' l')
    (hallocated : s'.pool.allocated = s.pool.allocated) : s'.Housed Q' where
  apart := by
    rw [hplaces]
    exact h.apart.move hpl hl' hne
  allocated y := by
    rw [hplaces, hallocated, h.apart.exists_mem_move hpl hl' hne]
    exact h.allocated y

/-- The item that a thread has filled. -/
def filled (s : PrioQueue) (item : Nat) (data : List UInt8) : PrioQueue :=
  (s.setData item data).setNext item null

theorem filled_out (hlength : data.length = s.itemSz)
    (hroom : itemHeader + s.itemSz ≤ s.pool.blockSize) {a : Nat}
    (ha : a < item ∨ item + s.pool.blockSize ≤ a) :
    (s.filled item data).pool.mem a = s.pool.mem a := by
  have hheader : itemHeader = 4 := rfl
  show ((s.pool.mem.storeBytes _ data).store32 item null) a = _
  rw [ByteMem.store32_out (by omega), ByteMem.storeBytes_out (by omega)]

theorem data_filled (hlength : data.length = s.itemSz) : (s.filled item data).data item = data := by
  have hholds : ((s.pool.mem.storeBytes (item + itemHeader) data).store32 item null).Holds
      (item + itemHeader) data :=
    (ByteMem.holds_storeBytes _ _ _).congr fun i _ => ByteMem.store32_out (Or.inr (by
      have hheader : itemHeader = 4 := rfl
      omega))
  have hload := hholds.loadBytes_eq
  rwa [hlength] at hload

theorem Inv.filled_pool (h : s.Inv Q) (hitem : s.Item item) (hlength : data.length = s.itemSz) :
    ∃ free, (s.filled item data).pool.Inv free := by
  obtain ⟨free, hfree⟩ := h.pool
  refine ⟨free, hfree.setMem fun b hb => ByteMem.load32_congr fun i hi =>
    filled_out hlength h.room ?_⟩
  have hsep := hitem.header hb
  have hheader : MemPool.header = 4 := rfl
  omega

theorem Inv.filled_kept (h : s.Inv Q) (hitem : s.Item item) (hlength : data.length = s.itemSz)
    (hx : s.Item x) (hne : x ≠ item) : Kept s (s.filled item data) x :=
  hx.kept_of_write hitem hne h.room rfl fun _ ha => filled_out hlength h.room ha

/-- The number of threads that have been resumed grows with the items. -/
theorem Awake.resume (h : s.Awake Q) (hpopList : s'.popList = s.popList.resume ())
    (hpresent : present Q' = present Q + 1) : s'.Awake Q' where
  waits := by
    rw [hpopList]
    exact h.waits.resume ()
  resumed := by
    obtain ⟨R, hR, hcount⟩ := h.resumed
    rw [hpopList, hpresent]
    cases hqueue : s.popList.queue () with
    | nil =>
      rw [Waits.resume_nil hqueue]
      exact ⟨R, hR, fun hne => absurd hqueue hne⟩
    | cons u l =>
      obtain ⟨hR', hu⟩ := hR.resume_self h.waits hqueue
      refine ⟨insert u R, hR', fun _ => ?_⟩
      rw [Finset.card_insert_of_notMem hu]
      have hle := hcount (by rw [hqueue]; exact List.cons_ne_nil _ _)
      omega

/-- What is elsewhere is another item than the one of the thread. -/
theorem Inv.other (h : s.Inv Q) (hcall : inHand (s.call t) = [item]) (hpl : pl ≠ .inr t)
    (hx : x ∈ places s.call Q pl) : s.Item x ∧ x ≠ item := by
  refine ⟨h.housed.item h.pool hx, ?_⟩
  rintro rfl
  refine hpl (h.housed.apart.same hx (?_ : x ∈ inHand (s.call t)))
  rw [hcall]
  exact List.mem_cons_self

/-- The users see what the thread has filled at the end of its level. -/
theorem Inv.view_link (h : s.Inv Q) (hcall : s.call t = some (.pushing prio data item))
    (hcall' : s'.call = Function.update s.call t none) (hnew : s'.data item = data)
    (hkept : ∀ x, s.Item x → x ≠ item → s'.data x = s.data x) :
    s'.view (Function.update Q prio (Q prio ++ [item])) = { s.view Q with
      level := Function.update (s.view Q).level prio ((s.view Q).level prio ++ [data]) } := by
  have hhand : inHand (s.call t) = [item] := by
    rw [hcall]
    rfl
  have hlists : ∀ p, ∀ x ∈ Q p, s'.data x = s.data x := by
    intro p x hx
    obtain ⟨hitem, hne⟩ := h.other hhand (show Sum.inl p ≠ Sum.inr t by simp) hx
    exact hkept x hitem hne
  unfold view
  congr 1
  · funext p
    by_cases hpp : p = prio
    · subst hpp
      rw [Function.update_self, Function.update_self, List.map_append,
        List.map_congr_left (hlists p)]
      exact congrArg (fun d => (Q p).map s.data ++ [d]) hnew
    · rw [Function.update_of_ne hpp, Function.update_of_ne hpp]
      exact List.map_congr_left (hlists p)
  · funext u
    rw [hcall']
    by_cases hut : u = t
    · subst hut
      show (popping (Function.update s.call u none u)).map s'.data =
        (popping (s.call u)).map s.data
      rw [Function.update_self, hcall]
      rfl
    · show (popping (Function.update s.call t none u)).map s'.data =
        (popping (s.call u)).map s.data
      rw [Function.update_of_ne hut]
      refine Option.map_congr fun x hx => ?_
      obtain ⟨hitem, hne⟩ := h.other hhand (show Sum.inr u ≠ Sum.inr t by simpa using hut)
        (mem_inHand hx)
      exact hkept x hitem hne

/-- **Linking an item**: it goes from the thread to the end of the list of its priority. -/
theorem Inv.link (h : s.Inv Q) (hcall : s.call t = some (.pushing prio data item)) :
    Goes s Q t (s.link t prio data item) := by
  have hknown := h.calls.known t
  rw [hcall] at hknown
  obtain ⟨hp, hlength⟩ := hknown
  have hhand : places s.call Q (.inr t) = [item] := by
    show inHand (s.call t) = _
    rw [hcall]
    rfl
  have hmem : item ∈ places s.call Q (.inr t) := by
    rw [hhand]
    exact List.mem_cons_self
  have hitem : s.Item item := h.housed.item h.pool hmem
  -- the item is in no list
  have hlists : ∀ p, ∀ x ∈ Q p, s.Item x ∧ x ≠ item := fun p x hx =>
    h.other hhand (show Sum.inl p ≠ Sum.inr t by simp) hx
  have hroom := h.room
  have hheader : itemHeader = 4 := rfl
  -- filling the item
  have hpool₁ := h.filled_pool hitem hlength
  have hkept₁ : ∀ x, s.Item x → x ≠ item → Kept s (s.filled item data) x :=
    fun x hx hne => h.filled_kept hitem hlength hx hne
  have hlists₁ : (s.filled item data).Lists Q :=
    h.lists.of_kept rfl rfl rfl fun p x hx =>
      (hkept₁ x (hlists p x hx).1 (hlists p x hx).2).next
  have hfresh : Fresh (s.filled item data) Q item :=
    ⟨hitem, hitem.lt h.pool (by omega), ByteMem.load32_store32_self (by decide), hlists⟩
  -- linking it
  obtain ⟨s₂, hpush, hrel, hlists₂⟩ := hlists₁.doPush
    (fun p p' y hy hy' => Sum.inl.inj (h.housed.apart.same
      (show y ∈ places s.call Q (.inl p) from hy) (show y ∈ places s.call Q (.inl p') from hy')))
    (fun p => h.housed.apart.nodup (.inl p)) (show itemHeader ≤ s.pool.blockSize by omega) hp hfresh
  have hdata₂ : ∀ x, s.Item x → s₂.data x = (s.filled item data).data x :=
    fun x hx => hrel.data h.room hx
  have hpool₂ := hrel.pool
  have hcall₂ : Function.update s₂.call t none = Function.update s.call t none := by
    rw [hrel.call]
    rfl
  refine ⟨.pushed prio data, { s₂ with popList := s₂.popList.resume () }.setCall t none,
    Function.update Q prio (Q prio ++ [item]), ?_, ?_, ?_⟩
  · unfold PrioQueue.link
    show ((s.filled item data).doPush prio item >>= _) = _
    rw [hpush]
    rfl
  · have hplaces : places (Function.update s₂.call t none)
        (Function.update Q prio (Q prio ++ [item])) =
          Queues.move (places s.call Q) (.inr t) [] (.inl prio) (Q prio ++ [item]) := by
      rw [hcall₂, places_list, places_call]
      rfl
    refine ⟨?_, ?_, ?_, ?_, ?_, ?_⟩
    · exact hrel.inv hpool₁ h.room
    · show itemHeader + s₂.itemSz ≤ s₂.pool.blockSize
      rw [hrel.itemSz, hpool₂]
      exact h.room
    · exact ⟨hlists₂.linked, hlists₂.tail, hlists₂.bitmap⟩
    · refine h.housed.move hhand (List.perm_append_singleton item (Q prio)) (by simp) hplaces ?_
      show s₂.pool.allocated = _
      rw [hpool₂]
      rfl
    · refine h.calls.setCall hrel.itemSz hcall₂ trivial fun u hu => ⟨fun _ => rfl, fun _ => ?_⟩
      change ((s₂.popList.resume ()).thread u).call ≠ none at hu
      rwa [Waits.resume_call, hrel.popList] at hu
    · refine h.awake.resume ?_ (present_push hp (by simp))
      show s₂.popList.resume () = _
      rw [hrel.popList]
      rfl
  · intro es hes
    refine hes.snoc ?_
    have hview : ({ s₂ with popList := s₂.popList.resume () }.setCall t none).view _ = _ :=
      h.view_link hcall hcall₂ ((hdata₂ item hitem).trans (data_filled hlength)) fun x hx hne =>
        (hdata₂ x hx).trans (hkept₁ x hx hne).data
    rw [hview]
    exact .put _ _ _

end Link

section Pop

variable {w : Waits Unit Int} {timeout : Int} {l : List Nat} {item : Nat} {o : PqOutcome}

/-- Other threads wait. -/
theorem Inv.setPopList (h : s.Inv Q) (hwaits : Waits.Inv (fun _ => ()) w)
    (hresumed : ∃ R, Waits.WokenAre (fun _ => ()) w () R ∧ (w.queue () ≠ [] → present Q ≤ R.card))
    (hcalls : ∀ u, (w.thread u).call ≠ none → s.call u = none) :
    Inv { s with popList := w } Q :=
  ⟨h.pool, h.room, ⟨h.lists.linked, h.lists.tail, h.lists.bitmap⟩,
    ⟨h.housed.apart, h.housed.allocated⟩, ⟨h.calls.known, hcalls⟩, ⟨hwaits, hresumed⟩⟩

/-- The users see an item go from its level to the thread. -/
theorem view_take (hQ : Q p = x :: l) (hurgent : ∀ p' < p, Q p' = [])
    (hcall : s.call t = none) (hcall' : s'.call = Function.update s.call t (some (.popping x)))
    (hpool : s'.pool = s.pool) (hitem : s'.itemSz = s.itemSz) :
    Does (s.view Q) (.take t p (s'.data x)) (s'.view (Function.update Q p l)) := by
  have hdata : s'.data = s.data := by
    funext y
    unfold PrioQueue.data
    rw [hpool, hitem]
  have hview : s'.view (Function.update Q p l) =
      ⟨Function.update (s.view Q).level p (l.map s.data),
        Function.update (s.view Q).hand t (some (s'.data x))⟩ := by
    unfold view
    rw [hdata, hcall']
    congr 1
    · funext p'
      by_cases hpp : p' = p
      · subst hpp
        rw [Function.update_self, Function.update_self]
      · rw [Function.update_of_ne hpp, Function.update_of_ne hpp]
    · funext u
      by_cases hut : u = t
      · subst hut
        rw [Function.update_self, Function.update_self]
        rfl
      · rw [Function.update_of_ne hut, Function.update_of_ne hut]
  rw [hview]
  refine .take _ _ _ _ _ ?_ (fun p' hp' => ?_) ?_
  · show (Q p).map s.data = _
    rw [hQ, hdata]
    rfl
  · show (Q p').map s.data = []
    rw [hurgent p' hp']
    rfl
  · show (popping (s.call t)).map s.data = none
    rw [hcall]
    rfl

/-- **Looking for an item**, with one thread more that may have been resumed. -/
theorem Inv.pop (h : s.Inv Q) (hcall : s.call t = none) (hout : (w.thread t).call = none)
    (hwaits : Waits.Inv (fun _ => ()) w)
    (hresumed : ∃ R, Waits.WokenAre (fun _ => ()) w () R ∧
      (w.queue () ≠ [] → present Q ≤ R.card + 1))
    (hcalls : ∀ u, (w.thread u).call ≠ none → s.call u = none) :
    Goes s Q t (rtPrioQueuePop { s with popList := w } t timeout) := by
  obtain ⟨R, hR, hcount⟩ := hresumed
  have hlists : Lists { s with popList := w } Q :=
    ⟨h.lists.linked, h.lists.tail, h.lists.bitmap⟩
  rcases hlists.doPop with ⟨hpop, hnil⟩ | ⟨p, x, l, s₁, hp, hffs, hQ, hurgent, hpop, hlists₁, hs₁⟩
  · have hzero := present_nil hnil
    have hgoes : ∀ {w' : Waits Unit Int}, Waits.Inv (fun _ => ()) w' →
        (∃ R', Waits.WokenAre (fun _ => ()) w' () R') →
        (∀ u, (w'.thread u).call ≠ none → s.call u = none) → Inv { s with popList := w' } Q := by
      intro w' hwaits' hR' hcalls'
      obtain ⟨R', hR'⟩ := hR'
      exact h.setPopList hwaits' ⟨R', hR', fun _ => by omega⟩ hcalls'
    unfold rtPrioQueuePop
    rw [hpop]
    show Goes s Q t (if timeout = 0 then _ else _)
    split
    · exact goes_silent (hgoes hwaits ⟨R, hR⟩ hcalls) rfl rfl
    · -- the thread goes to the end of the list of those that wait
      have hperm := List.perm_append_singleton t (w.queue ())
      refine goes_silent (hgoes (hwaits.suspend (hwaits.free hout) rfl hperm)
        ⟨R, hR.suspend_of_none hout hperm⟩ fun u hu => ?_) rfl rfl
      by_cases hut : u = t
      · subst hut
        exact hcall
      · rw [Waits.suspend_call_of_ne hut] at hu
        exact hcalls u hu
  · have hpresent : present Q = present (Function.update Q p l) + 1 := by
      have hpush := @present_push (Function.update Q p l) p (Q p) hp (by
        rw [Function.update_self, hQ]
        rfl)
      rwa [Function.update_idem, Function.update_eq_self] at hpush
    have hpool : s₁.pool = s.pool := by rw [hs₁]
    have hcall₁ : Function.update s₁.call t (some (.popping x)) =
        Function.update s.call t (some (.popping x)) := by rw [hs₁]
    have hpopList : s₁.popList = w := by rw [hs₁]
    have hitem : s₁.itemSz = s.itemSz := by rw [hs₁]
    have hperm : [x].Perm (x :: places s.call Q (.inr t)) := by
      show [x].Perm (x :: inHand (s.call t))
      rw [hcall]
      rfl
    refine ⟨.taken p (s₁.data x), s₁.setCall t (some (.popping x)), Function.update Q p l, ?_,
      ⟨?_, ?_, ?_, ?_, ?_, ?_⟩, ?_⟩
    · unfold rtPrioQueuePop
      rw [hpop, ← hffs]
      rfl
    · show ∃ free, s₁.pool.Inv free
      rw [hpool]
      exact h.pool
    · show itemHeader + s₁.itemSz ≤ s₁.pool.blockSize
      rw [hpool, hitem]
      exact h.room
    · exact ⟨hlists₁.linked, hlists₁.tail, hlists₁.bitmap⟩
    · refine h.housed.move (show places s.call Q (.inl p) = x :: l from hQ) hperm (by simp) ?_ ?_
      · show places (Function.update s₁.call t _) (Function.update Q p l) = _
        rw [hcall₁, places_list, places_call, Queues.move, Function.update_comm (by simp)]
        rfl
      · show s₁.pool.allocated = _
        rw [hpool]
    · have hcalls' : Calls { s with popList := w } := ⟨h.calls.known, hcalls⟩
      refine hcalls'.setCall hitem hcall₁ trivial fun u hu => ?_
      change (s₁.popList.thread u).call ≠ none at hu
      rw [hpopList] at hu
      exact ⟨fun hut => absurd hout (hut ▸ hu), fun _ => hu⟩
    · refine ⟨?_, R, ?_, ?_⟩
      · show Waits.Inv _ s₁.popList
        rw [hpopList]
        exact hwaits
      · show Waits.WokenAre _ s₁.popList () R
        rw [hpopList]
        exact hR
      · show s₁.popList.queue () ≠ [] → _
        rw [hpopList]
        intro hne
        have hle := hcount hne
        omega
    · intro es hes
      have hdoes : Does _ _ ((s₁.setCall t (some (.popping x))).view _) :=
        view_take hQ hurgent hcall hcall₁ hpool hitem
      exact hes.snoc hdoes

end Pop

section Deliver

variable {item : Nat} {pool : MemPool} {b : Nat}

theorem Housed.free (h : s.Housed Q) (hhand : places s.call Q (.inr t) = [b + MemPool.header])
    (hnodup : s.pool.allocated.Nodup) (hpool : pool.allocated = s.pool.allocated.erase b) :
    Housed ({ s with pool := pool }.setCall t none) Q := by
  have hmem : b + MemPool.header ∈ places s.call Q (.inr t) := by
    rw [hhand]
    exact List.mem_cons_self
  have hplaces : places (Function.update s.call t none) Q =
      Queues.unlink (places s.call Q) (b + MemPool.header) := by
    rw [places_call]
    funext pl
    by_cases hpl : pl = .inr t
    · subst hpl
      rw [Function.update_self, Queues.unlink, hhand]
      exact (List.erase_cons_head _ _).symm
    · rw [Function.update_of_ne hpl, h.apart.unlink_of_ne hmem hpl]
  constructor
  · show Queues.Apart (places (Function.update s.call t none) Q)
    rw [hplaces]
    exact h.apart.unlink _
  · intro x
    show (∃ pl, x ∈ places (Function.update s.call t none) Q pl) ↔ ∃ b' ∈ pool.allocated, _
    rw [hplaces, hpool]
    constructor
    · rintro ⟨pl, hpl⟩
      obtain ⟨hne, hpl⟩ := h.apart.mem_unlink.1 hpl
      obtain ⟨b', hb', rfl⟩ := (h.allocated x).1 ⟨pl, hpl⟩
      refine ⟨b', (List.mem_erase_of_ne ?_).2 hb', rfl⟩
      rintro rfl
      exact hne rfl
    · rintro ⟨b', hb', rfl⟩
      obtain ⟨hne, hb'⟩ := hnodup.mem_erase_iff.1 hb'
      obtain ⟨pl, hpl⟩ := (h.allocated _).2 ⟨b', hb', rfl⟩
      exact ⟨pl, h.apart.mem_unlink.2 ⟨fun heq => hne (Nat.add_right_cancel heq), hpl⟩⟩

/-- The users see the thread give its item away. -/
theorem Inv.view_deliver (h : s.Inv Q) (hcall : s.call t = some (.popping item))
    (hbodies : Bodies s.pool pool) :
    Does (s.view Q) (.give t (s.data item)) (({ s with pool := pool }.setCall t none).view Q) := by
  have hkept : ∀ pl, ∀ x ∈ places s.call Q pl,
      ({ s with pool := pool }.setCall t none).data x = s.data x :=
    fun pl x hx => (h.kept hbodies t none hx).data
  have hview : ({ s with pool := pool }.setCall t none).view Q =
      { s.view Q with hand := Function.update (s.view Q).hand t none } := by
    unfold view
    congr 1
    · funext p
      exact List.map_congr_left fun x hx => hkept (.inl p) x hx
    · funext u
      show (popping (Function.update s.call t none u)).map _ = _
      by_cases hut : u = t
      · subst hut
        rw [Function.update_self, Function.update_self]
        rfl
      · rw [Function.update_of_ne hut, Function.update_of_ne hut]
        exact Option.map_congr fun x hx => hkept (.inr u) x (mem_inHand hx)
  rw [hview]
  refine .give _ _ _ ?_
  show (popping (s.call t)).map s.data = _
  rw [hcall]
  rfl

/-- **Delivering an item** and freeing its block. -/
theorem Inv.deliver (h : s.Inv Q) (hcall : s.call t = some (.popping item)) :
    Goes s Q t (s.deliver t item) := by
  have hhand : places s.call Q (.inr t) = [item] := by
    show inHand (s.call t) = _
    rw [hcall]
    rfl
  obtain ⟨b, hb, rfl⟩ := (h.housed.allocated item).1 ⟨.inr t, by
    rw [hhand]
    exact List.mem_cons_self⟩
  obtain ⟨free, hfree⟩ := h.pool
  have hheader : itemHeader = 4 := rfl
  have hroom := h.room
  obtain ⟨pool, heq, hpool, hbodies, hallocated⟩ := hfree.free_cases hb (by omega)
  have hnodup := (List.nodup_append.1 hfree.nodup).2.1
  have hout : (s.popList.thread t).call = none := by
    by_contra hne
    have hnone := h.calls.waiting t hne
    rw [hcall] at hnone
    cases hnone
  refine ⟨.popped (s.data (b + MemPool.header)), { s with pool := pool }.setCall t none, Q, ?_,
    h.setPool hbodies hpool (h.housed.free hhand hnodup hallocated) trivial hout,
    fun es hes => hes.snoc (h.view_deliver hcall hbodies)⟩
  unfold PrioQueue.deliver
  rw [heq]
  rfl

end Deliver

/-- **Every step** ends and keeps the invariant. -/
theorem Inv.step {a : PqAct} {r : Except Fault (PqOutcome × PrioQueue)} (h : s.Inv Q)
    (hs : s.step a = some r) : Goes s Q a.thread r := by
  have hawake := h.awake
  obtain ⟨R, hR, hcount⟩ := hawake.resumed
  obtain ⟨free, hfree⟩ := h.pool
  cases a with
  | push t prio data timeout =>
    obtain ⟨⟨⟨hcall, hout⟩, hlength⟩, hs⟩ := Option.ite_none_right_eq_some.1 hs
    split at hs
    · cases hs
      exact goes_silent h rfl rfl
    case isFalse hprio =>
      obtain ⟨⟨o, pool⟩, hstep, rfl⟩ := Option.map_eq_some_iff.1 hs
      exact h.allocated (Or.inl (Option.isNone_iff_eq_none.1 hcall)) hout (by omega) hlength
        (hfree.alloc_step (Or.inl ⟨t, timeout, rfl⟩) hstep) (hfree.step hstep).1
  | allocWoken t elapsed =>
    dsimp only [PrioQueue.step] at hs
    split at hs
    case h_1 prio data hcall =>
      obtain ⟨⟨o, pool⟩, hstep, rfl⟩ := Option.map_eq_some_iff.1 hs
      have hknown := h.calls.known t
      rw [hcall] at hknown
      have hout : (s.popList.thread t).call = none := by
        by_contra hne
        have hnone := h.calls.waiting t hne
        rw [hcall] at hnone
        cases hnone
      exact h.allocated (Or.inr ⟨prio, data, hcall⟩) hout hknown.1 hknown.2
        (hfree.alloc_step (Or.inr ⟨t, elapsed, rfl⟩) hstep) (hfree.step hstep).1
    case h_2 => cases hs
  | link t =>
    dsimp only [PrioQueue.step] at hs
    split at hs
    case h_1 prio data item hcall =>
      cases hs
      exact h.link hcall
    case h_2 => cases hs
  | pop t timeout =>
    obtain ⟨⟨hcall, hout⟩, rfl⟩ := Runs.takeIf_eq_some.1 hs
    exact h.pop (Option.isNone_iff_eq_none.1 hcall) hout hawake.waits
      ⟨R, hR, fun hne => Nat.le_succ_of_le (hcount hne)⟩ h.calls.waiting
  | popWoken t =>
    obtain ⟨timeout, hcall, hs⟩ := Option.bind_eq_some_iff.1 hs
    obtain ⟨hfree', rfl⟩ := Runs.takeIf_eq_some.1 hs
    have hnone : s.call t = none := h.calls.waiting t (by
      rw [hcall]
      exact Option.some_ne_none _)
    have hwaits := hawake.waits.leave hfree'
    have hcalls : ∀ u, ((s.popList.leave t).thread u).call ≠ none → s.call u = none := by
      intro u hu
      by_cases hut : u = t
      · subst hut
        exact hnone
      · rw [Waits.leave_call_of_ne hut] at hu
        exact h.calls.waiting u hu
    unfold PrioQueue.woken
    dsimp only
    split
    case isTrue herror =>
      -- a thread with an error is not among those that have been resumed
      have hnot : t ∉ R := fun ht => herror ((hR t).1 ht).2.1
      have hR' := hR.leave (t := t)
      rw [Finset.erase_eq_of_notMem hnot] at hR'
      exact goes_silent (h.setPopList hwaits ⟨R, hR', hcount⟩ hcalls) rfl rfl
    case isFalse =>
      refine h.pop hnone Waits.leave_call_self hwaits ⟨R.erase t, hR.leave, fun hne => ?_⟩ hcalls
      have hle := hcount hne
      have hcard := Finset.pred_card_le_card_erase (s := R) (a := t)
      omega
  | deliver t =>
    dsimp only [PrioQueue.step] at hs
    split at hs
    case h_1 item hcall =>
      cases hs
      exact h.deliver hcall
    case h_2 => cases hs
  | allocTimeout t =>
    obtain ⟨⟨o, pool⟩, hstep, rfl⟩ := Option.map_eq_some_iff.1 hs
    obtain ⟨-, heq⟩ := Runs.takeIf_eq_some.1 hstep
    cases heq
    exact goes_silent ⟨⟨free, hfree.waits _⟩, h.room,
      ⟨h.lists.linked, h.lists.tail, h.lists.bitmap⟩, ⟨h.housed.apart, h.housed.allocated⟩,
      ⟨h.calls.known, h.calls.waiting⟩, ⟨hawake.waits, hawake.resumed⟩⟩ rfl rfl
  | popTimeout t =>
    obtain ⟨⟨ht, -⟩, rfl⟩ := Runs.takeIf_eq_some.1 hs
    refine goes_silent (h.setPopList (hawake.waits.timeout t)
      ⟨R, hR.timeout hawake.waits ht, fun hne => hcount ?_⟩ fun u hu => ?_) rfl rfl
    · exact List.ne_nil_of_mem ht
    · rw [Waits.timeout_call] at hu
      exact h.calls.waiting u hu

-- --------
-- Runs
-- --------

section Runs

variable {s₀ : PrioQueue} {mem : ByteMem} {self buf bufsz itemsz : Nat}
  {es : List (LevelQueue.Event Nat ThreadId (List UInt8))}

/-- **A new queue** with room for an item. -/
theorem inv_init (hinit : rtPrioQueueInit mem self buf bufsz itemsz = .ok s₀)
    (hfits : buf + bufsz ≤ 2 ^ 32) (hself : self < 2 ^ 32) (hsize : itemsz ≤ 2 ^ 32 - 8)
    (hroom : rtAlign (itemHeader + itemsz) + MemPool.header ≤ rtAlignDown bufsz) :
    s₀.Inv (fun _ => []) ∧ s₀.view (fun _ => []) = LevelQueue.empty := by
  obtain ⟨pool, hpool, hinit⟩ := except_bind_ok hinit
  cases hinit
  have hheader : itemHeader = 4 := rfl
  have hwidth : Word32.add itemHeader itemsz = itemHeader + itemsz :=
    Word32.add_of_lt (by omega)
  rw [hwidth] at hpool
  obtain ⟨hstart, hne, s₁, rfl, rfl⟩ := MemPool.rtMpInit_eq hpool
  have hlaid := MemPool.laid_unlinked mem hstart hfits hne hself
  have htotal :
      0 < (MemPool.unlinked mem self buf bufsz (itemHeader + itemsz)).blockTotalCount := by
    show 0 < rtAlignDown bufsz / Word32.add (rtAlign (itemHeader + itemsz)) MemPool.header
    rw [show Word32.add (rtAlign (itemHeader + itemsz)) MemPool.header = _ from hlaid.width]
    exact Nat.div_pos hroom (Nat.succ_pos _)
  have hinv := hlaid.inv_init htotal rfl rfl rfl rfl
  refine ⟨⟨⟨_, hinv⟩, ?_, ⟨fun p _ => rfl, fun p l z hz => ?_, fun p => ?_⟩,
    ⟨⟨?_, ?_⟩, fun x => ?_⟩, ⟨fun _ => trivial, fun _ _ => rfl⟩, ⟨Waits.inv_idle, ∅, Waits.wokenAre_idle, fun hne => ?_⟩⟩,
    rfl⟩
  · rw [MemPool.linkLoop_fields]
    show itemHeader + itemsz ≤ rtAlign (itemHeader + itemsz)
    exact (rtAlign_of_le (by omega)).1
  · exact absurd hz (by simp)
  · exact iff_of_false (by simp) (fun hne => hne rfl)
  · intro pl
    cases pl <;> exact List.nodup_nil
  · intro pl pl' x hx
    cases pl <;> cases hx
  · rw [MemPool.linkLoop_fields]
    refine iff_of_false ?_ ?_
    · rintro ⟨pl, hpl⟩
      cases pl <;> cases hpl
    · rintro ⟨b, hb, -⟩
      cases hb
  · exact absurd rfl hne

/-- What a run has kept of a queue: `Q` are the items in the lists. -/
structure Delivers (s : PrioQueue) (es : List (LevelQueue.Event Nat ThreadId (List UInt8)))
    (Q : Nat → List Nat) : Prop where
  lists : ∀ p < prioMax, Linked s.pool.mem.load32 null (s.head p) (Q p)
  bitmap : ∀ p, s.bitmap.getLsbD p = true ↔ Q p ≠ []
  /-- What was pushed with a priority has been taken in the same order, or is in the list. -/
  fifo : ∀ p, LevelQueue.putAt p es = LevelQueue.takenAt p es ++ (Q p).map s.data
  /-- What a thread has taken it returns, with the bytes it had. -/
  given : ∀ t, LevelQueue.takenBy t es =
    LevelQueue.givenBy t es ++ ((popping (s.call t)).map s.data).toList
  /-- When an item is taken, no more urgent one is left. -/
  urgent : ∀ es₁ t p x es₂, es = es₁ ++ .take t p x :: es₂ → ∀ p' < p,
    LevelQueue.putAt p' es₁ = LevelQueue.takenAt p' es₁
  /-- The blocks of the pool are free or allocated, and an allocated one is in one list or with
  one thread. -/
  blocks : ∃ free, Linked s.pool.mem.load32 null s.pool.blockList free ∧
    free.length = s.pool.blockFreeCount ∧ (free ++ s.pool.allocated).Perm s.pool.blocks
  places : ∀ b, b ∈ s.pool.allocated → ∃! pl, b + MemPool.header ∈ places s.call Q pl
  allocated : ∀ pl, ∀ x ∈ PrioQueue.places s.call Q pl, ∃ b ∈ s.pool.allocated,
    x = b + MemPool.header
  /-- While a thread waits for an item, there is none but for threads that have been resumed. -/
  awake : ∃ R, Waits.WokenAre (fun _ => ()) s.popList () R ∧
    (s.popList.queue () ≠ [] → present Q ≤ R.card)

theorem Inv.delivers (h : s.Inv Q) (hes : History es (s.view Q)) : s.Delivers es Q where
  lists := h.lists.linked
  bitmap := h.lists.bitmap
  fifo := hes.levels
  given := hes.hands
  urgent es₁ t p x es₂ heq p' hp' := by
    rw [heq] at hes
    exact hes.urgent hp'
  blocks := by
    obtain ⟨free, hfree⟩ := h.pool
    exact ⟨free, hfree.linked, hfree.count.symm, hfree.perm⟩
  places b hb := by
    obtain ⟨pl, hpl⟩ := (h.housed.allocated _).2 ⟨b, hb, rfl⟩
    exact ⟨pl, hpl, fun pl' hpl' => h.housed.apart.same hpl' hpl⟩
  allocated pl x hx := (h.housed.allocated x).1 ⟨pl, hx⟩
  awake := h.awake.resumed

/-- **Priority queues.** In every run of pushes, pops and time-outs of any threads on a queue that
`rt_prio_queue_init` has made, no assertion fails and no foreign block is freed, every item that
has been pushed is taken exactly once, the most urgent priority first and in the order of the
pushes within it, and returned with its bytes; the blocks are all accounted for; and no thread
waits while there is an item for it. -/
theorem prioQueue_delivers (hinit : rtPrioQueueInit mem self buf bufsz itemsz = .ok s₀)
    (hfits : buf + bufsz ≤ 2 ^ 32) (hself : self < 2 ^ 32) (hsize : itemsz ≤ 2 ^ 32 - 8)
    (hroom : rtAlign (itemHeader + itemsz) + MemPool.header ≤ rtAlignDown bufsz)
    (hrun : Runs (Runs.Exec (Runs.traced exec)) Runs.always (s₀, []) (s, es)) :
    (∃ Q, s.Delivers es Q) ∧ ∀ a r, s.step a = some r → ∃ o s', r = .ok (o, s') := by
  obtain ⟨hinv₀, hview₀⟩ := inv_init hinit hfits hself hsize hroom
  obtain ⟨Q, hinv, hes⟩ : ∃ Q, s.Inv Q ∧ History es (s.view Q) := by
    refine @Runs.invariant _ _ _ _ _ _ (fun c => ∃ Q, c.1.Inv Q ∧ History c.2 (c.1.view Q)) ?_ hrun
      ⟨_, hinv₀, ?_⟩
    · rintro ⟨s₁, es₁⟩ a ⟨s₂, es₂⟩ ⟨Q₁, h₁, hes₁⟩ - hstep
      obtain ⟨⟨s₃, es₃⟩, hexec, heq⟩ := Option.map_eq_some_iff.1 hstep
      cases heq
      obtain ⟨r, hr, hexec⟩ := Option.bind_eq_some_iff.1 hexec
      obtain ⟨o, s₄, Q₄, rfl, h₄, hes₄⟩ := h₁.step hr
      obtain ⟨r, hr', heq⟩ := Option.map_eq_some_iff.1 hexec
      cases hr'
      cases heq
      exact ⟨Q₄, h₄, hes₄ es₁ hes₁⟩
    · show History [] (s₀.view fun _ => [])
      rw [hview₀]
      exact .nil
  refine ⟨⟨Q, hinv.delivers hes⟩, fun a r hr => ?_⟩
  obtain ⟨o, s', Q', heq, -⟩ := hinv.step hr
  exact ⟨o, s', heq⟩

/-- Two consumers wait, an urgent item and two others come, and the pool is empty for a while. -/
def crowded : List PqAct :=
  [.pop 1 (-1), .pop 2 5, .push 3 7 [10] 0, .link 3, .push 4 2 [20] 0, .link 4, .push 5 7 [30] (-1),
    .popWoken 2, .popWoken 1, .deliver 2, .allocWoken 5 3, .link 5, .deliver 1, .pop 6 0]

theorem prioQueue_delivers_crowded : ∃ s₀ s,
    rtPrioQueueInit (fun _ => 0) 400 64 24 1 = .ok s₀ ∧
    Runs (Runs.Exec (Runs.traced exec)) Runs.always (s₀, [])
      (s, [.put 7 [10], .put 2 [20], .take 2 2 [20], .take 1 7 [10], .give 2 [20], .put 7 [30],
        .give 1 [10], .take 6 7 [30]]) ∧
    ∃ Q, s.Delivers [.put 7 [10], .put 2 [20], .take 2 2 [20], .take 1 7 [10], .give 2 [20],
      .put 7 [30], .give 1 [10], .take 6 7 [30]] Q := by
  obtain ⟨s₀, hinit⟩ : ∃ s₀, rtPrioQueueInit (fun _ => 0) 400 64 24 1 = .ok s₀ := ⟨_, rfl⟩
  have hreplay : (Runs.replay (Runs.execOk (Runs.traced exec) Runs.always) (s₀, []) crowded).any
      (fun c => decide (c.2 = [.put 7 [10], .put 2 [20], .take 2 2 [20], .take 1 7 [10],
        .give 2 [20], .put 7 [30], .give 1 [10], .take 6 7 [30]])) = true := by
    cases hinit
    decide +kernel
  obtain ⟨⟨s, es⟩, -, hrun, hend⟩ := Runs.exec_of_replay hreplay
  obtain rfl := of_decide_eq_true hend
  exact ⟨s₀, s, hinit, hrun,
    (prioQueue_delivers hinit (by decide) (by decide) (by decide) (by decide) hrun).1⟩

end Runs

end PrioQueue

end RTThread
