import RTThread.Mem.MemPool

/-!
# Memory pools keep their blocks

The blocks of a pool are slots of one width. Every block is in the free list or has been handed
out; the word in front of it is a link or the address of the pool. A section changes one of these
words, and nobody else writes to them.

## Main results

* `Inv.step` — the free list and the blocks that are handed out.
* `memPool_blocks` — the pool keeps its blocks in every run if and only if there is room for one.
* `memPool_degenerate` — a pool without room for a block writes in front of its memory.
-/

namespace RTThread

open LinkedList

namespace MemPool

/-- The blocks of a pool. -/
def blocks (s : MemPool) : List Nat :=
  Slots.all s.startAddress (s.blockSize + header) s.blockTotalCount

/-- The blocks are inside of the memory of the pool. -/
structure Laid (s : MemPool) : Prop where
  pos : 0 < s.startAddress
  fits : s.startAddress + s.size ≤ 2 ^ 32
  width : Word32.add s.blockSize header = s.blockSize + header
  total : s.blockTotalCount * (s.blockSize + header) ≤ s.size
  self : s.self < 2 ^ 32

/-- **The invariant of a memory pool**, with its free list. -/
structure Inv (s : MemPool) (free : List Nat) : Prop where
  laid : s.Laid
  linked : Linked s.mem.load32 null s.blockList free
  count : s.blockFreeCount = free.length
  perm : (free ++ s.allocated).Perm s.blocks
  owner : ∀ b ∈ s.allocated, s.mem.load32 b = s.self
  written : ∀ a ∈ s.written, s.startAddress ≤ a ∧ a + header ≤ s.startAddress + s.size

section Blocks

variable {s : MemPool} {free l : List Nat} {b b' k v t : Nat} {time elapsed : Int}

theorem Laid.bounds (h : s.Laid) (hb : b ∈ s.blocks) :
    s.startAddress ≤ b ∧ b + header ≤ s.startAddress + s.size ∧ b ≠ null ∧ b + header ≤ 2 ^ 32 := by
  obtain ⟨hstart, hend⟩ := Slots.bounds hb
  have hpos := h.pos
  have hfits := h.fits
  have htotal := h.total
  unfold Slots.addr at hend
  have hnull : null = 0 := rfl
  omega

theorem Laid.blockPtr (h : s.Laid) (hk : k < s.blockTotalCount) :
    s.blockPtr k = Slots.addr s.startAddress (s.blockSize + header) k := by
  have hend := (h.bounds (Slots.mem_all.2 ⟨k, hk, rfl⟩)).2.2.2
  have hheader : header = 4 := rfl
  unfold Slots.addr at hend ⊢
  unfold MemPool.blockPtr
  rw [h.width, Word32.mul_of_lt (by omega), Word32.add_of_lt (by omega)]

theorem Laid.mem_blocks (h : s.Laid) (hk : k < s.blockTotalCount) : s.blockPtr k ∈ s.blocks := by
  rw [h.blockPtr hk]
  exact Slots.mem_all.2 ⟨k, hk, rfl⟩

theorem nodup_blocks (s : MemPool) : s.blocks.Nodup := Slots.nodup_all (Nat.succ_pos _)

theorem load32_header {mem : ByteMem} (hb : b ∈ s.blocks) (hb' : b' ∈ s.blocks) (hne : b' ≠ b) :
    (mem.store32 b v).load32 b' = mem.load32 b' := by
  have hsep := Slots.apart hb' hb hne
  have hheader : header = 4 := rfl
  exact ByteMem.load32_store32_out (by omega)

theorem Inv.free_blocks (h : Inv s free) (hb : b ∈ free) : b ∈ s.blocks :=
  h.perm.mem_iff.1 (List.mem_append_left _ hb)

theorem Inv.allocated_blocks (h : Inv s free) (hb : b ∈ s.allocated) : b ∈ s.blocks :=
  h.perm.mem_iff.1 (List.mem_append_right _ hb)

theorem Inv.nodup (h : Inv s free) : (free ++ s.allocated).Nodup :=
  h.perm.nodup_iff.2 (nodup_blocks s)

theorem Inv.length (h : Inv s free) : free.length + s.allocated.length = s.blockTotalCount := by
  have hlength := h.perm.length_eq
  rwa [blocks, Slots.length_all, List.length_append] at hlength

theorem Laid.total_lt (h : s.Laid) : s.blockTotalCount < 2 ^ 32 := by
  have hmul : s.blockTotalCount * 4 ≤ s.blockTotalCount * (s.blockSize + header) :=
    Nat.mul_le_mul_left _ (Nat.le_add_left 4 _)
  have htotal := h.total
  have hfits := h.fits
  omega

theorem Inv.waits (h : Inv s free) (w : Waits Unit Int) : Inv { s with waits := w } free :=
  ⟨⟨h.laid.pos, h.laid.fits, h.laid.width, h.laid.total, h.laid.self⟩, h.linked, h.count, h.perm,
    h.owner, h.written⟩

/-- What the outcome of a step tells: a block that is returned has been free, and no assertion
fails. -/
structure Fresh (s : MemPool) (o : MpOutcome) : Prop where
  block : ∀ a, o = .block a → ∃ b ∈ s.blocks, a = b + header ∧ b ∉ s.allocated
  assertion : o ≠ .assertFails
  otherPool : o ≠ .otherPool

theorem fresh_null (s : MemPool) : Fresh s .null :=
  ⟨(fun _ h => by cases h), (fun h => by cases h), fun h => by cases h⟩

theorem fresh_goesOn (s : MemPool) : Fresh s .goesOn :=
  ⟨(fun _ h => by cases h), (fun h => by cases h), fun h => by cases h⟩

/-- **Taking the first block** of the free list. -/
theorem Inv.take (h : Inv s free) (hcount : s.blockFreeCount ≠ 0) :
    (∃ free', Inv s.take.2 free') ∧ Fresh s s.take.1 := by
  obtain ⟨b, l, rfl⟩ : ∃ b l, free = b :: l := by
    cases free with
    | nil => exact absurd h.count hcount
    | cons b l => exact ⟨b, l, rfl⟩
  obtain ⟨hb, hne, hlinked⟩ := h.linked
  have hmem : b ∈ s.blocks := h.free_blocks List.mem_cons_self
  have hnd := h.nodup
  rw [List.cons_append, List.nodup_cons] at hnd
  have hlt : s.blockFreeCount < 2 ^ 32 := by
    have hlength := h.length
    have htotal := h.laid.total_lt
    have hcount' := h.count
    omega
  unfold MemPool.take
  dsimp only
  rw [hb, if_neg hne]
  constructor
  · refine ⟨l, ⟨h.laid.pos, h.laid.fits, h.laid.width, h.laid.total, h.laid.self⟩, ?_, ?_, ?_, ?_,
      ?_⟩
    · -- the links of the other free blocks
      refine hlinked.congr fun y hy =>
        load32_header hmem (h.free_blocks (List.mem_cons_of_mem _ hy)) ?_
      rintro rfl
      exact hnd.1 (List.mem_append_left _ hy)
    -- the counter does not come around
    · show Word32.sub s.blockFreeCount 1 = l.length
      rw [Word32.sub_of_le (by omega) hlt, h.count, List.length_cons, Nat.add_sub_cancel]
    · exact List.perm_middle.trans h.perm
    -- the word in front of the block names the pool now, and so do those of the others
    · intro y hy
      rcases List.mem_cons.1 hy with rfl | hold
      · exact ByteMem.load32_store32_self h.laid.self
      · refine (load32_header hmem (h.allocated_blocks hold) ?_).trans (h.owner y hold)
        rintro rfl
        exact hnd.1 (List.mem_append_right _ hold)
    · intro a ha
      rcases List.mem_cons.1 ha with rfl | hold
      · obtain ⟨hstart, hend, -⟩ := h.laid.bounds hmem
        exact ⟨hstart, hend⟩
      · exact h.written a hold
  · refine ⟨fun a ha => ?_, (fun ha => by cases ha), fun ha => by cases ha⟩
    cases ha
    exact ⟨b, hmem, rfl, fun hb' => hnd.1 (List.mem_append_right _ hb')⟩

theorem Inv.alloc (h : Inv s free) (t : ThreadId) (time : Int) :
    (∃ free', Inv (s.rtMpAlloc t time).2 free') ∧ Fresh s (s.rtMpAlloc t time).1 := by
  unfold rtMpAlloc
  split
  · split
    · exact ⟨⟨free, h⟩, fresh_null s⟩
    · exact ⟨⟨free, h.waits _⟩, fresh_goesOn s⟩
  case isFalse hcount => exact h.take hcount

/-- **Freeing a block** puts it in front of the free list. -/
theorem Inv.release {block : Nat} (h : Inv s free) (hb : Word32.sub block header ∈ s.allocated) :
    (∃ free', Inv (s.rtMpFree block).2 free') ∧ Fresh s (s.rtMpFree block).1 := by
  unfold rtMpFree
  split
  · exact ⟨⟨free, h⟩, fresh_goesOn s⟩
  · dsimp only
    generalize Word32.sub block header = b at hb ⊢
    have hmem := h.allocated_blocks hb
    obtain ⟨hstart, hend, hne, hlt⟩ := h.laid.bounds hmem
    -- the word in front of the block names this pool
    rw [if_neg (not_not.2 (h.owner b hb))]
    have hperm : (b :: free ++ s.allocated.erase b).Perm (free ++ s.allocated) :=
      List.perm_middle.symm.trans ((List.perm_cons_erase hb).symm.append_left free)
    have hnd : (b :: free ++ s.allocated.erase b).Nodup := hperm.nodup_iff.2 h.nodup
    rw [List.cons_append, List.nodup_cons] at hnd
    -- where the free list begins
    have hlist : s.blockList < 2 ^ 32 := by
      cases free with
      | nil =>
        rw [show s.blockList = null from h.linked]
        decide
      | cons x l =>
        obtain ⟨hx, -, -⟩ := h.linked
        have hbound := (h.laid.bounds (h.free_blocks List.mem_cons_self)).2.2.2
        have hheader : header = 4 := rfl
        rw [hx]
        omega
    have hroom : free.length + 1 < 2 ^ 32 := by
      have hlength := h.length
      have htotal := h.laid.total_lt
      have hsome := List.length_pos_of_mem hb
      omega
    refine ⟨⟨b :: free, ⟨h.laid.pos, h.laid.fits, h.laid.width, h.laid.total, h.laid.self⟩, ?_, ?_,
      hperm.trans h.perm, ?_, ?_⟩, fresh_goesOn s⟩
    -- the block is pushed in front of the free list
    · refine h.linked.push hne (ByteMem.load32_store32_self hlist) fun y hy => ?_
      refine load32_header hmem (h.free_blocks hy) ?_
      rintro rfl
      exact hnd.1 (List.mem_append_left _ hy)
    · show Word32.add s.blockFreeCount 1 = (b :: free).length
      rw [h.count, Word32.add_of_lt hroom, List.length_cons]
    · intro y hy
      refine (load32_header hmem (h.allocated_blocks (List.mem_of_mem_erase hy)) ?_).trans
        (h.owner y (List.mem_of_mem_erase hy))
      rintro rfl
      exact hnd.1 (List.mem_append_right _ hy)
    · intro a ha
      rcases List.mem_cons.1 ha with rfl | hold
      · exact ⟨hstart, hend⟩
      · exact h.written a hold

/-- **Every step keeps the invariant**, and returns free blocks only. -/
theorem Inv.step {a : MpAct} {r : MpOutcome × MemPool} (h : Inv s free)
    (hs : s.step a = some r) : (∃ free', Inv r.2 free') ∧ Fresh s r.1 := by
  cases a with
  | alloc t time =>
    obtain ⟨-, rfl⟩ := Runs.takeIf_eq_some.1 hs
    exact h.alloc t time
  | woken t elapsed =>
    obtain ⟨time, -, hs⟩ := Option.bind_eq_some_iff.1 hs
    obtain ⟨-, rfl⟩ := Runs.takeIf_eq_some.1 hs
    have hleft := h.waits (s.waits.leave t)
    unfold woken
    dsimp only
    split
    · exact ⟨⟨free, hleft⟩, fresh_null s⟩
    · obtain ⟨hinv, hfresh⟩ := hleft.alloc t (timeoutLeft time elapsed)
      exact ⟨hinv, hfresh.block, hfresh.assertion, hfresh.otherPool⟩
  | free block =>
    obtain ⟨⟨-, hb⟩, rfl⟩ := Runs.takeIf_eq_some.1 hs
    exact h.release hb
  | timeout t =>
    obtain ⟨-, rfl⟩ := Runs.takeIf_eq_some.1 hs
    exact ⟨⟨free, h.waits _⟩, fresh_goesOn s⟩
  | write a c =>
    obtain ⟨hout, rfl⟩ := Runs.takeIf_eq_some.1 hs
    -- no word in front of a block changes
    have hword : ∀ b ∈ s.blocks, ByteMem.load32 (Function.update s.mem a c) b = s.mem.load32 b := by
      intro b hb
      obtain ⟨k, hk, rfl⟩ := Slots.mem_all.1 hb
      have hk' := hout k hk
      rw [h.laid.blockPtr hk] at hk'
      exact ByteMem.load32_update_out hk'
    refine ⟨⟨free, ⟨h.laid.pos, h.laid.fits, h.laid.width, h.laid.total, h.laid.self⟩, ?_, h.count,
      h.perm, fun b hb => ?_, h.written⟩, fresh_goesOn s⟩
    · exact h.linked.congr fun y hy => hword y (h.free_blocks hy)
    · exact (hword b (h.allocated_blocks hb)).trans (h.owner b hb)

end Blocks

-- --------
-- A new pool
-- --------

section Init

variable {s s₀ : MemPool} {mem : ByteMem} {self start size blockSize n : Nat}

theorem linkLoop_fields (s : MemPool) (n : Nat) : s.linkLoop n =
    { s with mem := (s.linkLoop n).mem, written := (s.linkLoop n).written } := by
  induction n with
  | zero => rfl
  | succ n ih =>
    show (s.linkLoop n).store _ _ = _
    unfold store
    rw [ih]
    rfl

/-- **The loop links the blocks**: by induction on the passes. -/
theorem Laid.linkLoop (h : s.Laid) : n ≤ s.blockTotalCount →
    (∀ k < n, (s.linkLoop n).mem.load32 (s.blockPtr k) = s.blockPtr (k + 1)) ∧
      ∀ a ∈ (s.linkLoop n).written, a ∈ s.written ∨ a ∈ s.blocks := by
  induction n with
  | zero =>
    intro _
    exact ⟨fun k hk => absurd hk (Nat.not_lt_zero k), fun a ha => Or.inl ha⟩
  | succ n ih =>
    intro hn
    obtain ⟨hlinks, hwritten⟩ := ih (by omega)
    have hmem := h.mem_blocks (k := n) (by omega)
    constructor
    · intro k hk
      show ((s.linkLoop n).mem.store32 (s.blockPtr n) (s.blockPtr (n + 1))).load32 _ = _
      -- the link of this pass, and those of the earlier ones
      by_cases hkn : k = n
      · subst hkn
        exact ByteMem.load32_store32_self (Word32.add_lt _ _)
      · have hne : s.blockPtr k ≠ s.blockPtr n := by
          rw [h.blockPtr (by omega), h.blockPtr (by omega)]
          have hend := Slots.addr_add_le s.startAddress (s.blockSize + header)
            (show k < n by omega)
          have hheader : header = 4 := rfl
          omega
        rw [load32_header hmem (h.mem_blocks (by omega)) hne]
        exact hlinks k (by omega)
    · intro a ha
      rcases List.mem_cons.1 ha with rfl | ha
      · exact Or.inr hmem
      · exact hwritten a ha

/-- The pool before its free list is linked. -/
def unlinked (mem : ByteMem) (self start size blockSize : Nat) : MemPool where
  mem := mem
  self := self
  startAddress := start
  size := rtAlignDown size
  blockSize := rtAlign blockSize
  blockList := start
  blockTotalCount := rtAlignDown size / Word32.add (rtAlign blockSize) header
  blockFreeCount := rtAlignDown size / Word32.add (rtAlign blockSize) header
  waits := .idle
  written := []
  allocated := []

/-- What `rt_mp_init` has checked when it returns, and what it has made. -/
theorem rtMpInit_eq (hinit : rtMpInit mem self start size blockSize = .ok s₀) :
    start ≠ null ∧ Word32.add (rtAlign blockSize) header ≠ 0 ∧
      ∃ s, s = unlinked mem self start size blockSize ∧
        s₀ = (s.linkLoop s.blockTotalCount).store
          ((s.linkLoop s.blockTotalCount).blockPtr (Word32.sub s.blockTotalCount 1)) null := by
  unfold rtMpInit at hinit
  obtain ⟨_, hstart, hinit⟩ := except_bind_ok hinit
  obtain ⟨_, -, hinit⟩ := except_bind_ok hinit
  dsimp only at hinit
  by_cases hwidth : Word32.add (rtAlign blockSize) header = 0
  · rw [if_pos hwidth] at hinit
    cases hinit
  · rw [if_neg hwidth] at hinit
    cases hinit
    exact ⟨of_rtAssert hstart, hwidth, _, rfl, rfl⟩

/-- The blocks of a new pool are inside of its memory. -/
theorem laid_unlinked (mem : ByteMem) (hstart : start ≠ null) (hfits : start + size ≤ 2 ^ 32)
    (hwidth : Word32.add (rtAlign blockSize) header ≠ 0) (hself : self < 2 ^ 32) :
    (unlinked mem self start size blockSize).Laid := by
  have hpos : 0 < start := Nat.pos_of_ne_zero hstart
  have hdown : rtAlignDown size ≤ size := by
    rw [rtAlignDown_eq (by omega)]
    exact Nat.div_mul_le_self size 4
  have hadd : Word32.add (rtAlign blockSize) header = rtAlign blockSize + header := by
    have hlt := rtAlign_lt blockSize
    have hmod := rtAlign_mod blockSize
    have hheader : header = 4 := rfl
    refine Word32.add_of_lt ?_
    -- the last multiple of the alignment would wrap to zero
    by_contra hge
    refine hwidth ?_
    rw [Word32.add_of_ge (by omega) (by omega)]
    omega
  refine ⟨hpos, ?_, hadd, ?_, hself⟩
  · show start + rtAlignDown size ≤ 2 ^ 32
    omega
  · show rtAlignDown size / Word32.add (rtAlign blockSize) header * (rtAlign blockSize + header) ≤
      rtAlignDown size
    rw [hadd]
    exact Nat.div_mul_le_self _ _

/-- **A new pool** that has room for a block: by `linked_chain` over the links of the loop. -/
theorem Laid.inv_init (h : s.Laid) (htotal : 0 < s.blockTotalCount)
    (hcount : s.blockFreeCount = s.blockTotalCount) (hlist : s.blockList = s.startAddress)
    (hwritten : s.written = []) (hallocated : s.allocated = []) :
    Inv ((s.linkLoop s.blockTotalCount).store
      ((s.linkLoop s.blockTotalCount).blockPtr (Word32.sub s.blockTotalCount 1)) null)
      s.blocks := by
  obtain ⟨hlinks, hstored⟩ := h.linkLoop (n := s.blockTotalCount) (Nat.le_refl _)
  have hlt := h.total_lt
  -- the block that is last, whose link is set to null behind the loop
  have hlast : (s.linkLoop s.blockTotalCount).blockPtr (Word32.sub s.blockTotalCount 1) =
      s.blockPtr (s.blockTotalCount - 1) := by
    rw [linkLoop_fields, Word32.sub_of_le htotal hlt]
    rfl
  rw [hlast, linkLoop_fields]
  have hmem := h.mem_blocks (k := s.blockTotalCount - 1) (by omega)
  have hwidth : header = 4 := rfl
  have hblocks : s.blocks = (List.range' 0 (s.blockTotalCount - 1 + 1)).map s.blockPtr := by
    rw [Nat.sub_add_cancel htotal, ← List.range_eq_range']
    refine List.map_congr_left fun k hk => ?_
    exact (h.blockPtr (List.mem_range.1 hk)).symm
  refine ⟨⟨h.pos, h.fits, h.width, h.total, h.self⟩, ?_, ?_, ?_, ?_, ?_⟩
  -- the free list: every block but the last one links to the next one
  · have hchain := @linked_chain _ ((s.linkLoop s.blockTotalCount).mem.store32
        (s.blockPtr (s.blockTotalCount - 1)) null).load32 null s.blockPtr s.blockTotalCount
      (fun k hk => (h.bounds (h.mem_blocks hk)).2.2.1) ?_ ?_ (s.blockTotalCount - 1) 0 (by omega)
    · rw [← hblocks, h.blockPtr htotal, Slots.addr_zero] at hchain
      show Linked _ null s.blockList s.blocks
      rw [hlist]
      exact hchain
    · intro k hk
      rw [load32_header hmem (h.mem_blocks (by omega)) ?_, hlinks k (by omega)]
      rw [h.blockPtr (by omega), h.blockPtr (by omega)]
      have hend := Slots.addr_add_le s.startAddress (s.blockSize + header)
        (show k < s.blockTotalCount - 1 by omega)
      omega
    · intro k hk
      rw [show k = s.blockTotalCount - 1 by omega]
      exact ByteMem.load32_store32_self (by decide)
  · show s.blockFreeCount = s.blocks.length
    rw [hcount, blocks, Slots.length_all]
  · show (s.blocks ++ s.allocated).Perm s.blocks
    rw [hallocated, List.append_nil]
  · show ∀ b ∈ s.allocated, _
    rw [hallocated]
    exact fun b hb => by cases hb
  · intro a ha
    have ha' : a ∈ s.blocks := by
      rcases List.mem_cons.1 ha with rfl | ha
      · exact hmem
      · refine (hstored a ha).resolve_left fun hnil => ?_
        rw [hwritten] at hnil
        cases hnil
    obtain ⟨hstart, hend, -⟩ := h.bounds ha'
    exact ⟨hstart, hend⟩

end Init

/-- **What is said of a memory pool**: what its functions write is inside of its memory, and so are
the blocks, which do not overlap; the free list has as many nodes as are counted, all of them
different, and together with the blocks that are allocated it makes up the blocks of the pool; the
word in front of a block that is allocated is the address of the pool. -/
structure Sound (s : MemPool) : Prop where
  written : ∀ a ∈ s.written, s.startAddress ≤ a ∧ a + header ≤ s.startAddress + s.size
  blocks : ∀ b ∈ s.blocks, s.startAddress ≤ b ∧
    b + (s.blockSize + header) ≤ s.startAddress + s.size
  apart : ∀ b ∈ s.blocks, ∀ b' ∈ s.blocks, b ≠ b' →
    b + (s.blockSize + header) ≤ b' ∨ b' + (s.blockSize + header) ≤ b
  free : ∃ free, Linked s.mem.load32 null s.blockList free ∧ free.length = s.blockFreeCount ∧
    (free ++ s.allocated).Nodup ∧ (∀ b, b ∈ free ++ s.allocated ↔ b ∈ s.blocks) ∧
    free.length + s.allocated.length = s.blockTotalCount
  owner : ∀ b ∈ s.allocated, s.mem.load32 b = s.self

/-- The invariant says what is asked of the pool. -/
theorem Inv.sound {s : MemPool} {free : List Nat} (h : Inv s free) : s.Sound where
  written := h.written
  blocks b hb := by
    obtain ⟨hstart, hend⟩ := Slots.bounds hb
    have htotal := h.laid.total
    unfold Slots.addr at hend
    omega
  apart _ hb _ hb' hne := Slots.apart hb hb' hne
  free := ⟨free, h.linked, h.count.symm, h.nodup, fun _ => h.perm.mem_iff, h.length⟩
  owner := h.owner

/-- **Memory pools.** In every run of a pool that `rt_mp_init` has made, and whatever is written
between the words in front of the blocks, the pool keeps its blocks, and `rt_mp_alloc` returns
blocks only that are not allocated, if and only if there was room for one block. -/
theorem memPool_blocks {mem : ByteMem} {self start size blockSize : Nat} {s₀ : MemPool}
    (hinit : rtMpInit mem self start size blockSize = .ok s₀) (hfits : start + size ≤ 2 ^ 32)
    (hself : self < 2 ^ 32) :
    (∀ s, Runs (Runs.Exec exec) Runs.always s₀ s →
      s.Sound ∧ ∀ a r, s.step a = some r → Fresh s r.1) ↔
    rtAlign blockSize + header ≤ rtAlignDown size := by
  obtain ⟨hstart, hwidth, s₁, rfl, rfl⟩ := rtMpInit_eq hinit
  have hlaid := laid_unlinked mem hstart hfits hwidth hself
  have hadd : Word32.add (rtAlign blockSize) header = rtAlign blockSize + header := hlaid.width
  have hroom : 0 < (unlinked mem self start size blockSize).blockTotalCount ↔
      rtAlign blockSize + header ≤ rtAlignDown size := by
    show 0 < rtAlignDown size / Word32.add (rtAlign blockSize) header ↔ _
    rw [hadd]
    exact Nat.div_pos_iff.trans (and_iff_right (Nat.succ_pos _))
  rw [← hroom]
  constructor
  · -- without a block the free list begins at the start, but counts no node
    intro hall
    obtain ⟨free, hlinked, hlength, -⟩ := (hall _ Runs.refl).1.free
    by_contra hnone
    have hzero : (unlinked mem self start size blockSize).blockTotalCount = 0 := by omega
    rw [linkLoop_fields] at hlinked hlength
    have hnil : free = [] := List.length_eq_zero_iff.1 (hlength.trans hzero)
    rw [hnil] at hlinked
    exact hstart hlinked
  · intro htotal s hrun
    obtain ⟨free, h⟩ : ∃ free, Inv s free := by
      refine @Runs.invariant _ _ _ _ _ _ (fun s : MemPool => ∃ free, Inv s free) ?_ hrun
        ⟨_, hlaid.inv_init htotal rfl rfl rfl rfl⟩
      rintro s₁ a s₂ ⟨free, hinv⟩ - hs
      obtain ⟨r, hr, rfl⟩ := Option.map_eq_some_iff.1 hs
      exact (hinv.step hr).1
    exact ⟨h.sound, fun a r hs => (h.step hs).2⟩

/-- A pool with two blocks of 8 bytes: both are allocated, and one is freed. -/
theorem memPool_blocks_two :
    ∃ s₀ s, rtMpInit (fun _ => 0) 64 4096 24 8 = .ok s₀ ∧
      Runs (Runs.Exec exec) Runs.always s₀ s ∧ s.Sound ∧ s.allocated = [4108] := by
  obtain ⟨s₀, hinit⟩ : ∃ s₀, rtMpInit (fun _ => 0) 64 4096 24 8 = .ok s₀ := ⟨_, rfl⟩
  have hreplay : (Runs.replay (Runs.execOk exec Runs.always) s₀
      [.alloc 1 0, .alloc 1 0, .alloc 2 5, .free 4100]).any
      (fun s => decide (s.allocated = [4108])) = true := by
    cases hinit
    decide +kernel
  obtain ⟨s, -, hrun, hend⟩ := Runs.exec_of_replay hreplay
  exact ⟨s₀, s, hinit, hrun,
    (((memPool_blocks hinit (by decide) (by decide)).2 (by decide)) s hrun).1,
    of_decide_eq_true hend⟩

/-- **A pool without room for a block**: `rt_mp_init` accepts 4 bytes for blocks of 4 bytes, writes
in front of them, and leaves a free list that begins at the start and counts no node. -/
theorem memPool_degenerate :
    ∃ s₀, rtMpInit (fun _ => 0) 64 4096 4 4 = .ok s₀ ∧ s₀.written = [4088] ∧
      s₀.startAddress = 4096 ∧ s₀.blockList = 4096 ∧ s₀.blockFreeCount = 0 ∧ ¬ s₀.Sound := by
  refine ⟨_, rfl, by decide, rfl, rfl, by decide, fun h => ?_⟩
  have hout := (h.written 4088 (by decide)).1
  exact absurd hout (by decide)

end MemPool

end RTThread
