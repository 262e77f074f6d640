import RTThread.Mem.SmallMemOps

/-!
# Resizing a block of the small-memory heap

`rt_smem_realloc` shrinks a block in place when enough is left over to stand as
an item, keeps it when the size is the same, and otherwise allocates a second
block, copies and gives the first one back. A request that rounds to zero is a
release.

`rtSmemRealloc_spec` lists these outcomes, `Moved` says what the last one
leaves behind: in particular the bytes of the old block, up to the smaller of
the two sizes, are the first bytes of the new one.
-/

namespace RTThread.SmallMem

open ByteMem Tiling

variable {h h' : SmallMem} {l pre post : List Seg} {n : Nat} {u : Bool}

-- --------
-- Payloads
-- --------

theorem HeaderFrame.payload {m m' : ByteMem} {heap : Nat}
    (hf : HeaderFrame m m' heap (boundaries (pre ++ ⟨n, u⟩ :: post))) {x : Nat}
    (h1 : heap + span pre + 16 ≤ x) (h2 : x < heap + span pre + n) : m' x = m x := by
  refine hf x fun o ho => ?_
  have := boundary_apart ho
  dsimp only at this
  omega

/-- The payload of the block of length `c` at the offset `o` is the same in both heaps. -/
def SamePayload (h h' : SmallMem) (o c : Nat) : Prop :=
  ∀ x, h.item o + 16 ≤ x → x < h.item o + c → h'.mem x = h.mem x

theorem HeaderFrame.block {o c : Nat} (hf : HeaderFrame h.mem h'.mem h.heapPtr (boundaries l))
    (hb : (o, c) ∈ blocks 0 l) : SamePayload h h' o c := by
  obtain ⟨pre, post, rfl, ho⟩ := mem_blocks.mp hb
  intro x h1 h2
  unfold item at h1 h2
  exact hf.payload (by omega) (by omega)

/-- Writes into the payload of a block keep the layout. -/
theorem Layout.write (m' : ByteMem) (L : Layout h (pre ++ ⟨n, u⟩ :: post))
    (hm : ∀ x, (x < h.item (span pre) + 16 ∨ h.item (span pre) + n ≤ x) → m' x = h.mem x) :
    Layout { h with mem := m' } (pre ++ ⟨n, u⟩ :: post) where
  toTiled := by
    refine L.toTiled.congr ⟨rfl, rfl, rfl, rfl⟩ fun o ho x h1 h2 => hm x ?_
    have := boundary_apart ho
    unfold item at *
    dsimp only at this
    omega
  lfree_eq := L.lfree_eq
  used_eq := L.used_eq
  used_le := L.used_le
  coalesced := L.coalesced
  payload := L.payload

-- --------
-- Allocation next to a live block
-- --------

theorem Allocated.block {p size k : Nat} {pre' post' : List Seg}
    (A : Allocated h h' p size pre' k post') :
    ∃ c ts, pre' ++ carve (size + 16) 28 k ++ post' = pre' ++ ⟨c, true⟩ :: ts ∧
      size + 16 ≤ c := by
  obtain ⟨c, ts, hcarve, hc⟩ := carve_head 28 A.fits
  exact ⟨c, ts ++ post', by rw [hcarve]; simp, hc⟩

-- --------
-- The outcomes
-- --------

/-- What a release leaves behind. -/
structure Freed (h h' : SmallMem) (pre : List Seg) (n : Nat) (post : List Seg) : Prop where
  layout : Layout h' (release pre n post)
  same : SameHeap h h'
  frame : HeaderFrame h.mem h'.mem h.heapPtr (boundaries (pre ++ ⟨n, true⟩ :: post))

/-- What shrinking in place to `size` bytes leaves behind. -/
structure Shrunk (h h' : SmallMem) (pre : List Seg) (n size : Nat) (post : List Seg) : Prop where
  layout : Layout h' (release (pre ++ [⟨size + 16, true⟩]) (n - (size + 16)) post)
  same : SameHeap h h'
  frame : HeaderFrame h.mem h'.mem h.heapPtr (boundaries (cutBlock pre (size + 16) n post))

/-- What a move leaves behind: the block of length `n` behind `pre` is now the block of at least
`size` bytes at `q`; `pre₁` and `post₁` surround its old place after the allocation. -/
structure Moved (h h' : SmallMem) (pre : List Seg) (n q size : Nat)
    (pre' : List Seg) (k : Nat) (post' pre₁ post₁ : List Seg) : Prop where
  layout : Layout h' (release pre₁ n post₁)
  same : SameHeap h h'
  split_eq : pre' ++ carve (roundSize size + 16) 28 k ++ post' = pre₁ ++ ⟨n, true⟩ :: post₁
  span_eq : span pre₁ = span pre
  ptr_eq : q = h.item (span pre') + 16
  fits : roundSize size + 16 ≤ k
  copied : ∀ i, i < n - 16 → i < size → h'.mem (q + i) = h.mem (h.item (span pre) + 16 + i)
  kept : ∀ o c, (o, c) ∈ blocks 0 (pre' ++ ⟨k, false⟩ :: post') → o ≠ span pre →
    SamePayload h h' o c

theorem rtAlign_le_roundSize (size : Nat) : rtAlign size ≤ roundSize size := by
  unfold roundSize
  split
  · omega
  · exact Nat.le_refl _

/-- Copying the block and giving the old one back, after the new one was allocated. -/
theorem moved_spec {q size k c : Nat} {h₁ : SmallMem} {pre' post' : List Seg}
    (L : Layout h (pre ++ ⟨n, true⟩ :: post))
    (hl : pre ++ ⟨n, true⟩ :: post = pre' ++ ⟨k, false⟩ :: post')
    (A : Allocated h h₁ q (roundSize size) pre' k post')
    (hc : c = if n - 16 < size then n - 16 else size) (hsize : size ≤ roundSize size) :
    ∃ h' pre₁ post₁,
      SmallMem.rtSmemFree { h₁ with mem := h₁.mem.memcpy q (h.item (span pre) + 16) c }
        (some (h.item (span pre) + 16)) = .ok h' ∧
      Moved h h' pre n q size pre' k post' pre₁ post₁ := by
  have hheap := A.same.heap_eq
  have hlen := L.toTiled.extent.2.1
  have hmem : (span pre, n) ∈ blocks 0 (pre' ++ ⟨k, false⟩ :: post') := by
    rw [← hl]
    simp
  obtain ⟨pre₁, post₁, hl₁, hspan⟩ := carve_keeps (roundSize size + 16) 28 hmem
  obtain ⟨b, ts, hl₂, hb⟩ := A.block
  have hq := A.ptr_eq
  have hitem : h₁.item (span pre') + 16 = q := by rw [hq, item, item, hheap]
  -- the copy stays in the payload of the new block
  have L₁ := A.layout
  rw [hl₂] at L₁
  have L₂ := L₁.write (h₁.mem.memcpy q (h.item (span pre) + 16) c) fun x hx => by
    refine memcpy_out ?_
    rw [hq] at *
    split at hc <;> omega
  rw [← hl₂, hl₁] at L₂
  obtain ⟨h', hfree, L', hsame, hf⟩ := rtSmemFree_spec L₂
  have hold : SmallMem.item { h₁ with mem := h₁.mem.memcpy q (h.item (span pre) + 16) c }
      (span pre₁) + 16 = h.item (span pre) + 16 := by
    rw [item, item, ← hspan]
    exact congrArg (· + span pre + 16) hheap
  rw [hold] at hfree
  refine ⟨h', pre₁, post₁, hfree,
    { layout := L'
      same := A.same.trans ⟨hsame.heap_eq, hsame.pool_eq, hsame.end_eq, hsame.size_eq⟩
      split_eq := hl₁
      span_eq := hspan.symm
      ptr_eq := hq
      fits := A.fits
      copied := fun i hi hi' => ?_
      kept := fun o d hb hne x h1 h2 => ?_ }⟩
  swap
  · -- another block: neither the headers nor the copy reach its payload
    obtain ⟨pre₂, post₂, hl₃, ho⟩ := carve_keeps (roundSize size + 16) 28 hb
    have hbeside := block_beside hb (by simp)
    have hf₁ := A.frame
    have hf₂ := hf
    rw [← hl₁, hl₃] at hf₂
    rw [hl₃] at hf₁
    have hfit := A.fits
    unfold item at h1 h2 hq
    rw [hf₂.payload (by dsimp only; omega) (by dsimp only; omega),
      ← hf₁.payload (x := x) (by omega) (by omega)]
    exact memcpy_out (by split at hc <;> omega)
  -- release writes headers, the allocation wrote headers: the payloads are as copied
  have hcopy : h'.mem (q + i) = h₁.mem.memcpy q (h.item (span pre) + 16) c (q + i) := by
    have hf₂ := hf
    rw [← hl₁, hl₂] at hf₂
    refine hf₂.payload ?_ ?_
    · dsimp only
      rw [hheap, hq, item]
      omega
    · dsimp only
      rw [hheap, hq, item]
      omega
  have hsrc : h₁.mem (h.item (span pre) + 16 + i) = h.mem (h.item (span pre) + 16 + i) := by
    have hf₁ := A.frame
    rw [hl₁] at hf₁
    refine hf₁.payload ?_ ?_
    · rw [← hspan, item]
      omega
    · rw [← hspan, item]
      omega
  rw [hcopy, memcpy_dst (by split at hc <;> omega), hsrc]

/-- The call on a block in use, past its early returns, with the addresses of the layout. -/
theorem rtSmemRealloc_live (L : Layout h (pre ++ ⟨n, true⟩ :: post)) (self : Option (List UInt8))
    {newsize : Nat} (h0 : rtAlign newsize ≠ 0) (hfit : rtAlign newsize ≤ h.memSizeAligned) :
    h.rtSmemRealloc self (some (h.item (span pre) + 16)) newsize =
      if n - 16 = rtAlign newsize then return (some (h.item (span pre) + 16), h)
      else if rtAlign newsize + 16 + 12 < n - 16 then do
        let h' ← h.shrinkItem (h.item (span pre)) (n - 16) (rtAlign newsize)
        return (some (h.item (span pre) + 16), h')
      else h.moveItem self (h.item (span pre) + 16) (n - 16) (rtAlign newsize) := by
  have T := L.toTiled
  obtain ⟨hext, hlen, hmod, hpmod⟩ := T.extent
  have htop := T.top
  have hend := T.end_eq
  have hheap := T.heap_mod
  have hpay : 16 < n := L.payload (span pre, n) (by simp)
  have hoff : h.item (span pre) - h.heapPtr = span pre := by
    unfold item
    omega
  have hold : Word32.sub (Word32.sub (span pre + n) (span pre)) 16 = n - 16 := by
    rw [Word32.sub_of_le (show span pre ≤ span pre + n by omega) (by omega),
      Nat.add_sub_cancel_left, Word32.sub_of_le (by omega) (by omega)]
  have hp : (h.item (span pre) + 16) % 4 = 0 ∧ h.heapPtr ≤ h.item (span pre) + 16 ∧
      h.item (span pre) + 16 < h.heapEnd := by
    unfold item
    omega
  rw [rtSmemRealloc]
  dsimp only
  rw [if_neg (show ¬ rtAlign newsize > h.memSizeAligned by omega), if_neg h0,
    rtAssert_bind hp.1, rtAssert_bind hp.2.1, rtAssert_bind hp.2.2, Nat.add_sub_cancel,
    T.next_item, hoff, hold]

/-- **`rt_smem_realloc`** of a block in use: the six ways it ends. -/
theorem rtSmemRealloc_spec (L : Layout h (pre ++ ⟨n, true⟩ :: post))
    (self : Option (List UInt8)) (newsize : Nat) :
    let p := h.item (span pre) + 16
    let size := rtAlign newsize
    -- refused: too large for the heap, or no item fits
    (h.rtSmemRealloc self (some p) newsize = .ok (none, h) ∧ size ≠ 0 ∧
        (h.memSizeAligned < size ∨
          n - 16 ≠ size ∧ ∀ t ∈ pre ++ ⟨n, true⟩ :: post, ¬ Fits (roundSize size) t)) ∨
      -- rounded to zero: the block is given back
      (size = 0 ∧ ∃ h', h.rtSmemRealloc self (some p) newsize = .ok (none, h') ∧
        Freed h h' pre n post) ∨
      -- nothing to do
      (size = n - 16 ∧ h.rtSmemRealloc self (some p) newsize = .ok (some p, h)) ∨
      -- shrunk in place
      (0 < size ∧ size + 44 < n ∧ ∃ h', h.rtSmemRealloc self (some p) newsize = .ok (some p, h') ∧
        Shrunk h h' pre n size post) ∨
      -- no return, in a heap too small for a minimal block
      (h.rtSmemRealloc self (some p) newsize = .error .divergence ∧ h.memSizeAligned < 12) ∨
      -- moved
      (0 < size ∧ ∃ q h' pre' k post' pre₁ post₁,
        h.rtSmemRealloc self (some p) newsize = .ok (some q, h') ∧
        pre ++ ⟨n, true⟩ :: post = pre' ++ ⟨k, false⟩ :: post' ∧
        Moved h h' pre n q size pre' k post' pre₁ post₁) := by
  intro p size
  obtain ⟨hext, hlen, hmod, hpmod⟩ := L.toTiled.extent
  by_cases hbig : size > h.memSizeAligned
  · refine Or.inl ⟨?_, by omega, Or.inl hbig⟩
    rw [rtSmemRealloc]
    exact if_pos hbig
  by_cases h0 : size = 0
  · obtain ⟨h', hfree, L', hsame, hf⟩ := rtSmemFree_spec L
    refine Or.inr (Or.inl ⟨h0, h', ?_, L', hsame, hf⟩)
    rw [rtSmemRealloc]
    dsimp only
    rw [if_neg hbig, if_pos h0, hfree]
    rfl
  rw [rtSmemRealloc_live L self h0 (Nat.le_of_not_lt hbig)]
  by_cases hsame : n - 16 = size
  · exact Or.inr (Or.inr (Or.inl ⟨hsame.symm, if_pos hsame⟩))
  rw [if_neg hsame]
  by_cases hshrink : size + 16 + 12 < n - 16
  · rw [if_pos hshrink]
    obtain ⟨h', hcut, L', hsame', hf⟩ :=
      shrinkItem_spec size L (by omega) (rtAlign_mod newsize) (by omega)
    refine Or.inr (Or.inr (Or.inr (Or.inl ⟨by omega, by omega, h', ?_, L', hsame', hf⟩)))
    rw [hcut]
    rfl
  rw [if_neg hshrink, moveItem]
  have hround : rtAlign size = size := rtAlign_of_mod (rtAlign_mod newsize) (rtAlign_lt newsize)
  rcases rtSmemAlloc_spec L self size with ⟨halloc, hwhy⟩ | ⟨halloc, hsmall⟩ |
    ⟨q, h₁, pre', k, post', hl, _, _, halloc, A⟩
  · refine Or.inl ⟨by rw [halloc]; rfl, h0, Or.inr ⟨hsame, ?_⟩⟩
    rcases hwhy with hz | hz | hz
    · exact absurd hz h0
    · omega
    · exact hz
  · exact Or.inr (Or.inr (Or.inr (Or.inr (Or.inl ⟨by rw [halloc]; rfl, hsmall⟩))))
  · have hle : size ≤ roundSize size := by
      have := rtAlign_le_roundSize size
      omega
    obtain ⟨h', pre₁, post₁, hfree, hM⟩ := moved_spec L hl A rfl hle
    refine Or.inr (Or.inr (Or.inr (Or.inr (Or.inr
      ⟨by omega, q, h', pre', k, post', pre₁, post₁, ?_, hl, hM⟩))))
    rw [halloc]
    show (SmallMem.rtSmemFree _ _ >>= _) = _
    rw [hfree]
    rfl

end RTThread.SmallMem
