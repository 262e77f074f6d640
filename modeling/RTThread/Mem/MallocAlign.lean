import RTThread.Mem.KService
import Mathlib.Tactic.IntervalCases

/-!
# Aligned blocks (`rt_malloc_align` and `rt_free_align` of `src/kservice.c`)

`rt_malloc_align` asks for the rounded size and one alignment more, moves the block's address up
to the next multiple of the alignment, at least one word, and keeps the address in the word in
front of what it returns; `rt_free_align` reads it back. Both are stated over any heap, because
`rt_malloc` is one of three.

Main results:

* `malloc_align_block`: where the result and the saved word lie, and what `rt_free_align` frees;
* `smem_blocks`: the small-memory heap gives the blocks that it relies on.
-/

namespace RTThread

open ByteMem Tiling
open SmallMem (alignSize alignPtr sizeofPtr AlignFits)

/-- A heap as the services of `kservice.c` use it. -/
structure HeapOps (σ : Type) where
  mem : σ → ByteMem
  setMem : σ → ByteMem → σ
  mem_setMem : ∀ s m, mem (setMem s m) = m
  rtMalloc : σ → Nat → Except Fault (Option Nat × σ)
  rtFree : σ → Option Nat → Except Fault σ

namespace HeapOps

variable {σ : Type} {ops : HeapOps σ} {s s' : σ} {size align a k p q n : Nat}

/-- `rt_malloc_align(size, align)` -/
def rtMallocAlign (ops : HeapOps σ) (s : σ) (size align : Nat) :
    Except Fault (Option Nat × σ) := do
  match ← ops.rtMalloc s (alignSize size align) with
  | (none, s) => return (none, s)
  | (some ptr, s) =>
    let alignPtr := alignPtr ptr (rtAlign align)
    let s := ops.setMem s ((ops.mem s).store32 (Word32.sub alignPtr sizeofPtr) ptr)
    return (if alignPtr = 0 then none else some alignPtr, s)

/-- `rt_free_align(ptr)` -/
def rtFreeAlign (ops : HeapOps σ) (s : σ) (ptr : Nat) : Except Fault σ :=
  let realPtr := (ops.mem s).load32 (Word32.sub ptr sizeofPtr)
  ops.rtFree s (if realPtr = 0 then none else some realPtr)

/-- What a heap gives for `n` bytes: a block at a multiple of `RT_ALIGN_SIZE`, not at address 0,
that does not reach around the end of the address space. -/
def GivesBlock (ops : HeapOps σ) (s : σ) (n : Nat) : Prop :=
  ∀ ptr s', ops.rtMalloc s n = .ok (some ptr, s') →
    ptr % rtAlignSize = 0 ∧ 0 < ptr ∧ ptr + n ≤ 2 ^ 32

-- --------
-- The aligned pointer
-- --------

/-- Rounding up a power of two to the size of a pointer gives a power of two that it divides. -/
theorem rtAlign_two_pow (hk : k < 32) :
    ∃ j, 2 ≤ j ∧ j < 32 ∧ k ≤ j ∧ rtAlign (2 ^ k) = 2 ^ j := by
  by_cases h : k < 2
  · refine ⟨2, Nat.le_refl 2, by decide, by omega, ?_⟩
    interval_cases k <;> decide
  · refine ⟨k, by omega, hk, Nat.le_refl k, rtAlign_of_mod ?_ ?_⟩
    · exact Nat.mod_eq_zero_of_dvd (pow_dvd_pow 2 (show 2 ≤ k by omega))
    · exact Nat.pow_lt_pow_right (by decide) hk

/-- **A multiple of the alignment**, whether the block's address is one or not. -/
theorem two_pow_dvd_alignPtr (hk : k < 32) (hsum : p + 2 ^ k < 2 ^ 32) :
    2 ^ k ∣ alignPtr p (2 ^ k) := by
  have hpow : 2 ^ k < 2 ^ 32 := Nat.pow_lt_pow_right (by decide) hk
  have hpos : 0 < 2 ^ k := Nat.two_pow_pos k
  have hmask : Word32.sub (2 ^ k) 1 = 2 ^ k - 1 := Word32.sub_of_le (by omega) hpow
  rw [alignPtr, hmask]
  by_cases hmeet : p &&& (2 ^ k - 1) = 0
  · rw [if_pos hmeet, Word32.add_of_lt hsum]
    rw [Nat.and_two_pow_sub_one_eq_mod] at hmeet
    exact Nat.dvd_add (Nat.dvd_of_mod_eq_zero hmeet) (Nat.dvd_refl _)
  · rw [if_neg hmeet, Word32.and_not_mask (Word32.add_lt _ _) (by omega)]
    exact Nat.dvd_mul_left _ _

/-- A block of nothing but the padding, at the end of the address space: the pointer is null. -/
theorem alignPtr_end (hk : k < 32) (hsum : p + 2 ^ k = 2 ^ 32) : alignPtr p (2 ^ k) = 0 := by
  have hpow : 2 ^ k < 2 ^ 32 := Nat.pow_lt_pow_right (by decide) hk
  have hpos : 0 < 2 ^ k := Nat.two_pow_pos k
  have hmask : Word32.sub (2 ^ k) 1 = 2 ^ k - 1 := Word32.sub_of_le (by omega) hpow
  have hdvd : 2 ^ k ∣ p := by
    rw [show p = 2 ^ 32 - 2 ^ k by omega]
    exact Nat.dvd_sub (pow_dvd_pow 2 (show k ≤ 32 by omega)) (Nat.dvd_refl _)
  rw [alignPtr, hmask, Nat.and_two_pow_sub_one_eq_mod, if_pos (Nat.mod_eq_zero_of_dvd hdvd),
    Word32.add, hsum, Nat.mod_self]

theorem alignPtr_lt (p a : Nat) : alignPtr p a < 2 ^ 32 := by
  rw [alignPtr]
  split
  · exact Word32.add_lt _ _
  · exact lt_of_le_of_lt (Word32.and_not_le _ _) (Word32.add_lt _ _)

/-- **The block has room**: for the saved word in front of the aligned pointer and for the
request behind it. -/
theorem alignPtr_room (hp : p % rtAlignSize = 0) (hk : k < 32)
    (hfits : AlignFits size (2 ^ k)) (hend : p + alignSize size (2 ^ k) ≤ 2 ^ 32)
    (hnull : alignPtr p (rtAlign (2 ^ k)) ≠ 0) :
    2 ^ k ∣ alignPtr p (rtAlign (2 ^ k)) ∧ p + sizeofPtr ≤ alignPtr p (rtAlign (2 ^ k)) ∧
      alignPtr p (rtAlign (2 ^ k)) + size ≤ p + alignSize size (2 ^ k) := by
  obtain ⟨hsize, hsum⟩ := hfits
  obtain ⟨hle, -, -⟩ := rtAlign_of_le hsize
  have htotal : alignSize size (2 ^ k) = rtAlign size + rtAlign (2 ^ k) := Word32.add_of_lt hsum
  obtain ⟨j, hj2, hj, hkj, heq⟩ := rtAlign_two_pow hk
  rw [htotal, heq] at hend
  rw [heq] at hnull
  have hmod : 2 ^ j % 4 = 0 := Nat.mod_eq_zero_of_dvd (pow_dvd_pow 2 hj2)
  have hfour : 4 ≤ 2 ^ j := Nat.pow_le_pow_right (n := 2) (by decide) hj2
  have hlt : p + 2 ^ j < 2 ^ 32 := by
    rcases Nat.lt_or_ge (p + 2 ^ j) (2 ^ 32) with hlt | hge
    · exact hlt
    · exact absurd (alignPtr_end hj (by omega)) hnull
  have hdvd : 2 ^ j ∣ alignPtr p (2 ^ j) := two_pow_dvd_alignPtr hj hlt
  obtain ⟨hlow, hhigh⟩ := SmallMem.alignPtr_bounds hp hmod hfour hlt
  rw [htotal, heq]
  exact ⟨(pow_dvd_pow 2 hkj).trans hdvd, hlow, by omega⟩

-- --------
-- The two calls
-- --------

/-- **`rt_malloc_align`** of a power of two whose padded size does not wrap: a non-null result is
a multiple of the alignment; the word in front of it and the bytes asked for are in the block that
`rt_malloc` gave, and that word is all it wrote; and whatever the client then writes to the bytes
it asked for, `rt_free_align` frees the address of that block. -/
theorem malloc_align_block (hblock : ops.GivesBlock s (alignSize size (2 ^ k))) (hk : k < 32)
    (hfits : AlignFits size (2 ^ k))
    (hcall : ops.rtMallocAlign s size (2 ^ k) = .ok (some p, s')) :
    ∃ ptr s₁, ops.rtMalloc s (alignSize size (2 ^ k)) = .ok (some ptr, s₁) ∧
      2 ^ k ∣ p ∧ ptr + sizeofPtr ≤ p ∧ p + size ≤ ptr + alignSize size (2 ^ k) ∧
      (∀ x, x < p - sizeofPtr ∨ p ≤ x → ops.mem s' x = ops.mem s₁ x) ∧
      ∀ t, (∀ x, x < p ∨ p + size ≤ x → ops.mem t x = ops.mem s' x) →
        ops.rtFreeAlign t p = ops.rtFree t (some ptr) := by
  obtain ⟨⟨o, s₁⟩, hmalloc, hrest⟩ := except_bind_ok hcall
  cases o with
  | none => cases hrest
  | some ptr =>
    obtain ⟨hmod, hpos, hend⟩ := hblock _ _ hmalloc
    dsimp only at hrest
    by_cases hnull : alignPtr ptr (rtAlign (2 ^ k)) = 0
    · rw [if_pos hnull] at hrest
      cases hrest
    obtain ⟨hdvd, hlow, hhigh⟩ := alignPtr_room hmod hk hfits hend hnull
    rw [if_neg hnull] at hrest
    have hlt := alignPtr_lt ptr (rtAlign (2 ^ k))
    have hword : sizeofPtr = 4 := rfl
    obtain ⟨q, hq⟩ : ∃ q, q = alignPtr ptr (rtAlign (2 ^ k)) := ⟨_, rfl⟩
    rw [← hq] at hdvd hlow hhigh hlt hrest
    have hsub : Word32.sub q sizeofPtr = q - sizeofPtr := Word32.sub_of_le (by omega) hlt
    rw [hsub] at hrest
    cases hrest
    refine ⟨ptr, s₁, hmalloc, hdvd, hlow, hhigh, fun x hx => ?_, fun t ht => ?_⟩
    · rw [ops.mem_setMem]
      exact store32_out (by omega)
    · -- the saved word is in front of everything the client wrote
      have hsaved : (ops.mem t).load32 (p - sizeofPtr) = ptr := by
        rw [load32_congr fun i hi => ht (p - sizeofPtr + i) (by omega), ops.mem_setMem]
        exact load32_store32_self (by omega)
      rw [rtFreeAlign, hsub, hsaved, if_neg (by omega)]

end HeapOps

-- --------
-- The system heap
-- --------

namespace SmallMem

variable {h : SmallMem} {l : List Seg}

/-- The small-memory heap behind `rt_malloc`, for a call of the thread `self`. -/
def heapOps (self : Option (List UInt8)) : HeapOps SmallMem where
  mem := SmallMem.mem
  setMem h m := { h with mem := m }
  mem_setMem _ _ := rfl
  rtMalloc h := h.rtMalloc self
  rtFree := rtSmemFree

theorem heapOps_rtMallocAlign (self : Option (List UInt8)) (size align : Nat) :
    (heapOps self).rtMallocAlign h size align = h.rtMallocAlign self size align := by
  rw [HeapOps.rtMallocAlign, rtMallocAlign]
  change (h.rtMalloc self (alignSize size align) >>= _) = _
  rcases h.rtMalloc self (alignSize size align) with _ | ⟨_ | ptr, h'⟩
  · rfl
  · rfl
  · rfl

/-- **The system heap gives blocks** in every state that a run reaches. -/
theorem smem_blocks (L : Layout h l) (hheap : 64 ≤ h.heapPtr) (self : Option (List UInt8))
    {n : Nat} (hn : n ≤ 2 ^ 32 - 4) : (heapOps self).GivesBlock h n := by
  intro ptr h' hcall
  rcases rtMalloc_cases L self n with ⟨-, hno⟩ | ⟨-, -, hno⟩ |
    ⟨-, -, h₁, pre, k, post, -, -, hsome, A⟩
  · cases hcall.symm.trans hno
  · cases hcall.symm.trans hno
  · cases hcall.symm.trans hsome
    obtain ⟨hblock, hroom⟩ := A.serves
    have hend := (A.layout.blockSize_lt hblock).1
    have hle := le_roundSize hn
    have htop := A.layout.top
    have hlast := A.layout.end_eq
    have hmod := L.heap_mod
    have hspan := Sized.span_mod fun s hs =>
      A.layout.sized s (List.mem_append_left _ (List.mem_append_left _ hs))
    rw [item] at *
    refine ⟨?_, by omega, by omega⟩
    rw [show rtAlignSize = 4 from rfl]
    omega

/-- Twenty bytes at a multiple of sixteen, in a fresh heap: the block is freed by its address, even
if the client has set every byte it got. -/
theorem malloc_align_block_sixteen : ∃ h ptr p h', rtSmemInit (fun _ => 0) 4096 1024 = some h ∧
    (heapOps none).rtMallocAlign h 20 (2 ^ 4) = .ok (some p, h') ∧ 2 ^ 4 ∣ p ∧ ptr + 4 ≤ p ∧
      p + 20 ≤ ptr + 36 ∧
      (heapOps none).rtFreeAlign { h' with mem := h'.mem.memset p 255 20 } p =
        rtSmemFree { h' with mem := h'.mem.memset p 255 20 } (some ptr) := by
  have hinit : rtSmemInit (fun _ => 0) 4096 1024 =
      some ((rtSmemInit (fun _ => 0) 4096 1024).get rfl) := rfl
  obtain ⟨n, L⟩ := rtSmemInit_spec hinit
  have hblock : (heapOps none).GivesBlock _ (alignSize 20 (2 ^ 4)) :=
    smem_blocks L (heapPtr_init ⟨by decide, by decide⟩ hinit) none (by decide)
  obtain ⟨ptr, s₁, -, hdvd, hlow, hhigh, -, hfree⟩ :=
    HeapOps.malloc_align_block hblock (by decide) ⟨by decide, by decide⟩
      (show (heapOps none).rtMallocAlign _ 20 (2 ^ 4) = .ok (some 4192, _) from rfl)
  exact ⟨_, ptr, 4192, _, hinit, rfl, hdvd, hlow, hhigh, hfree _ fun x hx => memset_out hx⟩

end SmallMem

end RTThread
