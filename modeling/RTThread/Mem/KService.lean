import RTThread.Mem.SmallMemSizes
import RTThread.Mem.MemHeapSizes

/-!
# The heap services (`src/kservice.c`)

`rt_malloc`, `rt_calloc` and `rt_malloc_align` on the system heap, which is a
small-memory heap. `rt_calloc` multiplies and `rt_malloc_align` adds before the
heap sees the request, both modulo `2^32`.

Main results:

* `rtCalloc_meets`, `rtMallocAlign_meets`: exactly when the result is null or
  has room for what was asked for;
* `alloc_sizes`: the same for the six entry points of both heaps, in every state
  a run reaches.
-/

namespace RTThread.SmallMem

open ByteMem Tiling

variable {h h' : SmallMem} {l pre post : List Seg} {n o c x p q size align count : Nat}

-- --------
-- The services
-- --------

/-- `rt_malloc(size)`. -/
def rtMalloc (h : SmallMem) (self : Option (List UInt8)) (size : Nat) :
    Except Fault (Option Nat × SmallMem) :=
  h.rtSmemAlloc self size

/-- `rt_calloc(count, size)`. -/
def rtCalloc (h : SmallMem) (self : Option (List UInt8)) (count size : Nat) :
    Except Fault (Option Nat × SmallMem) := do
  match ← h.rtMalloc self (Word32.mul count size) with
  | (none, h) => return (none, h)
  | (some p, h) =>
    return (some p, { h with mem := h.mem.memset p 0 (Word32.mul count size) })

/-- `sizeof(void *)`. -/
abbrev sizeofPtr : Nat := 4

/-- The total size `rt_malloc_align` requests: `RT_ALIGN_SIZE` is `sizeof(void *)`. -/
def alignSize (size align : Nat) : Nat := Word32.add (rtAlign size) (rtAlign align)

/-- The pointer behind `ptr` that it returns. -/
def alignPtr (ptr align : Nat) : Nat :=
  if ptr &&& Word32.sub align 1 = 0 then Word32.add ptr align
  else Word32.add ptr (Word32.sub align 1) &&& Word32.not (Word32.sub align 1)

/-- `rt_malloc_align(size, align)`: the word in front of the result is the block's address. -/
def rtMallocAlign (h : SmallMem) (self : Option (List UInt8)) (size align : Nat) :
    Except Fault (Option Nat × SmallMem) := do
  match ← h.rtMalloc self (alignSize size align) with
  | (none, h) => return (none, h)
  | (some ptr, h) =>
    let alignPtr := alignPtr ptr (rtAlign align)
    let h := { h with mem := h.mem.store32 (Word32.sub alignPtr sizeofPtr) ptr }
    return (if alignPtr = 0 then none else some alignPtr, h)

-- --------
-- `rt_calloc`
-- --------

/-- `rt_calloc` returns, and serves the request for the product. -/
def CallocMeets (h : SmallMem) (self : Option (List UInt8)) (count size : Nat) : Prop :=
  ∃ r h', h.rtCalloc self count size = .ok (r, h') ∧ Serves h' r (count * size)

/-- The request finds no block: it is refused, or no item fits. -/
def NoBlock (h : SmallMem) (size : Nat) : Prop :=
  Refused h size ∨ FirstFit h (roundSize size) none

/-- The three ways `rt_malloc` ends. -/
theorem rtMalloc_cases (L : Layout h l) (self : Option (List UInt8)) (size : Nat) :
    (Endless h size ∧ h.rtMalloc self size = .error .divergence) ∨
      (¬ Endless h size ∧ NoBlock h size ∧ h.rtMalloc self size = .ok (none, h)) ∨
      (¬ Endless h size ∧ ¬ NoBlock h size ∧ ∃ h' pre k post, l = pre ++ ⟨k, false⟩ :: post ∧
        FirstFit h (roundSize size) (some (span pre)) ∧
        h.rtMalloc self size = .ok (some (h.item (span pre) + 16), h') ∧
        Allocated h h' (h.item (span pre) + 16) (roundSize size) pre k post) := by
  by_cases hr : Refused h size
  · exact Or.inr (Or.inl ⟨fun he => he.1 hr, Or.inl hr, rtSmemAlloc_refused hr⟩)
  by_cases hsmall : h.memSizeAligned < 12
  · have hr' := hr
    rw [Refused, not_or] at hr'
    exact Or.inl ⟨⟨hr, hsmall⟩,
      rtSmemAlloc_diverges L self hr'.1 (Nat.le_of_not_lt hr'.2) hsmall⟩
  have hend : ¬ Endless h size := fun he => hsmall he.2
  rcases rtSmemAlloc_firstFit L self hr (by omega) with ⟨hnone, hcall⟩ |
    ⟨h', pre, k, post, hl, hfit, hcall, A⟩
  · exact Or.inr (Or.inl ⟨hend, Or.inr hnone, hcall⟩)
  · refine Or.inr (Or.inr ⟨hend, ?_, h', pre, k, post, hl, hfit, hcall, A⟩)
    rintro (hr' | hnone)
    · exact hr hr'
    · have := (L.firstFit.mp hfit).symm.trans (L.firstFit.mp hnone)
      cases this

theorem blockSize_memset {b : UInt8} (hp : 16 ≤ p) :
    blockSize { h with mem := h.mem.memset p b n } p = blockSize h p := by
  have hnext : SmallMem.next { h with mem := h.mem.memset p b n } (p - sizeofStructMem) =
      h.next (p - sizeofStructMem) := by
    refine load32_congr fun i hi => memset_out (Or.inl ?_)
    rw [show sizeofStructMem = 16 from rfl]
    omega
  rw [blockSize, blockSize, hnext]
  rfl

theorem Layout.memset {b : UInt8} (L : Layout h (pre ++ ⟨c, true⟩ :: post))
    (hn : n + 16 ≤ c) :
    Layout { h with mem := h.mem.memset (h.item (span pre) + 16) b n }
      (pre ++ ⟨c, true⟩ :: post) :=
  L.write _ fun _ hx => memset_out (by omega)

/-- **`rt_calloc`** serves a request unless the search never ends, or the product wraps and there
is a block for what is left of it. -/
theorem rtCalloc_meets (L : Layout h l) (self : Option (List UInt8)) (count size : Nat) :
    CallocMeets h self count size ↔ ¬ Endless h (Word32.mul count size) ∧
      (count * size ≤ 2 ^ 32 - 4 ∨ NoBlock h (Word32.mul count size)) := by
  rw [CallocMeets, rtCalloc]
  obtain ⟨m, hm⟩ : ∃ m, m = Word32.mul count size := ⟨_, rfl⟩
  rw [← hm]
  rcases rtMalloc_cases L self m with ⟨hend, hcall⟩ | ⟨hend, hno, hcall⟩ |
    ⟨hend, hno, h₁, pre, k, post, rfl, _, hcall, A⟩
  · rw [hcall]
    refine iff_of_false ?_ fun hc => hc.1 hend
    rintro ⟨r, h', hres, _⟩
    cases hres
  · rw [hcall]
    exact iff_of_true ⟨none, h, rfl, serves_none⟩ ⟨hend, Or.inr hno⟩
  rw [hcall]
  obtain ⟨hblock, hroom⟩ := A.serves
  by_cases hle : count * size ≤ 2 ^ 32 - 4
  · -- no wrap-around: the bytes set are those of the block
    refine iff_of_true ⟨_, _, rfl, fun p hp => ?_⟩ ⟨hend, Or.inl hle⟩
    cases hp
    have hprod : m = count * size := hm.trans (Word32.mul_of_lt (by omega))
    have hfit := le_roundSize (show m ≤ 2 ^ 32 - 4 by omega)
    obtain ⟨b, ts, hl, hb⟩ := A.block
    have L₁ := A.layout
    rw [hl] at L₁
    have hitem : h.item (span pre) = h₁.item (span pre) := by rw [item, item, A.same.heap_eq]
    rw [hitem]
    have hmem : (span pre, b) ∈ blocks 0 (pre ++ ⟨b, true⟩ :: ts) := by simp
    have L₂ := L₁.memset (b := 0) (show m + 16 ≤ b by omega)
    refine ⟨L₂.isBlock.mpr ⟨span pre, b, hmem, rfl⟩, ?_⟩
    rw [blockSize_memset (by omega), L₁.blockSize_eq hmem]
    omega
  · refine iff_of_false ?_ fun hc => hc.2.elim hle hno
    rintro ⟨r, h', hres, hserves⟩
    cases hres
    have hsize := (hserves _ rfl).2
    rw [blockSize_memset (by omega)] at hsize
    have := (A.layout.blockSize_lt hblock).2
    omega

-- --------
-- `rt_malloc_align`
-- --------

theorem alignPtr_zero (hp : p ≠ 0) (hlt : p < 2 ^ 32) : alignPtr p 0 = 0 := by
  have hmask : Word32.sub 0 1 = 2 ^ 32 - 1 := by decide
  have hall : p &&& (2 ^ 32 - 1) = p := by
    rw [Nat.and_two_pow_sub_one_eq_mod, Nat.mod_eq_of_lt hlt]
  rw [alignPtr, hmask, hall, if_neg hp, show Word32.not (2 ^ 32 - 1) = 0 by decide, Nat.and_zero]

/-- **The aligned pointer** lies behind the block's first word and at most `a` bytes from it; `a`
need not be a power of two. -/
theorem alignPtr_bounds {a : Nat} (hp : p % 4 = 0) (ha : a % 4 = 0) (ha4 : 4 ≤ a)
    (hsum : p + a < 2 ^ 32) : p + 4 ≤ alignPtr p a ∧ alignPtr p a ≤ p + a := by
  have hmask : Word32.sub a 1 = a - 1 := Word32.sub_of_le (by omega) (by omega)
  rw [alignPtr, hmask]
  by_cases hmeet : p &&& (a - 1) = 0
  · rw [if_pos hmeet, Word32.add_of_lt hsum]
    omega
  rw [if_neg hmeet, Word32.add_of_lt (by omega)]
  have hlt := Word32.lt_add_and_not (show p + (a - 1) < 2 ^ 32 by omega) hmeet
  have hle := Word32.and_not_le (p + (a - 1)) (a - 1)
  -- the mask ends in two ones, so the result is a multiple of four
  have hmod : ((p + (a - 1)) &&& Word32.not (a - 1)) % 4 = 0 := by
    have hnot : Word32.not (a - 1) &&& (2 ^ 2 - 1) = 0 := by
      rw [Nat.and_two_pow_sub_one_eq_mod, Word32.not]
      omega
    rw [show 4 = 2 ^ 2 from rfl, ← Nat.and_two_pow_sub_one_eq_mod, Nat.and_assoc, hnot,
      Nat.and_zero]
  omega

/-- Whatever the sizes, the aligned pointer is in front of the block or does not wrap. -/
theorem alignPtr_wrap {a : Nat} (hp : p < 2 ^ 32) (ha : a < 2 ^ 32) (ha4 : 4 ≤ a) :
    alignPtr p a < p ∨ (p + a ≤ 2 ^ 32 ∧ p < alignPtr p a) := by
  have hmask : Word32.sub a 1 = a - 1 := Word32.sub_of_le (by omega) ha
  rw [alignPtr, hmask]
  by_cases hmeet : p &&& (a - 1) = 0
  · rw [if_pos hmeet]
    by_cases hsum : p + a < 2 ^ 32
    · rw [Word32.add_of_lt hsum]
      exact Or.inr ⟨by omega, by omega⟩
    · rw [Word32.add_of_ge (by omega) (by omega)]
      exact Or.inl (by omega)
  · rw [if_neg hmeet]
    by_cases hsum : p + (a - 1) < 2 ^ 32
    · rw [Word32.add_of_lt hsum]
      exact Or.inr ⟨by omega, Word32.lt_add_and_not hsum hmeet⟩
    · rw [Word32.add_of_ge (by omega) (by omega)]
      have := Word32.and_not_le (p + (a - 1) - 2 ^ 32) (a - 1)
      exact Or.inl (by omega)

/-- The block an allocation returns is at most a header and a minimal block larger than the
rounded request. -/
theorem Allocated.blockSize_lt {k : Nat} (A : Allocated h h' p (roundSize size) pre k post) :
    blockSize h' p < roundSize size + 28 := by
  have hmem : (span pre, if roundSize size + 16 + 28 ≤ k then roundSize size + 16 else k) ∈
      blocks 0 (pre ++ carve (roundSize size + 16) 28 k ++ post) :=
    (blocks_carve_perm ..).mem_iff.mpr (List.mem_cons_self ..)
  have hitem : p = h'.item (span pre) + 16 := by rw [A.ptr_eq, item, item, A.same.heap_eq]
  rw [hitem, A.layout.blockSize_eq hmem]
  split <;> omega

/-- `rt_malloc_align` returns, and a non-null result has `size` bytes up to the end of the block
that was allocated for it. -/
def AlignMeets (h : SmallMem) (self : Option (List UInt8)) (size align : Nat) : Prop :=
  ∃ r h', h.rtMallocAlign self size align = .ok (r, h') ∧ ∀ q ∈ r, ∃ p h₁,
    h.rtMalloc self (alignSize size align) = .ok (some p, h₁) ∧
    p ≤ q ∧ q + size ≤ p + blockSize h₁ p ∧ IsBlock h' p ∧ blockSize h' p = blockSize h₁ p

/-- The sizes do not wrap. -/
def AlignFits (size align : Nat) : Prop :=
  size ≤ 2 ^ 32 - 4 ∧ rtAlign size + rtAlign align < 2 ^ 32

/-- The aligned pointer of the first fit is the null pointer. -/
def AlignNull (h : SmallMem) (size align : Nat) : Prop :=
  ∃ o, FirstFit h (roundSize (alignSize size align)) (some o) ∧
    alignPtr (h.item o + sizeofStructMem) (rtAlign align) = 0

/-- Without wrap-around, the block has room behind the aligned pointer. -/
theorem align_serves {k t : Nat} (hsize : size ≤ 2 ^ 32 - 4)
    (A : Allocated h h' p (roundSize t) pre k post) (ht : t = rtAlign size + rtAlign align)
    (ht32 : t < 2 ^ 32) (hq : q = alignPtr p (rtAlign align)) (hq0 : q ≠ 0) :
    p ≤ q ∧ q + size ≤ p + blockSize h' p ∧
      IsBlock { h' with mem := h'.mem.store32 (Word32.sub q sizeofPtr) p } p ∧
      blockSize { h' with mem := h'.mem.store32 (Word32.sub q sizeofPtr) p } p =
        blockSize h' p := by
  obtain ⟨b, ts, hl, hb⟩ := A.block
  have L := A.layout
  have hends := L.blockSize_lt A.serves.1
  have hroom := A.serves.2
  rw [hl] at L
  have hmem : (span pre, b) ∈ blocks 0 (pre ++ ⟨b, true⟩ :: ts) := by simp
  have hitem : p = h'.item (span pre) + 16 := by rw [A.ptr_eq, item, item, A.same.heap_eq]
  have hpmod : p % 4 = 0 := by
    obtain ⟨_, _, _, hmod⟩ := L.toTiled.extent
    have := L.heap_mod
    rw [hitem, item]
    omega
  have htop := L.top
  have hend := L.end_eq
  have hsz := L.blockSize_eq hmem
  rw [← hitem] at hsz
  have hS := rtAlign_of_le hsize
  have hA := rtAlign_mod align
  have hfit := le_roundSize (show t ≤ 2 ^ 32 - 4 by omega)
  have ha4 : 4 ≤ rtAlign align := by
    by_contra hcon
    have h0 : rtAlign align = 0 := by omega
    rw [h0, alignPtr_zero (by omega) (by omega)] at hq
    exact hq0 hq
  obtain ⟨hlow, hhigh⟩ := alignPtr_bounds (a := rtAlign align) hpmod hA ha4 (by omega)
  rw [← hq] at hlow hhigh
  -- the stored word lies in the payload
  have hsub : Word32.sub q sizeofPtr = q - 4 := Word32.sub_of_le (show 4 ≤ q by omega) (by omega)
  have L' : Layout { h' with mem := h'.mem.store32 (Word32.sub q sizeofPtr) p }
      (pre ++ ⟨b, true⟩ :: ts) := by
    refine L.write _ fun y hy => ?_
    rw [hsub]
    exact store32_out (by omega)
  have hsz' := L'.blockSize_eq hmem
  rw [show SmallMem.item { h' with mem := h'.mem.store32 (Word32.sub q sizeofPtr) p } (span pre) =
    h'.item (span pre) from rfl, ← hitem] at hsz'
  exact ⟨by omega, by omega, L'.isBlock.mpr ⟨_, _, hmem, hitem⟩, hsz'.trans hsz.symm⟩

/-- With wrap-around, it has none. -/
theorem align_fails {k t : Nat} (hlow : 64 ≤ p) (hlt : size < 2 ^ 32)
    (A : Allocated h h' p (roundSize t) pre k post)
    (ht : t = Word32.add (rtAlign size) (rtAlign align)) (hwrap : ¬ AlignFits size align)
    (hq : q = alignPtr p (rtAlign align)) : ¬ (p ≤ q ∧ q + size ≤ p + blockSize h' p) := by
  rintro ⟨hle, hroom⟩
  have hends := A.layout.blockSize_lt A.serves.1
  have hupper := A.blockSize_lt
  have htop := A.layout.top
  have hend := A.layout.end_eq
  rw [AlignFits] at hwrap
  by_cases hsize : size ≤ 2 ^ 32 - 4
  swap
  · omega
  obtain ⟨hS, hS', _⟩ := rtAlign_of_le hsize
  have hS32 := rtAlign_le_word size
  have hA32 := rtAlign_lt align
  have hmods := And.intro (rtAlign_mod size) (rtAlign_mod align)
  rw [Word32.add_of_ge (by omega) (by omega)] at ht
  have hround : roundSize t ≤ t + 12 := by
    rw [roundSize, rtAlign_of_mod (by omega) (by omega), show minSize = 12 from rfl]
    split <;> omega
  rcases alignPtr_wrap (p := p) (show p < 2 ^ 32 by omega) hA32 (by omega) with hback | ⟨hsum, hup⟩
  · omega
  · omega

theorem rtMallocAlign_some {self : Option (List UInt8)}
    (hcall : h.rtMalloc self (alignSize size align) = .ok (some p, h'))
    (hq : q = alignPtr p (rtAlign align)) :
    h.rtMallocAlign self size align = .ok (if q = 0 then none else some q,
      { h' with mem := h'.mem.store32 (Word32.sub q sizeofPtr) p }) := by
  rw [rtMallocAlign, hcall, hq]
  rfl

/-- **`rt_malloc_align`** serves a request unless the search never ends, or the sizes wrap and the
result is not null all the same. -/
theorem rtMallocAlign_meets (L : Layout h l) (hheap : 64 ≤ h.heapPtr)
    (self : Option (List UInt8)) (align : Nat) (hsize : size < 2 ^ 32) :
    AlignMeets h self size align ↔ ¬ Endless h (alignSize size align) ∧
      (AlignFits size align ∨ NoBlock h (alignSize size align) ∨ AlignNull h size align) := by
  rw [AlignMeets, AlignNull]
  rcases rtMalloc_cases L self (alignSize size align) with ⟨hend, hcall⟩ | ⟨hend, hno, hcall⟩ |
    ⟨hend, hno, h₁, pre, k, post, hl, hfirst, hcall, A⟩
  · refine iff_of_false ?_ fun hc => hc.1 hend
    rintro ⟨r, h', hres, _⟩
    rw [rtMallocAlign, hcall] at hres
    cases hres
  · refine iff_of_true ⟨none, h, ?_, by simp⟩ ⟨hend, Or.inr (Or.inl hno)⟩
    rw [rtMallocAlign, hcall]
    rfl
  obtain ⟨p, hp⟩ : ∃ p, p = h.item (span pre) + 16 := ⟨_, rfl⟩
  rw [← hp] at hcall A
  obtain ⟨q, hq⟩ : ∃ q, q = alignPtr p (rtAlign align) := ⟨_, rfl⟩
  have hres := rtMallocAlign_some hcall hq
  have hlow : 64 ≤ p := by
    rw [hp, item]
    omega
  by_cases hnull : q = 0
  · -- a null result
    rw [if_pos hnull] at hres
    refine iff_of_true ⟨none, _, hres, by simp⟩ ⟨hend, Or.inr (Or.inr ⟨span pre, hfirst, ?_⟩)⟩
    rw [show h.item (span pre) + sizeofStructMem = p from hp.symm, ← hq, hnull]
  rw [if_neg hnull] at hres
  by_cases hfits : AlignFits size align
  · refine iff_of_true ⟨some q, _, hres, fun q' hq' => ?_⟩ ⟨hend, Or.inl hfits⟩
    cases hq'
    have ht : alignSize size align = rtAlign size + rtAlign align := Word32.add_of_lt hfits.2
    have ht32 : alignSize size align < 2 ^ 32 := Word32.add_lt _ _
    exact ⟨p, h₁, hcall, align_serves hfits.1 A ht ht32 hq hnull⟩
  · refine iff_of_false ?_ ?_
    · rintro ⟨r, h', hok, hserves⟩
      rw [hres] at hok
      cases hok
      obtain ⟨p', h₂, hcall', h1, h2, _⟩ := hserves _ rfl
      rw [hcall] at hcall'
      cases hcall'
      exact align_fails hlow hsize A rfl hfits hq ⟨h1, h2⟩
    · rintro ⟨_, hf | hf | ⟨o, hfit, hz⟩⟩
      · exact hfits hf
      · exact hno hf
      · have ho := (L.firstFit.mp hfirst).symm.trans (L.firstFit.mp hfit)
        cases ho
        refine hnull ?_
        rw [hq, hp]
        exact hz

-- --------
-- Along a run
-- --------

/-- The memory given to `rt_smem_init` does not reach around the end of the address space and
has room for the control block. -/
structure Region (beginAddr size : Nat) : Prop where
  top : beginAddr + size ≤ 2 ^ 32
  room : sizeofSmallMem + rtAlignSize ≤ size

theorem heapPtr_init {m : ByteMem} {beginAddr : Nat} (hregion : Region beginAddr size)
    (hinit : rtSmemInit m beginAddr size = some h) : 64 ≤ h.heapPtr := by
  obtain ⟨htop, hroom⟩ := hregion
  rw [show sizeofSmallMem + rtAlignSize = 68 from rfl] at hroom
  obtain ⟨_, hle, hmod⟩ := rtAlign_of_le (show beginAddr ≤ 2 ^ 32 - 4 by omega)
  have hstart : Word32.add (rtAlign beginAddr) sizeofSmallMem = rtAlign beginAddr + 64 :=
    Word32.add_of_lt (show rtAlign beginAddr + 64 < 2 ^ 32 by omega)
  rw [rtSmemInit] at hinit
  dsimp only at hinit
  rw [hstart, rtAlign_of_mod (show (rtAlign beginAddr + 64) % 4 = 0 by omega) (by omega)] at hinit
  split at hinit
  · split at hinit
    · cases hinit
    · rw [Option.some.injEq] at hinit
      rw [← hinit]
      show 64 ≤ rtAlign beginAddr + 64
      omega
  · cases hinit

/-- A run does not move the heap. -/
theorem run_heapPtr {m : ByteMem} {beginAddr : Nat} {st : State}
    (hinit : rtSmemInit m beginAddr size = some h) (hrun : Runs Step Runs.always ⟨h, []⟩ st) :
    Inv st ∧ st.heap.heapPtr = h.heapPtr := by
  obtain ⟨n, L⟩ := rtSmemInit_spec hinit
  have hstep : ∀ s a s', Inv s ∧ s.heap.heapPtr = h.heapPtr → Runs.always s a → Step s a s' →
      Inv s' ∧ s'.heap.heapPtr = h.heapPtr := by
    rintro s a s' ⟨hI, heq⟩ _ hs
    refine ⟨inv_step s a s' hI hs, ?_⟩
    obtain ⟨l, L, hlive⟩ := hI
    obtain ⟨_, _, hheap, _⟩ := step_spares L hlive hs
    exact hheap.trans heq
  have hI : Inv ⟨h, []⟩ := ⟨_, L, by simp [payloads]⟩
  exact @Runs.invariant _ _ _ _ _ _ (fun s => Inv s ∧ s.heap.heapPtr = h.heapPtr) hstep hrun
    ⟨hI, rfl⟩

end RTThread.SmallMem

namespace RTThread

open Memheap (Placement rtMemheapInit)

/-- **Sizes of blocks**: for the six entry points, in every state of the two heaps, exactly which
32-bit requests are served. -/
theorem alloc_sizes {m m' : ByteMem} {beginAddr size memheap startAddr poolSize : Nat}
    {h : SmallMem} {st : SmallMem.State} {mst : Memheap.State}
    (hregion : SmallMem.Region beginAddr size)
    (hinit : SmallMem.rtSmemInit m beginAddr size = some h)
    (hrun : Runs SmallMem.Step Runs.always ⟨h, []⟩ st)
    (hplace : Placement memheap startAddr poolSize)
    (hheap : Runs Memheap.Step Memheap.Allowed ⟨rtMemheapInit m' memheap startAddr poolSize, []⟩
      mst)
    (self : Option (List UInt8)) {n : Nat} (hn : n < 2 ^ 32) :
    (SmallMem.AllocMeets st.heap self n ↔ ¬ SmallMem.Endless st.heap n ∧
      (n ≤ 2 ^ 32 - 4 ∨ SmallMem.FirstFit st.heap (SmallMem.roundSize n) none)) ∧
    (∀ p ∈ st.live, (SmallMem.ReallocMeets st.heap self (some p) n ↔ n ≤ 2 ^ 32 - 4 ∧
      ¬ (SmallMem.Endless st.heap (rtAlign n) ∧ rtAlign n ≠ SmallMem.blockSize st.heap p))) ∧
    (SmallMem.ReallocMeets st.heap self none n ↔ ¬ SmallMem.Endless st.heap (rtAlign n)) ∧
    (∀ count < 2 ^ 32, (SmallMem.CallocMeets st.heap self count n ↔
      ¬ SmallMem.Endless st.heap (Word32.mul count n) ∧
      (count * n ≤ 2 ^ 32 - 4 ∨ SmallMem.NoBlock st.heap (Word32.mul count n)))) ∧
    (∀ align < 2 ^ 32, (SmallMem.AlignMeets st.heap self n align ↔
      ¬ SmallMem.Endless st.heap (SmallMem.alignSize n align) ∧
      (SmallMem.AlignFits n align ∨ SmallMem.NoBlock st.heap (SmallMem.alignSize n align) ∨
        SmallMem.AlignNull st.heap n align))) ∧
    (Memheap.AllocMeets mst.heap self n ↔ n ≤ 2 ^ 32 - 4 ∨ mst.heap.availableSize ≤ 12) ∧
    (∀ p ∈ mst.live, (Memheap.ReallocMeets mst.heap self (some p) n ↔ n ≤ 2 ^ 32 - 4 ∧
      ¬ (Memheap.Wraps n ∧ mst.heap.memheapIsUsed
        (mst.heap.get .next (p - Memheap.memheapSize)) = false))) ∧
    (Memheap.ReallocMeets mst.heap self none n ↔
      n ≤ 2 ^ 32 - 4 ∨ mst.heap.availableSize ≤ 12) := by
  obtain ⟨⟨l, L, hlive⟩, hptr⟩ := SmallMem.run_heapPtr hinit hrun
  have hlow : 64 ≤ st.heap.heapPtr := by
    rw [hptr]
    exact SmallMem.heapPtr_init hregion hinit
  have hI : Memheap.Inv mst := hheap.invariant Memheap.inv_step
    ⟨_, _, Memheap.rtMemheapInit_spec hplace, by simp [Memheap.payloads]⟩
  obtain ⟨lp, fl, Lp, hlivep⟩ := hI
  refine ⟨SmallMem.rtSmemAlloc_meets L self hn, fun p hp => ?_,
    SmallMem.rtSmemRealloc_meets_null L self hn,
    fun count _ => SmallMem.rtCalloc_meets L self count n,
    fun align _ => SmallMem.rtMallocAlign_meets L hlow self align hn,
    Memheap.rtMemheapAlloc_meets Lp self hn, fun p hp => ?_,
    Memheap.rtMemheapRealloc_meets_null Lp self hn⟩
  · obtain ⟨pre, k, post, rfl, rfl⟩ := SmallMem.live_block hlive hp
    exact SmallMem.rtSmemRealloc_meets L self hn
  · obtain ⟨pre, k, post, rfl, rfl⟩ := Memheap.live_block hlivep hp
    rw [Nat.add_sub_cancel]
    exact Memheap.rtMemheapRealloc_meets Lp self hn

/-- A heap of one kilobyte and a pool of 256 bytes, each after one allocation: twenty bytes more
can be asked for, the largest size cannot. -/
theorem alloc_sizes_example : ∃ h st mst,
    SmallMem.rtSmemInit (fun _ => 0) 4096 1024 = some h ∧
      Runs SmallMem.Step Runs.always ⟨h, []⟩ st ∧
      Runs Memheap.Step Memheap.Allowed ⟨rtMemheapInit (fun _ => 0) 1024 4096 256, []⟩ mst ∧
      SmallMem.ReallocMeets st.heap none (some 4176) 20 ∧
      ¬ SmallMem.ReallocMeets st.heap none (some 4176) 0xffffffff ∧
      Memheap.AllocMeets mst.heap none 20 ∧
      ¬ Memheap.ReallocMeets mst.heap none (some 4124) 0xffffffff := by
  have hinit : SmallMem.rtSmemInit (fun _ => 0) 4096 1024 =
      some ((SmallMem.rtSmemInit (fun _ => 0) 4096 1024).get rfl) := rfl
  have hrun : Runs SmallMem.Step Runs.always
      ⟨(SmallMem.rtSmemInit (fun _ => 0) 4096 1024).get rfl, []⟩ ⟨_, [4176]⟩ :=
    Runs.refl.snoc trivial (@SmallMem.Step.alloc _ none 100 (some 4176) _ rfl)
  obtain ⟨hm, _, _, halloc, _⟩ := Memheap.alloc_example (show Memheap.roundSize 12 ≤ 160 by decide)
  have hheap := Memheap.alloc_step (P := Memheap.Allowed) halloc trivial
  have hregion : SmallMem.Region 4096 1024 := ⟨by decide, by decide⟩
  have hsmall := alloc_sizes hregion hinit hrun Memheap.placement_example hheap none
    (show 20 < 2 ^ 32 by decide)
  have hlarge := alloc_sizes hregion hinit hrun Memheap.placement_example hheap none
    (show 0xffffffff < 2 ^ 32 by decide)
  refine ⟨_, _, _, hinit, hrun, hheap, (hsmall.2.1 4176 (by simp)).mpr ⟨by decide, ?_⟩,
    fun hc => ?_, hsmall.2.2.2.2.2.1.mpr (Or.inl (by decide)), fun hc => ?_⟩
  · intro hend
    exact absurd hend.1.2 (by decide)
  · exact absurd ((hlarge.2.1 4176 (by simp)).mp hc).1 (by decide)
  · exact absurd ((hlarge.2.2.2.2.2.2.1 4124 (by simp)).mp hc).1 (by decide)

/-- **The defect**: of a heap of one kilobyte, the largest request there is gets twelve bytes. -/
theorem alloc_sizes_wrap : ∃ h, SmallMem.rtSmemInit (fun _ => 0) 4096 1024 = some h ∧
    ¬ SmallMem.AllocMeets h none 0xffffffff := by
  have hinit : SmallMem.rtSmemInit (fun _ => 0) 4096 1024 =
      some ((SmallMem.rtSmemInit (fun _ => 0) 4096 1024).get rfl) := rfl
  obtain ⟨n, L⟩ := SmallMem.rtSmemInit_spec hinit
  refine ⟨_, hinit, ?_⟩
  rintro ⟨r, h', hcall, hserves⟩
  obtain ⟨l', L', _⟩ := SmallMem.alloc_spares L hcall
  cases hcall
  obtain ⟨hblock, hsize⟩ := hserves 4176 rfl
  have := (L'.blockSize_lt hblock).2
  omega

end RTThread
