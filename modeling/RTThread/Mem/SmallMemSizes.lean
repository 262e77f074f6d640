import RTThread.Mem.SmallMemFrame

/-!
# Sizes of small-memory blocks

Which requests get as many bytes as they ask for. A non-null result must be a
block of at least that size, and a resizing with a null result must leave the
block as it is (`AllocMeets`, `ReallocMeets`).

Two things stand in the way. A request above `2^32 - 4` rounds to zero: such an
allocation takes a minimal block when there is one (`rtSmemAlloc_meets`), such a
resizing gives the block back (`rtSmemRealloc_meets`). And in a heap of fewer
than twelve bytes the search never ends.

What an allocation returns is a function of the heap before it: `FirstFit`, in
terms of the fields the source reads.
-/

namespace RTThread.SmallMem

open ByteMem Tiling

variable {h h' : SmallMem} {l pre post : List Seg} {n o c x p size : Nat} {r : Option Nat}

-- --------
-- Blocks on the walk
-- --------

/-- The walk along `next` is unique. -/
theorem Walk.unique {offs offs' : List Nat} (w : Walk h o offs) (w' : Walk h o offs') :
    offs = offs' := by
  induction w generalizing offs' with
  | stop hend _ =>
    cases w' with
    | stop _ _ => rfl
    | item _ hlt _ _ => omega
  | item _ hlt _ _ ih =>
    cases w' with
    | stop hend _ => omega
    | item _ _ _ hrest => rw [ih hrest]

/-- A block was handed out at `p`: its header is that of a used item. -/
def IsBlock (h : SmallMem) (p : Nat) : Prop :=
  ∃ offs, WellFormed h offs ∧ ∃ o ∈ offs, p = h.item o + sizeofStructMem ∧
    h.memIsUsed (h.item o) = true

theorem Layout.offs_eq (L : Layout h l) {offs : List Nat} (W : WellFormed h offs) :
    offs = starts 0 l :=
  W.walk.unique L.wellFormed.walk

theorem mem_starts {off : Nat} (ho : o ∈ starts off l) :
    ∃ pre s post, l = pre ++ s :: post ∧ o = off + span pre := by
  induction l generalizing off with
  | nil => simp at ho
  | cons s ss ih =>
    rcases List.mem_cons.mp ho with rfl | ho
    · exact ⟨[], s, ss, rfl, rfl⟩
    · obtain ⟨pre, t, post, rfl, rfl⟩ := ih ho
      exact ⟨s :: pre, t, post, rfl, by rw [span_cons, Nat.add_assoc]⟩

theorem Layout.isBlock (L : Layout h l) :
    IsBlock h p ↔ ∃ o c, (o, c) ∈ blocks 0 l ∧ p = h.item o + 16 := by
  constructor
  · rintro ⟨offs, W, o, ho, rfl, hused⟩
    rw [L.offs_eq W] at ho
    obtain ⟨pre, ⟨c, u⟩, post, rfl, rfl⟩ := mem_starts ho
    rw [Nat.zero_add] at hused ⊢
    rw [L.toTiled.memIsUsed_item] at hused
    subst hused
    exact ⟨span pre, c, by simp, rfl⟩
  · rintro ⟨o, c, hb, rfl⟩
    obtain ⟨pre, post, rfl, ho⟩ := mem_blocks.mp hb
    rw [Nat.zero_add] at ho
    subst ho
    exact ⟨_, L.wellFormed, span pre, by simp, rfl, L.toTiled.memIsUsed_item⟩

/-- A block is smaller than the address space. -/
theorem Layout.blockSize_lt (L : Layout h l) (hp : IsBlock h p) :
    p + blockSize h p ≤ h.heapEnd ∧ blockSize h p ≤ 2 ^ 32 - 33 := by
  obtain ⟨o, c, hb, rfl⟩ := L.isBlock.mp hp
  have hend := (le_of_mem_blocks hb).2
  have hspan := L.span_eq
  have htop := L.top
  have heq := L.end_eq
  have hpay := L.payload _ hb
  rw [L.blockSize_eq hb]
  unfold item
  dsimp only at hend hpay
  omega

-- --------
-- The first fit
-- --------

/-- The item at `o` is free and has room for `n` bytes. -/
def FitsAt (h : SmallMem) (n o : Nat) : Prop :=
  h.memIsUsed (h.item o) = false ∧ n ≤ h.next (h.item o) - (o + sizeofStructMem)

instance (h : SmallMem) (n o : Nat) : Decidable (FitsAt h n o) := by
  unfold FitsAt
  infer_instance

/-- The first item with room for `n` bytes, if there is one. -/
def FirstFit (h : SmallMem) (n : Nat) (r : Option Nat) : Prop :=
  ∃ offs, WellFormed h offs ∧ (offs.find? fun o => decide (FitsAt h n o)) = r

theorem Tiled.find_fits : ∀ (rest pre : List Seg), Tiled h (pre ++ rest) →
    ((starts (span pre) rest).find? fun o => decide (FitsAt h n o)) =
      searchResult n (span pre) rest := by
  intro rest
  induction rest with
  | nil => intro _ _; rfl
  | cons s ss ih =>
    obtain ⟨k, u⟩ := s
    intro pre T
    obtain ⟨_, hk, _⟩ := T.extent
    have T' : Tiled h ((pre ++ [⟨k, u⟩]) ++ ss) := by simpa using T
    have hih := ih (pre ++ [⟨k, u⟩]) T'
    rw [show span (pre ++ [⟨k, u⟩]) = span pre + k by simp] at hih
    have hfit : FitsAt h n (span pre) ↔ Fits n ⟨k, u⟩ := by
      rw [FitsAt, Fits, T.memIsUsed_item, T.next_item, show sizeofStructMem = 16 from rfl]
      dsimp only
      constructor
      · rintro ⟨hu, hn⟩
        exact ⟨hu, by omega⟩
      · rintro ⟨hu, hn⟩
        exact ⟨hu, by omega⟩
    rw [starts_cons, List.find?_cons, searchResult]
    by_cases hs : Fits n ⟨k, u⟩
    · rw [decide_eq_true (hfit.mpr hs), if_pos hs]
    · rw [decide_eq_false (mt hfit.mp hs), if_neg hs]
      exact hih

theorem Layout.firstFit (L : Layout h l) : FirstFit h n r ↔ searchResult n 0 l = r := by
  have T : Tiled h ([] ++ l) := L.toTiled
  have hfind := T.find_fits (n := n) l []
  rw [span_nil] at hfind
  constructor
  · rintro ⟨offs, W, hr⟩
    rw [← hfind, ← hr, L.offs_eq W]
  · intro hr
    exact ⟨_, L.wellFormed, hfind.trans hr⟩

-- --------
-- Requests
-- --------

/-- The result `r` of a request for `n` bytes is null or a block of at least that size. -/
def Serves (h : SmallMem) (r : Option Nat) (n : Nat) : Prop :=
  ∀ p ∈ r, IsBlock h p ∧ n ≤ blockSize h p

/-- The block at `p` is still allocated, with the bytes it held. -/
def StillThere (h h' : SmallMem) (p : Nat) : Prop :=
  IsBlock h' p ∧ ∀ x, InPayload h p x → InPayload h' p x ∧ h'.mem x = h.mem x

/-- `rt_smem_alloc` returns, and serves the request. -/
def AllocMeets (h : SmallMem) (self : Option (List UInt8)) (size : Nat) : Prop :=
  ∃ r h', h.rtSmemAlloc self size = .ok (r, h') ∧ Serves h' r size

/-- `rt_smem_realloc` returns, and serves the request or leaves the block alone. -/
def ReallocMeets (h : SmallMem) (self : Option (List UInt8)) (rmem : Option Nat)
    (newsize : Nat) : Prop :=
  ∃ r h', h.rtSmemRealloc self rmem newsize = .ok (r, h') ∧ Serves h' r newsize ∧
    (r = none → newsize ≠ 0 → ∀ p ∈ rmem, StillThere h h' p)

theorem serves_none : Serves h none n := by simp [Serves]

/-- The request is answered before the search: it is empty, or larger than the heap. -/
def Refused (h : SmallMem) (size : Nat) : Prop := size = 0 ∨ h.memSizeAligned < rtAlign size

instance (h : SmallMem) (size : Nat) : Decidable (Refused h size) := by
  unfold Refused
  infer_instance

theorem rtSmemAlloc_refused {self : Option (List UInt8)} (hr : Refused h size) :
    h.rtSmemAlloc self size = .ok (none, h) := by
  rw [rtSmemAlloc]
  by_cases h0 : size = 0
  · rw [if_pos h0]
    rfl
  · rw [if_neg h0]
    dsimp only
    rw [if_pos (hr.resolve_left h0)]
    rfl

/-- **The outcome of the search**, in a heap of at least a minimal block. -/
theorem rtSmemAlloc_firstFit (L : Layout h l) (self : Option (List UInt8))
    (hr : ¬ Refused h size) (hbig : 12 ≤ h.memSizeAligned) :
    (FirstFit h (roundSize size) none ∧ h.rtSmemAlloc self size = .ok (none, h)) ∨
      ∃ h' pre k post, l = pre ++ ⟨k, false⟩ :: post ∧
        FirstFit h (roundSize size) (some (span pre)) ∧
        h.rtSmemAlloc self size = .ok (some (h.item (span pre) + 16), h') ∧
        Allocated h h' (h.item (span pre) + 16) (roundSize size) pre k post := by
  rw [Refused, not_or] at hr
  rcases rtSmemAlloc_spec L self size with ⟨hnull, hwhy⟩ | ⟨_, hsmall⟩ |
    ⟨p, h', pre, k, post, hl, _, _, halloc, A⟩
  · refine Or.inl ⟨L.firstFit.mpr ?_, hnull⟩
    have hnone : ∀ t ∈ l, ¬ Fits (roundSize size) t := by
      rcases hwhy with hwhy | hwhy | hwhy
      · exact absurd hwhy hr.1
      · exact absurd hwhy hr.2
      · exact hwhy
    cases hs : searchResult (roundSize size) 0 l with
    | none => rfl
    | some ptr =>
      obtain ⟨a, s, b, rfl, _, hs, _⟩ := searchResult_some hs
      exact absurd hs (hnone s (by simp))
  · omega
  · have hp := A.ptr_eq
    subst hp
    refine Or.inr ⟨h', pre, k, post, hl, L.firstFit.mpr ?_, halloc, A⟩
    -- the search stops at the segment that was carved, and not before
    have hfit : Fits (roundSize size) ⟨k, false⟩ := ⟨rfl, A.fits⟩
    have hskip : ∀ (a b : List Seg) (off : Nat), (∀ t ∈ a, ¬ Fits (roundSize size) t) →
        searchResult (roundSize size) off (a ++ ⟨k, false⟩ :: b) = some (off + span a) := by
      intro a b
      induction a with
      | nil =>
        intro off _
        rw [List.nil_append, searchResult, if_pos hfit]
        rfl
      | cons t ts ih =>
        intro off ha
        rw [List.cons_append, searchResult, if_neg (ha t (by simp)),
          ih _ fun t ht => ha t (by simp [ht]), span_cons, Nat.add_assoc]
    rw [hl, hskip pre post 0 A.first, Nat.zero_add]

/-- The block an allocation returns is large enough for the rounded request. -/
theorem Allocated.serves {k : Nat} (A : Allocated h h' p (roundSize size) pre k post) :
    IsBlock h' p ∧ roundSize size ≤ blockSize h' p := by
  obtain ⟨b, ts, hl, hb⟩ := A.block
  have L := A.layout
  rw [hl] at L
  have hmem : (span pre, b) ∈ blocks 0 (pre ++ ⟨b, true⟩ :: ts) := by simp
  have hitem : p = h'.item (span pre) + 16 := by rw [A.ptr_eq, item, item, A.same.heap_eq]
  rw [hitem]
  refine ⟨L.isBlock.mpr ⟨_, _, hmem, rfl⟩, ?_⟩
  rw [L.blockSize_eq hmem]
  omega

theorem le_roundSize (hs : size ≤ 2 ^ 32 - 4) : size ≤ roundSize size :=
  Nat.le_trans (rtAlign_of_le hs).1 (rtAlign_le_roundSize size)

/-- The search of `rt_smem_alloc` for the request never ends. -/
def Endless (h : SmallMem) (size : Nat) : Prop := ¬ Refused h size ∧ h.memSizeAligned < 12

/-- **Allocation** serves a request unless its search never ends, or the request rounds to zero
and there is a minimal block to return for it. -/
theorem rtSmemAlloc_meets (L : Layout h l) (self : Option (List UInt8)) (hsize : size < 2 ^ 32) :
    AllocMeets h self size ↔
      ¬ Endless h size ∧ (size ≤ 2 ^ 32 - 4 ∨ FirstFit h (roundSize size) none) := by
  by_cases hr : Refused h size
  · refine iff_of_true ⟨none, h, rtSmemAlloc_refused hr, serves_none⟩ ⟨fun he => he.1 hr, ?_⟩
    by_cases hle : size ≤ 2 ^ 32 - 4
    · exact Or.inl hle
    · -- what rounds to zero is not refused
      rw [Refused, rtAlign_wrap (by omega) hsize] at hr
      omega
  by_cases hsmall : h.memSizeAligned < 12
  · refine iff_of_false ?_ fun hc => hc.1 ⟨hr, hsmall⟩
    rintro ⟨r, h', hcall, _⟩
    rw [Refused, not_or] at hr
    rw [rtSmemAlloc_diverges L self hr.1 (Nat.le_of_not_lt hr.2) hsmall] at hcall
    cases hcall
  have hend : ¬ Endless h size := fun he => hsmall he.2
  rcases rtSmemAlloc_firstFit L self hr (by omega) with ⟨hnone, hcall⟩ |
    ⟨h', pre, k, post, rfl, hfit, hcall, A⟩
  · exact iff_of_true ⟨none, h, hcall, serves_none⟩ ⟨hend, Or.inr hnone⟩
  · obtain ⟨hblock, hroom⟩ := A.serves
    by_cases hle : size ≤ 2 ^ 32 - 4
    · refine iff_of_true ⟨_, h', hcall, fun p hp => ?_⟩ ⟨hend, Or.inl hle⟩
      cases hp
      exact ⟨hblock, Nat.le_trans (le_roundSize hle) hroom⟩
    · refine iff_of_false ?_ ?_
      · rintro ⟨r, h₁, hcall', hserves⟩
        rw [hcall] at hcall'
        cases hcall'
        have := (hserves _ rfl).2
        have := (A.layout.blockSize_lt hblock).2
        omega
      · rintro ⟨_, hle' | hnone⟩
        · exact hle hle'
        · have := (L.firstFit.mp hfit).symm.trans (L.firstFit.mp hnone)
          cases this

-- --------
-- Resizing
-- --------

theorem rtAlign_rtAlign (size : Nat) : rtAlign (rtAlign size) = rtAlign size :=
  rtAlign_of_mod (rtAlign_mod size) (rtAlign_lt size)

theorem rtAlign_le_word (size : Nat) : rtAlign size ≤ 2 ^ 32 - 4 := by
  have hlt := rtAlign_lt size
  have hmod := rtAlign_mod size
  omega

theorem le_rtAlign (hs : size < 2 ^ 32) (hne : rtAlign size ≠ 0) : size ≤ rtAlign size := by
  by_cases hle : size ≤ 2 ^ 32 - 4
  · exact (rtAlign_of_le hle).1
  · exact absurd (rtAlign_wrap (by omega) hs) hne

/-- **Resizing the null pointer** serves a request unless the search never ends. -/
theorem rtSmemRealloc_meets_null (L : Layout h l) (self : Option (List UInt8))
    (hsize : size < 2 ^ 32) :
    ReallocMeets h self none size ↔ ¬ Endless h (rtAlign size) := by
  by_cases hr : Refused h (rtAlign size)
  · refine iff_of_true ⟨none, h, ?_, serves_none, by simp⟩ fun he => he.1 hr
    rw [rtSmemRealloc]
    rw [Refused, rtAlign_rtAlign] at hr
    by_cases hbig : rtAlign size > h.memSizeAligned
    · exact if_pos hbig
    · rw [if_neg hbig, if_pos (hr.resolve_right hbig)]
      rfl
  have hcall : h.rtSmemRealloc self none size = h.rtSmemAlloc self (rtAlign size) := by
    rw [Refused, not_or, rtAlign_rtAlign] at hr
    rw [rtSmemRealloc, if_neg hr.2, if_neg hr.1]
  have halloc := rtSmemAlloc_meets L self (rtAlign_lt size)
  rw [and_iff_left (Or.inl (rtAlign_le_word size))] at halloc
  rw [← halloc, ReallocMeets, AllocMeets, hcall]
  have hle := le_rtAlign hsize (not_or.mp hr).1
  constructor
  · rintro ⟨r, h', hres, hserves, _⟩
    refine halloc.mpr fun hend => ?_
    rw [rtSmemAlloc_diverges L self (not_or.mp hr).1 (by
      have := (not_or.mp hr).2
      omega) hend.2] at hres
    cases hres
  · rintro ⟨r, h', hres, hserves⟩
    refine ⟨r, h', hres, fun p hp => ?_, by simp⟩
    exact ⟨(hserves p hp).1, Nat.le_trans hle (hserves p hp).2⟩

theorem stillThere_refl (hp : IsBlock h p) : StillThere h h p :=
  ⟨hp, fun _ hx => ⟨hx, rfl⟩⟩

/-- **Resizing a block** serves a request, or leaves the block alone, unless the request rounds to
zero, or the search for another block never ends. -/
theorem rtSmemRealloc_meets (L : Layout h (pre ++ ⟨n, true⟩ :: post))
    (self : Option (List UInt8)) (hsize : size < 2 ^ 32) :
    ReallocMeets h self (some (h.item (span pre) + 16)) size ↔
      size ≤ 2 ^ 32 - 4 ∧
        ¬ (Endless h (rtAlign size) ∧ rtAlign size ≠ blockSize h (h.item (span pre) + 16)) := by
  have hb : (span pre, n) ∈ blocks 0 (pre ++ ⟨n, true⟩ :: post) := by simp
  have hblock : IsBlock h (h.item (span pre) + 16) := L.isBlock.mpr ⟨_, _, hb, rfl⟩
  have hn := L.payload _ hb
  have hspan := L.span_eq
  rw [span_append, span_cons] at hspan
  rw [L.blockSize_eq hb]
  dsimp only at hn hspan
  by_cases hend : Endless h (rtAlign size) ∧ rtAlign size ≠ n - 16
  · -- the block cannot be cut in such a heap, so another one is searched for
    refine iff_of_false ?_ fun hc => hc.2 hend
    obtain ⟨⟨hr, hsmall⟩, hne⟩ := hend
    rw [Refused, not_or, rtAlign_rtAlign] at hr
    rintro ⟨r, h', hres, _⟩
    rw [rtSmemRealloc_live L self hr.1 (Nat.le_of_not_lt hr.2), if_neg (Ne.symm hne),
      if_neg (by omega), moveItem,
      rtSmemAlloc_diverges L self hr.1 (by rw [rtAlign_rtAlign]; omega) hsmall] at hres
    cases hres
  rw [and_iff_left hend]
  by_cases hle : size ≤ 2 ^ 32 - 4
  swap
  · -- rounded to zero: the block is gone
    refine iff_of_false ?_ hle
    rintro ⟨r, h', hres, _, hkeep⟩
    have h0 := rtAlign_wrap (by omega) hsize
    rw [rtSmemRealloc] at hres
    dsimp only at hres
    rw [h0, if_neg (by omega), if_pos rfl] at hres
    obtain ⟨h₁, hfree, L₁, hsame, _⟩ := rtSmemFree_spec L
    rw [hfree] at hres
    cases hres
    obtain ⟨o, c, hc, ho⟩ := L₁.isBlock.mp (hkeep rfl (by omega) _ rfl).1
    have hpos := L₁.payload _ hc
    have hoff : o = span pre := by
      unfold item at ho
      have := hsame.heap_eq
      omega
    rw [blocks_release] at hc
    dsimp only at hpos
    rcases List.mem_append.mp hc with hc | hc
    · have := (le_of_mem_blocks hc).2
      dsimp only at this
      omega
    · have := (le_of_mem_blocks hc).1
      dsimp only at this
      omega
  refine iff_of_true ?_ hle
  have hround := (rtAlign_of_le hle).1
  rcases rtSmemRealloc_spec L self size with ⟨hres, _⟩ | ⟨h0, h₁, hres, F⟩ | ⟨heq, hres⟩ |
    ⟨h0, hroom, h₁, hres, S⟩ | ⟨hres, hsmall⟩ |
    ⟨h0, q, h₁, pre', k, post', pre₁, post₁, hres, hl, M⟩
  · exact ⟨_, _, hres, serves_none, fun _ _ p hp => by cases hp; exact stillThere_refl hblock⟩
  · exact ⟨_, _, hres, serves_none, fun _ hne => absurd (by omega) hne⟩
  · refine ⟨_, _, hres, fun p hp => ?_, by simp⟩
    cases hp
    rw [L.blockSize_eq hb]
    exact ⟨hblock, by omega⟩
  · refine ⟨_, _, hres, fun p hp => ?_, by simp⟩
    cases hp
    have hcut := cut_block pre (rtAlign size + 16) n post
    have hitem : h.item (span pre) = h₁.item (span pre) := by rw [item, item, S.same.heap_eq]
    rw [hitem]
    refine ⟨S.layout.isBlock.mpr ⟨_, _, hcut, rfl⟩, ?_⟩
    rw [S.layout.blockSize_eq hcut]
    omega
  · -- the search ends: the request was refused, or the block has the size asked for
    have hr : Refused h (rtAlign size) ∨ rtAlign size = n - 16 := by
      by_contra hcon
      rw [not_or] at hcon
      exact hend ⟨⟨hcon.1, hsmall⟩, hcon.2⟩
    rw [Refused, rtAlign_rtAlign] at hr
    rcases hr with (h0 | hbig) | heq
    · exfalso
      obtain ⟨h₁, hfree, _⟩ := rtSmemFree_spec L
      rw [rtSmemRealloc] at hres
      dsimp only at hres
      rw [if_neg (by omega), if_pos h0, hfree] at hres
      cases hres
    · exfalso
      rw [rtSmemRealloc] at hres
      dsimp only at hres
      rw [if_pos hbig] at hres
      cases hres
    · exfalso
      rw [rtSmemRealloc_live L self (by omega) (by omega), if_pos heq.symm] at hres
      cases hres
  · refine ⟨_, _, hres, fun p hp => ?_, by simp⟩
    cases hp
    obtain ⟨b, hnew, hle', hitem⟩ := M.block hl (by omega)
    have hsz := rtAlign_le_roundSize (rtAlign size)
    rw [rtAlign_rtAlign] at hsz
    rw [hitem]
    refine ⟨M.layout.isBlock.mpr ⟨_, _, hnew, rfl⟩, ?_⟩
    rw [M.layout.blockSize_eq hnew]
    omega

end RTThread.SmallMem
