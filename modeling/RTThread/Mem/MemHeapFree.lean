import RTThread.Mem.MemHeapAlloc

/-!
# Giving a block back to a memory heap

A block that is freed joins a free neighbour in front of it, which is in the
free list already, and a free neighbour behind it, which then leaves the list;
only a block without a free neighbour in front enters the list itself. In every
case the segments become those of `release`, and each header that disappears
adds its size to `available_size`.

Main result: `rtMemheapFree_spec`.
-/

namespace RTThread.Memheap

open ByteMem Tiling CircularList

variable {h h' : Memheap} {p x n : Nat} {u : Bool} {l pre post : List Seg} {S fl : List Nat}

-- --------
-- The neighbours
-- --------

theorem Layout.used_notMem (L : Layout h (pre ++ ⟨n, true⟩ :: post) fl) :
    h.startAddr + span pre ∉ fl := by
  intro hmem
  obtain ⟨pre', n', post', hl, haddr⟩ := L.free_mem hmem
  have hused := L.toTiled.isUsed
  have T := L.toTiled
  rw [hl] at T
  rw [haddr, T.isUsed] at hused
  cases hused

theorem Tiled.next_used (T : Tiled h (pre ++ ⟨n, u⟩ :: post)) :
    h.memheapIsUsed (h.startAddr + span pre + n) = (post.head?.map Seg.used).getD true := by
  cases post with
  | nil =>
    have htail := T.tailer_used
    simpa [Nat.add_assoc] using htail
  | cons s ss =>
    obtain ⟨T', hspan⟩ := T.second
    rw [← hspan, T'.isUsed]
    rfl

/-- The item in front is in use, unless it is a free segment; around the start it is the tailer. -/
theorem Tiled.prev_used (T : Tiled h (pre ++ ⟨n, u⟩ :: post)) :
    h.memheapIsUsed (h.get .prev (h.startAddr + span pre)) =
      (pre.getLast?.map Seg.used).getD true := by
  rcases List.eq_nil_or_concat pre with rfl | ⟨pre', s, rfl⟩
  · have hprev := T.prev_first (by simp)
    rw [span_nil, Nat.add_zero, hprev]
    exact T.tailer_used
  · rw [List.concat_eq_append] at T ⊢
    have T' : Tiled h (pre' ++ ⟨s.len, s.used⟩ :: ⟨n, u⟩ :: post) := by simpa using T
    have hspan : h.startAddr + span (pre' ++ [s]) = h.startAddr + span pre' + s.len := by
      simp [Nat.add_assoc]
    rw [hspan, T'.prev_eq, T'.isUsed]
    simp

/-- Whatever lies behind an item carries the magic number. -/
theorem Tiled.next_magic (T : Tiled h (pre ++ ⟨n, u⟩ :: post)) :
    h.get .magic (h.startAddr + span pre + n) &&& memheapMask = memheapMagic := by
  have hword : ∀ w, magicWord w &&& memheapMask = memheapMagic := by decide
  cases post with
  | nil =>
    have htail := T.tailer.1
    rw [span_append, span_cons, span_nil, Nat.add_zero, ← Nat.add_assoc] at htail
    rw [htail, hword]
  | cons s ss =>
    obtain ⟨T', hspan⟩ := T.second
    rw [← hspan, (Laid.header T'.marks).1, hword]

-- --------
-- The merges
-- --------

@[simp] theorem tryMergeRight_maxUsedSize :
    (h.tryMergeRight p).maxUsedSize = h.maxUsedSize := by
  unfold tryMergeRight mergeRight
  split <;> rfl

@[simp] theorem absorbNext_maxUsedSize : (h.absorbNext p).maxUsedSize = h.maxUsedSize := by
  unfold absorbNext
  split <;> rfl

@[simp] theorem mergeLeft_maxUsedSize : (h.mergeLeft p).maxUsedSize = h.maxUsedSize := rfl

@[simp] theorem mergeLeft_availableSize :
    (h.mergeLeft p).availableSize = Word32.add h.availableSize 28 := rfl

/-- What may lie behind a free block: nothing to merge with, or a free block in the free list.
`as` is what the rest of the heap contributes to the list. -/
theorem next_cases {as : List Nat} (hperm : fl.Perm (as ++ (gaps (p + n) post).map Prod.fst)) :
    ((post.head?.map Seg.used).getD true = true ∧ joinRight n post = ⟨n, false⟩ :: post) ∨
      ∃ k ts fa fb, post = ⟨k, false⟩ :: ts ∧ fl = fa ++ (p + n) :: fb ∧
        (fa ++ fb).Perm (as ++ (gaps (p + (n + k)) ts).map Prod.fst) ∧
        gapBytes (gaps (p + n) post) = (k - 28) + gapBytes (gaps (p + (n + k)) ts) := by
  match post, hperm with
  | [], _ => exact Or.inl ⟨rfl, rfl⟩
  | ⟨k, true⟩ :: ts, _ => exact Or.inl ⟨rfl, rfl⟩
  | ⟨k, false⟩ :: ts, hperm =>
    rw [gaps_cons] at hperm ⊢
    simp only [Bool.false_eq_true, if_false, List.singleton_append, List.map_cons,
      gapBytes_cons, ← Nat.add_assoc] at hperm ⊢
    obtain ⟨fa, fb, rfl⟩ := List.append_of_mem (a := p + n) (hperm.mem_iff.mpr (by simp))
    exact Or.inr ⟨k, ts, fa, fb, rfl, rfl,
      ((List.perm_middle.symm.trans hperm).trans List.perm_middle).cons_inv, rfl⟩

/-- The links after a merge to the right, or after none: the free block is now `n'` bytes long. -/
structure MergedRight (h h' : Memheap) (pre : List Seg) (n : Nat) (post : List Seg)
    (fl as : List Nat) (p n' : Nat) (post' : List Seg) (fl' : List Nat) : Prop where
  join_eq : joinRight n post = ⟨n', false⟩ :: post'
  touch : Touch (h.items (pre ++ ⟨n, false⟩ :: post)) h h'
  linked : Linked h' (pre ++ ⟨n', false⟩ :: post') fl'
  items_sub : h.items (pre ++ ⟨n', false⟩ :: post') ⊆ h.items (pre ++ ⟨n, false⟩ :: post)
  free_sub : ∀ y ∈ fl', y ∈ fl
  free_perm : fl'.Perm (as ++ (gaps (p + n') post').map Prod.fst)

/-- Merging to the right when a block is freed: the header that disappears is counted. `c` is what
the rest of the heap contributes to the free bytes. -/
theorem tryMergeRight_spec {as : List Nat} {c : Nat} (K : Linked h (pre ++ ⟨n, false⟩ :: post) fl)
    (hp : p = h.startAddr + span pre)
    (hperm : fl.Perm (as ++ (gaps (p + n) post).map Prod.fst))
    (havail : h.availableSize = c + (n - 28) + gapBytes (gaps (p + n) post))
    (hlt : h.availableSize + 28 < 2 ^ 32) :
    ∃ n' post' fl', MergedRight h (h.tryMergeRight p) pre n post fl as p n' post' fl' ∧
      (h.tryMergeRight p).availableSize = c + (n' - 28) + gapBytes (gaps (p + n') post') ∧
      h.availableSize ≤ (h.tryMergeRight p).availableSize := by
  have hnext : h.get .next p = p + n := by rw [hp, K.next_eq]
  have hused := K.next_used
  rw [← hp] at hused
  obtain ⟨hn, _⟩ := K.extent
  unfold tryMergeRight
  rw [hnext, hused]
  rcases next_cases hperm with ⟨hnone, hjoin⟩ | ⟨k, ts, fa, fb, rfl, rfl, hrest, hbytes⟩
  · rw [if_neg (by rw [hnone]; decide)]
    exact ⟨n, post, fl, ⟨hjoin, Edit.refl, K, fun y hy => hy, fun y hy => hy, hperm⟩, havail,
      Nat.le_refl _⟩
  · have hk := K.second.1.extent.1
    rw [if_pos (show (Option.map Seg.used (⟨k, false⟩ :: ts : List Seg).head?).getD true = false
      from rfl)]
    obtain ⟨e₁, K₁⟩ := K.available (v := Word32.add h.availableSize memheapSize)
    obtain ⟨e₂, K₂⟩ := K₁.mergeRight (p := p) hp
    rw [e₁.items_eq] at e₂
    have hread : ({ h with availableSize := Word32.add h.availableSize memheapSize } :
        Memheap).get .next p = p + n := hnext
    have hcount : Word32.add h.availableSize memheapSize = h.availableSize + 28 :=
      Word32.add_of_lt hlt
    unfold mergeRight
    dsimp only
    rw [hread]
    refine ⟨n + k, ts, fa ++ fb, ⟨rfl, e₁.comp e₂, K₂, items_join .., fun y hy => mem_middle hy,
      hrest⟩, ?_, ?_⟩
    · show Word32.add h.availableSize memheapSize = _
      rw [hcount]
      omega
    · show h.availableSize ≤ Word32.add h.availableSize memheapSize
      omega

/-- Merging to the right when a block is shrunk: the free block is taken out of the count, with
the split-off end to be counted later. -/
theorem absorbNext_spec {as : List Nat} {c : Nat} (K : Linked h (pre ++ ⟨n, false⟩ :: post) fl)
    (hp : p = h.startAddr + span pre)
    (hperm : fl.Perm (as ++ (gaps (p + n) post).map Prod.fst))
    (havail : h.availableSize = c + gapBytes (gaps (p + n) post))
    (hlt : h.availableSize < 2 ^ 32) :
    ∃ n' post' fl', MergedRight h (h.absorbNext p) pre n post fl as p n' post' fl' ∧
      (h.absorbNext p).availableSize = c + gapBytes (gaps (p + n') post') ∧
      h.availableSize + n ≤ (h.absorbNext p).availableSize + n' := by
  have hnext : h.get .next p = p + n := by rw [hp, K.next_eq]
  have hused := K.next_used
  rw [← hp] at hused
  unfold absorbNext
  rw [hnext, hused]
  rcases next_cases hperm with ⟨hnone, hjoin⟩ | ⟨k, ts, fa, fb, rfl, rfl, hrest, hbytes⟩
  · rw [if_neg (by rw [hnone]; decide)]
    exact ⟨n, post, fl, ⟨hjoin, Edit.refl, K, fun y hy => hy, fun y hy => hy, hperm⟩, havail,
      Nat.le_refl _⟩
  · obtain ⟨T', hspan⟩ := K.second
    have hk := T'.extent.1
    have hsize := T'.size_eq
    rw [hspan, ← hp] at hsize
    rw [if_pos (show (Option.map Seg.used (⟨k, false⟩ :: ts : List Seg).head?).getD true = false
      from rfl)]
    dsimp only
    rw [hsize]
    obtain ⟨e₁, K₁⟩ := K.available (v := Word32.sub h.availableSize (k - 28))
    obtain ⟨e₂, K₂⟩ := K₁.mergeRight (p := p) hp
    rw [e₁.items_eq] at e₂
    have hcount : Word32.sub h.availableSize (k - 28) = h.availableSize - (k - 28) :=
      Word32.sub_of_le (by omega) hlt
    refine ⟨n + k, ts, fa ++ fb, ⟨rfl, e₁.comp e₂, K₂, items_join .., fun y hy => mem_middle hy,
      hrest⟩, ?_, ?_⟩
    · show Word32.sub h.availableSize (k - 28) = _
      rw [hcount]
      omega
    · show _ ≤ Word32.sub h.availableSize (k - 28) + (n + k)
      rw [hcount]
      omega

/-- **Giving a block back.** -/
theorem freeBlock_spec (L : Layout h (pre ++ ⟨n, true⟩ :: post) fl)
    (hx : x = h.startAddr + span pre) :
    ∃ fl', Touch (h.items (pre ++ ⟨n, true⟩ :: post)) h (h.freeBlock x) ∧
      Layout (h.freeBlock x) (release pre n post) fl' := by
  obtain ⟨hpre, hpost⟩ := L.coalesced.sides
  have hcoal := coalesced_release (n := n) hpre hpost
  obtain ⟨hn, htop⟩ := L.extent
  have hle := L.available_le
  have hpool := L.pool_lt_word
  have hused := L.used_le
  have hxn := L.used_notMem
  rw [← hx] at hxn
  -- the block's own bytes and the free ones together are less than the pool
  have hsum : h.availableSize = gapBytes (gaps h.startAddr pre) +
      gapBytes (gaps (h.startAddr + span pre + n) post) := by
    have := L.available_eq
    rw [gaps_append, gaps_cons, if_pos rfl, List.nil_append, gapBytes_append] at this
    exact this
  have hfit : h.availableSize + n + 28 ≤ h.poolSize := by
    have h1 := gapBytes_le_span h.startAddr pre
    have h2 := gapBytes_le_span (h.startAddr + span pre + n) post
    have hspan := L.span_eq
    rw [span_append, span_cons] at hspan
    dsimp only at hspan
    omega
  have hperm := L.free_perm
  rw [gaps_append, gaps_cons, if_pos rfl, List.nil_append, List.map_append] at hperm
  dsimp only at hperm
  -- marked free, and counted
  obtain ⟨e₁, K₁⟩ := L.linked.mark false hx
  have hitems : h.items (pre ++ ⟨n, true⟩ :: post) = h.items (pre ++ ⟨n, false⟩ :: post) := by
    rw [items, items, edges_item, edges_item]
  rw [hitems] at e₁ ⊢
  have hsize : (h.set .magic x (magicWord false)).memitemSize x = n - 28 := by
    rw [hx]
    exact (hx ▸ K₁.toTiled).size_eq
  have hcount : Word32.add (h.set .magic x (magicWord false)).availableSize (n - 28) =
      h.availableSize + (n - 28) := by
    rw [set_availableSize, Word32.add_of_lt (by omega)]
  obtain ⟨e₂, K₂⟩ := K₁.available (v := h.availableSize + (n - 28))
  obtain ⟨h₂, hh₂⟩ : ∃ h₂ : Memheap, h₂ = { h.set .magic x (magicWord false) with
    availableSize := h.availableSize + (n - 28) } := ⟨_, rfl⟩
  have havail₂ : h₂.availableSize = h.availableSize + (n - 28) := by rw [hh₂]
  have hmax₂ : h₂.maxUsedSize = h.maxUsedSize := by rw [hh₂]; rfl
  rw [← hh₂, e₁.items_eq] at e₂
  rw [← hh₂] at K₂
  have E₂ := e₁.comp e₂
  have hx₂ : x = h₂.startAddr + span pre := by rw [E₂.startAddr_eq, hx]
  have hprev := K₂.prev_used
  rw [← hx₂] at hprev
  have hfree : h.freeBlock x =
      if h₂.memheapIsUsed (h₂.get .prev x) = false then
        ((h₂.mergeLeft x).tryMergeRight ((h₂.mergeLeft x).get .prev x)).setOwnerThreadName
          ((h₂.mergeLeft x).get .prev x) blankName
      else ((h₂.tryMergeRight x).insertHeader x).setOwnerThreadName x blankName := by
    rw [freeBlock]
    dsimp only
    rw [hsize, hcount, ← hh₂]
  rw [hfree, hprev]
  by_cases hleft : (pre.getLast?.map Seg.used).getD true = false
  · -- the neighbour in front takes the block in
    rw [if_pos hleft]
    obtain ⟨pre', k, rfl⟩ : ∃ pre' k, pre = pre' ++ [⟨k, false⟩] := by
      rcases List.eq_nil_or_concat pre with rfl | ⟨pre', ⟨k, w⟩, rfl⟩
      · simp at hleft
      · rw [List.concat_eq_append] at hleft ⊢
        simp only [List.getLast?_append, List.getLast?_singleton, Option.some_or, Option.map_some,
          Option.getD_some] at hleft
        exact ⟨pre', k, by rw [hleft]⟩
    have hl : ∀ w, (pre' ++ [⟨k, false⟩]) ++ ⟨n, w⟩ :: post =
        pre' ++ ⟨k, false⟩ :: ⟨n, w⟩ :: post := fun w => by simp
    rw [hl] at K₂ E₂
    obtain ⟨q, hq⟩ : ∃ q, q = h₂.startAddr + span pre' := ⟨_, rfl⟩
    have hxq : x = q + k := by
      rw [hx₂, hq, span_append, span_cons, span_nil]
      dsimp only
      omega
    have hk : 40 ≤ k := K₂.extent.1
    obtain ⟨e₃, K₃⟩ := K₂.mergeLeft hq (by rw [← hxq]; exact hxn)
    obtain ⟨_, _, hback, _⟩ := mergeLeft_spec K₂.toTiled
    rw [← hq, ← hxq] at hback
    rw [← hxq, E₂.items_eq] at e₃
    rw [← hxq] at K₃
    rw [hback]
    have E₃ := E₂.comp e₃
    have hstart : h.startAddr + span pre' = q := by rw [hq, E₂.startAddr_eq]
    rw [span_append, span_cons, span_nil] at hperm hsum
    simp only [gaps_append, gaps_cons, gaps_nil, Bool.false_eq_true, if_false, List.append_nil,
      List.map_append, List.map_cons, List.map_nil, gapBytes_append, gapBytes_cons,
      gapBytes_nil, hstart] at hperm hsum
    rw [show h.startAddr + (span pre' + (k + 0)) + n = q + (k + n) by omega] at hperm hsum
    have hq₃ : q = (h₂.mergeLeft x).startAddr + span pre' := by
      rw [e₃.startAddr_eq, E₂.startAddr_eq, hstart]
    have havail₃ : (h₂.mergeLeft x).availableSize = h.availableSize + (n - 28) + 28 := by
      rw [mergeLeft_availableSize, havail₂, Word32.add_of_lt (by omega)]
    obtain ⟨n', post', fl', ⟨hjoin, e₄, K₄, hsub₄, _, hperm₄⟩, havail₄, hmono⟩ :=
      tryMergeRight_spec (c := gapBytes (gaps h.startAddr pre')) K₃ hq₃ hperm
        (by rw [havail₃, hsum]; omega) (by omega)
    rw [E₃.items_eq] at e₄
    rw [E₃.items_eq, E₃.items_eq] at hsub₄
    have hjoined := items_join h pre' k n false false false post
    have E₄ := E₃.comp (e₄.widen hjoined)
    obtain ⟨e₅, K₅⟩ := K₄.name (x := q) blankName (by
      rw [E₄.items_eq, ← hstart]
      exact (item_mem ..).1)
    rw [E₄.items_eq] at e₅
    have E₅ := E₄.comp (e₅.widen (List.Subset.trans hsub₄ hjoined))
    rw [release_free, hjoin] at hcoal ⊢
    rw [hl]
    refine ⟨fl', E₅, K₅.layout ?_ ?_ ?_ hcoal⟩
    · rw [E₅.startAddr_eq, gaps_append, gaps_cons, hstart]
      simpa using hperm₄
    · rw [E₅.startAddr_eq, setOwnerThreadName_availableSize, havail₄, gaps_append, gaps_cons,
        hstart]
      simp [Nat.add_assoc]
    · rw [E₅.poolSize_eq, setOwnerThreadName_availableSize, setOwnerThreadName_maxUsedSize,
        tryMergeRight_maxUsedSize, mergeLeft_maxUsedSize, hmax₂]
      omega
  · -- the block enters the free list
    rw [if_neg hleft]
    have hlast : ∀ s ∈ pre.getLast?, s.used = true := by
      intro s hs
      rw [Option.mem_def] at hs
      rw [hs] at hleft
      simpa using hleft
    have hstart : h.startAddr + span pre = x := hx.symm
    rw [hstart] at hperm hsum
    obtain ⟨n', post', fl', ⟨hjoin, e₃, K₃, hsub₃, hsub, hperm₃⟩, havail₃, hmono⟩ :=
      tryMergeRight_spec (c := gapBytes (gaps h.startAddr pre)) K₂ hx₂ hperm
        (by rw [havail₂, hsum]; omega) (by omega)
    rw [E₂.items_eq] at e₃
    rw [E₂.items_eq, E₂.items_eq] at hsub₃
    have E₃ := E₂.comp e₃
    have hxe : x ∈ edges h.startAddr (pre ++ ⟨n', false⟩ :: post') := by
      rw [edges_item, hstart]
      simp
    obtain ⟨e₄, K₄⟩ := K₃.insertHeader (x := x) (by rw [E₃.startAddr_eq]; exact hxe)
      fun hmem => hxn (hsub x hmem)
    rw [E₃.items_eq] at e₄
    have E₄ := E₃.comp (e₄.widen hsub₃)
    obtain ⟨e₅, K₅⟩ := K₄.name (x := x) blankName (by
      rw [E₄.items_eq]
      exact edge_mem_items hxe)
    rw [E₄.items_eq] at e₅
    have E₅ := E₄.comp (e₅.widen hsub₃)
    rw [release_used hlast, hjoin] at hcoal ⊢
    refine ⟨x :: fl', E₅, K₅.layout ?_ ?_ ?_ hcoal⟩
    · rw [E₅.startAddr_eq, gaps_append, gaps_cons, hstart]
      simp only [Bool.false_eq_true, if_false, List.singleton_append, List.map_append,
        List.map_cons]
      exact (hperm₃.cons x).trans List.perm_middle.symm
    · rw [E₅.startAddr_eq, setOwnerThreadName_availableSize, insertHeader_availableSize, havail₃,
        gaps_append, gaps_cons, hstart]
      simp [Nat.add_assoc]
    · rw [E₅.poolSize_eq, setOwnerThreadName_availableSize, setOwnerThreadName_maxUsedSize,
        insertHeader_availableSize, insertHeader_maxUsedSize, tryMergeRight_maxUsedSize, hmax₂]
      omega

-- --------
-- The call
-- --------

/-- The block of `n` bytes behind `pre` was given back. -/
structure Freed (h : Memheap) (pre : List Seg) (n : Nat) (post : List Seg) (h' : Memheap) :
    Prop where
  touch : Touch (h.items (pre ++ ⟨n, true⟩ :: post)) h h'
  layout : ∃ fl', Layout h' (release pre n post) fl'

/-- **`rt_memheap_free`** of a block. -/
theorem rtMemheapFree_spec (L : Layout h (pre ++ ⟨n, true⟩ :: post) fl)
    (hx : x = h.startAddr + span pre + 28) :
    ∃ h', h.rtMemheapFree (some x) = .ok h' ∧ Freed h pre n post h' := by
  obtain ⟨hn, htop⟩ := L.extent
  have hheader : Word32.sub x memheapSize = h.startAddr + span pre := by
    rw [hx, Word32.sub_of_le (show 28 ≤ h.startAddr + span pre + 28 by omega) (by omega)]
    exact Nat.add_sub_cancel _ _
  obtain ⟨hmagic, hpool⟩ := Laid.header L.marks
  obtain ⟨fl', e, L'⟩ := freeBlock_spec L rfl
  refine ⟨_, ?_, e, fl', L'⟩
  rw [rtMemheapFree, hheader, rtAssert_bind hmagic, L.next_eq, rtAssert_bind L.next_magic,
    rtAssert_bind hpool]
  rfl

end RTThread.Memheap
