import RTThread.Mem.MemHeapFree

/-!
# Resizing a block of a memory heap

`rt_memheap_realloc` has two ways to keep a block in place. It grows into a
free block behind by removing that block and building a smaller one further on
(`growBlock_spec`), and it shrinks by splitting and giving the end back
(`shrinkBlock_spec`). Otherwise it keeps a block that is large enough, or
allocates, copies and frees (`moved_spec`).

The test for growing adds twelve bytes to the request before it compares. For
the three largest rounded requests that sum wraps, and the test succeeds for
every free block behind: `canGrow_wrap`. The specification
`rtMemheapRealloc_spec` is about the other requests.
-/

namespace RTThread.Memheap

open ByteMem Tiling CircularList

variable {h h' : Memheap} {p q x n k need size : Nat} {u : Bool} {l pre post : List Seg}
  {S fl : List Nat}

-- --------
-- Payloads
-- --------

theorem edge_apart {off : Nat} (hx : x ∈ edges off (pre ++ ⟨n, u⟩ :: post)) :
    x ≤ off + span pre ∨ off + span pre + n ≤ x := by
  rw [edges_item] at hx
  rcases List.mem_append.mp hx with hx | hx
  · have hb : x ∈ edges off pre := by
      rw [edges_eq]
      exact List.mem_append_left _ hx
    exact Or.inl (edge_bounds hb).2
  · rcases List.mem_cons.mp hx with hx | hx
    · exact Or.inl (le_of_eq hx)
    · exact Or.inr (edge_bounds hx).1

/-- Items do not reach into the payload of a block. -/
theorem Geometry.item_payload (G : Geometry h (pre ++ ⟨n, u⟩ :: post))
    (h1 : h.startAddr + span pre + 28 ≤ x) (h2 : x < h.startAddr + span pre + n) :
    ∀ a ∈ h.items (pre ++ ⟨n, u⟩ :: post), x < a ∨ a + 28 ≤ x := by
  intro a ha
  have hspan := G.span_eq
  rw [span_append, span_cons] at hspan
  dsimp only at hspan
  rcases List.mem_cons.mp ha with rfl | ha
  · have := G.header_apart
    omega
  · have := edge_apart ha
    omega

/-- Memory that agrees on the items has the same layout. -/
theorem Layout.congr {m' : ByteMem} (L : Layout h l fl)
    (hkeep : ∀ a ∈ h.items l, ∀ f, Memheap.get { h with mem := m' } f a = h.get f a) :
    Layout { h with mem := m' } l fl := by
  have hedge : ∀ a ∈ edges h.startAddr l, ∀ f,
      Memheap.get { h with mem := m' } f a = h.get f a :=
    fun a ha f => hkeep a (edge_mem_items ha) f
  have hring : ∀ a ∈ h.freeHeader :: fl, ∀ f,
      Memheap.get { h with mem := m' } f a = h.get f a :=
    fun a ha f => hkeep a (L.linked.ring_sub a ha) f
  have hmark : ∀ a ∈ edges h.startAddr l, ∀ w, Marked h a w →
      Marked { h with mem := m' } a w := fun a ha w M =>
    ⟨(hedge a ha _).trans M.1, (hedge a ha _).trans M.2⟩
  exact
    { sized := L.sized
      span_eq := L.span_eq
      top := L.top
      header_apart := L.header_apart
      header_top := L.header_top
      blockList_eq := L.blockList_eq
      freeList_eq := L.freeList_eq
      blocks := L.blocks.congr (fun a ha => hedge a ha _) fun a ha => hedge a ha _
      marks := L.marks.imp_starts fun _ a ha s M => hmark a (by
        rw [edges_eq]
        exact List.mem_append_left _ ha) _ M
      tailer := hmark _ (by simp [edges_eq]) _ L.tailer
      free := Circular.congr L.free (fun a ha => hring a ha _) fun a ha => hring a ha _
      free_perm := L.free_perm
      available_eq := L.available_eq
      used_le := L.used_le
      coalesced := L.coalesced }

theorem Layout.write (m' : ByteMem) (L : Layout h (pre ++ ⟨n, u⟩ :: post) fl)
    (hm : ∀ x, (x < h.startAddr + span pre + 28 ∨ h.startAddr + span pre + n ≤ x) →
      m' x = h.mem x) : Layout { h with mem := m' } (pre ++ ⟨n, u⟩ :: post) fl := by
  refine L.congr fun a ha f => load32_congr fun i hi => hm _ ?_
  have hf := f.offset_le
  by_contra hin
  rcases L.toGeometry.item_payload (x := a + f.offset + i) (by omega) (by omega) a ha with h | h
  · omega
  · omega

theorem Touch.payload (e : Touch (h.items (pre ++ ⟨n, u⟩ :: post)) h h')
    (G : Geometry h (pre ++ ⟨n, u⟩ :: post)) (h1 : h.startAddr + span pre + 28 ≤ x)
    (h2 : x < h.startAddr + span pre + n) : h'.mem x = h.mem x :=
  e.frame x (G.item_payload h1 h2)

/-- The payload of the block of length `c` at the offset `o` is the same in both heaps. -/
def SamePayload (h h' : Memheap) (o c : Nat) : Prop :=
  ∀ x, h.startAddr + o + 28 ≤ x → x < h.startAddr + o + c → h'.mem x = h.mem x

theorem Touch.block {o c : Nat} (e : Touch (h.items l) h h') (G : Geometry h l)
    (hb : (o, c) ∈ blocks 0 l) : SamePayload h h' o c := by
  obtain ⟨pre, post, rfl, ho⟩ := mem_blocks.mp hb
  rw [Nat.zero_add] at ho
  subst ho
  exact fun x h1 h2 => e.payload G h1 h2

theorem Touch.block_after {o c : Nat} (e : Touch (h.items l) h h') (G : Geometry h' l)
    (hb : (o, c) ∈ blocks 0 l) : SamePayload h h' o c := by
  obtain ⟨pre, post, rfl, ho⟩ := mem_blocks.mp hb
  rw [Nat.zero_add] at ho
  subst ho
  rw [← e.items_eq] at e
  intro x h1 h2
  rw [← e.startAddr_eq] at h1 h2
  exact e.frame x (G.item_payload h1 h2)

-- --------
-- In place
-- --------

theorem coalesced_resize {k' : Nat} (hc : Coalesced (⟨k, u⟩ :: post)) :
    Coalesced (⟨k', u⟩ :: post) := by
  cases post with
  | nil => exact List.isChain_singleton _
  | cons s ss => exact List.isChain_cons_cons.mpr (List.isChain_cons_cons.mp hc)

/-- Blocks and joints after growing a block to `c` bytes into the free block of `k` bytes behind. -/
def grown (pre : List Seg) (n c k : Nat) (post : List Seg) : List Seg :=
  pre ++ ⟨c, true⟩ :: ⟨n + k - c, false⟩ :: post

/-- **Growing** into the free block behind. -/
theorem growBlock_spec (L : Layout h (pre ++ ⟨n, true⟩ :: ⟨k, false⟩ :: post) fl)
    (hp : p = h.startAddr + span pre) (hneed : n < need + 28) (hroom : need + 68 ≤ n + k) :
    ∃ fl', Touch (h.items (pre ++ ⟨n, true⟩ :: ⟨k, false⟩ :: post) ++
          h.items (grown pre n (need + 28) k post)) h (h.growBlock (p + 28) p (n - 28) need) ∧
      Layout (h.growBlock (p + 28) p (n - 28) need) (grown pre n (need + 28) k post) fl' := by
  have K := L.linked
  obtain ⟨hn, htop⟩ := L.extent
  have hk := L.second.1.extent.1
  have hle := L.available_le
  have hpool := L.pool_lt_word
  -- the free block behind, in the free list and in the count
  have hperm := L.free_perm
  have hsum := L.available_eq
  have haddr : h.startAddr + span pre + n = p + n := by rw [hp]
  simp only [gaps_append, gaps_cons, if_true, Bool.false_eq_true, if_false, List.nil_append,
    List.singleton_append, List.map_append, List.map_cons, gapBytes_append, gapBytes_cons,
    haddr] at hperm hsum
  obtain ⟨fa, fb, rfl⟩ := List.append_of_mem (a := p + n) (hperm.mem_iff.mpr (by simp))
  have hrest := ((List.perm_middle.symm.trans hperm).trans List.perm_middle).cons_inv
  rw [span_cons] at htop
  dsimp only at htop
  have hsub₁ : Word32.sub need (n - 28) = need + 28 - n := by
    rw [Word32.sub_of_le (by omega) (by omega)]
    omega
  have hsub₂ : Word32.sub h.availableSize (need + 28 - n) = h.availableSize - (need + 28 - n) :=
    Word32.sub_of_le (by omega) (by omega)
  have hadd : Word32.add (p + 28) need = p + (need + 28) := by
    rw [Word32.add_of_lt (by omega)]
    omega
  have hnext : h.get .next p = p + n := by rw [hp, L.next_eq]
  obtain ⟨e₁, K₁⟩ := K.setAvailable (v := h.availableSize - (need + 28 - n))
  obtain ⟨e₂, K₂⟩ := K₁.removeNextPtr (p := p) (by rw [e₁.startAddr_eq, hp])
  rw [e₁.items_eq] at e₂
  have E₂ := e₁.comp e₂
  obtain ⟨e₃, K₃⟩ := K₂.split (c := need + 28) (p := p) (by rw [E₂.startAddr_eq, hp]) (by omega)
    (by omega)
  rw [E₂.items_eq] at e₃
  have hall : ∀ y ∈ fa ++ fb, p + (need + 28) ≠ y := by
    rintro y hy rfl
    have hedge := K₂.sub _ hy
    rw [E₂.startAddr_eq, hp] at hedge
    exact split_notMem (by omega) (by omega) hedge
  obtain ⟨S, hS⟩ : ∃ S, S = h.items (pre ++ ⟨n, true⟩ :: ⟨k, false⟩ :: post) ++
      h.items (grown pre n (need + 28) k post) := ⟨_, rfl⟩
  have hS₁ : h.items (pre ++ ⟨n, true⟩ :: ⟨k, false⟩ :: post) ⊆ S := by
    rw [hS]
    exact List.subset_append_left _ _
  have hS₂ : h.items (grown pre n (need + 28) k post) ⊆ S := by
    rw [hS]
    exact List.subset_append_right _ _
  have E₃ : Touch S h _ := (E₂.widen hS₁).comp (e₃.widen hS₂)
  obtain ⟨e₄, K₄⟩ := K₃.insertFree (x := p + (need + 28)) (by
    rw [E₃.startAddr_eq, hp]
    exact (edges_split true (by omega) _).mpr (Or.inl rfl)) fun hmem => hall _ hmem rfl
  rw [E₃.items_eq] at e₄
  have E₄ := E₃.comp (e₄.widen hS₂)
  obtain ⟨hset₁, hset₂, _⟩ := setAvailable_spec (h := h)
    (v := h.availableSize - (need + 28 - n)) (by omega) hpool
  have heq : h.growBlock (p + 28) p (n - 28) need =
      (((h.setAvailable (h.availableSize - (need + 28 - n))).removeNextPtr (p + n)).splitBlock p
        (p + (need + 28))).insertFree (p + (need + 28)) := by
    rw [growBlock, hsub₁, hsub₂, hadd, hnext]
  have hcoal : Coalesced (grown pre n (need + 28) k post) := by
    obtain ⟨hpre, hpost⟩ := L.coalesced.sides
    exact (coalesced_used rfl).mpr ⟨hpre, coalesced_resize hpost⟩
  have hend : p + (need + 28) + (n + k - (need + 28)) = p + n + k := by omega
  rw [← hS, heq]
  refine ⟨_, E₄, K₄.layout ?_ ?_ ?_ hcoal⟩
  · rw [E₄.startAddr_eq, gaps_append, gaps_cons, gaps_cons, ← hp]
    simp only [if_true, Bool.false_eq_true, if_false, List.nil_append, List.singleton_append,
      List.map_append, List.map_cons, hend]
    exact (hrest.cons _).trans List.perm_middle.symm
  · rw [E₄.startAddr_eq, gaps_append, gaps_cons, gaps_cons, ← hp]
    simp only [if_true, Bool.false_eq_true, if_false, List.nil_append, List.singleton_append,
      gapBytes_append, gapBytes_cons, hend]
    show (h.setAvailable _).availableSize = _
    rw [hset₁]
    omega
  · rw [E₄.poolSize_eq]
    show h.poolSize ≤ (h.setAvailable _).maxUsedSize + (h.setAvailable _).availableSize
    rw [hset₁]
    exact hset₂

/-- **Shrinking** to `c` bytes: the end of the block is given back. -/
theorem shrinkBlock_spec {c : Nat} (L : Layout h (pre ++ ⟨n, true⟩ :: post) fl)
    (hp : p = h.startAddr + span pre) (hneed : 12 ≤ need) (hc : c = need + 28)
    (hroom : c + 40 ≤ n) :
    ∃ fl', Touch (h.items (pre ++ ⟨c, true⟩ :: ⟨n - c, false⟩ :: post)) h
        (h.shrinkBlock p need) ∧
      Layout (h.shrinkBlock p need) (release (pre ++ [⟨c, true⟩]) (n - c) post) fl' := by
  have K := L.linked
  obtain ⟨hn, htop⟩ := L.extent
  have hle := L.available_le
  have hpool := L.pool_lt_word
  have hused := L.used_le
  obtain ⟨hpre, hpost⟩ := L.coalesced.sides
  have hcoal := coalesced_release (n := n - c) ((coalesced_used (s := ⟨c, true⟩) rfl).mpr
    ⟨hpre, List.isChain_nil⟩) hpost
  have hperm := L.free_perm
  have hsum := L.available_eq
  have hend : p + c + (n - c) = p + n := by omega
  have haddr : h.startAddr + span pre + n = p + c + (n - c) := by rw [hend, hp]
  simp only [gaps_append, gaps_cons, if_true, List.nil_append, List.map_append,
    gapBytes_append, haddr] at hperm hsum
  have hfit : h.availableSize + n + 28 ≤ h.poolSize := by
    have h1 := gapBytes_le_span h.startAddr pre
    have h2 := gapBytes_le_span (p + c + (n - c)) post
    have hspan := L.span_eq
    rw [span_append, span_cons] at hspan
    dsimp only at hspan
    omega
  have hnew : Word32.add (Word32.add p need) memheapSize = p + c := by
    rw [Word32.add_of_lt (show p + need < 2 ^ 32 by omega), Word32.add_of_lt
      (show p + need + 28 < 2 ^ 32 by omega), hc]
    exact Nat.add_assoc ..
  have hnewn : p + c ∉ fl := by
    intro hmem
    have hedge := K.sub _ hmem
    rw [hp] at hedge
    exact split_notMem (by omega) (by omega) hedge
  -- the block is split, its end being a free item that no list names
  obtain ⟨e₁, K₁⟩ := K.split hp (show 40 ≤ c by omega) hroom
  have hl : ∀ w ts, pre ++ ⟨c, true⟩ :: ⟨w, false⟩ :: ts =
      (pre ++ [⟨c, true⟩]) ++ ⟨w, false⟩ :: ts := fun w ts => by simp
  rw [hl] at K₁ e₁ ⊢
  have hspan : h.startAddr + span (pre ++ [⟨c, true⟩]) = p + c := by
    rw [hp]
    simp [Nat.add_assoc]
  have hx : p + c = (h.splitBlock p (p + c)).startAddr + span (pre ++ [⟨c, true⟩]) := by
    rw [e₁.startAddr_eq, hspan]
  -- it may take in the block behind it
  obtain ⟨n', post', fl', ⟨hjoin, e₂, K₂, hsub₂, hfree, hperm₂⟩, havail₂, hmono⟩ :=
    absorbNext_spec (c := gapBytes (gaps h.startAddr pre)) K₁ hx hperm hsum
      (by rw [splitBlock_availableSize]; omega)
  rw [e₁.items_eq] at e₂
  rw [e₁.items_eq, e₁.items_eq] at hsub₂
  have E₂ := e₁.comp e₂
  have hxe : p + c ∈ edges h.startAddr ((pre ++ [⟨c, true⟩]) ++ ⟨n', false⟩ :: post') := by
    rw [edges_item, hspan]
    simp
  -- and enters the free list
  obtain ⟨e₃, K₃⟩ := K₂.insertFree (x := p + c) (by rw [E₂.startAddr_eq]; exact hxe)
    fun hmem => hnewn (hfree _ hmem)
  rw [E₂.items_eq] at e₃
  have E₃ := E₂.comp (e₃.widen hsub₂)
  have hsize : (((h.splitBlock p (p + c)).absorbNext (p + c)).insertFree (p + c)).memitemSize
      (p + c) = n' - 28 := by
    have hs := K₃.size_eq
    rwa [E₃.startAddr_eq, hspan] at hs
  have hbound : n' + gapBytes (gaps (p + c + n') post') ≤ n - c + span post := by
    have h1 := gapBytes_le_span (p + c + n') post'
    have h2 := span_joinRight (n - c) post
    rw [hjoin, span_cons] at h2
    dsimp only at h2
    omega
  have hlen : 40 ≤ n' := K₂.extent.1
  have hcount : Word32.add (((h.splitBlock p (p + c)).absorbNext (p + c)).insertFree
      (p + c)).availableSize (n' - 28) =
      gapBytes (gaps h.startAddr pre) + (n' - 28) + gapBytes (gaps (p + c + n') post') := by
    have h1 := gapBytes_le_span h.startAddr pre
    have hspan := L.span_eq
    rw [span_append, span_cons] at hspan
    dsimp only at hspan
    rw [insertFree_availableSize, havail₂, Word32.add_of_lt (by omega)]
    omega
  obtain ⟨e₄, K₄⟩ := K₃.available (v := gapBytes (gaps h.startAddr pre) + (n' - 28) +
    gapBytes (gaps (p + c + n') post'))
  rw [E₃.items_eq] at e₄
  have E₄ := E₃.comp (e₄.widen hsub₂)
  rw [shrinkBlock, hnew, hsize, hcount]
  rw [release_used (by simp), hjoin] at hcoal ⊢
  refine ⟨_, E₄, K₄.layout ?_ ?_ ?_ hcoal⟩
  · rw [E₄.startAddr_eq, gaps_append, gaps_cons, hspan]
    simp only [gaps_append, gaps_cons, gaps_nil, if_true, Bool.false_eq_true, if_false,
      List.append_nil, List.singleton_append, List.map_append, List.map_cons]
    exact (hperm₂.cons _).trans List.perm_middle.symm
  · rw [E₄.startAddr_eq, gaps_append, gaps_cons, hspan]
    simp only [gaps_append, gaps_cons, gaps_nil, if_true, Bool.false_eq_true, if_false,
      List.append_nil, List.singleton_append, gapBytes_append, gapBytes_cons]
    omega
  · rw [E₄.poolSize_eq]
    show h.poolSize ≤ ((h.splitBlock p (p + c)).absorbNext (p + c)).maxUsedSize +
      (gapBytes (gaps h.startAddr pre) + (n' - 28) + gapBytes (gaps (p + c + n') post'))
    rw [absorbNext_maxUsedSize, splitBlock_maxUsedSize]
    rw [splitBlock_availableSize, havail₂] at hmono
    omega

-- --------
-- Moving
-- --------

theorem roundSize_mod (size : Nat) : roundSize size % 4 = 0 := by
  have := rtAlign_mod size
  unfold roundSize
  rw [show memheapMinialloc = 12 from rfl]
  split <;> omega

theorem roundSize_lt (size : Nat) : roundSize size < 2 ^ 32 := by
  have := rtAlign_lt size
  unfold roundSize
  rw [show memheapMinialloc = 12 from rfl]
  split <;> omega

theorem roundSize_idem (size : Nat) : roundSize (roundSize size) = roundSize size := by
  have hge := roundSize_ge size
  rw [roundSize, rtAlign_of_mod (roundSize_mod size) (roundSize_lt size),
    show memheapMinialloc = 12 from rfl, if_neg (by omega)]

/-- What a move leaves behind: the block of length `n` behind `pre` is now a block of at least
`size` bytes at `q`; `pre₁` and `post₁` surround its old place after the allocation. -/
structure Moved (h h' : Memheap) (pre : List Seg) (n q size : Nat) (pre' : List Seg) (k : Nat)
    (post' pre₁ post₁ : List Seg) : Prop where
  layout : ∃ fl', Layout h' (release pre₁ n post₁) fl'
  startAddr_eq : h'.startAddr = h.startAddr
  split_eq : pre' ++ carve (size + 28) 40 k ++ post' = pre₁ ++ ⟨n, true⟩ :: post₁
  span_eq : span pre₁ = span pre
  ptr_eq : q = h.startAddr + span pre' + 28
  fits : size + 28 ≤ k
  copied : ∀ i, i < n - 28 → i < size → h'.mem (q + i) = h.mem (h.startAddr + span pre + 28 + i)
  kept : ∀ o c, (o, c) ∈ blocks 0 (pre' ++ ⟨k, false⟩ :: post') → o ≠ span pre →
    SamePayload h h' o c

/-- **Copying** the block and giving the old one back, after the new one was allocated. -/
theorem moved_spec {c : Nat} {h₁ : Memheap} {pre' post' : List Seg}
    (L : Layout h (pre ++ ⟨n, true⟩ :: post) fl)
    (hl : pre ++ ⟨n, true⟩ :: post = pre' ++ ⟨k, false⟩ :: post')
    (A : Allocated h pre' k post' size q h₁)
    (hc : c = if n - 28 < size then n - 28 else size) :
    ∃ h' pre₁ post₁,
      Memheap.rtMemheapFree { h₁ with mem := h₁.mem.memcpy q (h.startAddr + span pre + 28) c }
        (some (h.startAddr + span pre + 28)) = .ok h' ∧
      Moved h h' pre n q size pre' k post' pre₁ post₁ := by
  obtain ⟨hq, hfit, e₁, fl₁, L₁⟩ := A
  have hstart := e₁.startAddr_eq
  obtain ⟨hn, _⟩ := L.extent
  have hmem : (span pre, n) ∈ blocks 0 (pre' ++ ⟨k, false⟩ :: post') := by
    rw [← hl]
    simp
  obtain ⟨pre₁, post₁, hl₁, hspan⟩ := carve_keeps (size + 28) 40 hmem
  obtain ⟨b, ts, hcarve, hb⟩ := carve_head 40 hfit
  have hl₂ : pre' ++ carve (size + 28) 40 k ++ post' = pre' ++ ⟨b, true⟩ :: (ts ++ post') := by
    rw [hcarve]
    simp
  -- the copy stays in the payload of the new block
  have L₂ := L₁
  rw [hl₂] at L₂
  have L₃ := L₂.write (h₁.mem.memcpy q (h.startAddr + span pre + 28) c) fun x hx => by
    refine memcpy_out ?_
    rw [hq]
    rw [hstart] at hx
    split at hc <;> omega
  have G₂ := L₂.toGeometry
  rw [← hl₂, hl₁] at L₃
  obtain ⟨h', hfree, e₂, fl', L'⟩ := rtMemheapFree_spec (x := h.startAddr + span pre + 28) L₃
    (by rw [← hspan]; exact congrArg (· + span pre + 28) hstart.symm)
  refine ⟨h', pre₁, post₁, hfree,
    { layout := ⟨fl', L'⟩
      startAddr_eq := e₂.startAddr_eq.trans hstart
      split_eq := hl₁
      span_eq := hspan.symm
      ptr_eq := hq
      fits := hfit
      copied := fun i hi hi' => ?_
      kept := fun o d hb hne x h1 h2 => ?_ }⟩
  swap
  · -- another block: neither the items nor the copy reach its payload
    have hb₁ : (o, d) ∈ blocks 0 (pre' ++ carve (size + 28) 40 k ++ post') :=
      (blocks_carve_perm ..).mem_iff.mpr (List.mem_cons_of_mem _ hb)
    have hbeside := block_beside hb (by simp)
    have hsame₁ := Touch.block_after e₁ L₁.toGeometry hb₁
    rw [hl₁] at hb₁
    have hsame₂ := e₂.block L₃.toGeometry hb₁
    rw [← hsame₁ x h1 h2, hsame₂ x (by dsimp only; omega) (by dsimp only; omega)]
    exact memcpy_out (by split at hc <;> omega)
  -- the release and the allocation wrote items only: the payloads are as copied
  have hcopy : h'.mem (q + i) = h₁.mem.memcpy q (h.startAddr + span pre + 28) c (q + i) := by
    refine e₂.frame (q + i) ?_
    rw [← hl₁, hl₂]
    exact G₂.item_payload (by rw [hstart, hq]; omega) (by rw [hstart, hq]; omega)
  have hsrc : h₁.mem (h.startAddr + span pre + 28 + i) =
      h.mem (h.startAddr + span pre + 28 + i) := by
    have G₁ := L₁.toGeometry
    rw [← e₁.items_eq, hl₁] at e₁
    rw [hl₁] at G₁
    exact e₁.frame _ (G₁.item_payload (by rw [hstart, ← hspan]; omega)
      (by rw [hstart, ← hspan]; omega))
  rw [hcopy, memcpy_dst (by split at hc <;> omega), hsrc]

-- --------
-- The call
-- --------

theorem canGrow_eq (hk : k + n < 2 ^ 32) (hneed : need + 12 < 2 ^ 32)
    (hsize : h.memitemSize x = k) : h.canGrow x n need = decide (need + 12 < k + n) := by
  rw [canGrow, hsize, Word32.add_of_lt hk,
    Word32.add_of_lt (show need + memheapMinialloc < 2 ^ 32 from hneed)]

/-- **The wrap-around**: the three largest requests seem to fit into any free block behind. -/
theorem canGrow_wrap (hk : k + n < 2 ^ 32) (hkn : 12 ≤ k ∧ 12 ≤ n) (hneed : 2 ^ 32 ≤ need + 12)
    (hlt : need < 2 ^ 32) (hmod : need % 4 = 0) (hsize : h.memitemSize x = k) :
    h.canGrow x n need = true := by
  rw [canGrow, hsize, Word32.add_of_lt hk,
    Word32.add_of_ge (show 2 ^ 32 ≤ need + memheapMinialloc from hneed)
      (show need + memheapMinialloc < 2 ^ 33 by
        rw [show memheapMinialloc = 12 from rfl]; omega)]
  rw [show memheapMinialloc = 12 from rfl]
  exact decide_eq_true (by omega)

/-- A block that grew in place to `c` bytes. -/
structure Grown (h h' : Memheap) (pre : List Seg) (n c k : Nat) (post : List Seg) : Prop where
  room : n < c ∧ c + 40 < n + k
  touch : Touch (h.items (pre ++ ⟨n, true⟩ :: ⟨k, false⟩ :: post) ++
    h.items (grown pre n c k post)) h h'
  layout : ∃ fl', Layout h' (grown pre n c k post) fl'

/-- A block that shrank in place to `c` bytes. -/
structure Shrunk (h h' : Memheap) (pre : List Seg) (n c : Nat) (post : List Seg) : Prop where
  room : c + 40 < n
  touch : Touch (h.items (pre ++ ⟨c, true⟩ :: ⟨n - c, false⟩ :: post)) h h'
  layout : ∃ fl', Layout h' (release (pre ++ [⟨c, true⟩]) (n - c) post) fl'

/-- The call on a block in use, with the addresses of its layout. -/
theorem rtMemheapRealloc_live (L : Layout h (pre ++ ⟨n, true⟩ :: post) fl)
    (self : Option (List UInt8)) {newsize : Nat} (h0 : newsize ≠ 0) :
    h.rtMemheapRealloc self (some (h.startAddr + span pre + 28)) newsize =
      if roundSize newsize > n - 28 then
        if h.memheapIsUsed (h.startAddr + span pre + n) = false ∧
            h.canGrow (h.startAddr + span pre + n) (n - 28) (roundSize newsize) = true then
          return (some (h.startAddr + span pre + 28),
            h.growBlock (h.startAddr + span pre + 28) (h.startAddr + span pre) (n - 28)
              (roundSize newsize))
        else h.moveBlock self (h.startAddr + span pre + 28) (n - 28) (roundSize newsize)
      else if Word32.add (Word32.add (roundSize newsize) memheapSize) memheapMinialloc ≥ n - 28 then
        return (some (h.startAddr + span pre + 28), h)
      else return (some (h.startAddr + span pre + 28),
        h.shrinkBlock (h.startAddr + span pre) (roundSize newsize)) := by
  obtain ⟨hn, htop⟩ := L.extent
  have hheader : Word32.sub (h.startAddr + span pre + 28) memheapSize = h.startAddr + span pre := by
    rw [Word32.sub_of_le (show 28 ≤ h.startAddr + span pre + 28 by omega)
      (show h.startAddr + span pre + 28 < 2 ^ 32 by omega)]
    exact Nat.add_sub_cancel _ _
  rw [rtMemheapRealloc, if_neg h0]
  dsimp only
  rw [hheader, L.size_eq, L.next_eq, rtAssert_bind (by omega)]

/-- **`rt_memheap_realloc`** of a block in use, for a request that does not wrap the test for
growing into a free block behind: the six ways it ends. -/
theorem rtMemheapRealloc_spec (L : Layout h (pre ++ ⟨n, true⟩ :: post) fl)
    (self : Option (List UInt8)) (newsize : Nat)
    (hno : roundSize newsize + 12 < 2 ^ 32 ∨ (post.head?.map Seg.used).getD true = true) :
    let ptr := h.startAddr + span pre + 28
    let need := roundSize newsize
    -- given back
    (newsize = 0 ∧ ∃ h', h.rtMemheapRealloc self (some ptr) newsize = .ok (none, h') ∧
      Freed h pre n post h') ∨
    (newsize ≠ 0 ∧
      -- kept as it is
      ((need + 28 ≤ n ∧ h.rtMemheapRealloc self (some ptr) newsize = .ok (some ptr, h)) ∨
        -- shrunk in place
        (∃ h', h.rtMemheapRealloc self (some ptr) newsize = .ok (some ptr, h') ∧
          Shrunk h h' pre n (need + 28) post) ∨
        -- grown in place
        (∃ h' k ts, post = ⟨k, false⟩ :: ts ∧
          h.rtMemheapRealloc self (some ptr) newsize = .ok (some ptr, h') ∧
          Grown h h' pre n (need + 28) k ts) ∨
        -- refused
        (n < need + 28 ∧ h.rtMemheapRealloc self (some ptr) newsize = .ok (none, h)) ∨
        -- moved
        (n < need + 28 ∧ ∃ q h' pre' k post' pre₁ post₁,
          h.rtMemheapRealloc self (some ptr) newsize = .ok (some q, h') ∧
          pre ++ ⟨n, true⟩ :: post = pre' ++ ⟨k, false⟩ :: post' ∧
          Moved h h' pre n q need pre' k post' pre₁ post₁))) := by
  intro ptr need
  obtain ⟨hn, htop⟩ := L.extent
  have hge : 12 ≤ need := roundSize_ge newsize
  have hlt : need < 2 ^ 32 := roundSize_lt newsize
  have hmod : need % 4 = 0 := roundSize_mod newsize
  by_cases h0 : newsize = 0
  · obtain ⟨h', hfree, F⟩ := rtMemheapFree_spec L rfl
    refine Or.inl ⟨h0, h', ?_, F⟩
    rw [rtMemheapRealloc, if_pos h0, hfree]
    rfl
  refine Or.inr ⟨h0, ?_⟩
  rw [rtMemheapRealloc_live L self h0]
  by_cases hgrow : need > n - 28
  · rw [if_pos hgrow]
    by_cases hnext : h.memheapIsUsed (h.startAddr + span pre + n) = false ∧
        h.canGrow (h.startAddr + span pre + n) (n - 28) need = true
    · -- into the free block behind
      rw [if_pos hnext]
      obtain ⟨hfree, hcan⟩ := hnext
      rw [L.next_used] at hfree
      obtain ⟨k, ts, rfl⟩ : ∃ k ts, post = ⟨k, false⟩ :: ts := by
        match post, hfree with
        | ⟨k, false⟩ :: ts, _ => exact ⟨k, ts, rfl⟩
      obtain ⟨T', hspan⟩ := L.second
      have hk := T'.extent.1
      have hsize := T'.size_eq
      rw [hspan] at hsize
      rw [span_cons] at htop
      dsimp only at htop
      have hroom : need + 12 < 2 ^ 32 := hno.resolve_right (by simp)
      rw [canGrow_eq (by omega) hroom hsize, decide_eq_true_iff] at hcan
      obtain ⟨fl', e, L'⟩ := growBlock_spec L rfl (show n < need + 28 by omega) (by omega)
      exact Or.inr (Or.inr (Or.inl ⟨_, k, ts, rfl, rfl, ⟨by omega, by omega⟩, e, fl', L'⟩))
    · -- a second block
      rw [if_neg hnext, moveBlock]
      have hidem : roundSize need = need := roundSize_idem newsize
      have hspec := rtMemheapAlloc_spec L self need
      rw [hidem] at hspec
      rcases hspec with ⟨halloc, _⟩ | ⟨_, pre', k, post', q, h₁, hl, halloc, A⟩
      · refine Or.inr (Or.inr (Or.inr (Or.inl ⟨by omega, ?_⟩)))
        rw [halloc]
        rfl
      · obtain ⟨h', pre₁, post₁, hfree, hM⟩ := moved_spec L hl A rfl
        refine Or.inr (Or.inr (Or.inr (Or.inr
          ⟨by omega, q, h', pre', k, post', pre₁, post₁, ?_, hl, hM⟩)))
        rw [halloc]
        show (Memheap.rtMemheapFree _ _ >>= _) = _
        rw [hfree]
        rfl
  · rw [if_neg hgrow]
    have htest : Word32.add (Word32.add need memheapSize) memheapMinialloc = need + 40 := by
      rw [Word32.add_of_lt (show need + 28 < 2 ^ 32 by omega),
        Word32.add_of_lt (show need + 28 + 12 < 2 ^ 32 by omega)]
    rw [htest]
    by_cases hkeep : need + 40 ≥ n - 28
    · rw [if_pos hkeep]
      exact Or.inl ⟨by omega, rfl⟩
    · rw [if_neg hkeep]
      obtain ⟨fl', e, L'⟩ := shrinkBlock_spec (c := need + 28) L rfl hge rfl (by omega)
      exact Or.inr (Or.inl ⟨_, rfl, by omega, e, fl', L'⟩)

-- --------
-- The requests that wrap
-- --------

theorem get_set_word {f g : Field} {a b v : Nat}
    (hw : a + f.offset + 4 ≤ b + g.offset ∨ b + g.offset + 4 ≤ a + f.offset) :
    (h.set f a v).get g b = h.get g b :=
  load32_store32_out (by omega)

theorem get_name_word {g : Field} {a b : Nat} {name : List UInt8}
    (hw : a + 28 ≤ b + g.offset ∨ b + g.offset + 4 ≤ a + 24) :
    (h.setOwnerThreadName a name).get g b = h.get g b := by
  have hname := nameField_length name
  exact load32_storeBytes_out (by omega)

/-- **The defect**: growing by a request that wraps puts the new free item inside the header of
the block itself, whose `next` then points in front of the payload. -/
theorem growBlock_wraps (L : Layout h (pre ++ ⟨n, true⟩ :: ⟨k, false⟩ :: post) fl)
    (hp : p = h.startAddr + span pre) (hneed : 2 ^ 32 ≤ need + 12) (hlt : need < 2 ^ 32)
    (hmod : need % 4 = 0) :
    (h.growBlock (p + 28) p (n - 28) need).get .next p = p + 28 + need - 2 ^ 32 ∧
      (h.growBlock (p + 28) p (n - 28) need).startAddr = h.startAddr ∧
      (h.growBlock (p + 28) p (n - 28) need).poolSize = h.poolSize := by
  have K := L.linked
  obtain ⟨hn, htop⟩ := L.extent
  have hk := L.second.1.extent.1
  rw [span_cons] at htop
  dsimp only at htop
  have hperm := L.free_perm
  have haddr : h.startAddr + span pre + n = p + n := by rw [hp]
  simp only [gaps_append, gaps_cons, if_true, Bool.false_eq_true, if_false, List.nil_append,
    List.singleton_append, List.map_append, List.map_cons, haddr] at hperm
  obtain ⟨fa, fb, rfl⟩ := List.append_of_mem (a := p + n) (hperm.mem_iff.mpr (by simp))
  have hnext : h.get .next p = p + n := by rw [hp, L.next_eq]
  obtain ⟨y, hy⟩ : ∃ y, y = p + 28 + need - 2 ^ 32 := ⟨_, rfl⟩
  have hadd : Word32.add (p + 28) need = y := by
    rw [Word32.add_of_ge (by omega) (by omega), hy]
  -- the free block behind is removed as usual
  obtain ⟨v, hv⟩ : ∃ v, v = Word32.sub h.availableSize (Word32.sub need (n - 28)) := ⟨_, rfl⟩
  obtain ⟨e₁, K₁⟩ := K.setAvailable (v := v)
  obtain ⟨e₂, K₂⟩ := K₁.removeNextPtr (p := p) (by rw [e₁.startAddr_eq, hp])
  rw [e₁.items_eq] at e₂
  have E₂ := e₁.comp e₂
  obtain ⟨h₂, hh₂⟩ : ∃ h₂, h₂ = (h.setAvailable v).removeNextPtr (p + n) := ⟨_, rfl⟩
  rw [← hh₂] at K₂ E₂
  have hp₂ : p = h₂.startAddr + span pre := by rw [E₂.startAddr_eq, hp]
  have hnext₂ : h₂.get .next p = p + (n + k) := by rw [hp₂, K₂.next_eq]
  -- the first cell of the free list is another item
  obtain ⟨a, ha⟩ : ∃ a, a = h₂.freeHeader := ⟨_, rfl⟩
  have hlist : h₂.freeList = a := by rw [ha, K₂.freeList_eq]
  have hpS : p ∈ h₂.items (pre ++ ⟨n + k, true⟩ :: post) := by
    rw [hp₂]
    exact (item_mem ..).1
  have hpfl : p ∉ h₂.freeHeader :: (fa ++ fb) := by
    intro hmem
    rcases List.mem_cons.mp hmem with hmem | hmem
    · refine K₂.toGeometry.header_notMem (l := pre ++ ⟨n + k, true⟩ :: post) ?_
      rw [← hmem, hp₂, edges_item]
      simp
    · have := L.used_notMem
      rw [← hp] at this
      exact this (mem_middle hmem)
  obtain ⟨hf, _⟩ := Circular.next_mem K₂.free (a := h₂.freeHeader) (by simp)
  obtain ⟨b, hb⟩ : ∃ b, b = h₂.get .nextFree a := ⟨_, rfl⟩
  rw [← ha, ← hb] at hf
  have hab : Apart a p :=
    K₂.toGeometry.items_apart a (by rw [ha]; exact K₂.ring_sub _ (by simp)) p hpS
  have hbb : Apart b p :=
    K₂.toGeometry.items_apart b (K₂.ring_sub b (by rw [← ha]; exact hf)) p hpS
  have hap : a ≠ p := fun he => hpfl (by rw [← he, ha]; simp)
  have hbp : b ≠ p := fun he => hpfl (by rw [← he, ← ha]; exact hf)
  have hfar : a + 28 ≤ p ∨ p + n + k ≤ a := by
    have hapart := K₂.header_apart
    have hpool := K₂.span_eq
    rw [span_append, span_cons] at hpool
    dsimp only at hpool
    rw [← ha] at hapart
    omega
  have hyp : p + 16 ≤ y ∧ y ≤ p + 24 := by omega
  -- the header of the new item lies over the old one's, behind its `next`
  have hread : ∀ g : Memheap, g.get .next p = p + (n + k) → ∀ f w,
      (g.set f y w).get .next p = p + (n + k) := by
    intro g hg f w
    rw [get_set_word (by rw [show Field.offset .next = 8 from rfl]; omega), hg]
  have hreadName : ∀ g : Memheap, g.get .next p = p + (n + k) →
      (g.setOwnerThreadName y blankName).get .next p = p + (n + k) := by
    intro g hg
    rw [get_name_word (by rw [show Field.offset .next = 8 from rfl]; omega), hg]
  obtain ⟨g₁, hg₁⟩ : ∃ g₁ : Memheap, g₁ = (((h₂.set .magic y (magicWord false)).set .poolPtr y
      h₂.memheap).setOwnerThreadName y blankName).set .prev y p := ⟨_, rfl⟩
  have hnext₃ : g₁.get .next p = p + (n + k) := by
    rw [hg₁]
    exact hread _ (hreadName _ (hread _ (hread _ hnext₂ _ _) _ _)) _ _
  obtain ⟨h₃, hh₃⟩ : ∃ h₃, h₃ = h₂.splitBlock p y := ⟨_, rfl⟩
  have hsplit : h₃ = ((g₁.set .next y (p + (n + k))).set .prev (p + (n + k)) y).set .next p y := by
    rw [hh₃, splitBlock]
    dsimp only [set_memheap]
    rw [← hg₁, hnext₃, hread _ hnext₃]
  -- none of these stores reaches the first cell of the free list
  have hsame : ∀ (g : Memheap) (f : Field) (z w : Nat), p ≤ z → z ≤ p + 24 →
      (g.set f z w).get .nextFree a = g.get .nextFree a := by
    intro g f z w hlow hhigh
    refine get_set_word ?_
    rw [show Field.offset .nextFree = 16 from rfl]
    have hf := f.offset_le
    omega
  have hsameName : ∀ g : Memheap,
      (g.setOwnerThreadName y blankName).get .nextFree a = g.get .nextFree a := by
    intro g
    refine get_name_word ?_
    rw [show Field.offset .nextFree = 16 from rfl]
    omega
  have hqS : p + (n + k) ∈ h₂.items (pre ++ ⟨n + k, true⟩ :: post) := by
    rw [hp₂]
    exact (item_mem ..).2
  have hqa : Apart (p + (n + k)) a :=
    K₂.toGeometry.items_apart _ hqS a (by rw [ha]; exact K₂.ring_sub _ (by simp))
  have hfree₃ : h₃.get .nextFree a = b := by
    rw [hsplit, hsame _ _ _ _ (by omega) (by omega), get_set hqa (by omega),
      if_neg (fun he => absurd he.1 (by decide)), hsame _ _ _ _ (by omega) (by omega), hg₁,
      hsame _ _ _ _ (by omega) (by omega), hsameName, hsame _ _ _ _ (by omega) (by omega),
      hsame _ _ _ _ (by omega) (by omega), ← hb]
  -- and the insertion writes behind it, or to other items
  have hlist₃ : h₃.freeList = a := by
    rw [hsplit, hg₁, ← hlist]
    rfl
  have hinsert : h₃.insertFree y = (((h₃.set .nextFree y b).set .prevFree y a).set .prevFree b
      y).set .nextFree a y := by
    have hagain : ((h₃.set .nextFree y b).set .prevFree y a).get .nextFree a = b := by
      rw [hsame _ _ _ _ (by omega) (by omega), hsame _ _ _ _ (by omega) (by omega), hfree₃]
    rw [insertFree]
    dsimp only [set_freeList]
    rw [hlist₃, hfree₃, hagain]
  have hresult : h.growBlock (p + 28) p (n - 28) need = h₃.insertFree y := by
    rw [growBlock, ← hv, hadd, hnext, ← hh₂, ← hh₃]
  rw [hresult, ← hy]
  refine ⟨?_, ?_, ?_⟩
  · rw [hinsert]
    have hlast : h₃.get .next p = y := by
      rw [hsplit, get_set (Or.inl rfl) (by omega), if_pos ⟨rfl, rfl⟩]
    have hother : ∀ (g : Memheap) (z w : Nat) (f : Field), Apart z p → z ≠ p →
        (g.set f z w).get .next p = g.get .next p := by
      intro g z w f hz hne
      refine get_set_word ?_
      have hf := f.offset_le
      rw [show Field.offset .next = 8 from rfl]
      unfold Apart at hz
      omega
    rw [hother _ _ _ _ hab hap, hother _ _ _ _ hbb hbp,
      get_set_word (by rw [show Field.offset .next = 8 from rfl]; omega),
      get_set_word (by rw [show Field.offset .next = 8 from rfl]; omega), hlast]
  · rw [hinsert, hsplit, hg₁, ← E₂.startAddr_eq]
    rfl
  · rw [hinsert, hsplit, hg₁, ← E₂.poolSize_eq]
    rfl

/-- With a request that wraps the test, every free block behind is grown into. -/
theorem rtMemheapRealloc_wraps (L : Layout h (pre ++ ⟨n, true⟩ :: ⟨k, false⟩ :: post) fl)
    (self : Option (List UInt8)) {newsize : Nat} (hneed : 2 ^ 32 ≤ roundSize newsize + 12) :
    h.rtMemheapRealloc self (some (h.startAddr + span pre + 28)) newsize =
      .ok (some (h.startAddr + span pre + 28),
        h.growBlock (h.startAddr + span pre + 28) (h.startAddr + span pre) (n - 28)
          (roundSize newsize)) := by
  obtain ⟨hn, htop⟩ := L.extent
  obtain ⟨L₂, hstart⟩ := L.second
  have hk := L₂.extent.1
  rw [span_cons] at htop
  dsimp only at htop
  have h0 : newsize ≠ 0 := by
    rintro rfl
    exact absurd hneed (by decide)
  have hsize : h.memitemSize (h.startAddr + span pre + n) = k - 28 := by
    rw [← hstart]
    exact L₂.size_eq
  have hfree : h.memheapIsUsed (h.startAddr + span pre + n) = false := L.next_used
  have hcan := canGrow_wrap (n := n - 28) (show k - 28 + (n - 28) < 2 ^ 32 by omega)
    ⟨by omega, by omega⟩ hneed (roundSize_lt newsize) (roundSize_mod newsize) hsize
  rw [rtMemheapRealloc_live L self h0, if_pos (by omega), if_pos ⟨hfree, hcan⟩]
  rfl

end RTThread.Memheap
