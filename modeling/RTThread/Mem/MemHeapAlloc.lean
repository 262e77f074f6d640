import RTThread.Mem.MemHeapLinked

/-!
# Allocation from a memory heap

The search passes the free list once and stops at the first block that is large
enough (`search_spec`). The block is carved: its front is handed out, and the
rest becomes a free item if there is room for a header and twelve bytes behind
it (`takeBlock_spec`).

Main result: `rtMemheapAlloc_spec`. A null result means that no free block is
large enough, or that the request is not below `available_size`; otherwise the
heap keeps its layout.
-/

namespace RTThread.Memheap

open ByteMem Tiling CircularList

variable {h h' : Memheap} {x v size : Nat} {l pre post : List Seg} {S fl : List Nat}

-- --------
-- The layout between calls, seen from the lists
-- --------

theorem Layout.linked (L : Layout h l fl) : Linked h l fl := by
  have hsub : ((gaps h.startAddr l).map Prod.fst).Sublist (edges h.startAddr l) := by
    rw [edges_eq]
    exact (gaps_sublist _ _).trans (List.sublist_append_left _ _)
  refine ⟨L.toTiled, L.free, ?_, fun y hy => hsub.subset (L.free_perm.mem_iff.mp hy)⟩
  exact L.free_perm.nodup_iff.mpr (hsub.nodup L.toGeometry.edges_nodup)

theorem Layout.free_mem (L : Layout h l fl) (hx : x ∈ fl) :
    ∃ pre n post, l = pre ++ ⟨n, false⟩ :: post ∧ x = h.startAddr + span pre := by
  obtain ⟨⟨o, n⟩, hg, rfl⟩ := List.mem_map.mp (L.free_perm.mem_iff.mp hx)
  obtain ⟨pre, post, hl, ho⟩ := mem_gaps.mp hg
  exact ⟨pre, n, post, hl, ho⟩

theorem Tiled.pool_lt_word (T : Tiled h l) : h.poolSize < 2 ^ 32 := by
  have htop := T.top
  have hapart := T.header_apart
  have hheader := T.header_top
  unfold freeHeader at hapart hheader
  rw [show freeHeaderOffset = 52 from rfl] at hapart hheader
  omega

theorem Layout.available_le (L : Layout h l fl) : h.availableSize + 28 ≤ h.poolSize := by
  have hle := gapBytes_le_span h.startAddr l
  have hspan := L.span_eq
  have := L.available_eq
  omega

theorem Layout.gap_le (L : Layout h (pre ++ ⟨v, false⟩ :: post) fl) :
    h.availableSize = gapBytes (gaps h.startAddr pre) + (v - 28) +
      gapBytes (gaps (h.startAddr + span pre + v) post) := by
  have hsum := L.available_eq
  rw [gaps_append, gaps_cons, gapBytes_append] at hsum
  simp only [Bool.false_eq_true, if_false, gapBytes_append, gapBytes_cons, gapBytes_nil] at hsum
  omega

/-- The maximum follows the counter. -/
theorem setAvailable_spec (hv : v ≤ h.poolSize) (hp : h.poolSize < 2 ^ 32) :
    (h.setAvailable v).availableSize = v ∧
      h.poolSize ≤ (h.setAvailable v).maxUsedSize + v ∧
      h.maxUsedSize ≤ (h.setAvailable v).maxUsedSize := by
  have hsub : Word32.sub h.poolSize v = h.poolSize - v := Word32.sub_of_le hv hp
  unfold setAvailable
  dsimp only
  rw [hsub]
  split
  · dsimp only
    exact ⟨rfl, by omega, by omega⟩
  · dsimp only
    exact ⟨rfl, by omega, by omega⟩

@[simp] theorem splitBlock_availableSize {p : Nat} :
    (h.splitBlock p x).availableSize = h.availableSize := rfl
@[simp] theorem splitBlock_maxUsedSize {p : Nat} :
    (h.splitBlock p x).maxUsedSize = h.maxUsedSize := rfl
@[simp] theorem removeFree_availableSize : (h.removeFree x).availableSize = h.availableSize := rfl
@[simp] theorem removeFree_maxUsedSize : (h.removeFree x).maxUsedSize = h.maxUsedSize := rfl
@[simp] theorem insertFree_availableSize : (h.insertFree x).availableSize = h.availableSize := rfl
@[simp] theorem insertFree_maxUsedSize : (h.insertFree x).maxUsedSize = h.maxUsedSize := rfl
@[simp] theorem insertHeader_availableSize :
    (h.insertHeader x).availableSize = h.availableSize := rfl
@[simp] theorem insertHeader_maxUsedSize :
    (h.insertHeader x).maxUsedSize = h.maxUsedSize := rfl
@[simp] theorem mergeBlock_availableSize {p : Nat} :
    (h.mergeBlock p x).availableSize = h.availableSize := rfl
@[simp] theorem mergeBlock_maxUsedSize {p : Nat} :
    (h.mergeBlock p x).maxUsedSize = h.maxUsedSize := rfl
@[simp] theorem setOwnerThreadName_maxUsedSize {name : List UInt8} :
    (h.setOwnerThreadName x name).maxUsedSize = h.maxUsedSize := rfl

theorem Linked.layout (K : Linked h l fl)
    (hperm : fl.Perm ((gaps h.startAddr l).map Prod.fst))
    (havail : h.availableSize = gapBytes (gaps h.startAddr l))
    (hused : h.poolSize ≤ h.maxUsedSize + h.availableSize) (hc : Coalesced l) : Layout h l fl :=
  { K with free_perm := hperm, available_eq := havail, used_le := hused, coalesced := hc }

-- --------
-- The search
-- --------

/-- Following the free list from any of its cells. -/
theorem search_from (F : FreeRing h fl) (hlist : h.freeList = h.freeHeader)
    (hnd : (h.freeHeader :: fl).Nodup) :
    ∀ (w u : List Nat) (k fuel : Nat), fl = u ++ w → w.length + 2 ≤ fuel → k < size →
      (∃ a y b, w = a ++ y :: b ∧ size ≤ h.memitemSize y ∧
        h.search size fuel k (w.headD h.freeHeader) =
          .ok (h.memitemSize y, y)) ∨
      ((∀ y ∈ w, h.memitemSize y < size) ∧ ∃ k' < size,
        h.search size fuel k (w.headD h.freeHeader) = .ok (k', h.freeHeader)) := by
  intro w
  induction w with
  | nil =>
    intro u k fuel _ hfuel hk
    obtain ⟨fuel, rfl⟩ : ∃ j, fuel = j + 1 := ⟨fuel - 1, by omega⟩
    refine Or.inr ⟨by simp, k, hk, ?_⟩
    rw [search, if_neg]
    · rfl
    · rw [hlist]
      exact fun hne => hne.1 rfl
  | cons y ys ih =>
    intro u k fuel hfl hfuel hk
    rw [List.length_cons] at hfuel
    obtain ⟨fuel, rfl⟩ : ∃ j, fuel = j + 1 := ⟨fuel - 1, by omega⟩
    have hy : y ≠ h.freeList := by
      rw [hlist]
      rintro rfl
      rw [hfl] at hnd
      exact (List.nodup_cons.mp hnd).1 (by simp)
    -- the next cell, the header behind the last one
    have hnext : h.get .nextFree y = ys.headD h.freeHeader := by
      unfold FreeRing at F
      rw [hfl] at F
      cases ys with
      | nil => exact (Circular.link_last (u := u) F).1
      | cons z zs => exact (Circular.link (u := h.freeHeader :: u) F).1
    rw [List.headD_cons, search, if_pos ⟨hy, hk⟩]
    dsimp only
    by_cases hlarge : h.memitemSize y < size
    · rw [if_pos hlarge, hnext]
      rcases ih (u ++ [y]) (h.memitemSize y) fuel (by simpa using hfl) (by omega) hlarge with
        ⟨a, z, b, rfl, hz, hres⟩ | ⟨hsmall, hres⟩
      · exact Or.inl ⟨y :: a, z, b, rfl, hz, hres⟩
      · refine Or.inr ⟨?_, hres⟩
        intro z hz
        rcases List.mem_cons.mp hz with rfl | hz
        · exact hlarge
        · exact hsmall z hz
    · rw [if_neg hlarge]
      obtain ⟨fuel, rfl⟩ : ∃ j, fuel = j + 1 := ⟨fuel - 1, by omega⟩
      refine Or.inl ⟨[], y, ys, rfl, by omega, ?_⟩
      rw [search, if_neg fun hgo => hlarge hgo.2]

/-- **The search** finds the first block that is large enough, or the end of the list. -/
theorem search_spec (L : Layout h l fl) (hsize : 0 < size) :
    (∃ a y b, fl = a ++ y :: b ∧ size ≤ h.memitemSize y ∧
      h.search size h.loopFuel 0 (h.get .nextFree h.freeList) = .ok (h.memitemSize y, y)) ∨
    ((∀ y ∈ fl, h.memitemSize y < size) ∧ ∃ k < size,
      h.search size h.loopFuel 0 (h.get .nextFree h.freeList) = .ok (k, h.freeHeader)) := by
  have hlen : fl.length + 2 ≤ h.loopFuel := by
    have hfl := L.free_perm.length_eq
    have hle := (gaps_sublist h.startAddr l).length_le
    have hspan := L.span_eq
    have hmany : ∀ (off : Nat) (l : List Seg), (∀ s ∈ l, 40 ≤ s.len) →
        (starts off l).length ≤ span l := by
      intro off l
      induction l generalizing off with
      | nil => simp
      | cons s ss ih =>
        intro hs
        have h1 := hs s (by simp)
        have h2 := ih (off + s.len) fun t ht => hs t (by simp [ht])
        rw [starts_cons, span_cons, List.length_cons]
        omega
    have := hmany h.startAddr l L.sized
    unfold loopFuel
    omega
  have hstart : h.get .nextFree h.freeList = fl.headD h.freeHeader := by
    rw [L.freeList_eq]
    have F := L.free
    unfold FreeRing at F
    cases fl with
    | nil => exact (circular_singleton.mp F).1
    | cons z zs => exact (Circular.link (u := []) F).1
  rw [hstart]
  exact search_from L.free L.freeList_eq L.linked.ring_nodup fl [] 0 h.loopFuel rfl hlen
    hsize

-- --------
-- Carving the block found
-- --------

theorem perm_gaps_middle {a b : List Nat} {n off : Nat}
    (hperm : (a ++ x :: b).Perm ((gaps off (pre ++ ⟨n, false⟩ :: post)).map Prod.fst))
    (hx : x = off + span pre) :
    (a ++ b).Perm ((gaps off pre ++ gaps (off + span pre + n) post).map Prod.fst) := by
  rw [gaps_append, gaps_cons] at hperm
  simp only [Bool.false_eq_true, if_false, List.singleton_append, List.map_append,
    List.map_cons] at hperm
  rw [← hx] at hperm ⊢
  rw [List.map_append]
  exact ((List.perm_middle.symm.trans hperm).trans List.perm_middle).cons_inv

section Carve

variable {n : Nat} {a b : List Nat}

/-- The branch that splits: the front keeps `size` bytes and leaves the free list. -/
theorem allocSplit_spec (L : Layout h (pre ++ ⟨n, false⟩ :: post) (a ++ x :: b))
    (hx : x = h.startAddr + span pre) (hsize : 12 ≤ size) (hroom : size + 68 ≤ n) :
    let l' := pre ++ ⟨size + 28, false⟩ :: ⟨n - (size + 28), false⟩ :: post
    Touch (h.items l') h (h.allocSplit x size) ∧
      Linked (h.allocSplit x size) l' ((x + (size + 28)) :: (a ++ b)) ∧
      (h.allocSplit x size).availableSize = h.availableSize - (size + 28) ∧
      h.poolSize ≤ (h.allocSplit x size).maxUsedSize + (h.allocSplit x size).availableSize := by
  intro l'
  have K := L.linked
  obtain ⟨_, htop⟩ := L.extent
  have hgap := L.gap_le
  have hle := L.available_le
  have hpool := L.pool_lt_word
  have hnew : Word32.add (Word32.add x size) memheapSize = x + (size + 28) := by
    rw [Word32.add_of_lt (show x + size < 2 ^ 32 by omega),
      Word32.add_of_lt (show x + size + memheapSize < 2 ^ 32 by
        rw [show memheapSize = 28 from rfl]; omega)]
    rfl
  have havail : Word32.sub (Word32.sub h.availableSize size) memheapSize =
      h.availableSize - (size + 28) := by
    have hfirst : Word32.sub h.availableSize size = h.availableSize - size :=
      Word32.sub_of_le (by omega) (by omega)
    rw [hfirst, Word32.sub_of_le (show 28 ≤ h.availableSize - size by omega) (by omega)]
    show h.availableSize - size - 28 = _
    omega
  -- the new item is behind `x`, in no list yet
  have hxe : x ∈ edges h.startAddr l' := by
    rw [show l' = pre ++ ⟨size + 28, false⟩ :: _ from rfl, edges_item, hx]
    simp
  have hxn : x ∉ a ++ b := (List.nodup_cons.mp (List.nodup_middle.mp K.nodup)).1
  have hnewe : x + (size + 28) ∈ edges h.startAddr l' := by
    rw [hx]
    exact (edges_split false (by omega) _).mpr (Or.inl rfl)
  have hnewn : x + (size + 28) ∉ a ++ b := by
    intro hmem
    have hedge := K.sub _ (mem_middle hmem)
    rw [hx] at hedge
    exact split_notMem (by omega) (by omega) hedge
  obtain ⟨e₁, K₁⟩ := K.split (c := size + 28) hx (by omega) (by omega)
  obtain ⟨e₂, K₂⟩ := K₁.removeFree
  rw [e₁.items_eq] at e₂
  have E₂ := e₁.comp e₂
  obtain ⟨e₃, K₃⟩ := K₂.clear (by rw [E₂.startAddr_eq]; exact hxe) hxn (Or.inl rfl)
  rw [E₂.items_eq] at e₃
  have E₃ := E₂.comp e₃
  obtain ⟨e₄, K₄⟩ := K₃.clear (by rw [E₃.startAddr_eq]; exact hxe) hxn (Or.inr rfl)
  rw [E₃.items_eq] at e₄
  have E₄ := E₃.comp e₄
  obtain ⟨e₅, K₅⟩ := K₄.insertFree (by rw [E₄.startAddr_eq]; exact hnewe) hnewn
  rw [E₄.items_eq] at e₅
  have E₅ := E₄.comp e₅
  obtain ⟨e₆, K₆⟩ := K₅.setAvailable (v := h.availableSize - (size + 28))
  rw [E₅.items_eq] at e₆
  have heq : h.allocSplit x size = ((((((h.splitBlock x (x + (size + 28))).removeFree x).set
      .nextFree x 0).set .prevFree x 0).insertFree (x + (size + 28))).setAvailable
        (h.availableSize - (size + 28))) := by
    unfold allocSplit
    dsimp only
    simp only [hnew, insertFree_availableSize, set_availableSize, removeFree_availableSize,
      splitBlock_availableSize, havail]
  have hset := setAvailable_spec (v := h.availableSize - (size + 28))
    (show _ ≤ ((((h.splitBlock x (x + (size + 28))).removeFree x).set .nextFree x 0).set
      .prevFree x 0 |>.insertFree (x + (size + 28))).poolSize by
        rw [E₅.poolSize_eq]; omega) (by rw [E₅.poolSize_eq]; exact hpool)
  rw [E₅.poolSize_eq] at hset
  rw [heq]
  exact ⟨E₅.comp e₆, K₆, hset.1, by rw [hset.1]; exact hset.2.1⟩

/-- The branch that hands out the whole block. -/
theorem allocWhole_spec (L : Layout h (pre ++ ⟨n, false⟩ :: post) (a ++ x :: b))
    (hx : x = h.startAddr + span pre) :
    Touch (h.items (pre ++ ⟨n, false⟩ :: post)) h (h.allocWhole x (n - 28)) ∧
      Linked (h.allocWhole x (n - 28)) (pre ++ ⟨n, false⟩ :: post) (a ++ b) ∧
      (h.allocWhole x (n - 28)).availableSize = h.availableSize - (n - 28) ∧
      h.poolSize ≤ (h.allocWhole x (n - 28)).maxUsedSize +
        (h.allocWhole x (n - 28)).availableSize := by
  have K := L.linked
  have hgap := L.gap_le
  have hle := L.available_le
  have hpool := L.pool_lt_word
  have havail : Word32.sub h.availableSize (n - 28) = h.availableSize - (n - 28) :=
    Word32.sub_of_le (by omega) (by omega)
  have hxe : x ∈ edges h.startAddr (pre ++ ⟨n, false⟩ :: post) := by
    rw [edges_item, hx]
    simp
  have hxn : x ∉ a ++ b := (List.nodup_cons.mp (List.nodup_middle.mp K.nodup)).1
  obtain ⟨e₁, K₁⟩ := K.setAvailable (v := h.availableSize - (n - 28))
  obtain ⟨e₂, K₂⟩ := K₁.removeFree
  rw [e₁.items_eq] at e₂
  have E₂ := e₁.comp e₂
  obtain ⟨e₃, K₃⟩ := K₂.clear (by rw [E₂.startAddr_eq]; exact hxe) hxn (Or.inl rfl)
  rw [E₂.items_eq] at e₃
  have E₃ := E₂.comp e₃
  obtain ⟨e₄, K₄⟩ := K₃.clear (by rw [E₃.startAddr_eq]; exact hxe) hxn (Or.inr rfl)
  rw [E₃.items_eq] at e₄
  obtain ⟨hset₁, hset₂, _⟩ := setAvailable_spec (h := h) (v := h.availableSize - (n - 28))
    (by omega) hpool
  unfold allocWhole
  dsimp only
  rw [havail]
  refine ⟨E₃.comp e₄, K₄, ?_, ?_⟩
  · simp only [set_availableSize, removeFree_availableSize, hset₁]
  · simp only [set_availableSize, set_maxUsedSize, removeFree_availableSize,
      removeFree_maxUsedSize, hset₁]
    exact hset₂

/-- **The block found is carved.** -/
theorem takeBlock_spec (L : Layout h (pre ++ ⟨n, false⟩ :: post) (a ++ x :: b))
    (self : Option (List UInt8)) (hx : x = h.startAddr + span pre) (hsize : 12 ≤ size)
    (hn : size + 28 ≤ n) :
    ∃ fl', Touch (h.items (pre ++ carve (size + 28) 40 n ++ post)) h
        (h.takeBlock self x (n - 28) size) ∧
      Layout (h.takeBlock self x (n - 28) size) (pre ++ carve (size + 28) 40 n ++ post) fl' := by
  obtain ⟨_, htop⟩ := L.extent
  have hgap := L.gap_le
  have hcoal := coalesced_carve (size + 28) 40 L.coalesced
  have hperm := perm_gaps_middle L.free_perm hx
  have htest : Word32.add (Word32.add size memheapSize) memheapMinialloc = size + 40 := by
    rw [Word32.add_of_lt (show size + 28 < 2 ^ 32 by omega),
      Word32.add_of_lt (show size + 28 + 12 < 2 ^ 32 by omega)]
  unfold takeBlock
  rw [htest]
  dsimp only
  by_cases hsplit : size + 28 + 40 ≤ n
  · rw [if_pos (by omega)]
    obtain ⟨e₁, K₁, havail, hused⟩ := allocSplit_spec L hx hsize (by omega)
    have hcarve : carve (size + 28) 40 n = [⟨size + 28, true⟩, ⟨n - (size + 28), false⟩] :=
      if_pos hsplit
    rw [hcarve] at hcoal ⊢
    rw [List.append_assoc] at hcoal ⊢
    obtain ⟨e₂, K₂⟩ := K₁.mark (p := x) true (by rw [e₁.startAddr_eq, hx])
    rw [e₁.items_eq] at e₂
    have E₂ := e₁.comp e₂
    have hxm : x ∈ edges h.startAddr (pre ++ ⟨size + 28, true⟩ ::
        ⟨n - (size + 28), false⟩ :: post) := by
      rw [edges_item, hx]
      simp
    obtain ⟨e₃, K₃⟩ := K₂.name (self.getD noneName) (by
      rw [E₂.items_eq]
      exact edge_mem_items hxm)
    rw [E₂.items_eq] at e₃
    -- the marked list has the same items
    have hitems : h.items (pre ++ ⟨size + 28, true⟩ :: ⟨n - (size + 28), false⟩ :: post) =
        h.items (pre ++ ⟨size + 28, false⟩ :: ⟨n - (size + 28), false⟩ :: post) := by
      rw [items, items, edges_item, edges_item]
    have E₃ := e₁.comp (e₂.comp (hitems ▸ e₃))
    refine ⟨_, hitems ▸ E₃, K₃.layout ?_ ?_ ?_ hcoal⟩
    · rw [E₃.startAddr_eq, gaps_append, gaps_cons, if_pos rfl, List.nil_append, gaps_cons]
      simp only [Bool.false_eq_true, if_false, List.singleton_append, List.map_append,
        List.map_cons]
      rw [show h.startAddr + span pre + (size + 28) + (n - (size + 28)) =
        h.startAddr + span pre + n by omega, ← hx]
      rw [List.map_append, ← hx] at hperm
      exact (hperm.cons _).trans List.perm_middle.symm
    · rw [E₃.startAddr_eq, setOwnerThreadName_availableSize, set_availableSize, havail,
        gaps_append, gaps_cons, if_pos rfl, List.nil_append, gaps_cons]
      simp only [Bool.false_eq_true, if_false, gapBytes_append, gapBytes_cons, gapBytes_nil]
      rw [show h.startAddr + span pre + (size + 28) + (n - (size + 28)) =
        h.startAddr + span pre + n by omega]
      omega
    · rw [E₃.poolSize_eq, setOwnerThreadName_availableSize, setOwnerThreadName_maxUsedSize,
        set_availableSize, set_maxUsedSize]
      exact hused
  · rw [if_neg (by omega)]
    obtain ⟨e₁, K₁, havail, hused⟩ := allocWhole_spec L hx
    have hcarve : carve (size + 28) 40 n = [⟨n, true⟩] := if_neg hsplit
    rw [hcarve] at hcoal ⊢
    rw [List.append_assoc] at hcoal ⊢
    obtain ⟨e₂, K₂⟩ := K₁.mark (p := x) true (by rw [e₁.startAddr_eq, hx])
    rw [e₁.items_eq] at e₂
    have E₂ := e₁.comp e₂
    have hxm : x ∈ edges h.startAddr (pre ++ ⟨n, true⟩ :: post) := by
      rw [edges_item, hx]
      simp
    obtain ⟨e₃, K₃⟩ := K₂.name (self.getD noneName) (by
      rw [E₂.items_eq]
      exact edge_mem_items hxm)
    rw [E₂.items_eq] at e₃
    have hitems : h.items (pre ++ ⟨n, true⟩ :: post) = h.items (pre ++ ⟨n, false⟩ :: post) := by
      rw [items, items, edges_item, edges_item]
    have E₃ := e₁.comp (e₂.comp (hitems ▸ e₃))
    refine ⟨_, hitems ▸ E₃, K₃.layout ?_ ?_ ?_ hcoal⟩
    · rw [E₃.startAddr_eq]
      show (a ++ b).Perm ((gaps h.startAddr (pre ++ ⟨n, true⟩ :: post)).map Prod.fst)
      rw [gaps_append, gaps_cons, if_pos rfl]
      exact hperm
    · rw [E₃.startAddr_eq, setOwnerThreadName_availableSize, set_availableSize, havail]
      show _ = gapBytes (gaps h.startAddr (pre ++ ⟨n, true⟩ :: post))
      rw [gaps_append, gaps_cons, if_pos rfl, List.nil_append, gapBytes_append]
      dsimp only
      omega
    · rw [E₃.poolSize_eq, setOwnerThreadName_availableSize, setOwnerThreadName_maxUsedSize,
        set_availableSize, set_maxUsedSize]
      exact hused

end Carve

-- --------
-- The call
-- --------

theorem roundSize_ge (size : Nat) : 12 ≤ roundSize size := by
  unfold roundSize
  rw [show memheapMinialloc = 12 from rfl]
  split <;> omega

theorem roundSize_of_le (hs : size ≤ 2 ^ 32 - 4) : size ≤ roundSize size := by
  have := (rtAlign_of_le hs).1
  unfold roundSize
  rw [show memheapMinialloc = 12 from rfl]
  split <;> omega

theorem roundSize_wrap (hs : 2 ^ 32 - 4 < size) (hs' : size < 2 ^ 32) : roundSize size = 12 := by
  rw [roundSize, rtAlign_wrap hs hs']
  rfl

/-- A block was handed out at `p`: `n` bytes of free space became a block and what is left. -/
structure Allocated (h : Memheap) (pre : List Seg) (n : Nat) (post : List Seg) (size p : Nat)
    (h' : Memheap) : Prop where
  ptr_eq : p = h.startAddr + span pre + 28
  room : size + 28 ≤ n
  touch : Touch (h.items (pre ++ carve (size + 28) 40 n ++ post)) h h'
  layout : ∃ fl', Layout h' (pre ++ carve (size + 28) 40 n ++ post) fl'

/-- **`rt_memheap_alloc`**: null because nothing fits, or a block of the rounded size. -/
theorem rtMemheapAlloc_spec (L : Layout h l fl) (self : Option (List UInt8)) (size : Nat) :
    (h.rtMemheapAlloc self size = .ok (none, h) ∧
      (h.availableSize ≤ roundSize size ∨
        ∀ g ∈ gaps h.startAddr l, g.2 < roundSize size + 28)) ∨
    (roundSize size < h.availableSize ∧ ∃ pre n post p h', l = pre ++ ⟨n, false⟩ :: post ∧
      h.rtMemheapAlloc self size = .ok (some p, h') ∧
      Allocated h pre n post (roundSize size) p h') := by
  have hr := roundSize_ge size
  rw [rtMemheapAlloc]
  obtain ⟨need, hneed⟩ : ∃ need, need = roundSize size := ⟨_, rfl⟩
  rw [← hneed] at hr ⊢
  by_cases hroom : need < h.availableSize
  swap
  · rw [if_neg hroom]
    exact Or.inl ⟨rfl, Or.inl (by omega)⟩
  rw [if_pos hroom]
  rcases search_spec L (show 0 < need by omega) with
    ⟨a, y, b, rfl, hy, hres⟩ | ⟨hsmall, k, hk, hres⟩
  · -- found: the search stops at a free segment of the pool
    refine Or.inr ⟨hroom, ?_⟩
    obtain ⟨pre, n, post, rfl, hyeq⟩ := L.free_mem (x := y) (by simp)
    have hsize := L.size_eq
    obtain ⟨hn, htop⟩ := L.extent
    rw [← hyeq] at hsize
    rw [hsize] at hy hres
    obtain ⟨fl', e, L'⟩ := takeBlock_spec L self hyeq hr (by omega)
    refine ⟨pre, n, post, y + 28, _, rfl, ?_, by rw [hyeq], by omega, e, fl', L'⟩
    rw [hres]
    simp only [bind, Except.bind]
    rw [if_pos hy, Word32.add_of_lt (show y + memheapSize < 2 ^ 32 by
      rw [show memheapSize = 28 from rfl]; omega)]
    rfl
  · refine Or.inl ⟨?_, Or.inr ?_⟩
    · rw [hres]
      simp only [bind, Except.bind]
      rw [if_neg (by omega)]
      rfl
    · rintro ⟨o, n⟩ hg
      have hmem : o ∈ fl := L.free_perm.mem_iff.mpr (List.mem_map_of_mem hg)
      obtain ⟨pre, post, rfl, rfl⟩ := mem_gaps.mp hg
      have := hsmall _ hmem
      rw [L.size_eq] at this
      dsimp only
      omega

end RTThread.Memheap
