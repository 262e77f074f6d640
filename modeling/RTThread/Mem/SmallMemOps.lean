import RTThread.Mem.SmallMemEdit

/-!
# The operations of the small-memory heap

Each call takes a heap with a layout to a heap with a layout, and no assertion
in it fails:

* `rtSmemAlloc_spec`   carves the first free item that is large enough;
* `rtSmemFree_spec`    gives a used item back and joins it with free neighbours;
* `rtSmemRealloc_spec` shrinks in place, moves, or does one of the above.

Every call writes only item headers of the layout before or after it, apart
from the copy made when a block moves.
-/

namespace RTThread.SmallMem

open ByteMem Tiling

variable {h : SmallMem} {l pre post : List Seg}

theorem SameHeap.trans {h h' h'' : SmallMem} (a : SameHeap h h') (b : SameHeap h' h'') :
    SameHeap h h'' :=
  ⟨b.heap_eq.trans a.heap_eq, b.pool_eq.trans a.pool_eq, b.end_eq.trans a.end_eq,
    b.size_eq.trans a.size_eq⟩

-- --------
-- Allocation
-- --------

theorem Tiled.counters {lfree used max : Nat} (T : Tiled h l) :
    Tiled { h with lfree := lfree, used := used, max := max } l :=
  T.congr ⟨rfl, rfl, rfl, rfl⟩ fun _ _ _ _ _ => rfl

theorem addUsed_eq (h : SmallMem) {n : Nat} (hn : h.used + n < 2 ^ 32) :
    ∃ mx, h.addUsed n = { h with used := h.used + n, max := mx } ∧
      h.used + n ≤ mx ∧ h.max ≤ mx := by
  unfold addUsed
  rw [Word32.add_of_lt hn]
  dsimp only
  by_cases hmax : h.max < h.used + n
  · rw [if_pos hmax]
    exact ⟨_, rfl, Nat.le_refl _, Nat.le_of_lt hmax⟩
  · rw [if_neg hmax]
    exact ⟨h.max, rfl, by omega, Nat.le_refl _⟩

/-- The loop over `lfree` ends at the first free item, when every item before it is in use. -/
theorem updateLfree_spec {rest : List Seg} (T : Tiled h (pre ++ rest))
    (hpre : ∀ t ∈ pre, t.used = true) (hlfree : h.lfree = h.item (span pre)) :
    h.updateLfree h.lfree = .ok { h with lfree := h.item (firstFree 0 (pre ++ rest)) } := by
  have hfuel : rest.length < h.loopFuel := by
    have := T.fuel
    rw [List.length_append] at this
    omega
  have hnext : h.nextFree h.loopFuel h.lfree = .ok (h.item (firstFree 0 (pre ++ rest))) := by
    rw [firstFree_append_used hpre, Nat.zero_add, hlfree]
    exact nextFree_spec rest pre h.loopFuel T hfuel
  have hstop : h.item (firstFree 0 (pre ++ rest)) = h.heapEnd ∨
      h.memIsUsed (h.item (firstFree 0 (pre ++ rest))) = false := by
    rcases exists_free_or_all_used (pre ++ rest) with hf | hu
    · obtain ⟨a, ⟨n, u⟩, b, hl, hs, hoff⟩ := firstFree_split hf
      rw [hoff]
      rw [hl] at T
      exact Or.inr (T.memIsUsed_item.trans hs)
    · refine Or.inl ?_
      rw [T.end_item, ← List.append_nil (pre ++ rest), firstFree_append_used hu]
      simp [firstFree]
  rw [updateLfree, if_pos rfl, hnext]
  show (rtAssert _ >>= _) = _
  rw [rtAssert_bind hstop]
  rfl

/-- Marking the item used and moving `lfree` on completes an allocation. -/
theorem claimItem_spec (self : Option (List UInt8)) {size n k : Nat} {rest : List Seg}
    (T : Tiled h (pre ++ ⟨k, false⟩ :: rest))
    (hlfree : h.lfree = h.item (firstFree 0 (pre ++ ⟨n, false⟩ :: post)))
    (hused : h.used = usedSpan (pre ++ ⟨k, true⟩ :: rest)) (hmax : h.used ≤ h.max)
    (hcoal : Coalesced (pre ++ ⟨k, true⟩ :: rest))
    (hpay : ∀ b ∈ blocks 0 (pre ++ ⟨k, true⟩ :: rest), 16 < b.2) (hsize : size + 16 ≤ k) :
    ∃ h', h.claimItem self size (h.item (span pre)) = .ok (h.item (span pre) + 16, h') ∧
      Layout h' (pre ++ ⟨k, true⟩ :: rest) ∧ SameHeap h h' ∧
      HeaderFrame h.mem h'.mem h.heapPtr [span pre] := by
  obtain ⟨hext, hlen, hmod, hpmod⟩ := T.extent
  have hend := T.end_eq
  have hheap := T.heap_mod
  have hpos := (sized_append.mp T.sized).1.pos
  -- the heap after marking, but for `lfree`
  obtain ⟨g, hg⟩ : ∃ g, g = h.mark (h.item (span pre)) true (self.getD noneName) := ⟨_, rfl⟩
  have Tg : Tiled g (pre ++ ⟨k, true⟩ :: rest) := hg ▸ tiled_mark T
  have hframe : HeaderFrame h.mem g.mem h.heapPtr [span pre] := hg ▸ mark_frame h _ _ _
  have hsame : SameHeap h g := hg ▸ ⟨rfl, rfl, rfl, rfl⟩
  have hglfree : g.lfree = h.lfree := by rw [hg]; rfl
  have hgused : g.used = h.used ∧ g.max = h.max := by rw [hg]; exact ⟨rfl, rfl⟩
  have hitem : ∀ o, g.item o = h.item o := fun o => by rw [item, item, hsame.heap_eq]
  -- `lfree` after the call
  have hupd : g.updateLfree (h.item (span pre)) =
      .ok { g with lfree := g.item (firstFree 0 (pre ++ ⟨k, true⟩ :: rest)) } := by
    have hcases : h.item (span pre) = g.lfree ↔ ∀ t ∈ pre, t.used = true := by
      have hiff : 0 + span pre = firstFree 0 (pre ++ ⟨n, false⟩ :: post) ↔
          ∀ t ∈ pre, t.used = true := firstFree_eq_iff rfl hpos
      rw [← hiff, hglfree, hlfree]
      unfold item
      omega
    by_cases hfirst : ∀ t ∈ pre, t.used = true
    · rw [hcases.mpr hfirst]
      exact updateLfree_spec Tg hfirst (by rw [hitem, hcases.mpr hfirst])
    · rw [updateLfree, if_neg (mt hcases.mp hfirst)]
      have hfree : ∃ s ∈ pre, s.used = false :=
        (exists_free_or_all_used pre).resolve_right hfirst
      rw [hitem, firstFree_of_free_before hfree, ← hlfree, ← hglfree]
      rfl
  refine ⟨{ g with lfree := g.item (firstFree 0 (pre ++ ⟨k, true⟩ :: rest)) }, ?_, ?_,
    ⟨hsame.heap_eq, hsame.pool_eq, hsame.end_eq, hsame.size_eq⟩, hframe⟩
  · rw [claimItem, ← hg, hupd]
    show (rtAssert _ >>= _) = _
    have hbound : h.item (span pre) + 16 + size ≤ g.heapEnd := by
      rw [hsame.end_eq, hend]
      unfold item
      omega
    have halign : (h.item (span pre) + 16) % 4 = 0 ∧ h.item (span pre) % 4 = 0 := by
      unfold item
      omega
    rw [rtAssert_bind hbound, rtAssert_bind halign.1, rtAssert_bind halign.2]
    rfl
  · exact
      { toTiled := Tg.counters
        lfree_eq := rfl
        used_eq := hgused.1.trans hused
        used_le := by rw [hgused.1, hgused.2]; exact hmax
        coalesced := hcoal
        payload := hpay }

/-- **The allocation of an item found.** A large one is carved, a near fit is taken whole. -/
theorem takeItem_spec (self : Option (List UInt8)) {size n : Nat}
    (L : Layout h (pre ++ ⟨n, false⟩ :: post)) (hfit : size + 16 ≤ n) (hsize : size % 4 = 0)
    (hpos : 0 < size) :
    ∃ h', h.takeItem self size (span pre) = .ok (h.item (span pre) + 16, h') ∧
      Layout h' (pre ++ carve (size + 16) 28 n ++ post) ∧ SameHeap h h' ∧
      HeaderFrame h.mem h'.mem h.heapPtr
        (boundaries (pre ++ carve (size + 16) 28 n ++ post)) := by
  have T := L.toTiled
  obtain ⟨hext, hlen, hmod, _⟩ := T.extent
  have htop := T.top
  have hcoal : Coalesced (pre ++ carve (size + 16) 28 n ++ post) := coalesced_carve _ _ L.coalesced
  have husedle := usedSpan_le_span (pre ++ ⟨n, true⟩ :: post)
  simp only [usedSpan_append, usedSpan_cons, span_append, span_cons, if_true] at husedle
  have hused := L.used_eq
  simp only [usedSpan_append, usedSpan_cons, Bool.false_eq_true, if_false, Nat.zero_add] at hused
  have hpay : ∀ b ∈ blocks 0 (pre ++ carve (size + 16) 28 n ++ post), 16 < b.2 := by
    intro b hb
    simp only [blocks_append, blocks_carve, span_append, span_carve, Nat.zero_add,
      List.mem_append, List.mem_singleton] at hb
    rcases hb with (hb | rfl) | hb
    · exact L.payload b (by simp [hb])
    · dsimp only
      split <;> omega
    · exact L.payload b (by simp [hb])
  have hroom : Word32.sub (h.next (h.item (span pre))) (span pre + 16) = n - 16 := by
    rw [T.next_item, Word32.sub_of_le (by omega) (by omega)]
    omega
  unfold takeItem
  dsimp only
  rw [hroom, T.next_item, show h.item (span pre) - h.heapPtr = span pre by unfold item; omega,
    Word32.sub_of_le (by omega) (by omega), Nat.add_sub_cancel_left]
  by_cases hbig : size + 16 + 28 ≤ n
  · rw [if_pos (show n - 16 ≥ size + 16 + 12 by omega)]
    rw [carve, if_pos hbig] at hcoal hpay ⊢
    obtain ⟨m', hsplit, Ts, hf⟩ := splitItem_spec size T (by omega) hsize
    obtain ⟨mx, hadd, hle, _⟩ := addUsed_eq { h with mem := m' }
      (show h.used + (size + 16) < 2 ^ 32 by omega)
    rw [hsplit, hadd]
    have hused' : h.used + (size + 16) = usedSpan
        (pre ++ ⟨size + 16, true⟩ :: ⟨n - (size + 16), false⟩ :: post) := by
      simp only [usedSpan_append, usedSpan_cons, if_true, Bool.false_eq_true, if_false]
      omega
    have Tc : Tiled { h with mem := m', used := h.used + (size + 16), max := mx }
        (pre ++ ⟨size + 16, false⟩ :: ⟨n - (size + 16), false⟩ :: post) := Ts.counters
    obtain ⟨h', hclaim, L', hsame, hf'⟩ := claimItem_spec self Tc L.lfree_eq hused' hle
      (by simpa using hcoal) (by simpa using hpay) (Nat.le_refl _)
    refine ⟨h', hclaim, by simpa using L', ⟨hsame.heap_eq, hsame.pool_eq, hsame.end_eq,
      hsame.size_eq⟩, hf.trans hf' (fun o ho => ?_) (fun o ho => ?_)⟩
    · rw [boundaries, List.append_assoc, starts_append]
      simp only [List.mem_cons, List.not_mem_nil, or_false] at ho
      have hn : size + 16 + (n - (size + 16)) = n := by omega
      rcases ho with rfl | rfl | rfl
      · simp
      · simp
      · cases post with
        | nil => simp [hn]
        | cons t ts => simp [Nat.add_assoc, hn]
    · rw [List.mem_singleton.mp ho]
      simp [boundaries]
  · rw [if_neg (show ¬ n - 16 ≥ size + 16 + 12 by omega)]
    rw [carve, if_neg hbig] at hcoal hpay ⊢
    obtain ⟨mx, hadd, hle, _⟩ := addUsed_eq h (show h.used + n < 2 ^ 32 by omega)
    rw [hadd]
    have hused' : h.used + n = usedSpan (pre ++ ⟨n, true⟩ :: post) := by
      simp only [usedSpan_append, usedSpan_cons, if_true]
      omega
    have Tc : Tiled { h with used := h.used + n, max := mx } (pre ++ ⟨n, false⟩ :: post) :=
      T.counters
    obtain ⟨h', hclaim, L', hsame, hf'⟩ := claimItem_spec self Tc L.lfree_eq hused' hle
      (by simpa using hcoal) (by simpa using hpay) hfit
    refine ⟨h', hclaim, by simpa using L', ⟨hsame.heap_eq, hsame.pool_eq, hsame.end_eq,
      hsame.size_eq⟩, fun x hx => hf' x fun o ho => hx o ?_⟩
    rw [List.mem_singleton.mp ho]
    simp [boundaries]

/-- The payload size `rt_smem_alloc` reserves for a request. -/
def roundSize (size : Nat) : Nat := if rtAlign size < minSize then minSize else rtAlign size

/-- What a call that returned a block did: a free segment became the block's segment. -/
structure Allocated (h h' : SmallMem) (p size : Nat) (pre : List Seg) (n : Nat)
    (post : List Seg) : Prop where
  layout : Layout h' (pre ++ carve (size + 16) 28 n ++ post)
  ptr_eq : p = h.item (span pre) + 16
  fits : size + 16 ≤ n
  first : ∀ t ∈ pre, ¬ Fits size t
  same : SameHeap h h'
  frame : HeaderFrame h.mem h'.mem h.heapPtr (boundaries (pre ++ carve (size + 16) 28 n ++ post))

/-- A heap of fewer than twelve bytes is one item. -/
theorem Tiled.small (T : Tiled h l) (hsmall : h.memSizeAligned < 12) :
    ∃ u, l = [⟨h.memSizeAligned + 16, u⟩] := by
  have hlen := T.sized.length_le
  have hspan := T.span_eq
  match l, hspan, hlen with
  | [], hspan, _ => simp at hspan
  | [⟨n, u⟩], hspan, _ =>
    simp only [span_cons, span_nil, Nat.add_zero] at hspan
    exact ⟨u, by rw [hspan]⟩
  | a :: b :: ts, hspan, hlen =>
    simp only [List.length_cons] at hlen
    omega

/-- **The loop that never ends.** In a heap of fewer than twelve bytes the loop bound of the
search wraps around, and from the end item, which is its own successor, the search goes on
forever: no amount of fuel is enough. -/
theorem search_diverges (T : Tiled h l) (hsmall : h.memSizeAligned < 12) (fuel : Nat) :
    ∀ ptr, ptr = 0 ∨ h.item ptr = h.heapEnd → h.search 12 fuel ptr = .error .divergence := by
  have htop := T.top
  have hend := T.end_eq
  have hbound : Word32.sub h.memSizeAligned 12 = 2 ^ 32 - (12 - h.memSizeAligned) :=
    Word32.sub_of_lt hsmall (by omega)
  obtain ⟨u, rfl⟩ := T.small hsmall
  induction fuel with
  | zero => intro _ _; rfl
  | succ fuel ih =>
    rintro ptr (rfl | hptr)
    · have T0 : Tiled h ([] ++ ⟨h.memSizeAligned + 16, u⟩ :: []) := T
      have hnext : h.next (h.item 0) = h.memSizeAligned + 16 := by
        have := T0.next_item
        rwa [span_nil, Nat.zero_add] at this
      rw [search, hbound, if_pos (by omega)]
      dsimp only
      rw [hnext, Word32.sub_of_le (show 0 + 16 ≤ h.memSizeAligned + 16 by omega) (by omega),
        if_neg (by omega)]
      exact ih _ (Or.inr hend.symm)
    · have hoff : ptr = h.memSizeAligned + 16 := by
        rw [item, hend] at hptr
        omega
      rw [search, hbound, if_pos (by omega)]
      dsimp only
      rw [hptr, T.memIsUsed_end, T.end_next, if_neg (by simp)]
      exact ih _ (Or.inr hend.symm)

/-- The call once the two early returns are past. -/
theorem rtSmemAlloc_search {self : Option (List UInt8)} {size : Nat} (h0 : size ≠ 0)
    (hfit : rtAlign size ≤ h.memSizeAligned) :
    h.rtSmemAlloc self size = (do
      match ← h.search (roundSize size) h.loopFuel (h.lfree - h.heapPtr) with
      | none => return (none, h)
      | some ptr =>
        let (p, h) ← h.takeItem self (roundSize size) ptr
        return (some p, h)) := by
  rw [rtSmemAlloc, if_neg h0]
  dsimp only
  rw [if_neg (show ¬ rtAlign size > h.memSizeAligned by omega)]
  rfl

/-- Such a heap never answers a request it does not refuse at once. -/
theorem rtSmemAlloc_diverges (L : Layout h l) (self : Option (List UInt8)) {size : Nat}
    (h0 : size ≠ 0) (hfit : rtAlign size ≤ h.memSizeAligned) (hsmall : h.memSizeAligned < 12) :
    h.rtSmemAlloc self size = .error .divergence := by
  have htop := L.top
  have hsize : roundSize size = 12 := if_pos (show rtAlign size < 12 by omega)
  have hstart : h.lfree - h.heapPtr = 0 ∨ h.item (h.lfree - h.heapPtr) = h.heapEnd := by
    have hend := L.end_eq
    obtain ⟨u, rfl⟩ := L.toTiled.small hsmall
    rw [L.lfree_eq]
    unfold item
    cases u with
    | true =>
      refine Or.inr ?_
      simp [firstFree]
      omega
    | false => exact Or.inl (by simp [firstFree])
  rw [rtSmemAlloc_search h0 hfit, hsize, search_diverges L.toTiled hsmall _ _ hstart]
  rfl

/-- **`rt_smem_alloc`** returns the first free item with enough room. It returns a null pointer
exactly when the request is zero, exceeds the heap, or finds no such item; and it does not
return at all in a heap too small for a minimal block. -/
theorem rtSmemAlloc_spec (L : Layout h l) (self : Option (List UInt8)) (size : Nat) :
    (h.rtSmemAlloc self size = .ok (none, h) ∧
        (size = 0 ∨ h.memSizeAligned < rtAlign size ∨ ∀ t ∈ l, ¬ Fits (roundSize size) t)) ∨
      (h.rtSmemAlloc self size = .error .divergence ∧ h.memSizeAligned < 12) ∨
      ∃ p h' pre n post, l = pre ++ ⟨n, false⟩ :: post ∧ size ≠ 0 ∧
        rtAlign size ≤ h.memSizeAligned ∧ h.rtSmemAlloc self size = .ok (some p, h') ∧
        Allocated h h' p (roundSize size) pre n post := by
  by_cases h0 : size = 0
  · exact Or.inl ⟨by rw [rtSmemAlloc, if_pos h0]; rfl, Or.inl h0⟩
  by_cases hbig : rtAlign size > h.memSizeAligned
  · refine Or.inl ⟨?_, Or.inr (Or.inl hbig)⟩
    rw [rtSmemAlloc, if_neg h0]
    dsimp only
    rw [if_pos hbig]
    rfl
  have hcall := @rtSmemAlloc_search h self size h0 (Nat.le_of_not_lt hbig)
  have htop := L.top
  by_cases hsmall : h.memSizeAligned < 12
  · exact Or.inr (Or.inl ⟨rtSmemAlloc_diverges L self h0 (Nat.le_of_not_lt hbig) hsmall, hsmall⟩)
  have hround : 12 ≤ roundSize size ∧ roundSize size ≤ h.memSizeAligned ∧
      roundSize size % 4 = 0 := by
    have := rtAlign_mod size
    unfold roundSize minSize
    split <;> omega
  -- the search starts at the first free item: nothing before it is free
  obtain ⟨skip, rest, rfl, hskip, hstart⟩ : ∃ skip rest, l = skip ++ rest ∧
      (∀ t ∈ skip, t.used = true) ∧ h.lfree - h.heapPtr = span skip := by
    have hsub : ∀ o, h.item o - h.heapPtr = o := fun o => by
      unfold item
      omega
    rcases exists_free_or_all_used l with hf | hu
    · obtain ⟨a, s, b, rfl, hs, hoff⟩ := firstFree_split hf
      refine ⟨a, s :: b, rfl, ?_, by rw [L.lfree_eq, hsub, hoff]⟩
      exact (firstFree_eq_iff hs (sized_append.mp L.sized).1.pos).mp (by rw [hoff, Nat.zero_add])
    · refine ⟨l, [], by simp, hu, ?_⟩
      rw [L.lfree_eq, hsub, ← List.append_nil l, firstFree_append_used hu]
      simp [firstFree]
  have hskipfit : ∀ t ∈ skip, ¬ Fits (roundSize size) t := fun t ht hf => by
    have := hskip t ht
    rw [hf.1] at this
    cases this
  have hfuel : rest.length < h.loopFuel := by
    have := L.toTiled.fuel
    rw [List.length_append] at this
    omega
  rw [hcall, hstart, search_spec hround.1 hround.2.1 rest skip _ L.toTiled hfuel]
  cases hres : searchResult (roundSize size) (span skip) rest with
  | none =>
    refine Or.inl ⟨rfl, Or.inr (Or.inr fun t ht => ?_)⟩
    rcases List.mem_append.mp ht with ht | ht
    · exact hskipfit t ht
    · exact searchResult_none hres t ht
  | some ptr =>
    obtain ⟨a, ⟨n, u⟩, b, rfl, hptr, ⟨hu, hn⟩, ha⟩ := searchResult_some hres
    dsimp only at hu hn
    subst hu
    have hspan : ptr = span (skip ++ a) := by rw [hptr, span_append]
    have L' : Layout h ((skip ++ a) ++ ⟨n, false⟩ :: b) := by simpa using L
    obtain ⟨h', htake, Lnew, hsame, hframe⟩ := takeItem_spec self L' hn hround.2.2 (by omega)
    refine Or.inr (Or.inr ⟨_, h', skip ++ a, n, b, by simp, h0, by omega, ?_,
      ⟨Lnew, rfl, hn, fun t ht => ?_, hsame, hframe⟩⟩)
    · rw [hspan]
      show (h.takeItem self (roundSize size) (span (skip ++ a)) >>= _) = _
      rw [htake]
      rfl
    · rcases List.mem_append.mp ht with ht | ht
      · exact hskipfit t ht
      · exact ha t ht

-- --------
-- Release
-- --------

theorem Tiled.memPool_item {n : Nat} {u : Bool} (T : Tiled h (pre ++ ⟨n, u⟩ :: post)) :
    h.memPool (h.item (span pre)) = h.smallMem := by
  have hmod := T.pool_mod
  rw [memPool_eq, T.poolPtr_item, poolWord]
  split <;> omega

theorem Tiled.memPool_next (T : Tiled h (pre ++ post)) :
    h.memPool (h.item (span pre)) = h.smallMem := by
  cases post with
  | nil =>
    have hmod := T.pool_mod
    have hend := T.end_item
    rw [List.append_nil] at hend
    rw [← hend, memPool_eq, T.end_pool]
    omega
  | cons s ss => exact T.memPool_item

theorem lowerLfree_eq {h : SmallMem} {mem v : Nat}
    (hv : (if mem < h.lfree then mem else h.lfree) = v) :
    h.lowerLfree mem = { h with lfree := v } := by
  subst hv
  unfold lowerLfree
  split <;> rfl

theorem lfree_min {n : Nat} (hpos : ∀ s ∈ pre, 0 < s.len) (hn : 0 < n)
    (hl : h.lfree = h.item (firstFree 0 (pre ++ ⟨n, true⟩ :: post))) :
    (if h.item (span pre) < h.lfree then h.item (span pre) else h.lfree) =
      h.item (firstFree 0 (pre ++ ⟨n, false⟩ :: post)) := by
  rw [hl, firstFree_free hn hpos, Nat.zero_add]
  unfold item
  by_cases hlt : span pre < firstFree 0 (pre ++ ⟨n, true⟩ :: post)
  · rw [if_pos hlt, if_pos (by omega)]
  · rw [if_neg hlt, if_neg (by omega)]

/-- **`rt_smem_free`** of an item in use gives its segment back. -/
theorem rtSmemFree_spec {n : Nat} (L : Layout h (pre ++ ⟨n, true⟩ :: post)) :
    ∃ h', h.rtSmemFree (some (h.item (span pre) + 16)) = .ok h' ∧
      Layout h' (release pre n post) ∧ SameHeap h h' ∧
      HeaderFrame h.mem h'.mem h.heapPtr (boundaries (pre ++ ⟨n, true⟩ :: post)) := by
  have T := L.toTiled
  obtain ⟨hext, hlen, hmod, hpmod⟩ := T.extent
  have htop := T.top
  have hend := T.end_eq
  have hheap := T.heap_mod
  have hpay : 16 < n := L.payload (span pre, n) (by simp)
  have hposl := (sized_append.mp T.sized).1.pos
  have hused := L.used_eq
  have husedle := usedSpan_le_span (pre ++ ⟨n, true⟩ :: post)
  simp only [usedSpan_append, usedSpan_cons, if_true, span_append, span_cons] at hused husedle
  obtain ⟨hcpre, hcpost⟩ := L.coalesced.sides
  -- the heap with the item marked, and the state in which the holes are plugged
  obtain ⟨m₁, hm₁⟩ : ∃ m₁, h.mark (h.item (span pre)) false blankName = { h with mem := m₁ } :=
    ⟨_, rfl⟩
  have Tm : Tiled { h with mem := m₁ } (pre ++ ⟨n, false⟩ :: post) := hm₁ ▸ tiled_mark T
  have hf₁ : HeaderFrame h.mem m₁ h.heapPtr [span pre] := by
    have := mark_frame h (span pre) false blankName
    rwa [hm₁] at this
  have Pg : Placed { h with
      mem := m₁, lfree := h.item (firstFree 0 (pre ++ ⟨n, false⟩ :: post)),
      used := usedSpan pre + usedSpan post } (pre ++ ⟨n, false⟩ :: post) :=
    { toTiled := Tm.counters
      lfree_eq := rfl
      used_eq := by simp
      used_le := by
        have := L.used_le
        dsimp only
        omega }
  obtain ⟨m', hplug, P', hf⟩ := plugHoles_spec Pg
  refine ⟨_, ?_, { toPlaced := P', coalesced := coalesced_release hcpre hcpost, payload := ?_ },
    ⟨rfl, rfl, rfl, rfl⟩, ?_⟩
  · have hsub : h.item (span pre) + 16 - 16 = h.item (span pre) := Nat.add_sub_cancel ..
    have hnextpool : h.memPool (h.item (h.next (h.item (span pre)))) = h.smallMem := by
      have T2 : Tiled h ((pre ++ [⟨n, true⟩]) ++ post) := by simpa using T
      have := T2.memPool_next
      rwa [span_append, show span [⟨n, true⟩] = n by simp, ← T.next_item] at this
    have hnext : m₁.load32 (h.item (span pre) + 4) = span pre + n := Tm.next_item
    have hoff : h.item (span pre) - h.heapPtr = span pre := by
      unfold item
      omega
    have hset : Word32.sub h.used (Word32.sub (span pre + n) (span pre)) =
        usedSpan pre + usedSpan post := by
      have hlen : Word32.sub (span pre + n) (span pre) = n := by
        rw [Word32.sub_of_le (by omega) (by omega), Nat.add_sub_cancel_left]
      rw [hlen, Word32.sub_of_le (by omega) (by omega)]
      omega
    have hlow : lowerLfree { h with mem := m₁ } (h.item (span pre)) = { h with
        mem := m₁, lfree := h.item (firstFree 0 (pre ++ ⟨n, false⟩ :: post)) } :=
      lowerLfree_eq (lfree_min hposl (by omega) L.lfree_eq)
    rw [rtSmemFree]
    dsimp only
    rw [rtAssert_bind (by unfold item rtAlignSize; omega), hsub, rtAssert_bind T.memPool_item,
      rtAssert_bind T.memIsUsed_item, rtAssert_bind (by rw [hend]; unfold item; omega),
      rtAssert_bind hnextpool, hm₁, hlow]
    dsimp only [SmallMem.next]
    rw [hnext, hoff, hset]
    exact hplug
  · intro b hb
    rw [blocks_release, Nat.zero_add] at hb
    refine L.payload b ?_
    simp only [blocks_append, blocks_cons, List.mem_append, Nat.zero_add]
    rcases List.mem_append.mp hb with hb | hb
    · exact Or.inl hb
    · exact Or.inr (Or.inr hb)
  · rw [boundaries_use pre post n false true] at hf
    refine hf₁.trans hf (fun o ho => ?_) (List.Subset.refl _)
    rw [List.mem_singleton.mp ho]
    exact boundary_mem pre _

-- --------
-- Resizing
-- --------

/-- The list after a block of length `n` was cut to length `k`, before holes are plugged. -/
def cutBlock (pre : List Seg) (k n : Nat) (post : List Seg) : List Seg :=
  pre ++ [⟨k, true⟩] ++ ⟨n - k, false⟩ :: post

/-- **Shrinking in place**: the tail of the block is given back. -/
theorem shrinkItem_spec {n : Nat} (newsize : Nat) (L : Layout h (pre ++ ⟨n, true⟩ :: post))
    (hroom : newsize + 32 ≤ n) (hsize : newsize % 4 = 0) (hpos : 0 < newsize) :
    ∃ h', h.shrinkItem (h.item (span pre)) (n - 16) newsize = .ok h' ∧
      Layout h' (release (pre ++ [⟨newsize + 16, true⟩]) (n - (newsize + 16)) post) ∧
      SameHeap h h' ∧
      HeaderFrame h.mem h'.mem h.heapPtr (boundaries (cutBlock pre (newsize + 16) n post)) := by
  have T := L.toTiled
  obtain ⟨hext, hlen, hmod, hpmod⟩ := T.extent
  have htop := T.top
  have hused := L.used_eq
  have husedle := usedSpan_le_span (pre ++ ⟨n, true⟩ :: post)
  simp only [usedSpan_append, usedSpan_cons, if_true, span_append, span_cons] at hused husedle
  obtain ⟨hcpre, hcpost⟩ := L.coalesced.sides
  have hcpre' : Coalesced (pre ++ [⟨newsize + 16, true⟩]) :=
    (coalesced_used rfl).mpr ⟨hcpre, List.isChain_nil⟩
  have hspan : span (pre ++ [⟨newsize + 16, true⟩]) = span pre + 16 + newsize := by
    simp
    omega
  -- the split, and the state in which the holes are plugged
  obtain ⟨us, hus⟩ : ∃ us, us = usedSpan pre + (newsize + 16) + usedSpan post := ⟨_, rfl⟩
  have Tu : Tiled { h with used := us } (pre ++ ⟨n, true⟩ :: post) := T.counters
  obtain ⟨m₁, hsplit, Ts, hf₁⟩ := splitItem_spec newsize Tu hroom hsize
  have hcut : pre ++ ⟨newsize + 16, true⟩ :: ⟨n - (newsize + 16), false⟩ :: post =
      cutBlock pre (newsize + 16) n post := by simp [cutBlock]
  rw [hcut] at Ts
  have Pg : Placed { h with
      mem := m₁, lfree := h.item (firstFree 0 (cutBlock pre (newsize + 16) n post)),
      used := us } (cutBlock pre (newsize + 16) n post) :=
    { toTiled := Ts.counters
      lfree_eq := rfl
      used_eq := by simp [cutBlock, hus, Nat.add_assoc]
      used_le := by
        have := L.used_le
        dsimp only
        omega }
  obtain ⟨m', hplug, P', hf⟩ := plugHoles_spec Pg
  rw [hspan] at hplug
  refine ⟨_, ?_, { toPlaced := P', coalesced := coalesced_release hcpre' hcpost, payload := ?_ },
    ⟨rfl, rfl, rfl, rfl⟩, ?_⟩
  · have hoff : h.item (span pre) - h.heapPtr = span pre := by
      unfold item
      omega
    have hset : Word32.sub h.used (Word32.sub (n - 16) newsize) = us := by
      have hlen : Word32.sub (n - 16) newsize = n - 16 - newsize :=
        Word32.sub_of_le (by omega) (by omega)
      rw [hlen, Word32.sub_of_le (by omega) (by omega)]
      omega
    have hlow : lowerLfree { h with mem := m₁, used := us } (h.item (span pre + 16 + newsize)) =
        { h with
          mem := m₁, lfree := h.item (firstFree 0 (cutBlock pre (newsize + 16) n post))
          used := us } := by
      have hpos' : ∀ s ∈ pre ++ [⟨newsize + 16, true⟩], 0 < s.len := by
        have hcutsz := Ts.sized
        rw [cutBlock] at hcutsz
        exact (sized_append.mp hcutsz).1.pos
      have hlf : h.lfree = h.item (firstFree 0
          ((pre ++ [⟨newsize + 16, true⟩]) ++ ⟨n - (newsize + 16), true⟩ :: post)) := by
        rw [List.append_assoc, List.singleton_append, firstFree_cut,
          show newsize + 16 + (n - (newsize + 16)) = n by omega]
        exact L.lfree_eq
      have hmin := lfree_min hpos' (by omega) hlf
      rw [hspan] at hmin
      exact lowerLfree_eq hmin
    rw [shrinkItem]
    dsimp only
    rw [hoff, hset, hsplit]
    show (lowerLfree { h with mem := m₁, used := us }
      (h.item (span pre + 16 + newsize))).plugHoles _ = _
    rw [hlow]
    exact hplug
  · intro b hb
    rw [blocks_release, Nat.zero_add] at hb
    simp only [blocks_append, blocks_cons, blocks_nil, List.mem_append, Nat.zero_add, if_true,
      List.mem_singleton, List.append_nil] at hb
    rcases hb with (hb | rfl) | hb
    · exact L.payload b (by simp [hb])
    · dsimp only
      omega
    · refine L.payload b ?_
      rw [hspan, show span pre + 16 + newsize + (n - (newsize + 16)) = span pre + n by omega] at hb
      simp [hb]
  · refine hf₁.trans hf (fun o ho => ?_) (List.Subset.refl _)
    have b1 := boundary_mem pre (⟨newsize + 16, true⟩ :: ⟨n - (newsize + 16), false⟩ :: post)
    have b2 := boundary_mem (pre ++ [⟨newsize + 16, true⟩]) (⟨n - (newsize + 16), false⟩ :: post)
    have b3 := boundary_mem (pre ++ [⟨newsize + 16, true⟩, ⟨n - (newsize + 16), false⟩]) post
    simp only [List.append_assoc, List.cons_append, List.nil_append, hcut, span_append, span_cons,
      span_nil, Nat.add_zero] at b1 b2 b3
    rw [show newsize + 16 + (n - (newsize + 16)) = n by omega] at b3
    simp only [List.mem_cons, List.not_mem_nil, or_false] at ho
    rcases ho with rfl | rfl | rfl
    · exact b1
    · exact b2
    · exact b3

end RTThread.SmallMem
