import RTThread.Mem.MemHeapLayout

/-!
# The edits of a memory heap

The statements the calls share, one lemma each: marking an item, splitting one,
joining two, taking an item off the free list and putting one in front of it.
Every lemma comes in the same two parts, what the edit leaves alone (`Edit`)
and what the list it is about has become.

A sequence of stores is first brought to the addresses it writes to
(`splitBlock_eq`, `removeFree_eq`, …): the source reads pointers between the
stores, and what it reads then is what was there before.
-/

namespace RTThread.Memheap

open ByteMem Tiling CircularList

variable {h h' : Memheap} {f g : Field} {a b v x p q : Nat} {l pre post : List Seg}
  {S fl : List Nat}

theorem get_set_mem (hS : AllApart S) (ha : a ∈ S) (hb : b ∈ S) (hv : v < 2 ^ 32) :
    (h.set f a v).get g b = if f = g ∧ a = b then v else h.get g b :=
  get_set (hS a ha b hb) hv

theorem get_name_mem {name : List UInt8} (hS : AllApart S) (ha : a ∈ S) (hb : b ∈ S) :
    (h.setOwnerThreadName a name).get g b = h.get g b :=
  get_setOwnerThreadName (hS a ha b hb)

-- --------
-- The free list
-- --------

theorem removeFree_eq (hS : AllApart S) (hx : x ∈ S) (hn : h.get .nextFree x ∈ S) :
    h.removeFree x =
      (h.set .prevFree (h.get .nextFree x) (h.get .prevFree x)).set .nextFree
        (h.get .prevFree x) (h.get .nextFree x) := by
  have h1 : (h.set .prevFree (h.get .nextFree x) (h.get .prevFree x)).get .prevFree x =
      h.get .prevFree x := by
    rw [get_set_mem hS hn hx (get_lt _ _ _)]
    split <;> rfl
  have h2 : (h.set .prevFree (h.get .nextFree x) (h.get .prevFree x)).get .nextFree x =
      h.get .nextFree x := by
    rw [get_set_mem hS hn hx (get_lt _ _ _)]
    exact if_neg (by simp)
  rw [removeFree, h1, h2]

/-- **Taking an item off the free list.** -/
theorem removeFree_spec {u w : List Nat} (hS : AllApart S) (F : FreeRing h (u ++ x :: w))
    (hnd : (h.freeHeader :: (u ++ x :: w)).Nodup)
    (hsub : ∀ y ∈ h.freeHeader :: (u ++ x :: w), y ∈ S) :
    Edit [.nextFree, .prevFree] S h (h.removeFree x) ∧ FreeRing (h.removeFree x) (u ++ w) := by
  have hxm : x ∈ h.freeHeader :: (u ++ x :: w) := by simp
  obtain ⟨hnm, _⟩ := Circular.next_mem F hxm
  obtain ⟨hpm, _⟩ := Circular.prev_mem F hxm
  have heq := removeFree_eq hS (hsub _ hxm) (hsub _ hnm)
  have hedit : Edit [.nextFree, .prevFree] S h (h.removeFree x) := by
    rw [heq]
    exact ((edit_set hS (hsub _ hnm) (get_lt _ _ _)).trans
      (edit_set hS (hsub _ hpm) (get_lt _ _ _))).mono (by decide)
  refine ⟨hedit, ?_⟩
  -- the cell in front of `x`, the header if there is no other
  obtain ⟨u', p, hu⟩ : ∃ u' p, h.freeHeader :: u = u' ++ [p] :=
    ⟨_, _, (List.dropLast_append_getLast (List.cons_ne_nil h.freeHeader u)).symm⟩
  have hall : h.freeHeader :: (u ++ x :: w) = u' ++ p :: x :: w := by
    rw [← List.cons_append, hu]
    simp
  have hrest : h.freeHeader :: (u ++ w) = u' ++ p :: w := by
    rw [← List.cons_append, hu]
    simp
  unfold FreeRing at F ⊢
  have hheader : (h.removeFree x).freeHeader = h.freeHeader := by
    rw [freeHeader, hedit.memheap_eq]
    rfl
  rw [hheader, hrest]
  rw [hall] at F hnd
  have hprev : h.get .prevFree x = p := (Circular.link F).2
  have hsub' : ∀ y ∈ u' ++ p :: w, y ∈ S := fun y hy => hsub y (by
    rw [hall]
    simp only [List.mem_append, List.mem_cons] at hy ⊢
    tauto)
  have hpS := hsub _ hpm
  have hnS := hsub _ hnm
  rw [hprev] at heq hpS
  have hp32 : p < 2 ^ 32 := by
    rw [← hprev]
    exact get_lt _ _ _
  -- every field of the two lists, after the two stores
  have hget : ∀ g, ∀ y ∈ S, (h.removeFree x).get g y =
      if Field.nextFree = g ∧ p = y then h.get .nextFree x
      else if Field.prevFree = g ∧ h.get .nextFree x = y then p else h.get g y := by
    intro g y hy
    rw [heq, get_set_mem hS hpS hy (get_lt _ _ _), get_set_mem hS hnS hy hp32]
  refine Circular.remove F hnd ?_ ?_ (fun y hy hne => ?_) fun y hy hne => ?_
  · rw [hget _ _ hpS, if_pos ⟨rfl, rfl⟩]
  · rw [hget _ _ hnS, if_neg (by simp), if_pos ⟨rfl, rfl⟩]
  · rw [hget _ _ (hsub' y hy), if_neg (by simp [Ne.symm hne]), if_neg (by simp)]
  · rw [hget _ _ (hsub' y hy), if_neg (by simp), if_neg (by simp [Ne.symm hne])]

/-- What both insertions write, in whichever order. -/
structure Inserted (S : List Nat) (h h' : Memheap) (x : Nat) : Prop where
  edit : Edit [.nextFree, .prevFree] S h h'
  next_eq : ∀ y ∈ S, h'.get .nextFree y = if h.freeHeader = y then x
    else if x = y then h.get .nextFree h.freeHeader else h.get .nextFree y
  prev_eq : ∀ y ∈ S, h'.get .prevFree y = if h.get .nextFree h.freeHeader = y then x
    else if x = y then h.freeHeader else h.get .prevFree y

/-- **Putting an item in front of the free list.** -/
theorem Inserted.free (I : Inserted S h h' x) (F : FreeRing h fl)
    (hnd : (h.freeHeader :: fl).Nodup) (hsub : ∀ y ∈ h.freeHeader :: fl, y ∈ S)
    (hx : x ∈ S) (hxn : x ∉ h.freeHeader :: fl) : FreeRing h' (x :: fl) := by
  unfold FreeRing at F ⊢
  have hheader : h'.freeHeader = h.freeHeader := by
    rw [freeHeader, I.edit.memheap_eq]
    rfl
  rw [hheader]
  have hhm : h.freeHeader ∈ h.freeHeader :: fl := by simp
  obtain ⟨hnm, _⟩ := Circular.next_mem F hhm
  have hxh : h.freeHeader ≠ x := fun he => hxn (by simp [he])
  have hxf : h.get .nextFree h.freeHeader ≠ x := fun he => hxn (he ▸ hnm)
  refine Circular.insert (u := []) F hnd ?_ ?_ ?_ ?_ (fun y hy hne => ?_) fun y hy hne => ?_
  · rw [I.next_eq _ (hsub _ hhm), if_pos rfl]
  · rw [I.next_eq _ hx, if_neg hxh, if_pos rfl]
  · rw [I.prev_eq _ hx, if_neg hxf, if_pos rfl]
  · rw [I.prev_eq _ (hsub _ hnm), if_pos rfl]
  · have hxy : x ≠ y := fun he => hxn (he ▸ hy)
    rw [I.next_eq y (hsub y hy), if_neg (Ne.symm hne), if_neg hxy]
  · have hxy : x ≠ y := fun he => hxn (he ▸ hy)
    rw [I.prev_eq y (hsub y hy), if_neg (Ne.symm hne), if_neg hxy]

theorem insertFree_spec (hS : AllApart S) (hlist : h.freeList = h.freeHeader)
    (hh : h.freeHeader ∈ S) (hx : x ∈ S) (hn : h.get .nextFree h.freeHeader ∈ S)
    (hxh : x ≠ h.freeHeader) (hx32 : x < 2 ^ 32) (hh32 : h.freeHeader < 2 ^ 32) :
    Inserted S h (h.insertFree x) x := by
  obtain ⟨n, hne⟩ : ∃ n, n = h.get .nextFree h.freeHeader := ⟨_, rfl⟩
  have hn32 : n < 2 ^ 32 := hne ▸ get_lt _ _ _
  rw [← hne] at hn
  have heq : h.insertFree x = (((h.set .nextFree x n).set .prevFree x h.freeHeader).set
      .prevFree n x).set .nextFree h.freeHeader x := by
    have hread : ((h.set .nextFree x n).set .prevFree x h.freeHeader).get .nextFree
        h.freeHeader = n := by
      rw [get_set_mem hS hx hh hh32, get_set_mem hS hx hh hn32, if_neg (by simp),
        if_neg (by simp [hxh]), hne]
    rw [insertFree]
    simp only [set_freeList, hlist]
    rw [← hne, hread]
  have hget : ∀ g, ∀ y ∈ S, (h.insertFree x).get g y =
      if Field.nextFree = g ∧ h.freeHeader = y then x
      else if Field.prevFree = g ∧ n = y then x
      else if Field.prevFree = g ∧ x = y then h.freeHeader
      else if Field.nextFree = g ∧ x = y then n else h.get g y := by
    intro g y hy
    rw [heq, get_set_mem hS hh hy hx32, get_set_mem hS hn hy hx32, get_set_mem hS hx hy hh32,
      get_set_mem hS hx hy hn32]
  refine ⟨?_, fun y hy => ?_, fun y hy => ?_⟩
  · rw [heq]
    exact ((((edit_set hS hx hn32).trans (edit_set hS hx hh32)).trans
      (edit_set hS hn hx32)).trans (edit_set hS hh hx32)).mono (by decide)
  · rw [hget _ y hy, ← hne]
    simp
  · rw [hget _ y hy, ← hne]
    simp

theorem insertHeader_spec (hS : AllApart S) (hlist : h.freeList = h.freeHeader)
    (hh : h.freeHeader ∈ S) (hx : x ∈ S) (hn : h.get .nextFree h.freeHeader ∈ S)
    (hback : h.get .prevFree (h.get .nextFree h.freeHeader) = h.freeHeader)
    (hxn : x ≠ h.get .nextFree h.freeHeader) (hx32 : x < 2 ^ 32) (hh32 : h.freeHeader < 2 ^ 32) :
    Inserted S h (h.insertHeader x) x := by
  obtain ⟨n, hne⟩ : ∃ n, n = h.get .nextFree h.freeHeader := ⟨_, rfl⟩
  have hn32 : n < 2 ^ 32 := hne ▸ get_lt _ _ _
  rw [← hne] at hn hback hxn
  have heq : h.insertHeader x = (((h.set .nextFree x n).set .prevFree x h.freeHeader).set
      .nextFree h.freeHeader x).set .prevFree n x := by
    have hread₁ : (h.set .nextFree x n).get .prevFree n = h.freeHeader := by
      rw [get_set_mem hS hx hn hn32, if_neg (by simp), hback]
    have hread₂ : ((h.set .nextFree x n).set .prevFree x h.freeHeader).get .prevFree n =
        h.freeHeader := by
      rw [get_set_mem hS hx hn hh32, if_neg (by simp [hxn]), hread₁]
    rw [insertHeader]
    simp only [hlist]
    rw [← hne, hread₁, hread₂]
  have hget : ∀ g, ∀ y ∈ S, (h.insertHeader x).get g y =
      if Field.prevFree = g ∧ n = y then x
      else if Field.nextFree = g ∧ h.freeHeader = y then x
      else if Field.prevFree = g ∧ x = y then h.freeHeader
      else if Field.nextFree = g ∧ x = y then n else h.get g y := by
    intro g y hy
    rw [heq, get_set_mem hS hn hy hx32, get_set_mem hS hh hy hx32, get_set_mem hS hx hy hh32,
      get_set_mem hS hx hy hn32]
  refine ⟨?_, fun y hy => ?_, fun y hy => ?_⟩
  · rw [heq]
    exact ((((edit_set hS hx hn32).trans (edit_set hS hx hh32)).trans
      (edit_set hS hh hx32)).trans (edit_set hS hn hx32)).mono (by decide)
  · rw [hget _ y hy, ← hne]
    simp
  · rw [hget _ y hy, ← hne]
    simp

-- --------
-- The block list
-- --------

theorem Tiled.pool_lt (T : Tiled h l) : h.memheap < 2 ^ 32 := by
  have := T.header_top
  unfold freeHeader at this
  omega

/-- **Marking** the item in use or free. -/
theorem mark_spec {n : Nat} {u : Bool} (w : Bool) (T : Tiled h (pre ++ ⟨n, u⟩ :: post)) :
    Edit [.magic] (h.items (pre ++ ⟨n, u⟩ :: post)) h
        (h.set .magic (h.startAddr + span pre) (magicWord w)) ∧
      Tiled (h.set .magic (h.startAddr + span pre) (magicWord w)) (pre ++ ⟨n, w⟩ :: post) := by
  obtain ⟨p, hp⟩ : ∃ p, p = h.startAddr + span pre := ⟨_, rfl⟩
  have hS := T.toGeometry.items_apart
  have hpS := (item_mem h pre n u post).1
  rw [← hp] at hpS ⊢
  have e : Edit [.magic] _ h (h.set .magic p (magicWord w)) :=
    edit_set hS hpS (magicWord_lt w)
  refine ⟨e, ?_⟩
  have hedges : edges h.startAddr (pre ++ ⟨n, w⟩ :: post) =
      edges h.startAddr (pre ++ ⟨n, u⟩ :: post) := by
    rw [edges_item, edges_item]
  have hspan : span (pre ++ ⟨n, w⟩ :: post) = span (pre ++ ⟨n, u⟩ :: post) := by simp
  have hmem : ∀ y ∈ edges h.startAddr (pre ++ ⟨n, u⟩ :: post),
      y ∈ h.items (pre ++ ⟨n, u⟩ :: post) := fun y hy => edge_mem_items hy
  have hnd := T.toGeometry.edges_nodup
  rw [edges_item, ← hp] at hnd hmem
  obtain ⟨t, ht⟩ := edges_head (p + n) post
  have hother : ∀ y ∈ h.items (pre ++ ⟨n, u⟩ :: post), p ≠ y → ∀ b, Marked h y b →
      Marked (h.set .magic p (magicWord w)) y b := by
    intro y hy hne b M
    refine ⟨?_, ?_⟩
    · rw [get_set_mem hS hpS hy (magicWord_lt w), if_neg (by simp [hne]), M.1]
    · rw [e.keep y hy _ (by decide), M.2]
      rfl
  refine ⟨(T.toGeometry.of_eq ?_ hspan).edit e, T.blockList_eq, T.freeList_eq, ?_, ?_, ?_⟩
  · intro s hs
    rcases List.mem_append.mp hs with hs | hs
    · exact T.sized s (by simp [hs])
    · rcases List.mem_cons.mp hs with rfl | hs
      · exact T.sized ⟨n, u⟩ (by simp)
      · exact T.sized s (by simp [hs])
  · have hb := T.blocks
    rw [set_startAddr, hedges]
    exact hb.congr (fun y hy => e.keep y (edge_mem_items hy) _ (by decide))
      fun y hy => e.keep y (edge_mem_items hy) _ (by decide)
  · have hm := T.marks
    rw [laid_append, laid_cons] at hm ⊢
    rw [← hp] at hm
    rw [set_startAddr, ← hp]
    obtain ⟨hm₁, ⟨_, hpool⟩, hm₂⟩ := hm
    refine ⟨?_, ⟨?_, ?_⟩, ?_⟩
    · refine hm₁.imp_starts fun _ y hy s M => hother y (hmem y (by simp [hy])) ?_ _ M
      rintro rfl
      exact (List.disjoint_of_nodup_append hnd) hy (by simp)
    · rw [get_set_mem hS hpS hpS (magicWord_lt w), if_pos ⟨rfl, rfl⟩]
    · rw [e.keep p hpS _ (by decide), hpool]
      rfl
    · refine hm₂.imp_starts fun _ y hy s M => ?_
      have hy' : y ∈ edges (p + n) post := by
        rw [edges_eq]
        exact List.mem_append_left _ hy
      refine hother y (hmem y (by simp [hy'])) ?_ _ M
      rintro rfl
      exact (List.nodup_cons.mp (List.nodup_append.mp hnd).2.1).1 hy'
  · rw [set_startAddr, hspan]
    have hlast : h.startAddr + span (pre ++ ⟨n, u⟩ :: post) ∈ edges (p + n) post := by
      rw [edges_eq, hp]
      simp [Nat.add_assoc]
    refine hother _ (hmem _ (List.mem_append_right _ (List.mem_cons_of_mem _ hlast))) ?_ _
      T.tailer
    intro he
    rw [← he] at hlast
    exact (List.nodup_cons.mp (List.nodup_append.mp hnd).2.1).1 hlast

theorem splitBlock_eq (hS : AllApart S) (hp : p ∈ S) (hx : x ∈ S) (hpx : x ≠ p)
    (hp32 : p < 2 ^ 32) (hm : h.memheap < 2 ^ 32) :
    h.splitBlock p x =
      ((((((h.set .magic x (magicWord false)).set .poolPtr x h.memheap).setOwnerThreadName x
        blankName).set .prev x p).set .next x (h.get .next p)).set .prev (h.get .next p) x).set
        .next p x := by
  have hread₁ : ((((h.set .magic x (magicWord false)).set .poolPtr x h.memheap).setOwnerThreadName
      x blankName).set .prev x p).get .next p = h.get .next p := by
    rw [get_set_mem hS hx hp hp32, if_neg (by simp), get_name_mem hS hx hp,
      get_set_mem hS hx hp hm, if_neg (by simp), get_set_mem hS hx hp (magicWord_lt _),
      if_neg (by simp)]
  have hread₂ : (((((h.set .magic x (magicWord false)).set .poolPtr x h.memheap).setOwnerThreadName
      x blankName).set .prev x p).set .next x (h.get .next p)).get .next p = h.get .next p := by
    rw [get_set_mem hS hx hp (get_lt _ _ _), if_neg (by simp [hpx]), hread₁]
  rw [splitBlock]
  dsimp only [set_memheap]
  rw [hread₁, hread₂]

/-- **Splitting** the item at the front of which `c` bytes stay; the rest is a free item that is
in no free list yet. -/
theorem splitBlock_spec {n c : Nat} {u : Bool} (T : Tiled h (pre ++ ⟨n, u⟩ :: post))
    (hc : 40 ≤ c) (hr : c + 40 ≤ n) :
    Edit [.magic, .poolPtr, .next, .prev] (h.items (pre ++ ⟨c, u⟩ :: ⟨n - c, false⟩ :: post)) h
        (h.splitBlock (h.startAddr + span pre) (h.startAddr + span pre + c)) ∧
      Tiled (h.splitBlock (h.startAddr + span pre) (h.startAddr + span pre + c))
        (pre ++ ⟨c, u⟩ :: ⟨n - c, false⟩ :: post) := by
  obtain ⟨l', hl'⟩ : ∃ l', l' = pre ++ ⟨c, u⟩ :: ⟨n - c, false⟩ :: post := ⟨_, rfl⟩
  obtain ⟨p, hp⟩ : ∃ p, p = h.startAddr + span pre := ⟨_, rfl⟩
  have hspan : span l' = span (pre ++ ⟨n, u⟩ :: post) := by
    rw [hl']
    simp only [span_append, span_cons]
    omega
  have G : Geometry h l' := by
    refine T.toGeometry.of_eq ?_ hspan
    intro s hs
    rw [hl'] at hs
    rcases List.mem_append.mp hs with hs | hs
    · exact T.sized s (by simp [hs])
    · rcases List.mem_cons.mp hs with rfl | hs
      · exact hc
      · rcases List.mem_cons.mp hs with rfl | hs
        · dsimp only
          omega
        · exact T.sized s (by simp [hs])
  have hedges : edges h.startAddr (pre ++ ⟨n, u⟩ :: post) =
      starts h.startAddr pre ++ p :: edges (p + n) post := by
    rw [edges_item, ← hp]
  have hedges' : edges h.startAddr l' =
      starts h.startAddr pre ++ p :: (p + c) :: edges (p + n) post := by
    rw [hl', edges_item, edges_cons, ← hp]
    dsimp only
    rw [show p + c + (n - c) = p + n by omega]
  have hS := G.items_apart
  have hnd' := G.edges_nodup
  have hmem : ∀ y ∈ edges h.startAddr l', y ∈ h.items l' := fun y hy => edge_mem_items hy
  rw [hedges'] at hmem hnd'
  have hsub : ∀ y ∈ edges h.startAddr (pre ++ ⟨n, u⟩ :: post), y ∈ h.items l' := by
    intro y hy
    rw [hedges] at hy
    refine hmem y ?_
    simp only [List.mem_append, List.mem_cons] at hy ⊢
    tauto
  have hpS : p ∈ h.items l' := hmem p (by simp)
  have hxS : p + c ∈ h.items l' := hmem _ (by simp)
  have hq : h.get .next p = p + n := by rw [hp, T.next_eq]
  have hqS : p + n ∈ h.items l' := by
    obtain ⟨t, ht⟩ := edges_head (p + n) post
    exact hmem _ (by simp [ht])
  have hp32 : p < 2 ^ 32 := by
    have := G.item_lt hpS
    omega
  have hx32 : p + c < 2 ^ 32 := by
    have := G.item_lt hxS
    omega
  have hq32 : p + n < 2 ^ 32 := by
    have := G.item_lt hqS
    omega
  have heq := splitBlock_eq hS hpS hxS (show p + c ≠ p by omega) hp32 T.pool_lt
  rw [hq] at heq
  have e : Edit [.magic, .poolPtr, .next, .prev] (h.items l') h (h.splitBlock p (p + c)) := by
    rw [heq]
    exact (((((((edit_set hS hxS (magicWord_lt _)).trans (edit_set hS hxS T.pool_lt)).trans
      (edit_name hS hxS)).trans (edit_set hS hxS hp32)).trans (edit_set hS hxS hq32)).trans
      (edit_set hS hqS hx32)).trans (edit_set hS hpS hx32)).mono (by decide)
  have hget : ∀ g, ∀ y ∈ h.items l', (h.splitBlock p (p + c)).get g y =
      if Field.next = g ∧ p = y then p + c
      else if Field.prev = g ∧ p + n = y then p + c
      else if Field.next = g ∧ p + c = y then p + n
      else if Field.prev = g ∧ p + c = y then p
      else if Field.poolPtr = g ∧ p + c = y then h.memheap
      else if Field.magic = g ∧ p + c = y then magicWord false else h.get g y := by
    intro g y hy
    rw [heq, get_set_mem hS hpS hy hx32, get_set_mem hS hqS hy hx32, get_set_mem hS hxS hy hq32,
      get_set_mem hS hxS hy hp32, get_name_mem hS hxS hy, get_set_mem hS hxS hy T.pool_lt,
      get_set_mem hS hxS hy (magicWord_lt _)]
  rw [← hp, ← hl']
  refine ⟨e, ?_⟩
  have hmarked : ∀ y ∈ h.items l', p + c ≠ y → ∀ b, Marked h y b →
      Marked (h.splitBlock p (p + c)) y b := by
    intro y hy hne b M
    refine ⟨?_, ?_⟩
    · rw [hget _ y hy]
      simpa [hne] using M.1
    · rw [hget _ y hy, e.memheap_eq]
      simpa [hne] using M.2
  have hxrest : p + c ∉ edges (p + n) post := by
    intro hmem
    have := (edge_bounds hmem).1
    omega
  refine ⟨G.edit e, ?_, ?_, ?_, ?_, ?_⟩
  · rw [e.blockList_eq, e.startAddr_eq, T.blockList_eq]
  · rw [e.freeList_eq, freeHeader, e.memheap_eq, T.freeList_eq]
    rfl
  · have hb := T.blocks
    have hnd := T.toGeometry.edges_nodup
    rw [hedges] at hb hnd hsub
    rw [e.startAddr_eq, hedges']
    have hxy : ∀ y ∈ starts h.startAddr pre ++ p :: edges (p + n) post, p + c ≠ y := by
      rintro y hy rfl
      rcases List.mem_append.mp hy with hy | hy
      · exact (List.disjoint_of_nodup_append hnd') hy (by simp)
      · rcases List.mem_cons.mp hy with hy | hy
        · omega
        · exact hxrest hy
    refine hb.insert hnd ?_ ?_ ?_ ?_ (fun y hy hne => ?_) fun y hy hne => ?_
    · rw [hget _ p hpS]
      simp
    · rw [hget _ _ hxS, hq]
      have hc0 : c ≠ 0 := by omega
      simp [hc0]
    · rw [hget _ _ hxS]
      have hnc : n ≠ c := by omega
      simp [hnc]
    · rw [hq, hget _ _ hqS]
      simp
    · rw [hget _ y (hsub y hy)]
      simp [Ne.symm hne, hxy y hy]
    · rw [hq] at hne
      rw [hget _ y (hsub y hy)]
      simp [Ne.symm hne, hxy y hy]
  · have hm := T.marks
    rw [laid_append, laid_cons, ← hp] at hm
    rw [e.startAddr_eq, hl', laid_append, laid_cons, laid_cons, ← hp]
    obtain ⟨hm₁, hm₂, hm₃⟩ := hm
    refine ⟨?_, hmarked p hpS (by omega) _ hm₂, ⟨?_, ?_⟩, ?_⟩
    · refine hm₁.imp_starts fun _ y hy s M => hmarked y (hmem y (by simp [hy])) ?_ _ M
      rintro rfl
      exact (List.disjoint_of_nodup_append hnd') hy (by simp)
    · rw [hget _ _ hxS]
      simp
    · rw [hget _ _ hxS, e.memheap_eq]
      simp
    · dsimp only
      rw [show p + c + (n - c) = p + n by omega]
      refine (laid_prev hm₃).imp_starts fun _ y hy s M => ?_
      have hy' : y ∈ edges (p + n) post := by
        rw [edges_eq]
        exact List.mem_append_left _ hy
      refine hmarked y (hmem y (by simp [hy'])) ?_ _ M
      rintro rfl
      exact hxrest hy'
  · rw [e.startAddr_eq, hspan]
    have hlast : h.startAddr + span (pre ++ ⟨n, u⟩ :: post) ∈ edges (p + n) post := by
      rw [edges_eq, hp]
      simp [Nat.add_assoc]
    refine hmarked _ (hsub _ (by
      rw [hedges]
      exact List.mem_append_right _ (List.mem_cons_of_mem _ hlast))) ?_ _ T.tailer
    intro he
    rw [← he] at hlast
    exact hxrest hlast

section Join

variable {n k : Nat} {u w : Bool}

theorem Tiled.second (T : Tiled h (pre ++ ⟨n, u⟩ :: ⟨k, w⟩ :: post)) :
    Tiled h ((pre ++ [⟨n, u⟩]) ++ ⟨k, w⟩ :: post) ∧
      h.startAddr + span (pre ++ [⟨n, u⟩]) = h.startAddr + span pre + n := by
  refine ⟨by simpa using T, ?_⟩
  simp [Nat.add_assoc]

theorem Tiled.next_second (T : Tiled h (pre ++ ⟨n, u⟩ :: ⟨k, w⟩ :: post)) :
    h.get .next (h.startAddr + span pre + n) = h.startAddr + span pre + n + k := by
  obtain ⟨T', hspan⟩ := T.second
  rw [← hspan, T'.next_eq]

theorem Tiled.items_pair (T : Tiled h (pre ++ ⟨n, u⟩ :: ⟨k, w⟩ :: post)) :
    let l := pre ++ ⟨n, u⟩ :: ⟨k, w⟩ :: post
    h.startAddr + span pre ∈ h.items l ∧ h.startAddr + span pre + n ∈ h.items l ∧
      h.startAddr + span pre + n + k ∈ h.items l := by
  obtain ⟨T', hspan⟩ := T.second
  have hsecond := item_mem h (pre ++ [⟨n, u⟩]) k w post
  rw [hspan] at hsecond
  exact ⟨(item_mem h pre n u _).1, (item_mem h pre n u _).2, by simpa using hsecond.2⟩

/-- The two stores of a join, in either order. -/
theorem join_spec (T : Tiled h (pre ++ ⟨n, u⟩ :: ⟨k, w⟩ :: post))
    (hset : h' = (h.set .prev (h.startAddr + span pre + n + k) (h.startAddr + span pre)).set .next
        (h.startAddr + span pre) (h.startAddr + span pre + n + k) ∨
      h' = (h.set .next (h.startAddr + span pre) (h.startAddr + span pre + n + k)).set .prev
        (h.startAddr + span pre + n + k) (h.startAddr + span pre)) :
    Edit [.next, .prev] (h.items (pre ++ ⟨n, u⟩ :: ⟨k, w⟩ :: post)) h h' ∧
      Tiled h' (pre ++ ⟨n + k, u⟩ :: post) ∧
      h'.get .prev (h.startAddr + span pre + n) = h.startAddr + span pre := by
  obtain ⟨hpS, hxS, hqS⟩ := T.items_pair
  have hprev := T.prev_eq
  have hn := T.extent.1
  have hk := T.second.1.extent.1
  have hjoin := @Tiled.join h h' pre post n k u w T
  obtain ⟨p, hp⟩ : ∃ p, p = h.startAddr + span pre := ⟨_, rfl⟩
  rw [← hp] at hpS hxS hqS hset hprev hjoin ⊢
  have hS := T.toGeometry.items_apart
  have hp32 : p < 2 ^ 32 := by
    have := T.toGeometry.item_lt hpS
    omega
  have hq32 : p + n + k < 2 ^ 32 := by
    have := T.toGeometry.item_lt hqS
    omega
  have hget : ∀ g, ∀ y ∈ h.items (pre ++ ⟨n, u⟩ :: ⟨k, w⟩ :: post), h'.get g y =
      if Field.next = g ∧ p = y then p + n + k
      else if Field.prev = g ∧ p + n + k = y then p else h.get g y := by
    intro g y hy
    rcases hset with rfl | rfl
    · rw [get_set_mem hS hpS hy hq32, get_set_mem hS hqS hy hp32]
    · rw [get_set_mem hS hqS hy hp32, get_set_mem hS hpS hy hq32]
      cases g <;> simp
  have e : Edit [.next, .prev] (h.items (pre ++ ⟨n, u⟩ :: ⟨k, w⟩ :: post)) h h' := by
    rcases hset with rfl | rfl
    · exact ((edit_set hS hqS hp32).trans (edit_set hS hpS hq32)).mono (by decide)
    · exact ((edit_set hS hpS hq32).trans (edit_set hS hqS hp32)).mono (by decide)
  refine ⟨e, hjoin (e.mono (by decide)) (fun y hy => ?_) fun y hy => ?_, ?_⟩
  · rw [hget _ y hy]
    simp
  · rw [hget _ y hy]
    simp
  · rw [hget _ _ hxS, if_neg (by simp), if_neg, hprev]
    rintro ⟨_, hne⟩
    omega

/-- **Merging** an item into the one in front of it. -/
theorem mergeBlock_spec (T : Tiled h (pre ++ ⟨n, u⟩ :: ⟨k, w⟩ :: post)) :
    Edit [.next, .prev] (h.items (pre ++ ⟨n, u⟩ :: ⟨k, w⟩ :: post)) h
        (h.mergeBlock (h.startAddr + span pre) (h.startAddr + span pre + n)) ∧
      Tiled (h.mergeBlock (h.startAddr + span pre) (h.startAddr + span pre + n))
        (pre ++ ⟨n + k, u⟩ :: post) := by
  have hnext := T.next_second
  obtain ⟨hpS, hxS, hqS⟩ := T.items_pair
  have hS := T.toGeometry.items_apart
  have hp32 := T.toGeometry.item_lt hpS
  have hread : (h.set .prev (h.startAddr + span pre + n + k) (h.startAddr + span pre)).get .next
      (h.startAddr + span pre + n) = h.startAddr + span pre + n + k := by
    rw [get_set_mem hS hqS hxS (by omega), if_neg (by simp), hnext]
  obtain ⟨e, T', _⟩ := join_spec T (Or.inl rfl)
  rw [mergeBlock, hnext, hread]
  exact ⟨e, T'⟩

/-- **Merging** the item with its predecessor. -/
theorem mergeLeft_spec (T : Tiled h (pre ++ ⟨n, u⟩ :: ⟨k, w⟩ :: post)) :
    Edit [.next, .prev] (h.items (pre ++ ⟨n, u⟩ :: ⟨k, w⟩ :: post)) h
        (h.mergeLeft (h.startAddr + span pre + n)) ∧
      Tiled (h.mergeLeft (h.startAddr + span pre + n)) (pre ++ ⟨n + k, u⟩ :: post) ∧
      (h.mergeLeft (h.startAddr + span pre + n)).get .prev (h.startAddr + span pre + n) =
        h.startAddr + span pre ∧
      (h.mergeLeft (h.startAddr + span pre + n)).availableSize =
        Word32.add h.availableSize 28 ∧
      (h.mergeLeft (h.startAddr + span pre + n)).maxUsedSize = h.maxUsedSize := by
  obtain ⟨h₀, hh₀⟩ : ∃ h₀ : Memheap,
      h₀ = { h with availableSize := Word32.add h.availableSize memheapSize } := ⟨_, rfl⟩
  have T₀ : Tiled h₀ (pre ++ ⟨n, u⟩ :: ⟨k, w⟩ :: post) := by
    rw [hh₀]
    exact T.edit (edit_available.mono (by simp)) fun y hy => hy
  have hnext := T₀.next_second
  have hprev := T₀.prev_eq
  obtain ⟨hpS, hxS, hqS⟩ := T₀.items_pair
  have hn := T.extent.1
  have hS := T₀.toGeometry.items_apart
  have hq32 := T₀.toGeometry.item_lt hqS
  have hread : ∀ g, (h₀.set .next (h₀.startAddr + span pre) (h₀.startAddr + span pre + n + k)).get
      g (h₀.startAddr + span pre + n) = h₀.get g (h₀.startAddr + span pre + n) := by
    intro g
    rw [get_set_mem hS hpS hxS (by omega), if_neg]
    rintro ⟨_, hne⟩
    omega
  obtain ⟨e, T', hback⟩ := join_spec T₀ (Or.inr rfl)
  have heq : h.mergeLeft (h.startAddr + span pre + n) =
      (h₀.set .next (h₀.startAddr + span pre) (h₀.startAddr + span pre + n + k)).set .prev
        (h₀.startAddr + span pre + n + k) (h₀.startAddr + span pre) := by
    rw [mergeLeft, ← hh₀, show h.startAddr = h₀.startAddr by rw [hh₀]]
    rw [hprev, hnext, hread, hread, hprev, hnext]
  rw [heq]
  refine ⟨?_, T', ?_, ?_, ?_⟩
  · have e₀ : Edit [] (h.items (pre ++ ⟨n, u⟩ :: ⟨k, w⟩ :: post)) h h₀ := by
      rw [hh₀]
      exact edit_available
    rw [e₀.items_eq] at e
    exact (e₀.trans e).mono (by decide)
  · rw [show h.startAddr = h₀.startAddr by rw [hh₀]]
    exact hback
  · rw [set_availableSize, set_availableSize, hh₀]
  · rw [set_maxUsedSize, set_maxUsedSize, hh₀]

end Join

end RTThread.Memheap
