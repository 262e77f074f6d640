import RTThread.Mem.MemHeap
import RTThread.Lib.CircularList
import RTThread.Lib.Tiling

/-!
# The layout of a memory heap

Two circular lists run through the items: the block list, which is the pool in
address order and ends with the tailer, and the free list. `Tiled` ties the
block list to a list of segments, `FreeRing` names the cells of the free list,
`Layout` is the whole invariant: both lists, the free list being a permutation
of the free segments, and the counters.

The items never overlap, so a store to a field of one of them is seen by that
field of that item alone (`get_set`). `Edit fs` collects what a sequence of
such stores leaves alone; an edit of the block fields keeps the free list, an
edit of the free fields keeps the block list.
-/

namespace RTThread.Memheap

open ByteMem Tiling CircularList

variable {h h' h'' : Memheap} {f g : Field} {a b v x : Nat} {l pre post : List Seg}
  {S fl : List Nat} {fs fs' : List Field}

-- --------
-- Fields
-- --------

/-- Two items are the same or do not overlap. -/
def Apart (a b : Nat) : Prop := a = b ∨ a + 28 ≤ b ∨ b + 28 ≤ a

theorem Apart.symm (h : Apart a b) : Apart b a := by
  unfold Apart at *
  omega

instance : Std.Symm Apart := ⟨fun _ _ => Apart.symm⟩

theorem Field.offset_le (f : Field) : f.offset + 4 ≤ 24 := by
  cases f <;> decide

/-- Two fields of an item do not overlap. -/
theorem Field.offset_apart (hfg : f ≠ g) :
    f.offset + 4 ≤ g.offset ∨ g.offset + 4 ≤ f.offset := by
  cases f <;> cases g <;> first | exact absurd rfl hfg | decide

theorem get_lt (h : Memheap) (f : Field) (a : Nat) : h.get f a < 2 ^ 32 := load32_lt _ _

/-- A store to a field of one item, read from a field of another. -/
theorem get_set (hab : Apart a b) (hv : v < 2 ^ 32) :
    (h.set f a v).get g b = if f = g ∧ a = b then v else h.get g b := by
  have hf := f.offset_le
  have hg := g.offset_le
  unfold get set
  by_cases heq : f = g ∧ a = b
  · obtain ⟨rfl, rfl⟩ := heq
    rw [if_pos ⟨rfl, rfl⟩]
    exact load32_store32_self hv
  · rw [if_neg heq]
    refine load32_store32_out ?_
    by_cases hfg : f = g
    · have hne : a ≠ b := fun hab => heq ⟨hfg, hab⟩
      unfold Apart at hab
      omega
    · have := Field.offset_apart hfg
      unfold Apart at hab
      omega

theorem nameField_length (name : List UInt8) : (nameField name).length = 4 := by
  simp [nameField]

/-- The name of an item changes no field of another one. -/
theorem get_setOwnerThreadName {name : List UInt8} (hab : Apart a b) :
    (h.setOwnerThreadName a name).get g b = h.get g b := by
  have hg := g.offset_le
  have hname := nameField_length name
  refine load32_storeBytes_out ?_
  unfold Apart at hab
  omega

/-- A field is inside its item. -/
theorem set_mem_out (hx : x < a ∨ a + 28 ≤ x) : (h.set f a v).mem x = h.mem x := by
  have hf := f.offset_le
  exact store32_out (by omega)

theorem setOwnerThreadName_mem_out {name : List UInt8} (hx : x < a ∨ a + 28 ≤ x) :
    (h.setOwnerThreadName a name).mem x = h.mem x := by
  have hname := nameField_length name
  exact storeBytes_out (by omega)

@[simp] theorem set_freeList : (h.set f a v).freeList = h.freeList := rfl
@[simp] theorem set_startAddr : (h.set f a v).startAddr = h.startAddr := rfl
@[simp] theorem set_memheap : (h.set f a v).memheap = h.memheap := rfl
@[simp] theorem set_availableSize : (h.set f a v).availableSize = h.availableSize := rfl
@[simp] theorem set_maxUsedSize : (h.set f a v).maxUsedSize = h.maxUsedSize := rfl
@[simp] theorem setOwnerThreadName_freeList {name : List UInt8} :
    (h.setOwnerThreadName a name).freeList = h.freeList := rfl
@[simp] theorem setOwnerThreadName_memheap {name : List UInt8} :
    (h.setOwnerThreadName a name).memheap = h.memheap := rfl
@[simp] theorem setOwnerThreadName_availableSize {name : List UInt8} :
    (h.setOwnerThreadName a name).availableSize = h.availableSize := rfl

/-- The magic word says whether an item is in use. -/
theorem memheapIsUsed_eq {used : Bool} (hm : h.get .magic a = magicWord used) :
    h.memheapIsUsed a = used := by
  rw [memheapIsUsed, hm]
  cases used <;> decide

theorem magicWord_lt (used : Bool) : magicWord used < 2 ^ 32 := by
  cases used <;> decide

-- --------
-- Edits
-- --------

/-- Items that do not overlap. -/
def AllApart (S : List Nat) : Prop := ∀ a ∈ S, ∀ b ∈ S, Apart a b

/-- `h'` differs from `h` in the fields `fs` of the items `S`, in their owners' names and in the
two counters. -/
structure Edit (fs : List Field) (S : List Nat) (h h' : Memheap) : Prop where
  memheap_eq : h'.memheap = h.memheap
  startAddr_eq : h'.startAddr = h.startAddr
  poolSize_eq : h'.poolSize = h.poolSize
  blockList_eq : h'.blockList = h.blockList
  freeList_eq : h'.freeList = h.freeList
  keep : ∀ b ∈ S, ∀ f ∉ fs, h'.get f b = h.get f b
  frame : ∀ x, (∀ a ∈ S, x < a ∨ a + 28 ≤ x) → h'.mem x = h.mem x

theorem Edit.refl : Edit fs S h h :=
  ⟨rfl, rfl, rfl, rfl, rfl, fun _ _ _ _ => rfl, fun _ _ => rfl⟩

/-- Two edits make one, of the fields of both. -/
theorem Edit.trans (e : Edit fs S h h') (e' : Edit fs' S h' h'') : Edit (fs ++ fs') S h h'' where
  memheap_eq := e'.memheap_eq.trans e.memheap_eq
  startAddr_eq := e'.startAddr_eq.trans e.startAddr_eq
  poolSize_eq := e'.poolSize_eq.trans e.poolSize_eq
  blockList_eq := e'.blockList_eq.trans e.blockList_eq
  freeList_eq := e'.freeList_eq.trans e.freeList_eq
  keep b hb f hf := by
    rw [List.mem_append, not_or] at hf
    rw [e'.keep b hb f hf.2, e.keep b hb f hf.1]
  frame y hy := (e'.frame y hy).trans (e.frame y hy)

/-- An edit of some fields is one of more fields. -/
theorem Edit.mono (e : Edit fs S h h') (hs : fs ⊆ fs') : Edit fs' S h h' :=
  { e with keep := fun b hb f hf => e.keep b hb f fun h => hf (hs h) }

/-- Setting a field of an item is an edit of this field. -/
theorem edit_set (hS : AllApart S) (ha : a ∈ S) (hv : v < 2 ^ 32) :
    Edit [f] S h (h.set f a v) where
  memheap_eq := rfl
  startAddr_eq := rfl
  poolSize_eq := rfl
  blockList_eq := rfl
  freeList_eq := rfl
  keep b hb g hg := by
    rw [get_set (hS a ha b hb) hv, if_neg]
    rintro ⟨rfl, _⟩
    simp at hg
  frame _ hx := set_mem_out (hx a ha)

/-- The owner's name belongs to no field. -/
theorem edit_name {name : List UInt8} (hS : AllApart S) (ha : a ∈ S) :
    Edit [] S h (h.setOwnerThreadName a name) where
  memheap_eq := rfl
  startAddr_eq := rfl
  poolSize_eq := rfl
  blockList_eq := rfl
  freeList_eq := rfl
  keep b hb _ _ := get_setOwnerThreadName (hS a ha b hb)
  frame _ hx := setOwnerThreadName_mem_out (hx a ha)

theorem edit_available : Edit [] S h { h with availableSize := v } :=
  ⟨rfl, rfl, rfl, rfl, rfl, fun _ _ _ _ => rfl, fun _ _ => rfl⟩

theorem edit_setAvailable : Edit [] S h (h.setAvailable v) := by
  unfold setAvailable
  dsimp only
  split
  · exact ⟨rfl, rfl, rfl, rfl, rfl, fun _ _ _ _ => rfl, fun _ _ => rfl⟩
  · exact edit_available

-- --------
-- Block list and free list
-- --------

/-- The pool is cut into the segments `l` and the tailer; the free header lies outside it. -/
structure Geometry (h : Memheap) (l : List Seg) : Prop where
  sized : ∀ s ∈ l, 40 ≤ s.len
  span_eq : span l + 28 = h.poolSize
  top : h.startAddr + h.poolSize ≤ 2 ^ 32
  header_apart : h.freeHeader + 28 ≤ h.startAddr ∨ h.startAddr + h.poolSize ≤ h.freeHeader
  header_top : h.freeHeader + 28 ≤ 2 ^ 32

/-- The items of a heap: the header of the free list, the blocks, the tailer. -/
def items (h : Memheap) (l : List Seg) : List Nat := h.freeHeader :: edges h.startAddr l

/-- What an item's own words say. -/
def Marked (h : Memheap) (a : Nat) (used : Bool) : Prop :=
  h.get .magic a = magicWord used ∧ h.get .poolPtr a = h.memheap

/-- The block list runs through the segments and the tailer, each marked as it is used. -/
structure Tiled (h : Memheap) (l : List Seg) : Prop extends Geometry h l where
  blockList_eq : h.blockList = h.startAddr
  freeList_eq : h.freeList = h.freeHeader
  blocks : Circular (h.get .next) (h.get .prev) (edges h.startAddr l)
  marks : Laid (fun _ off s => Marked h off s.used) 0 h.startAddr l
  tailer : Marked h (h.startAddr + span l) true

/-- The free list runs through the items `fl`. -/
def FreeRing (h : Memheap) (fl : List Nat) : Prop :=
  Circular (h.get .nextFree) (h.get .prevFree) (h.freeHeader :: fl)

/-- Bytes a list of gaps offers, the header of each taken off. -/
def gapBytes (gs : List (Nat × Nat)) : Nat := (gs.map fun g => g.2 - 28).sum

/-- The layout between calls. -/
structure Layout (h : Memheap) (l : List Seg) (fl : List Nat) : Prop extends Tiled h l where
  free : FreeRing h fl
  free_perm : fl.Perm ((gaps h.startAddr l).map Prod.fst)
  available_eq : h.availableSize = gapBytes (gaps h.startAddr l)
  used_le : h.poolSize ≤ h.maxUsedSize + h.availableSize
  coalesced : Coalesced l

@[simp] theorem gapBytes_nil : gapBytes [] = 0 := rfl
@[simp] theorem gapBytes_cons (g : Nat × Nat) (gs : List (Nat × Nat)) :
    gapBytes (g :: gs) = (g.2 - 28) + gapBytes gs := rfl
@[simp] theorem gapBytes_append (gs gs' : List (Nat × Nat)) :
    gapBytes (gs ++ gs') = gapBytes gs + gapBytes gs' := by
  simp [gapBytes]

/-- What is free is part of the pool. -/
theorem gapBytes_le_span (off : Nat) (l : List Seg) : gapBytes (gaps off l) ≤ span l := by
  induction l generalizing off with
  | nil => simp
  | cons s ss ih =>
    have := ih (off + s.len)
    rw [gaps_cons, gapBytes_append, span_cons]
    split
    · rw [gapBytes_nil]
      omega
    · rw [gapBytes_cons, gapBytes_nil]
      omega

-- Addresses

theorem Geometry.pairwise (G : Geometry h l) :
    (edges h.startAddr l).Pairwise fun a b => a + 28 ≤ b :=
  edges_pairwise fun s hs => by
    have := G.sized s hs
    omega

/-- Items start at different addresses. -/
theorem Geometry.edges_nodup (G : Geometry h l) : (edges h.startAddr l).Nodup :=
  G.pairwise.imp fun hab heq => by omega

/-- The header of the free list is none of the items. -/
theorem Geometry.header_notMem (G : Geometry h l) : h.freeHeader ∉ edges h.startAddr l := by
  intro hmem
  have hb := edge_bounds hmem
  have hspan := G.span_eq
  have := G.header_apart
  omega

/-- The items do not overlap. -/
theorem Geometry.items_apart (G : Geometry h l) : AllApart (h.items l) := by
  have hheader : ∀ b ∈ edges h.startAddr l, Apart h.freeHeader b := by
    intro b hb
    have hb := edge_bounds hb
    have hspan := G.span_eq
    have := G.header_apart
    unfold Apart
    omega
  intro a ha b hb
  rcases List.mem_cons.mp ha with rfl | ha <;> rcases List.mem_cons.mp hb with rfl | hb
  · exact Or.inl rfl
  · exact hheader b hb
  · exact (hheader a ha).symm
  · have hpair : (edges h.startAddr l).Pairwise Apart :=
      G.pairwise.imp fun hab => Or.inr (Or.inl hab)
    exact List.Pairwise.forall_of_forall (R := Apart) (fun _ _ => Or.inl rfl) hpair ha hb

/-- An item ends in the address space. -/
theorem Geometry.item_lt (G : Geometry h l) (ha : a ∈ h.items l) : a + 28 ≤ 2 ^ 32 := by
  have hspan := G.span_eq
  have htop := G.top
  have hheader := G.header_top
  rcases List.mem_cons.mp ha with rfl | ha
  · exact hheader
  · have := edge_bounds ha
    omega

/-- Another tiling of the same pool by items of the least size. -/
theorem Geometry.of_eq {l' : List Seg} (G : Geometry h l) (hs : ∀ s ∈ l', 40 ≤ s.len)
    (hspan : span l' = span l) : Geometry h l' :=
  ⟨hs, by rw [hspan, G.span_eq], G.top, G.header_apart, G.header_top⟩

theorem edge_mem_items (ha : a ∈ edges h.startAddr l) : a ∈ h.items l := List.mem_cons_of_mem _ ha

theorem laid_prev {P : Nat → Bool → Prop} {p p' off : Nat}
    (hl : Laid (fun _ o s => P o s.used) p off l) : Laid (fun _ o s => P o s.used) p' off l := by
  cases l with
  | nil => trivial
  | cons s ss => exact hl

-- Transport

theorem Edit.items_eq (e : Edit fs S h h') (l : List Seg) : h'.items l = h.items l := by
  unfold items freeHeader
  rw [e.memheap_eq, e.startAddr_eq]

/-- An edit moves nothing. -/
theorem Geometry.edit (G : Geometry h l) (e : Edit fs S h h') : Geometry h' l := by
  obtain ⟨hsized, hspan, htop, hhead, hheadtop⟩ := G
  unfold freeHeader at hhead hheadtop
  refine ⟨hsized, ?_, ?_, ?_, ?_⟩
  · rw [e.poolSize_eq, hspan]
  · rw [e.startAddr_eq, e.poolSize_eq]
    exact htop
  · rw [freeHeader, e.memheap_eq, e.startAddr_eq, e.poolSize_eq]
    exact hhead
  · rw [freeHeader, e.memheap_eq]
    exact hheadtop

/-- An edit of the other fields keeps the mark of an item. -/
theorem Marked.edit {used : Bool} (M : Marked h a used) (e : Edit fs S h h') (ha : a ∈ S)
    (hm : Field.magic ∉ fs) (hp : Field.poolPtr ∉ fs) : Marked h' a used :=
  ⟨(e.keep a ha _ hm).trans M.1, by rw [e.keep a ha _ hp, M.2, e.memheap_eq]⟩

/-- An edit of the other fields keeps all marks. -/
theorem marks_edit {p off : Nat} (hmarks : Laid (fun _ o s => Marked h o s.used) p off l)
    (e : Edit fs S h h') (hsub : starts off l ⊆ S) (hm : Field.magic ∉ fs)
    (hp : Field.poolPtr ∉ fs) : Laid (fun _ o s => Marked h' o s.used) p off l :=
  hmarks.imp_starts fun _ _ ho _ M => M.edit e (hsub ho) hm hp

/-- An edit of the free fields keeps the block list. -/
theorem Tiled.edit (T : Tiled h l) (e : Edit [.nextFree, .prevFree] S h h')
    (hsub : h.items l ⊆ S) : Tiled h' l := by
  have hedge : ∀ y ∈ edges h.startAddr l, y ∈ S := fun y hy => hsub (edge_mem_items hy)
  have hstart : starts h.startAddr l ⊆ S := fun y hy => hedge y (by
    rw [edges_eq]
    exact List.mem_append_left _ hy)
  refine ⟨T.toGeometry.edit e, ?_, ?_, ?_, ?_, ?_⟩
  · rw [e.blockList_eq, e.startAddr_eq, T.blockList_eq]
  · rw [e.freeList_eq, freeHeader, e.memheap_eq, T.freeList_eq]
    rfl
  · rw [e.startAddr_eq]
    exact T.blocks.congr (fun y hy => e.keep y (hedge y hy) _ (by decide))
      fun y hy => e.keep y (hedge y hy) _ (by decide)
  · rw [e.startAddr_eq]
    exact marks_edit T.marks e hstart (by decide) (by decide)
  · rw [e.startAddr_eq]
    exact T.tailer.edit e (hedge _ (by simp [edges_eq])) (by decide) (by decide)

/-- An edit of the block list keeps the free list. -/
theorem FreeRing.edit (F : FreeRing h fl) (e : Edit [.magic, .poolPtr, .next, .prev] S h h')
    (hsub : ∀ y ∈ h.freeHeader :: fl, y ∈ S) : FreeRing h' fl := by
  unfold FreeRing
  rw [show h'.freeHeader = h.freeHeader by rw [freeHeader, e.memheap_eq]; rfl]
  exact Circular.congr F (fun y hy => e.keep y (hsub y hy) _ (by decide))
    fun y hy => e.keep y (hsub y hy) _ (by decide)

-- Reading the block list

/-- Where the items start, around one of them. -/
theorem edges_item (off n : Nat) (u : Bool) (pre post : List Seg) :
    edges off (pre ++ ⟨n, u⟩ :: post) =
      starts off pre ++ (off + span pre) :: edges (off + span pre + n) post := by
  rw [edges_append, edges_cons]

/-- An item and the next one are items. -/
theorem item_mem (h : Memheap) (pre : List Seg) (n : Nat) (u : Bool) (post : List Seg) :
    h.startAddr + span pre ∈ h.items (pre ++ ⟨n, u⟩ :: post) ∧
      h.startAddr + span pre + n ∈ h.items (pre ++ ⟨n, u⟩ :: post) := by
  obtain ⟨t, ht⟩ := edges_head (h.startAddr + span pre + n) post
  constructor <;> refine edge_mem_items ?_ <;> rw [edges_item, ht] <;> simp

/-- An item has the least size and ends in the address space. -/
theorem Tiled.extent {n : Nat} {u : Bool} (T : Tiled h (pre ++ ⟨n, u⟩ :: post)) :
    40 ≤ n ∧ h.startAddr + span pre + n + span post + 28 ≤ 2 ^ 32 := by
  have hn : 40 ≤ n := T.sized ⟨n, u⟩ (by simp)
  have hspan := T.span_eq
  have htop := T.top
  rw [span_append, span_cons] at hspan
  dsimp only at hspan
  exact ⟨hn, by omega⟩

/-- `next` of an item is where it ends. -/
theorem Tiled.next_eq {n : Nat} {u : Bool} (T : Tiled h (pre ++ ⟨n, u⟩ :: post)) :
    h.get .next (h.startAddr + span pre) = h.startAddr + span pre + n := by
  obtain ⟨t, ht⟩ := edges_head (h.startAddr + span pre + n) post
  have hb := T.blocks
  rw [edges_item, ht] at hb
  exact hb.link.1

/-- `prev` of the next item is the item. -/
theorem Tiled.prev_eq {n : Nat} {u : Bool} (T : Tiled h (pre ++ ⟨n, u⟩ :: post)) :
    h.get .prev (h.startAddr + span pre + n) = h.startAddr + span pre := by
  obtain ⟨t, ht⟩ := edges_head (h.startAddr + span pre + n) post
  have hb := T.blocks
  rw [edges_item, ht] at hb
  exact hb.link.2

/-- `prev` of the first item is the tailer. -/
theorem Tiled.prev_first (T : Tiled h l) (hl : l ≠ []) :
    h.get .prev h.startAddr = h.startAddr + span l := by
  obtain ⟨s, ss, rfl⟩ := List.exists_cons_of_ne_nil hl
  have hb := T.blocks
  rw [edges_eq, starts_cons] at hb
  exact hb.link_last.2

/-- An item is in use exactly where the tiling says so. -/
theorem Tiled.isUsed {n : Nat} {u : Bool} (T : Tiled h (pre ++ ⟨n, u⟩ :: post)) :
    h.memheapIsUsed (h.startAddr + span pre) = u :=
  memheapIsUsed_eq (Laid.header T.marks).1

/-- The tailer is in use. -/
theorem Tiled.tailer_used (T : Tiled h l) : h.memheapIsUsed (h.startAddr + span l) = true :=
  memheapIsUsed_eq T.tailer.1

/-- The size of an item, without its header. -/
theorem Tiled.size_eq {n : Nat} {u : Bool} (T : Tiled h (pre ++ ⟨n, u⟩ :: post)) :
    h.memitemSize (h.startAddr + span pre) = n - 28 := by
  obtain ⟨hn, htop⟩ := T.extent
  have hlen : Word32.sub (h.startAddr + span pre + n) (h.startAddr + span pre) = n := by
    rw [Word32.sub_of_le (by omega) (by omega)]
    omega
  rw [memitemSize, T.next_eq, hlen]
  exact Word32.sub_of_le (show 28 ≤ n by omega) (by omega)

-- Editing the block list

/-- Taking the item behind `p` out of the block list joins the two segments. -/
theorem Tiled.join {n k : Nat} {u w : Bool} (T : Tiled h (pre ++ ⟨n, u⟩ :: ⟨k, w⟩ :: post))
    (e : Edit [.next, .prev, .nextFree, .prevFree]
      (h.items (pre ++ ⟨n, u⟩ :: ⟨k, w⟩ :: post)) h h')
    (hnext : ∀ b ∈ h.items (pre ++ ⟨n, u⟩ :: ⟨k, w⟩ :: post), h'.get .next b =
      if h.startAddr + span pre = b then h.startAddr + span pre + n + k else h.get .next b)
    (hprev : ∀ b ∈ h.items (pre ++ ⟨n, u⟩ :: ⟨k, w⟩ :: post), h'.get .prev b =
      if h.startAddr + span pre + n + k = b then h.startAddr + span pre else h.get .prev b) :
    Tiled h' (pre ++ ⟨n + k, u⟩ :: post) := by
  obtain ⟨p, hp⟩ : ∃ p, p = h.startAddr + span pre := ⟨_, rfl⟩
  rw [← hp] at hnext hprev
  have hspan : span (pre ++ ⟨n + k, u⟩ :: post) = span (pre ++ ⟨n, u⟩ :: ⟨k, w⟩ :: post) := by
    simp only [span_append, span_cons]
    omega
  have T' : Tiled h ((pre ++ [⟨n, u⟩]) ++ ⟨k, w⟩ :: post) := by simpa using T
  have hx : h.get .next (p + n) = p + n + k := by
    have := T'.next_eq
    rwa [span_append, span_cons, span_nil, Nat.add_zero, ← Nat.add_assoc, ← hp] at this
  have hedges : edges h.startAddr (pre ++ ⟨n, u⟩ :: ⟨k, w⟩ :: post) =
      starts h.startAddr pre ++ p :: (p + n) :: edges (p + n + k) post := by
    rw [edges_item, edges_cons, hp]
  have hedges' : edges h.startAddr (pre ++ ⟨n + k, u⟩ :: post) =
      starts h.startAddr pre ++ p :: edges (p + n + k) post := by
    rw [edges_item, hp]
    simp only [Nat.add_assoc]
  have hsub : ∀ y ∈ edges h.startAddr (pre ++ ⟨n + k, u⟩ :: post),
      y ∈ h.items (pre ++ ⟨n, u⟩ :: ⟨k, w⟩ :: post) := by
    intro y hy
    refine edge_mem_items ?_
    rw [hedges]
    rw [hedges'] at hy
    simp only [List.mem_append, List.mem_cons] at hy ⊢
    tauto
  have hstarts : ∀ y ∈ starts h.startAddr (pre ++ ⟨n + k, u⟩ :: post),
      y ∈ h.items (pre ++ ⟨n, u⟩ :: ⟨k, w⟩ :: post) := fun y hy => hsub y (by
    rw [edges_eq]
    exact List.mem_append_left _ hy)
  refine ⟨(T.toGeometry.of_eq ?_ hspan).edit e, ?_, ?_, ?_, ?_, ?_⟩
  · intro s hs
    have hn := T.sized ⟨n, u⟩ (by simp)
    rcases List.mem_append.mp hs with hs | hs
    · exact T.sized s (by simp [hs])
    · rcases List.mem_cons.mp hs with rfl | hs
      · dsimp only at hn ⊢
        omega
      · exact T.sized s (by simp [hs])
  · rw [e.blockList_eq, e.startAddr_eq, T.blockList_eq]
  · rw [e.freeList_eq, freeHeader, e.memheap_eq, T.freeList_eq]
    rfl
  · have hb := T.blocks
    have hnd := T.toGeometry.edges_nodup
    rw [hedges] at hb hnd
    rw [e.startAddr_eq, hedges']
    rw [hedges'] at hsub
    have hpm : p ∈ starts h.startAddr pre ++ p :: edges (p + n + k) post := by simp
    obtain ⟨t, ht⟩ := edges_head (p + n + k) post
    have hqm : p + n + k ∈ starts h.startAddr pre ++ p :: edges (p + n + k) post := by simp [ht]
    refine hb.remove hnd ?_ ?_ (fun y hy hne => ?_) fun y hy hne => ?_
    · rw [hnext p (hsub p hpm), if_pos rfl, hx]
    · rw [hx, hprev _ (hsub _ hqm), if_pos rfl]
    · rw [hnext y (hsub y hy), if_neg (Ne.symm hne)]
    · rw [hx] at hne
      rw [hprev y (hsub y hy), if_neg (Ne.symm hne)]
  · rw [e.startAddr_eq]
    have hm := T.marks
    rw [laid_append, laid_cons, laid_cons] at hm
    have hm' : Laid (fun _ o s => Marked h o s.used) 0 h.startAddr
        (pre ++ ⟨n + k, u⟩ :: post) := by
      rw [laid_append, laid_cons]
      refine ⟨hm.1, hm.2.1, ?_⟩
      have htail := hm.2.2.2
      rw [Nat.add_assoc _ n k] at htail
      -- the marks do not look at the item in front
      exact laid_prev htail
    exact marks_edit hm' e hstarts (by decide) (by decide)
  · rw [e.startAddr_eq, hspan]
    exact T.tailer.edit e (edge_mem_items (by simp [edges_eq])) (by decide) (by decide)

end RTThread.Memheap
