import RTThread.Mem.MemHeapRealloc
import RTThread.Lib.Runs

/-!
# Runs of a memory heap

A run starts from an initialised heap. Its steps are allocations, resizings and
releases of live blocks, with any request, and writes of the clients into their
own blocks.

Main results:

* `rtMemheap_wellFormed`: along a run in which no block is resized to one of the
  twelve sizes that wrap the test for growing while the item behind it is free,
  every heap is well formed;
* `rtMemheap_grow_wraps`: one such call is enough to break the block list.
-/

namespace RTThread.Memheap

open ByteMem Tiling CircularList

variable {h h' : Memheap} {x : Nat} {l pre post : List Seg} {S fl : List Nat}

-- --------
-- Well-formed heaps
-- --------

/-- A well-formed heap: the segments `l` and the tailer tile the pool, and `fl` is the free list. -/
structure WellFormed (h : Memheap) (l : List Seg) (fl : List Nat) : Prop where
  block_first : h.blockList = h.startAddr
  circle : Circular (h.get .next) (h.get .prev) (edges h.startAddr l)
  tiles : span l + memheapSize = h.poolSize
  header_room : ∀ s ∈ l, memheapSize ≤ s.len
  used_eq : ∀ pre s post, l = pre ++ s :: post →
    h.memheapIsUsed (h.startAddr + span pre) = s.used
  tailer_used : h.memheapIsUsed (h.startAddr + span l) = true
  apart : Coalesced l
  free_circle : Circular (h.get .nextFree) (h.get .prevFree) (h.freeList :: fl)
  free_exact : fl.Perm ((gaps h.startAddr l).map Prod.fst)
  available_eq : h.availableSize = (fl.map h.memitemSize).sum
  used_le : h.poolSize - h.availableSize ≤ h.maxUsedSize

/-- **A heap with a layout is well formed.** -/
theorem Layout.wellFormed (L : Layout h l fl) : WellFormed h l fl where
  block_first := L.blockList_eq
  circle := L.blocks
  tiles := L.span_eq
  header_room s hs := by
    have := L.sized s hs
    exact Nat.le_trans (by decide) this
  used_eq pre s post hl := by
    have T := L.toTiled
    rw [hl] at T
    exact T.isUsed
  tailer_used := L.tailer_used
  apart := L.coalesced
  free_circle := L.freeList_eq ▸ L.free
  free_exact := L.free_perm
  available_eq := by
    rw [(L.free_perm.map h.memitemSize).sum_eq, L.available_eq, gapBytes, List.map_map]
    refine congrArg List.sum (List.map_congr_left fun g hg => ?_)
    obtain ⟨pre, post, hl, ho⟩ := mem_gaps.mp (show (g.1, g.2) ∈ _ from hg)
    have T := L.toTiled
    rw [hl] at T
    rw [Function.comp_apply, ho, T.size_eq]
  used_le := by
    have := L.used_le
    omega

-- --------
-- Initialisation
-- --------

/-- `sizeof(struct rt_memheap)`. -/
abbrev sizeofMemheap : Nat := 124

/-- What the caller of `rt_memheap_init` provides: a pool of two item headers and a minimal block
or more, and a control block, neither around the end of the address space nor overlapping. -/
structure Placement (memheap startAddr size : Nat) : Prop where
  size_lt : size < 2 ^ 32
  room : 2 * memheapSize + memheapMinialloc ≤ rtAlignDown size
  pool_top : startAddr + rtAlignDown size ≤ 2 ^ 32
  control_top : memheap + sizeofMemheap ≤ 2 ^ 32
  apart : memheap + sizeofMemheap ≤ startAddr ∨ startAddr + rtAlignDown size ≤ memheap

/-- The fields of an item that was just set up. -/
def initWord (h : Memheap) (item : Nat) : Field → Nat
  | .magic => magicWord false
  | .poolPtr => h.memheap
  | .next => 0
  | .prev => 0
  | .nextFree => item
  | .prevFree => item

theorem initItem_get (hS : AllApart S) (hx : x ∈ S) (hx32 : x < 2 ^ 32)
    (hm : h.memheap < 2 ^ 32) : ∀ g, ∀ y ∈ S,
      (h.initItem x).get g y = if x = y then h.initWord x g else h.get g y := by
  intro g y hy
  unfold initItem
  dsimp only [set_memheap]
  rw [get_set_mem hS hx hy hx32, get_set_mem hS hx hy hx32, get_set_mem hS hx hy (by decide),
    get_set_mem hS hx hy (by decide), get_set_mem hS hx hy hm,
    get_set_mem hS hx hy (magicWord_lt _)]
  cases g <;> simp [initWord]

/-- The fields of the first block, at `item` between the header `a` and the tailer `tailer`. -/
def blockWord (h : Memheap) (a tailer : Nat) : Field → Nat
  | .magic => magicWord false
  | .poolPtr => h.memheap
  | .next | .prev => tailer
  | .nextFree | .prevFree => a

/-- The first block, linked into both lists. -/
theorem initBlock_get {a s t : Nat} (hS : AllApart S) (ha : a ∈ S) (hs : s ∈ S)
    (has : a ≠ s) (ha32 : a < 2 ^ 32) (hs32 : s < 2 ^ 32) (ht32 : t < 2 ^ 32)
    (hm : h.memheap < 2 ^ 32) (hstart : h.startAddr = s) (hheader : h.freeHeader = a)
    (hlist : h.freeList = a) (hself : h.get .nextFree a = a)
    (hnext : Word32.add (Word32.add s h.availableSize) memheapSize = t) :
    (∀ g, h.initBlock.get g s = h.blockWord a t g) ∧ h.initBlock.get .nextFree a = s ∧
      h.initBlock.get .prevFree a = s := by
  -- the state in front of the insertion into the free list
  obtain ⟨h₁, hh₁⟩ : ∃ h₁ : Memheap, h₁ = { (((h.initItem s).setOwnerThreadName s blankName).set
      .next s t).set .prev s t with blockList := s } := ⟨_, rfl⟩
  have hget₁ : ∀ g, ∀ y ∈ S, h₁.get g y =
      if Field.prev = g ∧ s = y then t
      else if Field.next = g ∧ s = y then t
      else if s = y then h.initWord s g else h.get g y := by
    intro g y hy
    rw [hh₁]
    show Memheap.get ((((h.initItem s).setOwnerThreadName s blankName).set .next s t).set
      .prev s t) g y = _
    rw [get_set_mem hS hs hy ht32, get_set_mem hS hs hy ht32, get_name_mem hS hs hy,
      initItem_get hS hs hs32 hm g y hy]
  have hhead : h₁.freeHeader = a := by
    rw [hh₁, ← hheader]
    rfl
  have hnf : h₁.get .nextFree a = a := by
    rw [hget₁ _ a ha]
    simp [Ne.symm has, hself]
  have heq : h.initBlock = h₁.insertFree s := by
    have hread : (((h.initItem s).setOwnerThreadName s blankName).set .next s t).get .next s =
        t := by
      rw [get_set_mem hS hs hs ht32, if_pos ⟨rfl, rfl⟩]
    have havail : ((h.initItem s).setOwnerThreadName s blankName).availableSize =
        h.availableSize := rfl
    rw [initBlock, hstart, havail, hnext, hread, hh₁]
  have I : Inserted S h₁ (h₁.insertFree s) s := insertFree_spec hS
    (by rw [hhead, hh₁, ← hlist]; rfl) (by rw [hhead]; exact ha) hs
    (by rw [hhead, hnf]; exact ha) (by rw [hhead]; exact Ne.symm has) hs32
    (by rw [hhead]; exact ha32)
  rw [heq]
  refine ⟨fun g => ?_, by rw [I.next_eq a ha, hhead, if_pos rfl],
    by rw [I.prev_eq a ha, hhead, hnf, if_pos rfl]⟩
  cases g with
  | nextFree => rw [I.next_eq s hs, hhead, if_neg has, if_pos rfl, hnf, blockWord]
  | prevFree => rw [I.prev_eq s hs, hhead, hnf, if_neg has, if_pos rfl, blockWord]
  | _ =>
    rw [I.edit.keep s hs _ (by decide), hget₁ _ s hs]
    simp [blockWord, initWord]

/-- The fields of the tailer of the pool at `startAddr`. -/
def tailerWord (memheap startAddr : Nat) : Field → Nat
  | .magic => magicWord true
  | .poolPtr => memheap
  | .next | .prev => startAddr
  | .nextFree | .prevFree => 0

theorem initTailer_get {s t : Nat} (hS : AllApart S) (ht : t ∈ S)
    (hs32 : s < 2 ^ 32) (hm : h.memheap < 2 ^ 32) (hstart : h.startAddr = s)
    (hnext : h.get .next s = t) : ∀ g, ∀ y ∈ S, h.initTailer.get g y =
      if t = y then tailerWord h.memheap s g else h.get g y := by
  intro g y hy
  rw [initTailer, hstart, hnext]
  dsimp only [set_memheap, set_startAddr]
  rw [hstart, get_set_mem hS ht hy (by decide), get_set_mem hS ht hy (by decide),
    get_set_mem hS ht hy hs32, get_set_mem hS ht hy hs32, get_set_mem hS ht hy hm,
    get_set_mem hS ht hy (magicWord_lt _)]
  cases g <;> simp [tailerWord]

/-- The control block before the items of the pool are written. -/
theorem Placement.geometry {m : ByteMem} {memheap startAddr size : Nat}
    (hplace : Placement memheap startAddr size) :
    Geometry ⟨m, memheap, startAddr, rtAlignDown size, rtAlignDown size - 56, 56, 0, 0⟩
      [⟨rtAlignDown size - 28, false⟩] := by
  obtain ⟨-, hroom, htop, hctop, hapart⟩ := hplace
  have hroom : 68 ≤ rtAlignDown size := hroom
  refine ⟨fun s hs => ?_, ?_, htop, ?_, ?_⟩
  · rw [List.mem_singleton.mp hs]
    dsimp only
    omega
  · show rtAlignDown size - 28 + 0 + 28 = rtAlignDown size
    omega
  · show memheap + 52 + 28 ≤ startAddr ∨ startAddr + rtAlignDown size ≤ memheap + 52
    have hapart : memheap + 124 ≤ startAddr ∨ startAddr + rtAlignDown size ≤ memheap := hapart
    omega
  · show memheap + 52 + 28 ≤ 2 ^ 32
    have hctop : memheap + 124 ≤ 2 ^ 32 := hctop
    omega

/-- The words of the three items of a pool that was just set up. -/
theorem init_words {h₀ : Memheap} {n : Nat} (G : Geometry h₀ [⟨n, false⟩])
    (havail : h₀.availableSize + 28 = n) :
    (∀ g, h₀.initHeader.initBlock.initTailer.get g (h₀.startAddr + n) =
      tailerWord h₀.memheap h₀.startAddr g) ∧
    (∀ g, h₀.initHeader.initBlock.initTailer.get g h₀.startAddr =
      h₀.blockWord h₀.freeHeader (h₀.startAddr + n) g) ∧
    h₀.initHeader.initBlock.initTailer.get .nextFree h₀.freeHeader = h₀.startAddr ∧
    h₀.initHeader.initBlock.initTailer.get .prevFree h₀.freeHeader = h₀.startAddr := by
  have hS := G.items_apart
  obtain ⟨hsized, hspan, htop, hfar, hctl⟩ := G
  have hspan : n + 0 + 28 = h₀.poolSize := hspan
  have hm : h₀.memheap < 2 ^ 32 := by
    have hheader : h₀.memheap + 52 = h₀.freeHeader := rfl
    omega
  obtain ⟨a, ha⟩ : ∃ a, a = h₀.freeHeader := ⟨_, rfl⟩
  obtain ⟨s, hs⟩ : ∃ s, s = h₀.startAddr := ⟨_, rfl⟩
  rw [items, edges_cons, edges_nil, ← ha, ← hs] at hS
  rw [← ha, ← hs] at hfar
  rw [← hs] at htop
  rw [← ha] at hctl
  rw [← ha, ← hs]
  have has : a ≠ s := by omega
  have hat : s + n ≠ a := by omega
  have hst : s + n ≠ s := by omega
  have hself : h₀.initHeader.get .nextFree a = a := by
    rw [initHeader, ← ha]
    show (h₀.initItem a).get .nextFree a = a
    rw [initItem_get hS (by simp) (by omega) hm _ a (by simp), if_pos rfl]
    rfl
  obtain ⟨hblock, hnext, hprev⟩ := initBlock_get (h := h₀.initHeader) hS (a := a) (s := s)
    (t := s + n) (by simp) (by simp) has (by omega) (by omega) (by omega) hm hs.symm ha.symm
    ha.symm hself (by
      show Word32.add (Word32.add s h₀.availableSize) 28 = s + n
      rw [Word32.add_of_lt (show s + h₀.availableSize < 2 ^ 32 by omega),
        Word32.add_of_lt (show s + h₀.availableSize + 28 < 2 ^ 32 by omega)]
      omega)
  have htailer := initTailer_get (h := h₀.initHeader.initBlock) hS (s := s) (t := s + n) (by simp)
    (by omega) hm hs.symm (hblock .next)
  refine ⟨fun g => ?_, fun g => ?_, ?_, ?_⟩
  · rw [htailer g _ (by simp), if_pos rfl]
    rfl
  · rw [htailer g s (by simp), if_neg hst, hblock]
    rfl
  · rw [htailer _ a (by simp), if_neg hat, hnext]
  · rw [htailer _ a (by simp), if_neg hat, hprev]

theorem rtMemheapInit_eq {m : ByteMem} {memheap startAddr size : Nat}
    (hplace : Placement memheap startAddr size) :
    rtMemheapInit m memheap startAddr size = Memheap.initTailer (Memheap.initBlock
      (Memheap.initHeader
        ⟨m, memheap, startAddr, rtAlignDown size, rtAlignDown size - 56, 56, 0, 0⟩)) := by
  have hroom : 68 ≤ rtAlignDown size := hplace.room
  have hpool32 : rtAlignDown size < 2 ^ 32 := by
    rw [rtAlignDown_eq hplace.size_lt]
    have hsize := hplace.size_lt
    omega
  have havail : Word32.sub (rtAlignDown size) (2 * memheapSize) = rtAlignDown size - 56 :=
    Word32.sub_of_le (show 56 ≤ rtAlignDown size by omega) hpool32
  have hmax : Word32.sub (rtAlignDown size) (rtAlignDown size - 56) = 56 := by
    rw [Word32.sub_of_le (by omega) hpool32]
    omega
  rw [rtMemheapInit, havail, hmax]

/-- **`rt_memheap_init`**: the pool is one free item and the tailer. -/
theorem rtMemheapInit_spec {m : ByteMem} {memheap startAddr size : Nat}
    (hplace : Placement memheap startAddr size) :
    Layout (rtMemheapInit m memheap startAddr size) [⟨rtAlignDown size - 28, false⟩]
      [startAddr] := by
  have G := Placement.geometry (m := m) hplace
  have hroom : 68 ≤ rtAlignDown size := hplace.room
  rw [rtMemheapInit_eq hplace]
  obtain ⟨htailer, hblock, hnext, hprev⟩ := init_words G (by
    show rtAlignDown size - 56 + 28 = rtAlignDown size - 28
    omega)
  refine { toGeometry := ⟨G.sized, G.span_eq, G.top, G.header_apart, G.header_top⟩
           blockList_eq := rfl, freeList_eq := rfl, blocks := ?_, marks := ?_, tailer := ?_
           free := ?_, free_perm := ?_, available_eq := ?_, used_le := ?_, coalesced := ?_ }
  · refine circular_cons.mpr (List.isChain_cons_cons.mpr ⟨⟨?_, ?_⟩,
      List.isChain_cons_cons.mpr ⟨⟨?_, ?_⟩, List.isChain_singleton _⟩⟩)
    · exact hblock .next
    · exact htailer .prev
    · exact htailer .next
    · exact hblock .prev
  · exact ⟨⟨hblock .magic, hblock .poolPtr⟩, trivial⟩
  · exact ⟨htailer .magic, htailer .poolPtr⟩
  · refine circular_cons.mpr (List.isChain_cons_cons.mpr ⟨⟨?_, ?_⟩,
      List.isChain_cons_cons.mpr ⟨⟨?_, ?_⟩, List.isChain_singleton _⟩⟩)
    · exact hnext
    · exact hblock .prevFree
    · exact hblock .nextFree
    · exact hprev
  · show [startAddr].Perm ((gaps startAddr [⟨rtAlignDown size - 28, false⟩]).map Prod.fst)
    simp
  · show rtAlignDown size - 56 = gapBytes (gaps startAddr [⟨rtAlignDown size - 28, false⟩])
    simp only [gaps_cons, gaps_nil, Bool.false_eq_true, if_false, List.append_nil, gapBytes_cons,
      gapBytes_nil]
    omega
  · show rtAlignDown size ≤ 56 + (rtAlignDown size - 56)
    omega
  · exact List.isChain_singleton _

-- --------
-- Runs
-- --------

/-- A heap in use: the heap, and the pointers handed out and not yet given back. -/
structure State where
  heap : Memheap
  live : List Nat

/-- What may happen to a heap. `self` is the name of the calling thread, if there is one. -/
inductive Action
  | alloc (self : Option (List UInt8)) (size : Nat)
  | realloc (self : Option (List UInt8)) (ptr : Option Nat) (newsize : Nat)
  | free (ptr : Option Nat)
  /-- the owner of the block `p` stores the byte `b` at `x` -/
  | write (p x : Nat) (b : UInt8)

/-- The live pointers without the block given to a call. -/
def State.without (st : State) : Option Nat → List Nat
  | none => st.live
  | some p => st.live.erase p

/-- The live pointers after `rt_memheap_realloc`: a null result gave the block back when nothing
was requested, and left it live otherwise. -/
def State.resized (st : State) (ptr : Option Nat) (newsize : Nat) : Option Nat → List Nat
  | some q => q :: st.without ptr
  | none => if newsize = 0 then st.without ptr else st.live

inductive Step : State → Action → State → Prop
  | alloc {st : State} {self : Option (List UInt8)} {size : Nat} {r : Option Nat}
      {h' : Memheap} : st.heap.rtMemheapAlloc self size = .ok (r, h') →
      Step st (.alloc self size) ⟨h', r.toList ++ st.live⟩
  | realloc {st : State} {self : Option (List UInt8)} {ptr : Option Nat} {newsize : Nat}
      {r : Option Nat} {h' : Memheap} : (∀ p ∈ ptr, p ∈ st.live) →
      st.heap.rtMemheapRealloc self ptr newsize = .ok (r, h') →
      Step st (.realloc self ptr newsize) ⟨h', st.resized ptr newsize r⟩
  | free {st : State} {ptr : Option Nat} {h' : Memheap} : (∀ p ∈ ptr, p ∈ st.live) →
      st.heap.rtMemheapFree ptr = .ok h' → Step st (.free ptr) ⟨h', st.without ptr⟩
  | write {st : State} {p x : Nat} {b : UInt8} : p ∈ st.live → p ≤ x →
      x < st.heap.get .next (p - memheapSize) →
      Step st (.write p x b)
        ⟨{ st.heap with mem := fun y => if y = x then b else st.heap.mem y }, st.live⟩

/-- The rounded request is so large that twelve bytes more wrap. -/
def Wraps (newsize : Nat) : Prop := 2 ^ 32 ≤ roundSize newsize + memheapMinialloc

/-- No live block is resized to such a size while the item behind it is free. -/
def Allowed (st : State) : Action → Prop
  | .realloc _ (some p) newsize =>
    ¬ (Wraps newsize ∧ st.heap.memheapIsUsed (st.heap.get .next (p - memheapSize)) = false)
  | _ => True

/-- Addresses of the payloads of the blocks of a layout. -/
def payloads (start : Nat) (l : List Seg) : List Nat :=
  (blocks 0 l).map fun b => start + b.1 + 28

theorem payloads_used (start n : Nat) (pre post : List Seg) :
    (payloads start (pre ++ ⟨n, true⟩ :: post)).Perm
      ((start + span pre + 28) :: payloads start (release pre n post)) :=
  addresses_used ..

theorem payloads_cut (start : Nat) {c n : Nat} (pre post : List Seg) (hc : c ≤ n) :
    payloads start (release (pre ++ [⟨c, true⟩]) (n - c) post) =
      payloads start (pre ++ ⟨n, true⟩ :: post) :=
  addresses_cut _ _ pre post hc

theorem payloads_grown (start : Nat) {c n k : Nat} (pre post : List Seg) (hc : c ≤ n + k) :
    payloads start (grown pre n c k post) =
      payloads start (pre ++ ⟨n, true⟩ :: ⟨k, false⟩ :: post) := by
  have hend : span pre + c + (n + k - c) = span pre + n + k := by omega
  rw [payloads, payloads, grown]
  simp only [blocks_append, blocks_cons, if_true, Bool.false_eq_true, if_false, List.nil_append,
    List.map_append, List.map_cons, List.map_nil, Nat.zero_add, hend]

theorem payloads_carve (start : Nat) (pre : List Seg) (need k : Nat) (post : List Seg) :
    (payloads start (pre ++ carve need 40 k ++ post)).Perm
      ((start + span pre + 28) :: payloads start (pre ++ ⟨k, false⟩ :: post)) :=
  addresses_carve ..

/-- The invariant of a run: the heap has a layout, and its blocks are the live ones. -/
def Inv (st : State) : Prop :=
  ∃ l fl, Layout st.heap l fl ∧ st.live.Perm (payloads st.heap.startAddr l)

theorem live_block {st : State} {p : Nat} (hlive : st.live.Perm (payloads st.heap.startAddr l))
    (hp : p ∈ st.live) :
    ∃ pre n post, l = pre ++ ⟨n, true⟩ :: post ∧ p = st.heap.startAddr + span pre + 28 :=
  exists_of_mem_addresses (hlive.mem_iff.mp hp)

/-- An allocation keeps the invariant. -/
theorem inv_alloc {st : State} {self : Option (List UInt8)} {size : Nat} {r : Option Nat}
    (hI : Inv st) (hcall : st.heap.rtMemheapAlloc self size = .ok (r, h')) :
    Inv ⟨h', r.toList ++ st.live⟩ := by
  obtain ⟨l, fl, L, hlive⟩ := hI
  rcases rtMemheapAlloc_spec L self size with ⟨halloc, _⟩ |
    ⟨_, pre, n, post, p, h₁, rfl, halloc, hp, _, e, fl', L'⟩
  · rw [halloc] at hcall
    cases hcall
    exact ⟨l, fl, L, hlive⟩
  · rw [halloc] at hcall
    cases hcall
    refine ⟨_, fl', L', ?_⟩
    rw [e.startAddr_eq]
    have hnew := payloads_carve st.heap.startAddr pre (roundSize size + 28) n post
    rw [← hp] at hnew
    exact (hlive.cons p).trans hnew.symm

/-- A block that is given back keeps the invariant. -/
theorem inv_free {st : State} {ptr : Option Nat} (hI : Inv st) (hmem : ∀ p ∈ ptr, p ∈ st.live)
    (hcall : st.heap.rtMemheapFree ptr = .ok h') : Inv ⟨h', st.without ptr⟩ := by
  obtain ⟨l, fl, L, hlive⟩ := hI
  cases ptr with
  | none =>
    cases hcall
    exact ⟨l, fl, L, hlive⟩
  | some p =>
    obtain ⟨pre, n, post, rfl, rfl⟩ := live_block hlive (hmem p rfl)
    obtain ⟨h₁, hfree, e, fl', L'⟩ := rtMemheapFree_spec L rfl
    rw [hfree] at hcall
    cases hcall
    refine ⟨_, fl', L', ?_⟩
    have hperm := (hlive.trans (payloads_used ..)).erase (st.heap.startAddr + span pre + 28)
    rw [List.erase_cons_head] at hperm
    rw [e.startAddr_eq]
    exact hperm

theorem rtMemheapRealloc_null {h h' : Memheap} {self : Option (List UInt8)} {newsize : Nat}
    {r : Option Nat} (hcall : h.rtMemheapRealloc self none newsize = .ok (r, h')) :
    (r = none ∧ h' = h) ∨ h.rtMemheapAlloc self (roundSize newsize) = .ok (r, h') := by
  rw [rtMemheapRealloc] at hcall
  by_cases h0 : newsize = 0
  · rw [if_pos h0] at hcall
    cases hcall
    exact Or.inl ⟨rfl, rfl⟩
  · rw [if_neg h0] at hcall
    exact Or.inr hcall

theorem inv_realloc_null {st : State} {self : Option (List UInt8)} {newsize : Nat}
    {r : Option Nat} (hI : Inv st)
    (hcall : st.heap.rtMemheapRealloc self none newsize = .ok (r, h')) :
    Inv ⟨h', st.resized none newsize r⟩ := by
  have hlive : st.resized none newsize r = r.toList ++ st.live := by
    cases r with
    | none =>
      rw [State.resized]
      split <;> rfl
    | some q => rfl
  rw [hlive]
  rcases rtMemheapRealloc_null hcall with ⟨rfl, rfl⟩ | halloc
  · exact hI
  · exact inv_alloc hI halloc

/-- What an allowed resizing of a block means for the segments. -/
theorem allowed_realloc {st : State} {self : Option (List UInt8)} {newsize n : Nat}
    (L : Layout st.heap (pre ++ ⟨n, true⟩ :: post) fl)
    (hok : Allowed st (.realloc self (some (st.heap.startAddr + span pre + 28)) newsize)) :
    roundSize newsize + 12 < 2 ^ 32 ∨ (post.head?.map Seg.used).getD true = true := by
  have hnext : st.heap.get .next (st.heap.startAddr + span pre + 28 - memheapSize) =
      st.heap.startAddr + span pre + n := by
    rw [Nat.add_sub_cancel, L.next_eq]
  rw [Allowed, hnext, L.next_used, Wraps] at hok
  by_contra hcon
  rw [not_or] at hcon
  exact hok ⟨Nat.le_of_not_lt hcon.1, by simpa using hcon.2⟩

/-- Resizing keeps the invariant. -/
theorem inv_realloc {st : State} {self : Option (List UInt8)} {ptr : Option Nat}
    {newsize : Nat} {r : Option Nat} (hI : Inv st) (hok : Allowed st (.realloc self ptr newsize))
    (hmem : ∀ p ∈ ptr, p ∈ st.live)
    (hcall : st.heap.rtMemheapRealloc self ptr newsize = .ok (r, h')) :
    Inv ⟨h', st.resized ptr newsize r⟩ := by
  cases ptr with
  | none => exact inv_realloc_null hI hcall
  | some p =>
    obtain ⟨l, fl, L, hlive⟩ := hI
    obtain ⟨pre, n, post, rfl, rfl⟩ := live_block hlive (hmem p rfl)
    have hold := hlive.trans (payloads_used ..)
    -- the live pointers but for the block, and with it put back
    have hrest := hold.erase (st.heap.startAddr + span pre + 28)
    rw [List.erase_cons_head] at hrest
    have hback : ((st.heap.startAddr + span pre + 28) ::
        st.live.erase (st.heap.startAddr + span pre + 28)).Perm st.live :=
      (List.perm_cons_erase (hmem _ rfl)).symm
    have hno := allowed_realloc L hok
    rcases rtMemheapRealloc_spec L self newsize hno with ⟨h0, h₁, hres, e, fl', L'⟩ | ⟨h0, hspec⟩
    · rw [hres] at hcall
      cases hcall
      refine ⟨_, fl', L', ?_⟩
      rw [State.resized, if_pos h0, e.startAddr_eq]
      exact hrest
    rcases hspec with ⟨_, hres⟩ | ⟨h₁, hres, hroom, e, fl', L'⟩ |
      ⟨h₁, k, ts, rfl, hres, hroom, e, fl', L'⟩ | ⟨_, hres⟩ |
      ⟨_, q, h₁, pre', k, post', pre₁, post₁, hres, hl, M⟩
    all_goals
      rw [hres] at hcall
      cases hcall
    · exact ⟨_, fl, L, hback.trans hlive⟩
    · refine ⟨_, fl', L', ?_⟩
      rw [e.startAddr_eq, payloads_cut _ _ _ (by omega)]
      exact hback.trans hlive
    · refine ⟨_, fl', L', ?_⟩
      rw [e.startAddr_eq, payloads_grown _ _ _ (by omega)]
      exact hback.trans hlive
    · refine ⟨_, fl, L, ?_⟩
      rw [State.resized, if_neg h0]
      exact hlive
    · obtain ⟨fl', L'⟩ := M.layout
      refine ⟨_, fl', L', ?_⟩
      have hnew := payloads_carve st.heap.startAddr pre' (roundSize newsize + 28) k post'
      rw [M.split_eq, ← hl, ← M.ptr_eq] at hnew
      have hgone := payloads_used st.heap.startAddr n pre₁ post₁
      rw [M.span_eq] at hgone
      rw [M.startAddr_eq]
      -- old block and the rest now, new block, old block and the rest before
      have hall := (hgone.symm.trans hnew).trans ((hlive.symm.cons q).trans (hback.symm.cons q))
      exact (hall.trans (List.Perm.swap ..)).cons_inv.symm

/-- A byte written into a block keeps the invariant. -/
theorem inv_write {st : State} {p x : Nat} {b : UInt8} (hI : Inv st) (hp : p ∈ st.live)
    (h1 : p ≤ x) (h2 : x < st.heap.get .next (p - memheapSize)) :
    Inv ⟨{ st.heap with mem := fun y => if y = x then b else st.heap.mem y }, st.live⟩ := by
  obtain ⟨l, fl, L, hlive⟩ := hI
  obtain ⟨pre, n, post, rfl, rfl⟩ := live_block hlive hp
  rw [Nat.add_sub_cancel, L.next_eq] at h2
  exact ⟨_, fl, L.write _ fun y hy => if_neg (by omega), hlive⟩

/-- **A step** keeps the invariant. -/
theorem inv_step (st : State) (a : Action) (st' : State) (hI : Inv st) (hok : Allowed st a)
    (hs : Step st a st') : Inv st' := by
  cases hs with
  | alloc hcall => exact inv_alloc hI hcall
  | realloc hmem hcall => exact inv_realloc hI hok hmem hcall
  | free hmem hcall => exact inv_free hI hmem hcall
  | write hp h1 h2 => exact inv_write hI hp h1 h2

/-- **Every heap such a run reaches is well formed.** -/
theorem rtMemheap_wellFormed {m : ByteMem} {memheap startAddr size : Nat} {st : State}
    (hplace : Placement memheap startAddr size)
    (hrun : Runs Step Allowed ⟨rtMemheapInit m memheap startAddr size, []⟩ st) :
    ∃ l fl, WellFormed st.heap l fl := by
  have hI : Inv ⟨rtMemheapInit m memheap startAddr size, []⟩ :=
    ⟨_, _, rtMemheapInit_spec hplace, by simp [payloads]⟩
  obtain ⟨l, fl, L, _⟩ := hrun.invariant inv_step hI
  exact ⟨l, fl, L.wellFormed⟩

theorem placement_example : Placement 1024 4096 256 := by
  refine ⟨by decide, by decide, by decide, by decide, by decide⟩

/-- The first block of a pool of 256 bytes. -/
theorem alloc_example {size : Nat} (hsize : roundSize size ≤ 160) : ∃ h fl,
    Layout h [⟨roundSize size + 28, true⟩, ⟨200 - roundSize size, false⟩] fl ∧
      (rtMemheapInit (fun _ => 0) 1024 4096 256).rtMemheapAlloc none size = .ok (some 4124, h) ∧
      h.startAddr = 4096 ∧ h.poolSize = 256 := by
  have L := rtMemheapInit_spec (m := fun _ => 0) placement_example
  have hstart : (rtMemheapInit (fun _ => 0) 1024 4096 256).startAddr = 4096 := rfl
  rcases rtMemheapAlloc_spec L none size with ⟨_, hfull | hsmall⟩ |
    ⟨_, pre, n, post, p, h, hl, halloc, A⟩
  · have havail : (rtMemheapInit (fun _ => 0) 1024 4096 256).availableSize = 200 := rfl
    rw [havail] at hfull
    omega
  · have := hsmall (4096, 228) (by rw [hstart]; decide)
    dsimp only at this
    omega
  · cases pre with
    | nil =>
      obtain ⟨⟨rfl, -⟩, rfl⟩ := List.cons.inj hl
      obtain ⟨fl, L'⟩ := A.layout
      rw [show rtAlignDown 256 - 28 = 228 from rfl, carve, if_pos (by omega),
        show 228 - (roundSize size + 28) = 200 - roundSize size by omega] at L'
      refine ⟨h, fl, L', ?_, A.touch.startAddr_eq, A.touch.poolSize_eq⟩
      rw [halloc, A.ptr_eq, hstart]
      rfl
    | cons s ss => exact absurd (congrArg List.length hl) (by simp)

theorem alloc_step {h₀ h : Memheap} {p size : Nat} {P : State → Action → Prop}
    (halloc : h₀.rtMemheapAlloc none size = .ok (some p, h)) (hP : P ⟨h₀, []⟩ (.alloc none size)) :
    Runs Step P ⟨h₀, []⟩ ⟨h, [p]⟩ := by
  have hstep : Step ⟨h₀, []⟩ (.alloc none size) ⟨h, (some p).toList ++ []⟩ := Step.alloc halloc
  exact Runs.refl.snoc hP hstep

theorem realloc_step {h₀ h : Memheap} {p newsize : Nat}
    (hcall : h₀.rtMemheapRealloc none (some p) newsize = .ok (some p, h)) :
    Step ⟨h₀, [p]⟩ (.realloc none (some p) newsize) ⟨h, [p]⟩ := by
  have hstep := @Step.realloc ⟨h₀, [p]⟩ none (some p) newsize (some p) h (by simp) hcall
  simpa [State.resized, State.without] using hstep

/-- A pool of 256 bytes, after one allocation. -/
theorem rtMemheap_wellFormed_alloc :
    ∃ st, Runs Step Allowed ⟨rtMemheapInit (fun _ => 0) 1024 4096 256, []⟩ st ∧
      st.live = [4124] ∧ ∃ l fl, WellFormed st.heap l fl := by
  obtain ⟨h, _, _, halloc, _⟩ := alloc_example (show roundSize 12 ≤ 160 by decide)
  have hrun := alloc_step (P := Allowed) halloc trivial
  exact ⟨_, hrun, rfl, rtMemheap_wellFormed placement_example hrun⟩

/-- **The defect**: resizing a block to `0xfffffff4` bytes with a free item behind it succeeds and
makes its header the start of a block list that does not tile the pool. -/
theorem rtMemheap_grow_wraps :
    ∃ st, Runs Step Runs.always ⟨rtMemheapInit (fun _ => 0) 1024 4096 256, []⟩ st ∧
      st.live = [4124] ∧ ¬ ∃ l fl, WellFormed st.heap l fl := by
  obtain ⟨h, fl, L, halloc, hstart, hpool⟩ := alloc_example (show roundSize 12 ≤ 160 by decide)
  have hround : roundSize 0xfffffff4 = 0xfffffff4 := by decide
  have L' : Layout h ([] ++ ⟨40, true⟩ :: ⟨188, false⟩ :: []) fl := L
  have hrealloc :=
    rtMemheapRealloc_wraps L' none (show 2 ^ 32 ≤ roundSize 0xfffffff4 + 12 by decide)
  have hgrow := growBlock_wraps L' (p := 4096) (by rw [hstart]; rfl)
    (show 2 ^ 32 ≤ 0xfffffff4 + 12 by decide) (by decide) (by decide)
  rw [hround, hstart] at hrealloc
  obtain ⟨h₂, hh₂⟩ : ∃ h₂, h₂ = h.growBlock (4096 + 28) 4096 (40 - 28) 0xfffffff4 := ⟨_, rfl⟩
  rw [← hh₂] at hgrow
  obtain ⟨hpoint, hstart₂, hpool₂⟩ := hgrow
  have hcall : h.rtMemheapRealloc none (some 4124) 0xfffffff4 = .ok (some 4124, h₂) := by
    rw [hh₂]
    exact hrealloc
  refine
    ⟨_, (alloc_step (P := Runs.always) halloc trivial).snoc trivial (realloc_step hcall), rfl, ?_⟩
  rintro ⟨l, fl, W⟩
  have htiles := W.tiles
  dsimp only at htiles
  rw [hpool₂, hpool] at htiles
  cases l with
  | nil => exact absurd htiles (by decide)
  | cons s ss =>
    have hroom := W.header_room s (by simp)
    obtain ⟨t, ht⟩ := edges_head (4096 + s.len) ss
    have hcircle := W.circle
    dsimp only at hcircle
    rw [hstart₂, hstart, edges_cons, ht] at hcircle
    have hnext := (Circular.link (u := []) hcircle).1
    -- the header now points into itself
    rw [hpoint] at hnext
    rw [show memheapSize = 28 from rfl] at hroom
    omega

end RTThread.Memheap
