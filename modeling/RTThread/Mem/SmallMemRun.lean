import RTThread.Mem.SmallMemRealloc
import RTThread.Lib.Runs

/-!
# Runs of the small-memory heap

A run starts from a heap that `rt_smem_init` accepted. Its steps are the
allocator's calls, by any thread and with any request, and writes of the
clients into their own blocks; a block is given back or resized only while it
is live. A call that runs into an assertion or never returns has no next state.

Main result: `rtSmem_wellFormed`, every heap a run reaches is well formed, in
terms of the fields the source reads.
-/

namespace RTThread.SmallMem

open ByteMem Tiling

variable {h h' : SmallMem} {l pre post : List Seg}

-- --------
-- Well-formed heaps
-- --------

/-- Following `next` from `off` visits the offsets `offs` and reaches `heap_end`. -/
inductive Walk (h : SmallMem) : Nat → List Nat → Prop
  | stop {off : Nat} : h.item off = h.heapEnd → off % rtAlignSize = 0 → Walk h off []
  | item {off : Nat} {offs : List Nat} : off % rtAlignSize = 0 → h.item off < h.heapEnd →
      off < h.next (h.item off) → Walk h (h.next (h.item off)) offs → Walk h off (off :: offs)

/-- A well-formed heap, whose items below `heap_end` are at the offsets `offs`. -/
structure WellFormed (h : SmallMem) (offs : List Nat) : Prop where
  walk : Walk h 0 offs
  first_prev : h.prev (h.item 0) = 0
  prevs : offs.IsChain fun o o' => h.prev (h.item o') = o
  apart : offs.IsChain fun o o' => h.memIsUsed (h.item o) = true ∨ h.memIsUsed (h.item o') = true
  lfree_eq : h.lfree =
    ((offs.find? fun o => !h.memIsUsed (h.item o)).map h.item).getD h.heapEnd
  used_eq : h.used =
    ((offs.filter fun o => h.memIsUsed (h.item o)).map fun o => h.next (h.item o) - o).sum
  used_le : h.used ≤ h.max

/-- The walk along `next` visits the starts of the segments. -/
theorem Tiled.walk : ∀ (rest pre : List Seg), Tiled h (pre ++ rest) →
    Walk h (span pre) (starts (span pre) rest) := by
  intro rest
  induction rest with
  | nil =>
    intro pre T
    have hmod := T.sized.span_mod
    rw [List.append_nil] at hmod
    refine Walk.stop ?_ hmod
    rw [T.end_item, List.append_nil]
  | cons s ss ih =>
    obtain ⟨n, u⟩ := s
    intro pre T
    obtain ⟨hext, hlen, _, hmod⟩ := T.extent
    have hend := T.end_eq
    have hnext := T.next_item
    have T' : Tiled h ((pre ++ [⟨n, u⟩]) ++ ss) := by simpa using T
    have hih := ih (pre ++ [⟨n, u⟩]) T'
    rw [show span (pre ++ [⟨n, u⟩]) = span pre + n by simp] at hih
    refine Walk.item hmod ?_ (by omega) (by rwa [hnext])
    rw [hend, item]
    omega

/-- Neighbouring starts: the back pointer, and the use of the two items. -/
theorem Tiled.neighbours : ∀ (rest pre : List Seg), Tiled h (pre ++ rest) → Coalesced rest →
    (starts (span pre) rest).IsChain fun o o' => h.prev (h.item o') = o ∧
      (h.memIsUsed (h.item o) = true ∨ h.memIsUsed (h.item o') = true) := by
  intro rest
  induction rest with
  | nil => intro _ _ _; exact List.isChain_nil
  | cons s ss ih =>
    obtain ⟨n, u⟩ := s
    intro pre T hc
    have T' : Tiled h ((pre ++ [⟨n, u⟩]) ++ ss) := by simpa using T
    have hih := ih (pre ++ [⟨n, u⟩]) T' hc.tail
    have hspan : span (pre ++ [⟨n, u⟩]) = span pre + n := by simp
    rw [hspan] at hih
    cases ss with
    | nil => exact List.isChain_singleton _
    | cons t ts =>
      refine List.isChain_cons_cons.mpr ⟨⟨?_, ?_⟩, hih⟩
      · dsimp only
        rw [← hspan, T'.prev_item, lastStart_concat, Nat.zero_add]
      · have hpair := (List.isChain_cons_cons.mp hc).1
        dsimp only
        rw [T.memIsUsed_item, ← hspan, T'.memIsUsed_item]
        exact hpair

/-- The lowest free item. -/
theorem Tiled.find_free : ∀ (rest pre : List Seg), Tiled h (pre ++ rest) →
    (((starts (span pre) rest).find? fun o => !h.memIsUsed (h.item o)).map h.item).getD h.heapEnd =
      h.item (firstFree (span pre) rest) := by
  intro rest
  induction rest with
  | nil =>
    intro pre T
    have hend := T.end_item
    rw [List.append_nil] at hend
    exact hend
  | cons s ss ih =>
    obtain ⟨n, u⟩ := s
    intro pre T
    have T' : Tiled h ((pre ++ [⟨n, u⟩]) ++ ss) := by simpa using T
    have hih := ih (pre ++ [⟨n, u⟩]) T'
    rw [show span (pre ++ [⟨n, u⟩]) = span pre + n by simp] at hih
    rw [starts_cons, List.find?_cons, T.memIsUsed_item, firstFree]
    cases u with
    | true => simpa using hih
    | false => simp

/-- The bytes in use, counted from item to item. -/
theorem Tiled.sum_used : ∀ (rest pre : List Seg), Tiled h (pre ++ rest) →
    (((starts (span pre) rest).filter fun o => h.memIsUsed (h.item o)).map fun o =>
      h.next (h.item o) - o).sum = usedSpan rest := by
  intro rest
  induction rest with
  | nil => intro _ _; rfl
  | cons s ss ih =>
    obtain ⟨n, u⟩ := s
    intro pre T
    have T' : Tiled h ((pre ++ [⟨n, u⟩]) ++ ss) := by simpa using T
    have hih := ih (pre ++ [⟨n, u⟩]) T'
    rw [show span (pre ++ [⟨n, u⟩]) = span pre + n by simp] at hih
    rw [starts_cons, List.filter_cons, T.memIsUsed_item, usedSpan_cons]
    cases u with
    | true =>
      rw [if_pos rfl, List.map_cons, List.sum_cons, T.next_item, hih]
      simp
    | false => simpa using hih

/-- **A heap with a layout is well formed.** -/
theorem Layout.wellFormed (L : Layout h l) : WellFormed h (starts 0 l) := by
  have T : Tiled h ([] ++ l) := L.toTiled
  have hchain := T.neighbours l [] L.coalesced
  have hwalk := T.walk l []
  have hfind := T.find_free l []
  have hsum := T.sum_used l []
  rw [span_nil] at hchain hwalk hfind hsum
  refine
    { walk := hwalk
      first_prev := ?_
      prevs := hchain.imp fun _ _ hp => hp.1
      apart := hchain.imp fun _ _ hp => hp.2
      lfree_eq := by rw [hfind]; exact L.lfree_eq
      used_eq := by rw [hsum]; exact L.used_eq
      used_le := L.used_le }
  have hspan := L.span_eq
  match l, T, hspan with
  | [], _, hspan => simp at hspan
  | s :: ss, T, _ => exact T.prev_item

-- --------
-- Initialisation
-- --------

/-- What the four stores leave in memory. -/
theorem setHeader_spec (h : SmallMem) (mem : Nat) (used : Bool) {next prev word : Nat}
    (name : List UInt8) (hword : (if used then h.memUsed else h.memFreed) = word)
    (hw : word < 2 ^ 32) (hn : next < 2 ^ 32) (hp : prev < 2 ^ 32) :
    ∃ m', h.setHeader mem used next prev name = { h with mem := m' } ∧
      m'.load32 mem = word ∧ m'.load32 (mem + 4) = next ∧ m'.load32 (mem + 8) = prev ∧
      ∀ x, (x < mem ∨ mem + 16 ≤ x) → m' x = h.mem x := by
  have hname := nameField_length name
  refine ⟨(((h.mem.store32 mem word).store32 (mem + 4) next).store32 (mem + 8) prev).storeBytes
    (mem + 12) (nameField name), ?_, ?_, ?_, ?_, fun x hx => ?_⟩
  · rw [← hword]
    rfl
  · simp (disch := omega) only [load32_storeBytes_out, load32_store32_out, load32_store32_self]
  · simp (disch := omega) only [load32_storeBytes_out, load32_store32_out, load32_store32_self]
  · simp (disch := omega) only [load32_storeBytes_out, load32_store32_self]
  · rw [storeBytes_out (by omega), store32_out (by omega), store32_out (by omega),
      store32_out (by omega)]

/-- The items of a new heap are laid out as one free segment. -/
theorem initItems_spec (hheap : h.heapPtr % 4 = 0) (hsize : h.memSizeAligned % 4 = 0)
    (hpool : h.smallMem % 4 = 0) (hpos : 0 < h.smallMem) (hlt : h.smallMem < 2 ^ 32)
    (htop : h.heapPtr + h.memSizeAligned + 32 < 2 ^ 32) (hused : h.used = 0) :
    Layout h.initItems [⟨h.memSizeAligned + 16, false⟩] := by
  obtain ⟨m₁, h₁, hp₁, hn₁, hv₁, hf₁⟩ := setHeader_spec h h.heapPtr false initName
    (memFreed_eq hpool hlt) hlt
    (show h.memSizeAligned + 16 < 2 ^ 32 by omega) (show 0 < 2 ^ 32 by decide)
  obtain ⟨e, he⟩ : ∃ e, e = h.heapPtr + (h.memSizeAligned + 16) := ⟨_, rfl⟩
  have hnext : SmallMem.item { h with mem := m₁ } (SmallMem.next { h with mem := m₁ } h.heapPtr) =
      e := by
    rw [next, hn₁, he]
    rfl
  obtain ⟨m₂, h₂, hp₂, hn₂, hv₂, hf₂⟩ := setHeader_spec { h with mem := m₁, heapEnd := e }
    e true initName (memUsed_eq hpool hlt)
    (show h.smallMem + 1 < 2 ^ 32 by omega)
    (show h.memSizeAligned + 16 < 2 ^ 32 by omega) (show h.memSizeAligned + 16 < 2 ^ 32 by omega)
  have hinit : h.initItems = { h with mem := m₂, heapEnd := e, lfree := h.heapPtr } := by
    unfold initItems
    dsimp only
    rw [h₁, hnext]
    dsimp only
    rw [h₂]
  have hkeep : ∀ x, h.heapPtr ≤ x → x < h.heapPtr + 12 → m₂ x = m₁ x :=
    fun x h1 h2 => hf₂ x (by omega)
  have hfirst : Header m₂ h.heapPtr h.smallMem 0 0 ⟨h.memSizeAligned + 16, false⟩ := by
    refine Header.congr ⟨hp₁, ?_, hv₁⟩ hkeep
    rw [Nat.zero_add]
    exact hn₁
  rw [hinit]
  exact
    { heap_mod := hheap
      pool_mod := hpool
      pool_pos := hpos
      pool_lt := hlt
      top := htop
      end_eq := he
      sized := Sized.cons (by omega) (by omega) sized_nil
      span_eq := rfl
      items := ⟨hfirst, trivial⟩
      end_pool := hp₂
      end_next := hn₂
      lfree_eq := rfl
      used_eq := hused
      used_le := by
        dsimp only
        omega
      coalesced := List.isChain_singleton _
      payload := by simp }

/-- **`rt_smem_init`**: an accepted heap is one free item. -/
theorem rtSmemInit_spec {m : ByteMem} {beginAddr size : Nat}
    (hinit : rtSmemInit m beginAddr size = some h) : ∃ n, Layout h [⟨n, false⟩] := by
  -- the addresses: the region ends below the end of the address space
  obtain ⟨sm, hsm⟩ : ∃ sm, sm = rtAlign beginAddr := ⟨_, rfl⟩
  have hsmlt : sm < 2 ^ 32 ∧ sm % 4 = 0 := hsm ▸ ⟨rtAlign_lt _, rtAlign_mod _⟩
  obtain ⟨start, hstart⟩ : ∃ start, start = Word32.add sm sizeofSmallMem := ⟨_, rfl⟩
  have hstartlt : start < 2 ^ 32 := hstart ▸ Word32.add_lt _ _
  have hstartmod : start % 4 = 0 := by
    rw [hstart, Word32.add, show sizeofSmallMem = 64 from rfl]
    omega
  obtain ⟨top, htop⟩ : ∃ top, top = rtAlignDown (Word32.add beginAddr size) := ⟨_, rfl⟩
  have htoplt : top < 2 ^ 32 ∧ top % 4 = 0 := by
    have := Word32.add_lt beginAddr size
    rw [htop, rtAlignDown_eq this]
    omega
  unfold rtSmemInit at hinit
  dsimp only at hinit
  rw [← hsm, ← hstart, ← htop, rtAlign_of_mod hstartmod hstartlt] at hinit
  rw [show 2 * sizeofStructMem = 32 from rfl] at hinit
  by_cases hroom : top > 32 ∧ Word32.sub top 32 ≥ start
  swap
  · rw [if_neg hroom] at hinit
    cases hinit
  rw [if_pos hroom] at hinit
  have hstart_le : start + 32 ≤ top := by
    obtain ⟨hroom₁, hroom₂⟩ := hroom
    rw [Word32.sub_of_le (show 32 ≤ top by omega) htoplt.1] at hroom₂
    omega
  have hsize : Word32.sub (Word32.sub top start) 32 = top - start - 32 := by
    rw [Word32.sub_of_le (show start ≤ top by omega) htoplt.1,
      Word32.sub_of_le (by omega) (by omega)]
  by_cases hnull : sm = 0
  · rw [if_pos hnull] at hinit
    cases hinit
  rw [if_neg hnull, Option.some.injEq] at hinit
  rw [← hinit, hsize]
  exact ⟨_, initItems_spec hstartmod (by dsimp only; omega) hsmlt.2 (by dsimp only; omega) hsmlt.1
    (by dsimp only; omega) rfl⟩

-- --------
-- Runs
-- --------

/-- A heap in use: the heap, and the pointers handed out and not yet given back. -/
structure State where
  heap : SmallMem
  live : List Nat

/-- What may happen to a heap. `self` is the name of the calling thread, if there is one. -/
inductive Action
  | alloc (self : Option (List UInt8)) (size : Nat)
  | realloc (self : Option (List UInt8)) (rmem : Option Nat) (newsize : Nat)
  | free (rmem : Option Nat)
  /-- the owner of the block `p` stores the byte `b` at `x` -/
  | write (p x : Nat) (b : UInt8)

/-- The live pointers without the block given to a call. -/
def State.without (st : State) : Option Nat → List Nat
  | none => st.live
  | some p => st.live.erase p

/-- The live pointers after `rt_smem_realloc`: a null result gave the block back when the
request rounded to zero, and left it live otherwise. -/
def State.resized (st : State) (rmem : Option Nat) (newsize : Nat) : Option Nat → List Nat
  | some q => q :: st.without rmem
  | none => if rtAlign newsize = 0 then st.without rmem else st.live

inductive Step : State → Action → State → Prop
  | alloc {st : State} {self : Option (List UInt8)} {size : Nat} {r : Option Nat}
      {h' : SmallMem} : st.heap.rtSmemAlloc self size = .ok (r, h') →
      Step st (.alloc self size) ⟨h', r.toList ++ st.live⟩
  | realloc {st : State} {self : Option (List UInt8)} {rmem : Option Nat} {newsize : Nat}
      {r : Option Nat} {h' : SmallMem} : (∀ p ∈ rmem, p ∈ st.live) →
      st.heap.rtSmemRealloc self rmem newsize = .ok (r, h') →
      Step st (.realloc self rmem newsize) ⟨h', st.resized rmem newsize r⟩
  | free {st : State} {rmem : Option Nat} {h' : SmallMem} : (∀ p ∈ rmem, p ∈ st.live) →
      st.heap.rtSmemFree rmem = .ok h' → Step st (.free rmem) ⟨h', st.without rmem⟩
  | write {st : State} {p x : Nat} {b : UInt8} : p ∈ st.live → p ≤ x →
      x < st.heap.item (st.heap.next (p - sizeofStructMem)) →
      Step st (.write p x b)
        ⟨{ st.heap with mem := fun y => if y = x then b else st.heap.mem y }, st.live⟩

/-- Addresses of the payloads of the blocks of a layout. -/
def payloads (heap : Nat) (l : List Seg) : List Nat := (blocks 0 l).map fun b => heap + b.1 + 16

theorem payloads_used (heap n : Nat) (pre post : List Seg) :
    (payloads heap (pre ++ ⟨n, true⟩ :: post)).Perm
      ((heap + span pre + 16) :: payloads heap (release pre n post)) :=
  addresses_used ..

theorem payloads_cut (heap : Nat) {c n : Nat} (pre post : List Seg) (hc : c ≤ n) :
    payloads heap (release (pre ++ [⟨c, true⟩]) (n - c) post) =
      payloads heap (pre ++ ⟨n, true⟩ :: post) :=
  addresses_cut _ _ pre post hc

theorem payloads_carve (heap : Nat) (pre : List Seg) (need k : Nat) (post : List Seg) :
    (payloads heap (pre ++ carve need 28 k ++ post)).Perm
      ((heap + span pre + 16) :: payloads heap (pre ++ ⟨k, false⟩ :: post)) :=
  addresses_carve ..

/-- The invariant of a run: the heap has a layout, and its blocks are the live ones. -/
def Inv (st : State) : Prop :=
  ∃ l, Layout st.heap l ∧ st.live.Perm (payloads st.heap.heapPtr l)

theorem live_block {st : State} {p : Nat} (hlive : st.live.Perm (payloads st.heap.heapPtr l))
    (hp : p ∈ st.live) :
    ∃ pre n post, l = pre ++ ⟨n, true⟩ :: post ∧ p = st.heap.item (span pre) + 16 :=
  exists_of_mem_addresses (hlive.mem_iff.mp hp)

/-- An allocation keeps the invariant. -/
theorem inv_alloc {st : State} {self : Option (List UInt8)} {size : Nat} {r : Option Nat}
    (hI : Inv st) (hcall : st.heap.rtSmemAlloc self size = .ok (r, h')) :
    Inv ⟨h', r.toList ++ st.live⟩ := by
  obtain ⟨l, L, hlive⟩ := hI
  rcases rtSmemAlloc_spec L self size with ⟨halloc, _⟩ | ⟨halloc, _⟩ |
    ⟨p, h₁, pre, k, post, rfl, _, _, halloc, A⟩
  · rw [halloc] at hcall
    cases hcall
    exact ⟨l, L, hlive⟩
  · rw [halloc] at hcall
    cases hcall
  · rw [halloc] at hcall
    cases hcall
    refine ⟨_, A.layout, ?_⟩
    rw [A.same.heap_eq, A.ptr_eq]
    exact (hlive.cons _).trans (payloads_carve ..).symm

/-- A block that is given back keeps the invariant. -/
theorem inv_free {st : State} {rmem : Option Nat} (hI : Inv st) (hmem : ∀ p ∈ rmem, p ∈ st.live)
    (hcall : st.heap.rtSmemFree rmem = .ok h') : Inv ⟨h', st.without rmem⟩ := by
  obtain ⟨l, L, hlive⟩ := hI
  cases rmem with
  | none =>
    cases hcall
    exact ⟨l, L, hlive⟩
  | some p =>
    obtain ⟨pre, n, post, rfl, rfl⟩ := live_block hlive (hmem p rfl)
    obtain ⟨h₁, hfree, L₁, hsame, _⟩ := rtSmemFree_spec L
    rw [hfree] at hcall
    cases hcall
    refine ⟨_, L₁, ?_⟩
    have hperm := (hlive.trans (payloads_used ..)).erase (st.heap.item (span pre) + 16)
    rw [show st.heap.item (span pre) + 16 = st.heap.heapPtr + span pre + 16 from rfl] at hperm ⊢
    rw [List.erase_cons_head] at hperm
    rw [hsame.heap_eq]
    exact hperm

/-- Resizing the null pointer allocates, unless the rounded request is refused or zero. -/
theorem rtSmemRealloc_null {self : Option (List UInt8)} {newsize : Nat} {r : Option Nat}
    (hcall : h.rtSmemRealloc self none newsize = .ok (r, h')) :
    (r = none ∧ h' = h) ∨ h.rtSmemAlloc self (rtAlign newsize) = .ok (r, h') := by
  rw [rtSmemRealloc] at hcall
  by_cases hbig : rtAlign newsize > h.memSizeAligned
  · rw [if_pos hbig] at hcall
    cases hcall
    exact Or.inl ⟨rfl, rfl⟩
  by_cases h0 : rtAlign newsize = 0
  · rw [if_neg hbig, if_pos h0] at hcall
    cases hcall
    exact Or.inl ⟨rfl, rfl⟩
  · rw [if_neg hbig, if_neg h0] at hcall
    exact Or.inr hcall

theorem inv_realloc_null {st : State} {self : Option (List UInt8)} {newsize : Nat}
    {r : Option Nat} (hI : Inv st) (hcall : st.heap.rtSmemRealloc self none newsize = .ok (r, h')) :
    Inv ⟨h', st.resized none newsize r⟩ := by
  have hlive : st.resized none newsize r = r.toList ++ st.live := by
    cases r with
    | none =>
      rw [State.resized]
      split <;> rfl
    | some q => rfl
  rw [hlive]
  rcases rtSmemRealloc_null hcall with ⟨rfl, rfl⟩ | halloc
  · exact hI
  · exact inv_alloc hI halloc

/-- Resizing keeps the invariant. -/
theorem inv_realloc {st : State} {self : Option (List UInt8)} {rmem : Option Nat}
    {newsize : Nat} {r : Option Nat} (hI : Inv st) (hmem : ∀ p ∈ rmem, p ∈ st.live)
    (hcall : st.heap.rtSmemRealloc self rmem newsize = .ok (r, h')) :
    Inv ⟨h', st.resized rmem newsize r⟩ := by
  cases rmem with
  | none => exact inv_realloc_null hI hcall
  | some p =>
    obtain ⟨l, L, hlive⟩ := hI
    obtain ⟨pre, n, post, rfl, rfl⟩ := live_block hlive (hmem p rfl)
    have hold := hlive.trans (payloads_used ..)
    rw [show st.heap.heapPtr + span pre + 16 = st.heap.item (span pre) + 16 from rfl] at hold
    -- the live pointers but for the block, and with it put back
    have hrest := hold.erase (st.heap.item (span pre) + 16)
    rw [List.erase_cons_head] at hrest
    have hback : ((st.heap.item (span pre) + 16) ::
        st.live.erase (st.heap.item (span pre) + 16)).Perm st.live :=
      (List.perm_cons_erase (hmem _ rfl)).symm
    rcases rtSmemRealloc_spec L self newsize with ⟨hres, h0, _⟩ | ⟨h0, h₁, hres, F⟩ |
      ⟨_, hres⟩ | ⟨_, hroom, h₁, hres, S⟩ | ⟨hres, _⟩ |
      ⟨_, q, h₁, pre', k, post', pre₁, post₁, hres, hl, M⟩
    all_goals
      rw [hres] at hcall
      cases hcall
    · refine ⟨_, L, ?_⟩
      rw [State.resized, if_neg h0]
      exact hlive
    · refine ⟨_, F.layout, ?_⟩
      rw [State.resized, if_pos h0, F.same.heap_eq]
      exact hrest
    · exact ⟨_, L, hback.trans hlive⟩
    · refine ⟨_, S.layout, ?_⟩
      rw [S.same.heap_eq, payloads_cut _ _ _ (by omega)]
      exact hback.trans hlive
    · refine ⟨_, M.layout, ?_⟩
      have hnew := payloads_carve st.heap.heapPtr pre' (roundSize (rtAlign newsize) + 16) k post'
      rw [M.split_eq, ← hl, ← show q = st.heap.heapPtr + span pre' + 16 from M.ptr_eq] at hnew
      have hgone := payloads_used st.heap.heapPtr n pre₁ post₁
      rw [M.span_eq] at hgone
      rw [M.same.heap_eq]
      -- old block and the rest now, new block, old block and the rest before
      have hall := (hgone.symm.trans hnew).trans ((hlive.symm.cons q).trans (hback.symm.cons q))
      exact (hall.trans (List.Perm.swap ..)).cons_inv.symm

/-- A byte written into a block keeps the invariant. -/
theorem inv_write {st : State} {p x : Nat} {b : UInt8} (hI : Inv st) (hp : p ∈ st.live)
    (h1 : p ≤ x) (h2 : x < st.heap.item (st.heap.next (p - 16))) :
    Inv ⟨{ st.heap with mem := fun y => if y = x then b else st.heap.mem y }, st.live⟩ := by
  obtain ⟨l, L, hlive⟩ := hI
  obtain ⟨pre, n, post, rfl, rfl⟩ := live_block hlive hp
  rw [Nat.add_sub_cancel, L.toTiled.next_item] at h2
  refine ⟨_, L.write _ fun y hy => if_neg ?_, hlive⟩
  unfold item at *
  omega

/-- **A step** keeps the invariant. -/
theorem inv_step (st : State) (a : Action) (st' : State) (hI : Inv st) (hs : Step st a st') :
    Inv st' := by
  cases hs with
  | alloc hcall => exact inv_alloc hI hcall
  | realloc hmem hcall => exact inv_realloc hI hmem hcall
  | free hmem hcall => exact inv_free hI hmem hcall
  | write hp h1 h2 => exact inv_write hI hp h1 h2

/-- **Every heap a run reaches is well formed.** -/
theorem rtSmem_wellFormed {m : ByteMem} {beginAddr size : Nat} {st : State}
    (hinit : rtSmemInit m beginAddr size = some h) (hrun : Runs Step Runs.always ⟨h, []⟩ st) :
    ∃ offs, WellFormed st.heap offs := by
  have hI : Inv ⟨h, []⟩ := by
    obtain ⟨n, L⟩ := rtSmemInit_spec hinit
    exact ⟨_, L, by simp [payloads]⟩
  obtain ⟨l, L, _⟩ := hrun.invariant (fun s a s' hs _ h => inv_step s a s' hs h) hI
  exact ⟨_, L.wellFormed⟩

/-- A heap of one kilobyte, after one allocation. -/
theorem rtSmem_wellFormed_alloc :
    ∃ h st, rtSmemInit (fun _ => 0) 4096 1024 = some h ∧ Runs Step Runs.always ⟨h, []⟩ st ∧
      st.live = [4176] ∧ ∃ offs, WellFormed st.heap offs := by
  have hinit : rtSmemInit (fun _ => 0) 4096 1024 =
      some ((rtSmemInit (fun _ => 0) 4096 1024).get rfl) := rfl
  have hstep : Runs Step Runs.always
      ⟨(rtSmemInit (fun _ => 0) 4096 1024).get rfl, []⟩ ⟨_, [4176]⟩ :=
    Runs.refl.snoc trivial (@Step.alloc _ none 100 (some 4176) _ rfl)
  exact ⟨_, _, hinit, hstep, rfl, rtSmem_wellFormed hinit hstep⟩

end RTThread.SmallMem
