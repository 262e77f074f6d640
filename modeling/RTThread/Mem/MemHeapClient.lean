import RTThread.Mem.MemHeapFrame

/-!
# The owner of a block in a memory heap

What a client of a heap works with: the bytes of its blocks (`blockSize`), and four calls. Along
the runs of `MemHeapRun` the owner of a block

* may store into it (`store_inv`, `store_blockSize`),
* gets a block of the size asked for when it resizes it, with the bytes of the old one, or keeps
  what it has (`realloc_room`),
* can give it back (`free_live`),
* and does not notice what the others do with theirs (`perform_ok`).
-/

namespace RTThread.Memheap

open ByteMem Tiling

variable {st st' : State} {h h' : Memheap} {l pre post : List Seg} {fl : List Nat}
  {n p q newsize size off : Nat} {self : Option (List UInt8)} {ptr : Option Nat}

-- --------
-- Blocks
-- --------

theorem Layout.blockSize_mid (L : Layout h (pre ++ ⟨n, true⟩ :: post) fl) :
    blockSize h (h.startAddr + span pre + 28) = n - 28 :=
  L.blockSize_eq (o := span pre) (c := n) (by simp)

theorem Inv.live_bounds (hI : Inv st) (hp : p ∈ st.live) :
    28 ≤ p ∧ 0 < blockSize st.heap p ∧ p + blockSize st.heap p < 2 ^ 32 := by
  obtain ⟨l, fl, L, hlive⟩ := hI
  obtain ⟨pre, n, post, rfl, rfl⟩ := live_block hlive hp
  obtain ⟨hn, htop⟩ := L.extent
  rw [L.blockSize_mid]
  omega

theorem le_next {k : Nat} (hk : 0 < k) (hle : k ≤ blockSize h p) :
    p + k ≤ h.get .next (p - memheapSize) := by
  unfold blockSize at hle
  omega

-- --------
-- Stores
-- --------

/-- The owner stores bytes. -/
def State.store (st : State) (a : Nat) (bytes : List UInt8) : State :=
  ⟨{ st.heap with mem := st.heap.mem.storeBytes a bytes }, st.live⟩

theorem store_layout {bytes : List UInt8} (L : Layout h (pre ++ ⟨n, true⟩ :: post) fl)
    (hin : off + bytes.length ≤ n - 28) :
    Layout { h with mem := h.mem.storeBytes (h.startAddr + span pre + 28 + off) bytes }
      (pre ++ ⟨n, true⟩ :: post) fl := by
  have hn := L.extent.1
  refine L.write _ fun x hx => storeBytes_out ?_
  omega

/-- Bytes stored into a block keep the invariant. -/
theorem store_inv {bytes : List UInt8} (hI : Inv st) (hp : p ∈ st.live)
    (hin : off + bytes.length ≤ blockSize st.heap p) : Inv (st.store (p + off) bytes) := by
  obtain ⟨l, fl, L, hlive⟩ := hI
  obtain ⟨pre, n, post, rfl, rfl⟩ := live_block hlive hp
  rw [L.blockSize_mid] at hin
  exact ⟨_, fl, store_layout L hin, hlive⟩

theorem store_blockSize {bytes : List UInt8} (hI : Inv st) (hp : p ∈ st.live)
    (hin : off + bytes.length ≤ blockSize st.heap p) :
    blockSize (st.store (p + off) bytes).heap p = blockSize st.heap p := by
  obtain ⟨l, fl, L, hlive⟩ := hI
  obtain ⟨pre, n, post, rfl, rfl⟩ := live_block hlive hp
  rw [L.blockSize_mid] at hin ⊢
  exact (store_layout L hin).blockSize_mid

-- --------
-- Resizing
-- --------

theorem Allocated.blockSize {size : Nat} (A : Allocated h pre n post size p h') :
    size ≤ Memheap.blockSize h' p := by
  obtain ⟨fl', L'⟩ := A.layout
  obtain ⟨b, ts, hcarve, hle⟩ := carve_head 40 A.room
  have hb : (span pre, b) ∈ blocks 0 (pre ++ carve (size + 28) 40 n ++ post) := by
    rw [hcarve]
    simp
  rw [A.ptr_eq, ← A.touch.startAddr_eq, L'.blockSize_eq hb]
  omega

/-- A block that was resized is as large as it was asked for. -/
theorem rtMemheapRealloc_room (L : Layout h (pre ++ ⟨n, true⟩ :: post) fl)
    (hno : roundSize newsize + 12 < 2 ^ 32 ∨ (post.head?.map Seg.used).getD true = true)
    (hcall : h.rtMemheapRealloc self (some (h.startAddr + span pre + 28)) newsize =
      .ok (some q, h')) : roundSize newsize ≤ blockSize h' q := by
  rcases rtMemheapRealloc_spec L self newsize hno with ⟨_, h₁, hres, _⟩ | ⟨_, hspec⟩
  · rw [hres] at hcall
    cases hcall
  rcases hspec with ⟨hle, hres⟩ | ⟨h₁, hres, S⟩ | ⟨h₁, k, ts, rfl, hres, G⟩ | ⟨_, hres⟩ |
    ⟨_, q, h₁, pre', k, post', pre₁, post₁, hres, hl, M⟩
  all_goals
    rw [hres] at hcall
    cases hcall
  · rw [L.blockSize_mid]
    omega
  · obtain ⟨fl', L'⟩ := S.layout
    rw [← S.touch.startAddr_eq, L'.blockSize_eq (cut_block ..)]
    omega
  · obtain ⟨fl', L'⟩ := G.layout
    have hb : (span pre, roundSize newsize + 28) ∈
        blocks 0 (grown pre n (roundSize newsize + 28) k ts) := by simp [grown]
    rw [← G.touch.startAddr_eq, L'.blockSize_eq hb]
    omega
  · obtain ⟨fl', L'⟩ := M.layout
    obtain ⟨hn, _⟩ := L.extent
    obtain ⟨b, hnew, hle', hq⟩ := M.block hl (by omega)
    rw [hq, L'.blockSize_eq hnew]
    omega

/-- The block is resized and starts with the bytes of the old one. -/
structure Resized (st : State) (ptr : Option Nat) (newsize q : Nat) (h' : Memheap) : Prop where
  inv : Inv ⟨h', st.resized ptr newsize (some q)⟩
  room : newsize ≤ blockSize h' q
  copied : ∀ p ∈ ptr, ∀ i, i < blockSize st.heap p → i < newsize →
    h'.mem (q + i) = st.heap.mem (p + i)

/-- **Resizing**, or allocating, for a size that is not rounded to a smaller one. -/
theorem realloc_room (hI : Inv st) (hptr : ∀ p ∈ ptr, p ∈ st.live) (h0 : newsize ≠ 0)
    (hlt : newsize ≤ 2 ^ 32 - 4) (hok : Allowed st (.realloc self ptr newsize)) :
    st.heap.rtMemheapRealloc self ptr newsize = .ok (none, st.heap) ∨
      ∃ q h', st.heap.rtMemheapRealloc self ptr newsize = .ok (some q, h') ∧
        Resized st ptr newsize q h' := by
  have hround : newsize ≤ roundSize newsize := roundSize_of_le hlt
  have hinv : ∀ q h', st.heap.rtMemheapRealloc self ptr newsize = .ok (some q, h') →
      Inv ⟨h', st.resized ptr newsize (some q)⟩ := fun q h' hcall => inv_realloc hI hok hptr hcall
  obtain ⟨l, fl, L, hlive⟩ := hI
  cases ptr with
  | none =>
    have hcall : st.heap.rtMemheapRealloc self none newsize =
        st.heap.rtMemheapAlloc self (roundSize newsize) := by
      rw [rtMemheapRealloc, if_neg h0]
    rw [hcall] at hinv ⊢
    have hspec := rtMemheapAlloc_spec L self (roundSize newsize)
    rw [roundSize_idem] at hspec
    rcases hspec with ⟨halloc, _⟩ | ⟨_, pre, n, post, q, h', rfl, halloc, A⟩
    · exact Or.inl halloc
    · exact Or.inr ⟨q, h', halloc, hinv q h' halloc, hround.trans A.blockSize,
        fun _ hp => by cases hp⟩
  | some p =>
    obtain ⟨pre, n, post, rfl, rfl⟩ := live_block hlive (hptr p rfl)
    have hno := allowed_realloc L hok
    have hcut : ¬ CutsDown st.heap (st.heap.startAddr + span pre + 28) newsize := fun hc =>
      absurd hc.1 (by omega)
    have hdone : ∀ q h', st.heap.rtMemheapRealloc self (some (st.heap.startAddr + span pre + 28))
        newsize = .ok (some q, h') → ∃ q h',
          st.heap.rtMemheapRealloc self (some (st.heap.startAddr + span pre + 28)) newsize =
            .ok (some q, h') ∧
          Resized st (some (st.heap.startAddr + span pre + 28)) newsize q h' := by
      intro q h' hcall
      refine ⟨q, h', hcall, hinv q h' hcall, hround.trans (rtMemheapRealloc_room L hno hcall),
        fun p' hp' i hi hi' => ?_⟩
      cases hp'
      rw [L.blockSize_mid] at hi
      exact (rtMemheapRealloc_copied L (by omega) hno hcut hcall hi hi').2
    rcases rtMemheapRealloc_spec L self newsize hno with ⟨hz, _⟩ | ⟨_, hspec⟩
    · exact absurd hz h0
    rcases hspec with ⟨_, hres⟩ | ⟨h₁, hres, _⟩ | ⟨h₁, k, ts, _, hres, _⟩ | ⟨_, hres⟩ |
      ⟨_, q, h₁, pre', k, post', pre₁, post₁, hres, _, _⟩
    · exact Or.inr (hdone _ _ hres)
    · exact Or.inr (hdone _ _ hres)
    · exact Or.inr (hdone _ _ hres)
    · exact Or.inl hres
    · exact Or.inr (hdone _ _ hres)

-- --------
-- Giving back
-- --------

theorem free_live (hI : Inv st) (hp : p ∈ st.live) :
    ∃ h', st.heap.rtMemheapFree (some p) = .ok h' ∧ Inv ⟨h', st.without (some p)⟩ := by
  obtain ⟨l, fl, L, hlive⟩ := id hI
  obtain ⟨pre, n, post, rfl, hpeq⟩ := live_block hlive hp
  obtain ⟨h', hfree, -⟩ := rtMemheapFree_spec L hpeq
  refine ⟨h', hfree, inv_free hI (fun p' hp' => ?_) hfree⟩
  cases hp'
  exact hp

-- --------
-- The others
-- --------

/-- What another client does, with pointers to its blocks. -/
def State.perform (st : State) : Action → Except Fault State
  | .alloc self size => do
    let (r, h) ← st.heap.rtMemheapAlloc self size
    return ⟨h, r.toList ++ st.live⟩
  | .realloc self ptr newsize =>
    if ∀ p ∈ ptr, p ∈ st.live then do
      let (r, h) ← st.heap.rtMemheapRealloc self ptr newsize
      return ⟨h, st.resized ptr newsize r⟩
    else return st
  | .free ptr =>
    if ∀ p ∈ ptr, p ∈ st.live then do
      let h ← st.heap.rtMemheapFree ptr
      return ⟨h, st.without ptr⟩
    else return st
  | .write p x b =>
    if p ∈ st.live ∧ p ≤ x ∧ x < st.heap.get .next (p - memheapSize) then
      return ⟨{ st.heap with mem := fun y => if y = x then b else st.heap.mem y }, st.live⟩
    else return st

/-- A call on a block that is live, or on none, returns. -/
theorem rtMemheapRealloc_returns (hI : Inv st) (hptr : ∀ p ∈ ptr, p ∈ st.live)
    (hok : Allowed st (.realloc self ptr newsize)) :
    ∃ r h', st.heap.rtMemheapRealloc self ptr newsize = .ok (r, h') := by
  obtain ⟨l, fl, L, hlive⟩ := hI
  cases ptr with
  | none =>
    rw [rtMemheapRealloc]
    by_cases h0 : newsize = 0
    · rw [if_pos h0]
      exact ⟨none, st.heap, rfl⟩
    · rw [if_neg h0]
      rcases rtMemheapAlloc_spec L self (roundSize newsize) with ⟨halloc, _⟩ |
        ⟨_, pre, n, post, q, h', rfl, halloc, _⟩
      · exact ⟨_, _, halloc⟩
      · exact ⟨_, _, halloc⟩
  | some p =>
    obtain ⟨pre, n, post, rfl, rfl⟩ := live_block hlive (hptr p rfl)
    rcases rtMemheapRealloc_spec L self newsize (allowed_realloc L hok) with
      ⟨_, h', hres, _⟩ | ⟨_, hspec⟩
    · exact ⟨_, _, hres⟩
    rcases hspec with ⟨_, hres⟩ | ⟨h₁, hres, _⟩ | ⟨h₁, k, ts, _, hres, _⟩ | ⟨_, hres⟩ |
      ⟨_, q, h₁, pre', k, post', pre₁, post₁, hres, _, _⟩ <;> exact ⟨_, _, hres⟩

/-- **The others** make a step of the heap, or none. -/
theorem perform_ok {a : Action} (hI : Inv st) (hok : Allowed st a) :
    ∃ st', st.perform a = .ok st' ∧ (st' = st ∨ Step st a st') := by
  cases a with
  | alloc self size =>
    obtain ⟨l, fl, L, _⟩ := hI
    rcases rtMemheapAlloc_spec L self size with ⟨halloc, _⟩ |
      ⟨_, pre, n, post, q, h', rfl, halloc, _⟩ <;>
    exact ⟨_, by rw [State.perform, halloc]; rfl, Or.inr (Step.alloc halloc)⟩
  | realloc self ptr newsize =>
    rw [State.perform]
    by_cases hptr : ∀ p ∈ ptr, p ∈ st.live
    · obtain ⟨r, h', hcall⟩ := rtMemheapRealloc_returns hI hptr hok
      exact ⟨_, by rw [if_pos hptr, hcall]; rfl, Or.inr (Step.realloc hptr hcall)⟩
    · exact ⟨st, if_neg hptr, Or.inl rfl⟩
  | free ptr =>
    rw [State.perform]
    by_cases hptr : ∀ p ∈ ptr, p ∈ st.live
    · obtain ⟨h', hcall⟩ : ∃ h', st.heap.rtMemheapFree ptr = .ok h' := by
        cases ptr with
        | none => exact ⟨st.heap, rfl⟩
        | some p =>
          obtain ⟨h', hcall, _⟩ := free_live hI (hptr p rfl)
          exact ⟨h', hcall⟩
      exact ⟨_, by rw [if_pos hptr, hcall]; rfl, Or.inr (Step.free hptr hcall)⟩
    · exact ⟨st, if_neg hptr, Or.inl rfl⟩
  | write p x b =>
    rw [State.perform]
    by_cases hin : p ∈ st.live ∧ p ≤ x ∧ x < st.heap.get .next (p - memheapSize)
    · exact ⟨_, if_pos hin, Or.inr (Step.write hin.1 hin.2.1 hin.2.2)⟩
    · exact ⟨st, if_neg hin, Or.inl rfl⟩

theorem Kept.blockSize (K : Kept st st' q) (hI : Inv st) (hq : q ∈ st.live) :
    Memheap.blockSize st'.heap q = Memheap.blockSize st.heap q := by
  have hpos := (hI.live_bounds hq).2.1
  have hend := K.extent (q + Memheap.blockSize st.heap q)
  have hlast := K.extent (q + (Memheap.blockSize st.heap q - 1))
  unfold Memheap.blockSize InPayload at *
  omega

end RTThread.Memheap
