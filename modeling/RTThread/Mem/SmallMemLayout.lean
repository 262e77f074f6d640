import RTThread.Mem.SmallMem
import RTThread.Lib.Tiling

/-!
# The layout of a small-memory heap

A heap is *placed* over a tiled region when its item headers spell out the
segments of that region and the control block agrees with them; it has a
*layout* when moreover no two free segments touch. `Placed` is what holds
between the two halves of a release, `Layout` is what holds between calls.

All header writes are local. `Tiled.splice` turns a local edit, described by
the bytes it leaves alone and by the new headers of the edited stretch, into
the layout of the whole heap.
-/

namespace RTThread.SmallMem

open ByteMem Tiling

-- --------
-- The pool word
-- --------

theorem memFreed_eq {h : SmallMem} (hm : h.smallMem % 4 = 0) (hlt : h.smallMem < 2 ^ 32) :
    h.memFreed = h.smallMem := by
  have hand : h.smallMem &&& Word32.not (2 ^ 1 - 1) = h.smallMem / 2 ^ 1 * 2 ^ 1 :=
    Word32.and_not_mask hlt (by decide)
  rw [memFreed, show memMask = Word32.not (2 ^ 1 - 1) from rfl, hand]
  omega

theorem memUsed_eq {h : SmallMem} (hm : h.smallMem % 4 = 0) (hlt : h.smallMem < 2 ^ 32) :
    h.memUsed = h.smallMem + 1 := by
  have hor : 2 ^ 1 * (h.smallMem / 2) + 1 = 2 ^ 1 * (h.smallMem / 2) ||| 1 :=
    Nat.two_pow_add_eq_or_of_lt (by decide) _
  have hdiv : 2 ^ 1 * (h.smallMem / 2) = h.smallMem := by omega
  rw [hdiv] at hor
  show h.memFreed ||| 1 = _
  rw [memFreed_eq hm hlt, ← hor]

theorem memIsUsed_eq (h : SmallMem) (item : Nat) :
    h.memIsUsed item = decide (h.poolPtr item % 2 = 1) := by
  rw [memIsUsed, show Word32.not memMask = 1 by decide, Nat.and_one_is_mod]
  rcases Nat.mod_two_eq_zero_or_one (h.poolPtr item) with h0 | h1
  · simp [h0]
  · simp [h1]

theorem memPool_eq {h : SmallMem} {item : Nat} :
    h.memPool item = h.poolPtr item / 2 * 2 :=
  Word32.and_not_mask (x := h.poolPtr item) (k := 1) (load32_lt _ _) (by decide)

-- --------
-- Headers
-- --------

/-- The pool word of a segment. -/
def poolWord (pool : Nat) (used : Bool) : Nat := if used then pool + 1 else pool

/-- The header at `off` describes the segment `s`, after an item at `prev`. -/
structure Header (m : ByteMem) (heap pool prev off : Nat) (s : Seg) : Prop where
  pool_eq : m.load32 (heap + off) = poolWord pool s.used
  next_eq : m.load32 (heap + off + 4) = off + s.len
  prev_eq : m.load32 (heap + off + 8) = prev

/-- Segments hold at least a header and keep the alignment. -/
def Sized (l : List Seg) : Prop := ∀ s ∈ l, 16 ≤ s.len ∧ s.len % 4 = 0

theorem Sized.pos {l : List Seg} (h : Sized l) : ∀ s ∈ l, 0 < s.len := fun s hs => by
  have := (h s hs).1
  omega

theorem sized_append {a b : List Seg} : Sized (a ++ b) ↔ Sized a ∧ Sized b := by
  constructor
  · intro h
    exact ⟨fun s hs => h s (by simp [hs]), fun s hs => h s (by simp [hs])⟩
  · rintro ⟨ha, hb⟩ s hs
    rcases List.mem_append.mp hs with h | h
    · exact ha s h
    · exact hb s h

theorem sized_cons {s : Seg} {l : List Seg} :
    Sized (s :: l) ↔ (16 ≤ s.len ∧ s.len % 4 = 0) ∧ Sized l := by
  constructor
  · intro h
    exact ⟨h s (by simp), fun t ht => h t (by simp [ht])⟩
  · rintro ⟨hs, hl⟩ t ht
    rcases List.mem_cons.mp ht with rfl | ht
    · exact hs
    · exact hl t ht

theorem Sized.cons {n : Nat} {used : Bool} {l : List Seg} (hn : 16 ≤ n) (hm : n % 4 = 0)
    (hl : Sized l) : Sized (⟨n, used⟩ :: l) :=
  sized_cons.mpr ⟨⟨hn, hm⟩, hl⟩

theorem sized_nil : Sized [] := by
  intro s hs
  simp at hs

theorem Sized.span_mod {l : List Seg} (h : Sized l) : span l % 4 = 0 := by
  induction l with
  | nil => rfl
  | cons s ss ih =>
    obtain ⟨hs, hss⟩ := sized_cons.mp h
    have := ih hss
    rw [span_cons]
    omega

theorem Sized.length_le {l : List Seg} (h : Sized l) : 16 * l.length ≤ span l := by
  induction l with
  | nil => simp
  | cons s ss ih =>
    obtain ⟨hs, hss⟩ := sized_cons.mp h
    have := ih hss
    rw [span_cons, List.length_cons]
    omega

theorem Sized.span_eq_zero {l : List Seg} (h : Sized l) (h0 : span l = 0) : l = [] := by
  have := h.length_le
  exact List.eq_nil_of_length_eq_zero (by omega)

-- --------
-- Layouts
-- --------

/-- The heap's headers describe the segments `l`, which fill the heap up to its end item. -/
structure Tiled (h : SmallMem) (l : List Seg) : Prop where
  heap_mod : h.heapPtr % 4 = 0
  pool_mod : h.smallMem % 4 = 0
  pool_pos : 0 < h.smallMem
  pool_lt : h.smallMem < 2 ^ 32
  top : h.heapPtr + h.memSizeAligned + 32 < 2 ^ 32
  end_eq : h.heapEnd = h.heapPtr + (h.memSizeAligned + 16)
  sized : Sized l
  span_eq : span l = h.memSizeAligned + 16
  items : Laid (Header h.mem h.heapPtr h.smallMem) 0 0 l
  end_pool : h.poolPtr h.heapEnd = h.smallMem + 1
  end_next : h.next h.heapEnd = h.memSizeAligned + 16

/-- The control block agrees with the headers. -/
structure Placed (h : SmallMem) (l : List Seg) : Prop extends Tiled h l where
  lfree_eq : h.lfree = h.item (firstFree 0 l)
  used_eq : h.used = usedSpan l
  used_le : h.used ≤ h.max

/-- The layout between calls: free segments do not touch, and blocks have a payload. -/
structure Layout (h : SmallMem) (l : List Seg) : Prop extends Placed h l where
  coalesced : Coalesced l
  payload : ∀ b ∈ blocks 0 l, 16 < b.2

/-- Two states of one heap: same control block address, same region. -/
structure SameHeap (h h' : SmallMem) : Prop where
  heap_eq : h'.heapPtr = h.heapPtr
  pool_eq : h'.smallMem = h.smallMem
  end_eq : h'.heapEnd = h.heapEnd
  size_eq : h'.memSizeAligned = h.memSizeAligned

/-- `m'` differs from `m` only in headers of the heap at `heap`, at the offsets in `offs`. -/
def HeaderFrame (m m' : ByteMem) (heap : Nat) (offs : List Nat) : Prop :=
  ∀ x, (∀ o ∈ offs, x < heap + o ∨ heap + o + 16 ≤ x) → m' x = m x

theorem HeaderFrame.trans {m m' m'' : ByteMem} {heap : Nat} {offs offs' offs'' : List Nat}
    (h : HeaderFrame m m' heap offs) (h' : HeaderFrame m' m'' heap offs')
    (hs : offs ⊆ offs'') (hs' : offs' ⊆ offs'') : HeaderFrame m m'' heap offs'' :=
  fun x hx => (h' x fun o ho => hx o (hs' ho)).trans (h x fun o ho => hx o (hs ho))

theorem HeaderFrame.refl (m : ByteMem) (heap : Nat) (offs : List Nat) :
    HeaderFrame m m heap offs := fun _ _ => rfl

section Splice

variable {m m' : ByteMem} {heap pool off : Nat}

/-- A header is read from its first twelve bytes. -/
theorem Header.congr {prev : Nat} {s : Seg} (h : Header m heap pool prev off s)
    (hm : ∀ x, heap + off ≤ x → x < heap + off + 12 → m' x = m x) :
    Header m' heap pool prev off s where
  pool_eq := by
    rw [← h.pool_eq]
    exact load32_congr fun i hi => hm _ (by omega) (by omega)
  next_eq := by
    rw [← h.next_eq]
    exact load32_congr fun i hi => hm _ (by omega) (by omega)
  prev_eq := by
    rw [← h.prev_eq]
    exact load32_congr fun i hi => hm _ (by omega) (by omega)

theorem Header.setPrev {prev prev' : Nat} {s : Seg} (h : Header m heap pool prev off s)
    (hm : ∀ x, heap + off ≤ x → x < heap + off + 8 → m' x = m x)
    (hp : m'.load32 (heap + off + 8) = prev') : Header m' heap pool prev' off s where
  pool_eq := by
    rw [← h.pool_eq]
    exact load32_congr fun i hi => hm _ (by omega) (by omega)
  next_eq := by
    rw [← h.next_eq]
    exact load32_congr fun i hi => hm _ (by omega) (by omega)
  prev_eq := hp

/-- **Local edits.** Rewriting the headers of a stretch of the heap gives the layout with that
stretch replaced: what lies before it is untouched, what lies behind it changes at most in the
first `prev` field, which names the last item of the new stretch. -/
theorem laid_splice {pre mid mid' post : List Seg}
    (h : Laid (Header m heap pool) 0 0 (pre ++ mid ++ post))
    (hsized : Sized (pre ++ mid ++ post)) (hspan : span mid' = span mid)
    (hframe : ∀ x, (x < heap + span pre ∨ heap + (span pre + span mid) ≤ x) →
      (x < heap + (span pre + span mid) + 8 ∨ heap + (span pre + span mid) + 12 ≤ x) →
      m' x = m x)
    (hmid : Laid (Header m' heap pool) (lastStart 0 0 pre) (span pre) mid')
    (hprev : post ≠ [] →
      m'.load32 (heap + (span pre + span mid) + 8) = lastStart 0 0 (pre ++ mid')) :
    Laid (Header m' heap pool) 0 0 (pre ++ mid' ++ post) := by
  obtain ⟨hpm, hspost⟩ := sized_append.mp hsized
  obtain ⟨hspre, _⟩ := sized_append.mp hpm
  rw [laid_append, laid_append] at h
  obtain ⟨⟨hpre, _⟩, hpost⟩ := h
  simp only [span_append, Nat.zero_add] at hpost
  rw [laid_append, laid_append]
  simp only [span_append, Nat.zero_add, hspan]
  refine ⟨⟨?_, hmid⟩, ?_⟩
  · refine hpre.imp fun p o s hs _ hend hH => hH.congr fun x h1 h2 => ?_
    have := (hspre s hs).1
    exact hframe x (Or.inl (by omega)) (Or.inl (by omega))
  · cases post with
    | nil => trivial
    | cons t ts =>
      obtain ⟨ht, hts⟩ := hpost
      obtain ⟨htsz, htssz⟩ := sized_cons.mp hspost
      refine ⟨ht.setPrev (fun x h1 h2 => ?_) (hprev (by simp)), ?_⟩
      · exact hframe x (Or.inr (by omega)) (Or.inl (by omega))
      · refine hts.imp fun p o s _ ho _ hH => hH.congr fun x h1 h2 => ?_
        exact hframe x (Or.inr (by omega)) (Or.inr (by omega))

/-- Local edits at the level of the heap: the end item is out of their reach. -/
theorem Tiled.splice {h h' : SmallMem} {pre mid mid' post : List Seg}
    (T : Tiled h (pre ++ mid ++ post)) (hsame : SameHeap h h') (hsized : Sized mid')
    (hspan : span mid' = span mid)
    (hframe : ∀ x, (x < h.item (span pre) ∨ h.item (span pre + span mid) ≤ x) →
      (x < h.item (span pre + span mid) + 8 ∨ h.item (span pre + span mid) + 12 ≤ x) →
      h'.mem x = h.mem x)
    (hmid : Laid (Header h'.mem h.heapPtr h.smallMem) (lastStart 0 0 pre) (span pre) mid')
    (hprev : post ≠ [] →
      h'.prev (h.item (span pre + span mid)) = lastStart 0 0 (pre ++ mid')) :
    Tiled h' (pre ++ mid' ++ post) := by
  obtain ⟨hheap, hpool, hend, hsize⟩ := hsame
  have hlaid := laid_splice T.items T.sized hspan hframe hmid hprev
  have hspanl := T.span_eq
  have hendeq := T.end_eq
  obtain ⟨hpm, hspost⟩ := sized_append.mp T.sized
  have hspre := (sized_append.mp hpm).1
  simp only [span_append] at hspanl
  have hend_frame : ∀ x, h.heapEnd ≤ x → x < h.heapEnd + 8 → h'.mem x = h.mem x := by
    intro x h1 h2
    refine hframe x (Or.inr ?_) ?_
    · unfold item
      omega
    · by_cases hpost : post = []
      · subst hpost
        rw [span_nil] at hspanl
        refine Or.inl ?_
        unfold item
        omega
      · have hlen := hspost.length_le
        have hne : 0 < post.length := List.length_pos_iff.mpr hpost
        refine Or.inr ?_
        unfold item
        omega
  exact
    { heap_mod := hheap ▸ T.heap_mod
      pool_mod := hpool ▸ T.pool_mod
      pool_pos := hpool ▸ T.pool_pos
      pool_lt := hpool ▸ T.pool_lt
      top := by rw [hheap, hsize]; exact T.top
      end_eq := by rw [hend, hheap, hsize]; exact T.end_eq
      sized := sized_append.mpr ⟨sized_append.mpr ⟨hspre, hsized⟩, hspost⟩
      span_eq := by simp only [span_append, hspan, hsize]; exact hspanl
      items := by rw [hheap, hpool]; exact hlaid
      end_pool := by
        rw [hend, hpool, ← T.end_pool]
        exact load32_congr fun i hi => hend_frame _ (by omega) (by omega)
      end_next := by
        rw [hend, hsize, ← T.end_next]
        exact load32_congr fun i hi => hend_frame _ (by omega) (by omega) }

end Splice

/-- Writes that miss every header field keep the headers. -/
theorem Tiled.congr {h h' : SmallMem} {l : List Seg} (T : Tiled h l) (hsame : SameHeap h h')
    (hframe : ∀ o ∈ starts 0 l ++ [span l], ∀ x, h.item o ≤ x → x < h.item o + 12 →
      h'.mem x = h.mem x) : Tiled h' l := by
  obtain ⟨hheap, hpool, hend, hsize⟩ := hsame
  have hend_frame : ∀ x, h.heapEnd ≤ x → x < h.heapEnd + 12 → h'.mem x = h.mem x := by
    intro x h1 h2
    rw [T.end_eq, ← T.span_eq] at h1 h2
    exact hframe (span l) (by simp) x h1 h2
  exact
    { heap_mod := hheap ▸ T.heap_mod
      pool_mod := hpool ▸ T.pool_mod
      pool_pos := hpool ▸ T.pool_pos
      pool_lt := hpool ▸ T.pool_lt
      top := by rw [hheap, hsize]; exact T.top
      end_eq := by rw [hend, hheap, hsize]; exact T.end_eq
      sized := T.sized
      span_eq := by rw [hsize]; exact T.span_eq
      items := by
        rw [hheap, hpool]
        exact T.items.imp_starts fun p o ho s hH => hH.congr fun x h1 h2 =>
          hframe o (by simp [ho]) x h1 h2
      end_pool := by
        rw [hend, hpool, ← T.end_pool]
        exact load32_congr fun i hi => hend_frame _ (by omega) (by omega)
      end_next := by
        rw [hend, hsize, ← T.end_next]
        exact load32_congr fun i hi => hend_frame _ (by omega) (by omega) }

end RTThread.SmallMem
