import RTThread.Mem.SmallMemSizes

/-!
# The first-fit search of a small-memory heap

`Inspects` is the search loop of `rt_smem_alloc` with the offsets it looks at and no fuel. It
starts at `lfree`, in front of which nothing is free, and stops at `mem_size_aligned - size`,
behind which nothing fits; so in a heap of at least a minimal block it ends before the heap
does, and what it returns is the lowest item with room. In a smaller heap the bound wraps around
and the end item, its own successor, is inspected forever.
-/

namespace RTThread.SmallMem

open ByteMem Tiling

variable {h : SmallMem} {l pre post : List Seg} {n off ptr size : Nat} {offs : List Nat}

-- --------
-- The loop without fuel
-- --------

/-- The search for `size` bytes inspects the offsets `offs` from `ptr` on, and ends. -/
inductive Inspects (h : SmallMem) (size : Nat) : Nat → List Nat → Prop
  | bound {ptr : Nat} : ¬ ptr ≤ Word32.sub h.memSizeAligned size → Inspects h size ptr []
  | found {ptr : Nat} : ptr ≤ Word32.sub h.memSizeAligned size →
      (h.memIsUsed (h.item ptr) = false ∧
        Word32.sub (h.next (h.item ptr)) (ptr + sizeofStructMem) ≥ size) →
      Inspects h size ptr [ptr]
  | next {ptr : Nat} {offs : List Nat} : ptr ≤ Word32.sub h.memSizeAligned size →
      ¬(h.memIsUsed (h.item ptr) = false ∧
        Word32.sub (h.next (h.item ptr)) (ptr + sizeofStructMem) ≥ size) →
      Inspects h size (h.next (h.item ptr)) offs → Inspects h size ptr (ptr :: offs)

/-- A search that ends does so within some fuel. -/
theorem Inspects.search (hi : Inspects h size ptr offs) :
    ∃ r, h.search size (offs.length + 1) ptr = .ok r := by
  induction hi with
  | bound hout => exact ⟨none, by rw [SmallMem.search, if_neg hout]⟩
  | @found ptr hin hfit => exact ⟨some ptr, by rw [SmallMem.search, if_pos hin, if_pos hfit]⟩
  | next hin hfit _ ih =>
    obtain ⟨r, hr⟩ := ih
    exact ⟨r, by rw [List.length_cons, SmallMem.search, if_pos hin, if_neg hfit, hr]⟩

/-- The control block's `lfree`, as a position in the layout. -/
theorem Placed.start (P : Placed h l) :
    ∃ pre post, l = pre ++ post ∧ h.lfree - h.heapPtr = span pre := by
  rw [P.lfree_eq, item, Nat.add_sub_cancel_left]
  rcases exists_free_or_all_used l with hfree | hused
  · obtain ⟨a, s, b, hl, -, hoff⟩ := firstFree_split hfree
    exact ⟨a, s :: b, hl, hoff⟩
  · refine ⟨l, [], (List.append_nil l).symm, ?_⟩
    have hall : firstFree 0 (l ++ []) = firstFree (0 + span l) [] := firstFree_append_used hused
    rwa [List.append_nil, firstFree, Nat.zero_add] at hall

/-- **From item to item.** With a bound that does not wrap, the loop ends at the latest at the
end of the heap; by induction on the segments in front of it. -/
theorem Tiled.inspects (hmin : 12 ≤ size) (hmax : size ≤ h.memSizeAligned) :
    ∀ (rest pre : List Seg), Tiled h (pre ++ rest) →
      ∃ offs, Inspects h size (span pre) offs ∧ ∀ o ∈ offs, h.item o ≤ h.heapEnd := by
  intro rest
  induction rest with
  | nil =>
    intro pre T
    have hspan := T.span_eq
    have htop := T.top
    rw [List.append_nil] at hspan
    refine ⟨[], .bound ?_, by simp⟩
    rw [Word32.sub_of_le hmax (by omega)]
    omega
  | cons s ss ih =>
    obtain ⟨n, u⟩ := s
    intro pre T
    obtain ⟨hext, -⟩ := T.extent
    have hle : h.item (span pre) ≤ h.heapEnd := by
      rw [T.end_eq, item]
      omega
    by_cases hin : span pre ≤ Word32.sub h.memSizeAligned size
    · by_cases hfit : h.memIsUsed (h.item (span pre)) = false ∧
          Word32.sub (h.next (h.item (span pre))) (span pre + sizeofStructMem) ≥ size
      · exact ⟨_, .found hin hfit, by simpa using hle⟩
      · have T' : Tiled h ((pre ++ [⟨n, u⟩]) ++ ss) := by simpa using T
        obtain ⟨offs, hi, hoffs⟩ := ih _ T'
        rw [span_append, span_cons, span_nil, Nat.add_zero] at hi
        refine ⟨_, .next hin hfit (T.next_item ▸ hi), ?_⟩
        rintro o (_ | ⟨_, ho⟩)
        · exact hle
        · exact hoffs o ho
    · exact ⟨[], .bound hin, by simp⟩

/-- The search of `rt_smem_alloc` for a request, where there is one, ends and stays in the heap. -/
def SearchEnds (h : SmallMem) (size : Nat) : Prop :=
  ¬ Refused h size → ∃ offs, Inspects h (roundSize size) (h.lfree - h.heapPtr) offs ∧
    ∀ o ∈ offs, h.item o ≤ h.heapEnd

theorem Layout.searchEnds_iff (L : Layout h l) : SearchEnds h size ↔ ¬ Endless h size := by
  constructor
  · rintro hends ⟨hr, hsmall⟩
    obtain ⟨offs, hi, -⟩ := hends hr
    rw [Refused, not_or] at hr
    have hsize : roundSize size = 12 := if_pos (show rtAlign size < 12 by omega)
    have hstart : h.lfree - h.heapPtr = 0 ∨ h.item (h.lfree - h.heapPtr) = h.heapEnd := by
      obtain ⟨pre, post, hl, hlfree⟩ := L.start
      obtain ⟨u, hone⟩ := L.small hsmall
      have hend := L.end_item
      rw [hlfree]
      rcases pre with - | ⟨s, pre⟩
      · exact .inl rfl
      · rw [hone, List.cons_append, List.cons.injEq] at hl
        obtain ⟨rfl, hnil⟩ := hl
        obtain ⟨rfl, rfl⟩ := List.append_eq_nil_iff.mp hnil.symm
        exact .inr (by rw [hend, hone])
    obtain ⟨r, hr⟩ := hi.search
    rw [hsize, search_diverges L.toTiled hsmall _ _ hstart] at hr
    cases hr
  · intro hend hr
    have hbig : 12 ≤ h.memSizeAligned := Nat.le_of_not_lt fun hlt => hend ⟨hr, hlt⟩
    obtain ⟨pre, post, rfl, hlfree⟩ := L.start
    rw [Refused, not_or] at hr
    rw [hlfree]
    refine Tiled.inspects ?_ ?_ post pre L.toTiled
    · rw [roundSize, show minSize = 12 from rfl]
      split <;> omega
    · rw [roundSize, show minSize = 12 from rfl]
      split <;> omega

/-- **The search** of every request, in every heap a run reaches, ends and stays in the heap,
unless the heap has less room than a minimal block and the request is not refused before. -/
theorem rtSmemAlloc_search_ends {m : ByteMem} {beginAddr heapSize : Nat} {st : State}
    (hinit : rtSmemInit m beginAddr heapSize = some h)
    (hrun : Runs Step Runs.always ⟨h, []⟩ st) (size : Nat) :
    SearchEnds st.heap size ↔ ¬(¬ Refused st.heap size ∧ st.heap.memSizeAligned < minSize) := by
  have hI : Inv ⟨h, []⟩ := by
    obtain ⟨n, L⟩ := rtSmemInit_spec hinit
    exact ⟨_, L, by simp [payloads]⟩
  obtain ⟨l, L, _⟩ := hrun.invariant (fun s a s' hs _ h => inv_step s a s' hs h) hI
  exact L.searchEnds_iff

/-- A heap of four bytes, as `rt_smem_init` makes it of 100. -/
theorem rtSmemAlloc_search_ends_tiny : ∃ h, rtSmemInit (fun _ => 0) 4096 100 = some h ∧
    h.memSizeAligned = 4 ∧ ¬ SearchEnds h 1 := by
  have hinit : rtSmemInit (fun _ => 0) 4096 100 = some ((rtSmemInit (fun _ => 0) 4096 100).get rfl) :=
    rfl
  refine ⟨_, hinit, rfl, fun hends => ?_⟩
  exact (rtSmemAlloc_search_ends hinit Runs.refl 1).mp hends ⟨by decide, by decide⟩

/-- **An endless search**: the same heap, from the layout it starts with. -/
theorem search_breaks : ¬ ∀ (m : ByteMem) (beginAddr heapSize size : Nat) (h : SmallMem),
    rtSmemInit m beginAddr heapSize = some h → SearchEnds h size := by
  intro hall
  have hinit : rtSmemInit (fun _ => 0) 4096 100 = some ((rtSmemInit (fun _ => 0) 4096 100).get rfl) :=
    rfl
  obtain ⟨n, L⟩ := rtSmemInit_spec hinit
  exact L.searchEnds_iff.mp (hall _ _ _ 1 _ hinit) ⟨by decide, by decide⟩

-- --------
-- The lowest item with room
-- --------

theorem Walk.ascending (w : Walk h off offs) :
    (∀ o ∈ offs, off ≤ o) ∧ offs.Pairwise (· ≤ ·) := by
  induction w with
  | stop _ _ => exact ⟨by simp, .nil⟩
  | @item off offs _ _ hlt _ ih =>
    refine ⟨?_, List.pairwise_cons.mpr ⟨fun o ho => ?_, ih.2⟩⟩
    · rintro o (_ | ⟨_, ho⟩)
      · exact Nat.le_refl _
      · exact hlt.le.trans (ih.1 o ho)
    · exact hlt.le.trans (ih.1 o ho)

/-- **Completeness of the search.** In a heap with room for a minimal block, a request of up to
the heap's size is served exactly where a free item has the rounded size, and from the lowest
such item. -/
theorem rtSmemAlloc_lowest (L : Layout h l) (self : Option (List UInt8)) {size : Nat}
    (hbig : minSize ≤ h.memSizeAligned) (hpos : 1 ≤ size) (hle : size ≤ h.memSizeAligned) :
    ∃ offs r h', WellFormed h offs ∧ h.rtSmemAlloc self size = .ok (r, h') ∧
      (r ≠ none ↔ ∃ o ∈ offs, FitsAt h (roundSize size) o) ∧
      ∀ p ∈ r, ∃ o ∈ offs, p = h.item o + sizeofStructMem ∧ FitsAt h (roundSize size) o ∧
        ∀ o' ∈ offs, FitsAt h (roundSize size) o' → o ≤ o' := by
  have htop := L.top
  have hround := rtAlign_of_le (show size ≤ 2 ^ 32 - 4 by omega)
  have hmod := L.sized.span_mod
  rw [L.span_eq] at hmod
  have hr : ¬ Refused h size := by
    rintro (h0 | hlt)
    · omega
    · omega
  rcases rtSmemAlloc_firstFit L self hr hbig with ⟨⟨offs, W, hnone⟩, halloc⟩ |
    ⟨h', pre, k, post, -, ⟨offs, W, hsome⟩, halloc, -⟩
  · refine ⟨offs, none, h, W, halloc, ⟨fun hne => (hne rfl).elim, ?_⟩, nofun⟩
    rintro ⟨o, ho, hfit⟩
    exact absurd hfit (of_decide_eq_false (by simpa using List.find?_eq_none.mp hnone o ho))
  · obtain ⟨hfit, as, bs, hoffs, has⟩ := List.find?_eq_some_iff_append.mp hsome
    rw [decide_eq_true_eq] at hfit
    have hmem : span pre ∈ offs := by simp [hoffs]
    refine ⟨offs, _, h', W, halloc, ⟨fun _ => ⟨_, hmem, hfit⟩, fun _ => Option.some_ne_none _⟩, ?_⟩
    rintro p ⟨⟩
    refine ⟨_, hmem, rfl, hfit, fun o' ho' hfit' => ?_⟩
    have hsorted := W.walk.ascending.2
    rw [hoffs, List.mem_append] at ho'
    rw [hoffs, List.pairwise_append] at hsorted
    rcases ho' with ho' | ho'
    · exact absurd hfit' (of_decide_eq_false (by simpa using has o' ho'))
    · rcases List.mem_cons.mp ho' with rfl | ho'
      · exact Nat.le_refl _
      · exact (List.pairwise_cons.mp hsorted.2.1).1 o' ho'

/-- A heap of one kilobyte, with free items of 40 and of 100 bytes between blocks: a request of
80 bytes passes the first one. -/
theorem rtSmemAlloc_lowest_second : ∃ h l offs h', Layout h l ∧ WellFormed h offs ∧
    h.rtSmemAlloc none 80 = .ok (some 4272, h') ∧
      ∃ o ∈ offs, 4272 = h.item o + sizeofStructMem ∧ FitsAt h (roundSize 80) o ∧
        ∀ o' ∈ offs, FitsAt h (roundSize 80) o' → o ≤ o' := by
  have hinit : rtSmemInit (fun _ => 0) 4096 1024 =
      some ((rtSmemInit (fun _ => 0) 4096 1024).get rfl) := rfl
  obtain ⟨h, hh⟩ : ∃ h, h = (rtSmemInit (fun _ => 0) 4096 1024).get rfl := ⟨_, rfl⟩
  have hcalls : (h.rtSmemAlloc none 40).toOption.any fun r₁ =>
      r₁.1 = some 4176 ∧ (r₁.2.rtSmemAlloc none 24).toOption.any fun r₂ =>
      (r₂.2.rtSmemAlloc none 100).toOption.any fun r₃ =>
      r₃.1 = some 4272 ∧ (r₃.2.rtSmemAlloc none 24).toOption.any fun r₄ =>
      (r₄.2.rtSmemFree (some 4176)).toOption.any fun h₅ =>
      (h₅.rtSmemFree (some 4272)).toOption.any fun h₆ =>
      h₆.memSizeAligned = 928 ∧
      (h₆.rtSmemAlloc none 80).toOption.any fun r => r.1 = some 4272 := by
    rw [hh]
    decide +kernel
  obtain ⟨⟨_, h₁⟩, hc₁, hcalls⟩ := exists_ok hcalls
  obtain ⟨rfl, hcalls⟩ := of_decide_eq_true hcalls
  obtain ⟨⟨r₂, h₂⟩, hc₂, hcalls⟩ := exists_ok hcalls
  obtain ⟨⟨_, h₃⟩, hc₃, hcalls⟩ := exists_ok hcalls
  obtain ⟨rfl, hcalls⟩ := of_decide_eq_true hcalls
  obtain ⟨⟨r₄, h₄⟩, hc₄, hcalls⟩ := exists_ok hcalls
  obtain ⟨h₅, hc₅, hcalls⟩ := exists_ok hcalls
  obtain ⟨h₆, hc₆, hcalls⟩ := exists_ok hcalls
  obtain ⟨hsize, hcalls⟩ := of_decide_eq_true hcalls
  obtain ⟨⟨r, h'⟩, hc, hr⟩ := exists_ok hcalls
  have hI : Inv ⟨h, []⟩ := by
    obtain ⟨n, L⟩ := rtSmemInit_spec (hinit.trans (congrArg some hh.symm))
    exact ⟨_, L, by simp [payloads]⟩
  have hI := inv_alloc (inv_alloc (inv_alloc (inv_alloc hI hc₁) hc₂) hc₃) hc₄
  obtain ⟨l, L, -⟩ := inv_free (inv_free hI (by simp) hc₅) (by simp [State.without]) hc₆
  obtain ⟨offs, _, _, W, halloc, -, hlow⟩ :=
    rtSmemAlloc_lowest L none (by rw [hsize]; decide) (by decide)
      (show 80 ≤ _ by rw [hsize]; decide)
  rw [hc] at halloc
  obtain ⟨rfl, rfl⟩ := Prod.mk.inj (Except.ok.inj halloc)
  obtain rfl : r = some 4272 := of_decide_eq_true hr
  exact ⟨h₆, l, offs, h', L, W, hc, hlow 4272 rfl⟩

end RTThread.SmallMem
