import RTThread.Mem.SmallMemAlloc

/-!
# Header edits of the small-memory heap

The three edits every operation is made of: marking an item used or free
(`tiled_mark`), splitting an item (`splitItem_spec`) and merging an item with a
free neighbour (`plugForward_spec`, `plugBackward_spec`). Each lemma gives the
segments after the edit and the headers it touched.
-/

namespace RTThread.SmallMem

open ByteMem Tiling

variable {h : SmallMem} {l pre post : List Seg} {s : Seg}

theorem nameField_length (name : List UInt8) : (nameField name).length = 4 := by
  unfold nameField
  rw [List.length_take, List.length_append, List.length_replicate]
  omega

-- --------
-- Marking an item
-- --------

theorem mark_frame (h : SmallMem) (off : Nat) (used : Bool) (name : List UInt8) :
    HeaderFrame h.mem (h.mark (h.item off) used name).mem h.heapPtr [off] := by
  intro x hx
  have hx := hx off (by simp)
  have hlen := nameField_length name
  simp only [mark, rtSmemSetname, setPoolPtr, item]
  rw [storeBytes_out (by omega), store32_out (by omega)]

theorem Tiled.memUsed (T : Tiled h l) : h.memUsed = h.smallMem + 1 :=
  memUsed_eq T.pool_mod T.pool_lt

theorem Tiled.memFreed (T : Tiled h l) : h.memFreed = h.smallMem :=
  memFreed_eq T.pool_mod T.pool_lt

/-- Marking an item changes the use of its segment. -/
theorem tiled_mark {n : Nat} {b used : Bool} {name : List UInt8}
    (T : Tiled h (pre ++ ⟨n, b⟩ :: post)) :
    Tiled (h.mark (h.item (span pre)) used name) (pre ++ ⟨n, used⟩ :: post) := by
  obtain ⟨hext, hlen, hmod, _⟩ := T.extent
  have hword : (if used then h.memUsed else h.memFreed) = poolWord h.smallMem used := by
    rw [T.memUsed, T.memFreed, poolWord]
  have hwlt : poolWord h.smallMem used < 2 ^ 32 := by
    have := T.pool_lt
    have := T.pool_mod
    unfold poolWord
    split <;> omega
  have hname := nameField_length name
  have T' : Tiled h (pre ++ [⟨n, b⟩] ++ post) := by simpa using T
  have hres : Tiled (h.mark (h.item (span pre)) used name) (pre ++ [⟨n, used⟩] ++ post) := by
    refine T'.splice ⟨rfl, rfl, rfl, rfl⟩ ?_ (by simp) ?_ ?_ ?_
    · exact Sized.cons hlen hmod sized_nil
    · intro x hx _
      simp only [span_cons, span_nil, Nat.add_zero, item] at hx
      refine mark_frame h (span pre) used name x fun o ho => ?_
      rw [List.mem_singleton] at ho
      subst ho
      omega
    · refine ⟨⟨?_, ?_, ?_⟩, trivial⟩
      · simp only [mark, rtSmemSetname, setPoolPtr, item, hword]
        rw [load32_storeBytes_out (by omega), load32_store32_self hwlt]
      · simp only [mark, rtSmemSetname, setPoolPtr, item]
        rw [load32_storeBytes_out (by omega), load32_store32_out (by omega)]
        exact T.header.next_eq
      · simp only [mark, rtSmemSetname, setPoolPtr, item]
        rw [load32_storeBytes_out (by omega), load32_store32_out (by omega)]
        exact T.header.prev_eq
    · intro hpost
      obtain ⟨t, ts, rfl⟩ := List.exists_cons_of_ne_nil hpost
      have hhead : h.prev (h.item (span (pre ++ [⟨n, b⟩]))) = lastStart 0 0 (pre ++ [⟨n, b⟩]) :=
        T'.prev_item
      rw [span_append, lastStart_concat] at hhead
      rw [lastStart_concat, ← hhead]
      simp only [mark, rtSmemSetname, setPoolPtr, item, prev, span_cons, span_nil] at hlen ⊢
      rw [load32_storeBytes_out (by omega), load32_store32_out (by omega)]
  simpa using hres

-- --------
-- Splitting an item
-- --------

/-- The memory after `splitItem`: `link` says whether the successor's `prev` is written. -/
def splitMem (m : ByteMem) (heap ptr ptr2 nxt freed : Nat) (link : Bool) : ByteMem :=
  let m1 := (m.store32 (heap + ptr2) freed).store32 (heap + ptr2 + 4) nxt
  let m2 := (m1.store32 (heap + ptr2 + 8) ptr).storeBytes (heap + ptr2 + 12) (nameField blankName)
  let m3 := m2.store32 (heap + ptr + 4) ptr2
  if link then m3.store32 (heap + nxt + 8) ptr2 else m3

theorem splitItem_eq {n size : Nat} {b : Bool} (T : Tiled h (pre ++ ⟨n, b⟩ :: post)) :
    h.splitItem (span pre) size =
      { h with
        mem := splitMem h.mem h.heapPtr (span pre) (span pre + 16 + size) (span pre + n)
          h.memFreed (decide (post ≠ [])) } := by
  obtain ⟨hext, hlen, _, _⟩ := T.extent
  have htop := T.top
  have hname := nameField_length blankName
  have hnext : h.mem.load32 (h.heapPtr + span pre + 4) = span pre + n := T.header.next_eq
  have hpost : span pre + n ≠ h.memSizeAligned + 16 ↔ post ≠ [] := by
    constructor
    · rintro hne rfl
      rw [span_nil] at hext
      omega
    · intro hne heq
      obtain ⟨_, hrest⟩ := sized_append.mp T.sized
      exact hne ((sized_cons.mp hrest).2.span_eq_zero (by omega))
  -- `mem->next` is read after the pool word of the new item was written
  have hread : (h.mem.store32 (h.heapPtr + (span pre + 16 + size)) h.memFreed).load32
      (h.heapPtr + span pre + 4) = span pre + n := by
    rw [load32_store32_out (by omega), hnext]
  have hback : (splitMem h.mem h.heapPtr (span pre) (span pre + 16 + size) (span pre + n)
      h.memFreed false).load32 (h.heapPtr + (span pre + 16 + size) + 4) = span pre + n := by
    simp only [splitMem, Bool.false_eq_true, if_false]
    rw [load32_store32_out (by omega), load32_storeBytes_out (by omega),
      load32_store32_out (by omega), load32_store32_self (by omega)]
  simp only [splitMem, Bool.false_eq_true, if_false] at hback
  simp only [splitItem, setPoolPtr, setNext, setPrev, rtSmemSetname, next, item, hread, hback,
    splitMem, decide_eq_true_eq]
  by_cases hp : post = []
  · rw [if_neg (by simpa [hp] using hpost), if_neg (by simp [hp])]
  · rw [if_pos (hpost.mpr hp), if_pos hp]

section SplitMem

variable {m : ByteMem} {heap ptr ptr2 nxt freed : Nat} {link : Bool}

/-- The split touches the two items' headers and the `prev` field of the successor. -/
theorem splitMem_out {x : Nat} (h1 : x < heap + ptr + 4 ∨ heap + ptr + 8 ≤ x)
    (h2 : x < heap + ptr2 ∨ heap + ptr2 + 16 ≤ x)
    (h3 : x < heap + nxt + 8 ∨ heap + nxt + 12 ≤ x) :
    splitMem m heap ptr ptr2 nxt freed link x = m x := by
  have hname := nameField_length blankName
  unfold splitMem
  cases link
  · simp only [Bool.false_eq_true, if_false]
    rw [store32_out (by omega), storeBytes_out (by omega), store32_out (by omega),
      store32_out (by omega), store32_out (by omega)]
  · simp only [if_true]
    rw [store32_out (by omega), store32_out (by omega), storeBytes_out (by omega),
      store32_out (by omega), store32_out (by omega), store32_out (by omega)]

/-- The headers after the split, with all three items apart. -/
theorem splitMem_headers (m : ByteMem) (heap : Nat) (link : Bool) (hp : ptr + 16 ≤ ptr2)
    (hn : ptr2 + 16 ≤ nxt) (hlt : nxt < 2 ^ 32) (hf : freed < 2 ^ 32) :
    let m' := splitMem m heap ptr ptr2 nxt freed link
    m'.load32 (heap + ptr) = m.load32 (heap + ptr) ∧
      m'.load32 (heap + ptr + 4) = ptr2 ∧
      m'.load32 (heap + ptr + 8) = m.load32 (heap + ptr + 8) ∧
      m'.load32 (heap + ptr2) = freed ∧
      m'.load32 (heap + ptr2 + 4) = nxt ∧
      m'.load32 (heap + ptr2 + 8) = ptr ∧
      (link = true → m'.load32 (heap + nxt + 8) = ptr2) := by
  have hname := nameField_length blankName
  unfold splitMem
  cases link <;>
    simp (disch := omega) only [Bool.false_eq_true, if_false, if_true, load32_store32_self,
      load32_store32_out, load32_storeBytes_out, true_and, forall_const, false_imp_iff]

end SplitMem

/-- **Splitting an item.** It keeps `size` bytes of payload; what is left becomes a free item. -/
theorem splitItem_spec {n : Nat} {b : Bool} (size : Nat) (T : Tiled h (pre ++ ⟨n, b⟩ :: post))
    (hroom : size + 32 ≤ n) (hsize : size % 4 = 0) :
    ∃ m', h.splitItem (span pre) size = { h with mem := m' } ∧
      Tiled { h with mem := m' } (pre ++ ⟨size + 16, b⟩ :: ⟨n - (size + 16), false⟩ :: post) ∧
      HeaderFrame h.mem m' h.heapPtr [span pre, span pre + (size + 16), span pre + n] := by
  have hsplit : h.splitItem (span pre) size = _ := splitItem_eq T
  generalize hM : splitMem h.mem h.heapPtr (span pre) (span pre + 16 + size) (span pre + n)
    h.memFreed (decide (post ≠ [])) = m' at hsplit
  refine ⟨m', hsplit, ?_, ?_⟩
  · obtain ⟨hext, hlen, hmod, _⟩ := T.extent
    have htop := T.top
    have hflt : h.memFreed < 2 ^ 32 := by
      rw [T.memFreed]
      exact T.pool_lt
    obtain ⟨e0, e1, e2, e3, e4, e5, e6⟩ := splitMem_headers h.mem h.heapPtr (decide (post ≠ []))
      (show span pre + 16 ≤ span pre + 16 + size by omega)
      (show span pre + 16 + size + 16 ≤ span pre + n by omega) (by omega) hflt
    rw [hM] at e0 e1 e2 e3 e4 e5 e6
    have hoff : span pre + (size + 16) = span pre + 16 + size := by omega
    have T' : Tiled h (pre ++ [⟨n, b⟩] ++ post) := by simpa using T
    have hres : Tiled { h with mem := m' }
        (pre ++ [⟨size + 16, b⟩, ⟨n - (size + 16), false⟩] ++ post) := by
      refine T'.splice ⟨rfl, rfl, rfl, rfl⟩ ?_ ?_ ?_ ?_ ?_
      · exact Sized.cons (by omega) (by omega) (Sized.cons (by omega) (by omega) sized_nil)
      · simp only [span_cons, span_nil]
        omega
      · intro x hx hx'
        simp only [span_cons, span_nil, item] at hx hx'
        rw [← hM]
        exact splitMem_out (by omega) (by omega) (by omega)
      · rw [laid_cons, laid_cons]
        dsimp only
        rw [hoff]
        refine ⟨⟨?_, ?_, ?_⟩, ⟨?_, ?_, e5⟩, trivial⟩
        · rw [e0]
          exact T.header.pool_eq
        · rw [e1, hoff]
        · rw [e2]
          exact T.header.prev_eq
        · rw [e3, T.memFreed]
          rfl
        · rw [e4]
          dsimp only
          omega
      · intro hpost
        simp only [prev, item, span_cons, span_nil, lastStart_append, lastStart_cons,
          lastStart_nil]
        rw [Nat.zero_add, hoff]
        exact e6 (by simpa using hpost)
    simpa using hres
  · intro x hx
    have h1 := hx (span pre) (by simp)
    have h2 := hx (span pre + (size + 16)) (by simp)
    have h3 := hx (span pre + n) (by simp)
    rw [← hM]
    exact splitMem_out (by omega) (by omega) (by omega)

-- --------
-- Merging neighbours
-- --------

/-- The memory after `combine`. -/
def combineMem (m : ByteMem) (heap off noff nxt : Nat) : ByteMem :=
  ((m.store32 (heap + noff) 0).store32 (heap + off + 4) nxt).store32 (heap + nxt + 8) off

theorem combine_eq {a b : Nat} {u : Bool}
    (T : Tiled h (pre ++ ⟨a, u⟩ :: ⟨b, false⟩ :: post)) :
    h.combine (h.item (span pre)) (h.item (span pre + a)) =
      { h with
        lfree := if h.lfree = h.item (span pre + a) then h.item (span pre) else h.lfree
        mem := combineMem h.mem h.heapPtr (span pre) (span pre + a) (span pre + a + b) } := by
  obtain ⟨hext, hlen, _, _⟩ := T.extent
  have T2 : Tiled h ((pre ++ [⟨a, u⟩]) ++ ⟨b, false⟩ :: post) := by simpa using T
  have hspan2 : span (pre ++ [⟨a, u⟩]) = span pre + a := by simp
  obtain ⟨hext2, hlen2, _, _⟩ := T2.extent
  have htop := T.top
  have hnext : h.mem.load32 (h.heapPtr + (span pre + a) + 4) = span pre + a + b := by
    rw [← hspan2]
    exact T2.header.next_eq
  have hread : (h.mem.store32 (h.heapPtr + (span pre + a)) 0).load32
      (h.heapPtr + (span pre + a) + 4) = span pre + a + b := by
    rw [load32_store32_out (by omega), hnext]
  have hback : ((h.mem.store32 (h.heapPtr + (span pre + a)) 0).store32
      (h.heapPtr + span pre + 4) (span pre + a + b)).load32 (h.heapPtr + (span pre + a) + 4) =
      span pre + a + b := by
    rw [load32_store32_out (by omega), hread]
  unfold combine item
  by_cases hl : h.lfree = h.heapPtr + (span pre + a)
  · simp only [if_pos hl, setPoolPtr, setNext, setPrev, next, hread, hback, combineMem,
      Nat.add_sub_cancel_left]
  · simp only [if_neg hl, setPoolPtr, setNext, setPrev, next, hread, hback, combineMem,
      Nat.add_sub_cancel_left]

/-- **Merging two neighbours**, of which the second is free. The first free start is not the
second item, so `lfree` stays; only three headers are touched. -/
theorem combine_spec {a b : Nat} (P : Placed h (pre ++ ⟨a, false⟩ :: ⟨b, false⟩ :: post)) :
    ∃ m', h.combine (h.item (span pre)) (h.item (span pre + a)) = { h with mem := m' } ∧
      Placed { h with mem := m' } (pre ++ ⟨a + b, false⟩ :: post) ∧
      HeaderFrame h.mem m' h.heapPtr [span pre, span pre + a, span pre + a + b] := by
  have T := P.toTiled
  obtain ⟨hext, hlen, hmod, _⟩ := T.extent
  have T2 : Tiled h ((pre ++ [⟨a, false⟩]) ++ ⟨b, false⟩ :: post) := by simpa using T
  obtain ⟨hext2, hlen2, hmod2, _⟩ := T2.extent
  rw [show span (pre ++ [⟨a, false⟩]) = span pre + a by simp] at hext2
  have htop := T.top
  have hspos := (sized_append.mp T.sized).1.pos
  -- the first free item is at `span pre` at the latest
  have hfirst : firstFree 0 (pre ++ ⟨a, false⟩ :: ⟨b, false⟩ :: post) ≤ span pre := by
    rcases exists_free_or_all_used pre with hf | hu
    · have := firstFree_le 0 pre
      rw [firstFree_append_free hf]
      omega
    · rw [firstFree_append_used hu]
      simp [firstFree]
  have hlf : h.lfree ≠ h.item (span pre + a) := by
    rw [P.lfree_eq]
    unfold item
    omega
  have hcomb := combine_eq T
  rw [if_neg hlf] at hcomb
  have hframe : ∀ x, (x < h.heapPtr + span pre + 4 ∨ h.heapPtr + span pre + 8 ≤ x) →
      (x < h.heapPtr + (span pre + a) ∨ h.heapPtr + (span pre + a) + 4 ≤ x) →
      (x < h.heapPtr + (span pre + a + b) + 8 ∨ h.heapPtr + (span pre + a + b) + 12 ≤ x) →
      combineMem h.mem h.heapPtr (span pre) (span pre + a) (span pre + a + b) x = h.mem x := by
    intro x h1 h2 h3
    unfold combineMem
    rw [store32_out (by omega), store32_out (by omega), store32_out (by omega)]
  refine ⟨_, hcomb, ?_, ?_⟩
  · have T' : Tiled h (pre ++ [⟨a, false⟩, ⟨b, false⟩] ++ post) := by simpa using T
    have hres : Tiled { h with
        mem := combineMem h.mem h.heapPtr (span pre) (span pre + a) (span pre + a + b) }
        (pre ++ [⟨a + b, false⟩] ++ post) := by
      refine T'.splice ⟨rfl, rfl, rfl, rfl⟩ (Sized.cons (by omega) (by omega) sized_nil)
        (by simp) ?_ ?_ ?_
      · intro x hx hx'
        simp only [span_cons, span_nil, item] at hx hx'
        exact hframe x (by omega) (by omega) (by omega)
      · refine ⟨⟨?_, ?_, ?_⟩, trivial⟩
        · rw [← T.header.pool_eq]
          exact load32_congr fun i hi => hframe _ (by omega) (by omega) (by omega)
        · simp only [combineMem]
          rw [load32_store32_out (by omega), load32_store32_self (by omega)]
          omega
        · rw [← T.header.prev_eq]
          exact load32_congr fun i hi => hframe _ (by omega) (by omega) (by omega)
      · intro _
        simp only [prev, item, span_cons, span_nil, Nat.add_zero, lastStart_concat, combineMem]
        rw [← Nat.add_assoc (span pre) a b, load32_store32_self (by omega), Nat.zero_add]
    exact
      { toTiled := by simpa using hres
        lfree_eq := by
          rw [P.lfree_eq, firstFree_at_free 0 a (a + b) pre _ post]
          rfl
        used_eq := by
          rw [P.used_eq]
          simp
        used_le := P.used_le }
  · intro x hx
    have h1 := hx (span pre) (by simp)
    have h2 := hx (span pre + a) (by simp)
    have h3 := hx (span pre + a + b) (by simp)
    exact hframe x (by omega) (by omega) (by omega)

/-- Plugging the hole behind a free item. -/
theorem plugForward_spec {n : Nat} (P : Placed h (pre ++ ⟨n, false⟩ :: post)) :
    ∃ m', h.plugForward (h.item (span pre)) = { h with mem := m' } ∧
      Placed { h with mem := m' } (pre ++ joinRight n post) ∧
      HeaderFrame h.mem m' h.heapPtr (boundaries (pre ++ ⟨n, false⟩ :: post)) := by
  have T := P.toTiled
  obtain ⟨hext, hlen, _, _⟩ := T.extent
  have hne : h.item (span pre) ≠ h.item (span pre + n) := by
    unfold item
    omega
  have hskip : h.item (span pre + n) = h.heapEnd ∨ h.memIsUsed (h.item (span pre + n)) = true →
      h.plugForward (h.item (span pre)) = { h with mem := h.mem } := by
    intro hc
    rw [plugForward, T.next_item]
    refine if_neg fun hcond => ?_
    rcases hc with hc | hc
    · exact hcond.2.2 hc
    · rw [hcond.2.1] at hc
      cases hc
  have T2 : Tiled h ((pre ++ [⟨n, false⟩]) ++ post) := by simpa using T
  have hspan2 : span (pre ++ [⟨n, false⟩]) = span pre + n := by simp
  match post, P, T2, hext with
  | [], P, T2, hext =>
    refine ⟨h.mem, hskip (Or.inl ?_), P, HeaderFrame.refl _ _ _⟩
    rw [T2.end_item, List.append_nil, hspan2]
  | ⟨b, true⟩ :: ts, P, T2, hext =>
    refine ⟨h.mem, hskip (Or.inr ?_), P, HeaderFrame.refl _ _ _⟩
    rw [← hspan2]
    exact T2.memIsUsed_item
  | ⟨b, false⟩ :: ts, P, T2, hext =>
    obtain ⟨m', hm, hP, hf⟩ := combine_spec P
    have hfree : h.memIsUsed (h.item (span pre + n)) = false := by
      rw [← hspan2]
      exact T2.memIsUsed_item
    obtain ⟨_, hlen2, _, _⟩ := T2.extent
    have hend : h.item (span pre + n) ≠ h.heapEnd := by
      rw [P.end_eq]
      unfold item
      rw [span_cons] at hext
      dsimp only at hext
      omega
    refine ⟨m', ?_, hP, fun x hx => hf x fun o ho => hx o ?_⟩
    · rw [plugForward, T.next_item, if_pos ⟨hne, hfree, hend⟩]
      exact hm
    · have b1 := boundary_mem pre (⟨n, false⟩ :: ⟨b, false⟩ :: ts)
      have b2 := boundary_mem (pre ++ [⟨n, false⟩]) (⟨b, false⟩ :: ts)
      have b3 := boundary_mem (pre ++ [⟨n, false⟩, ⟨b, false⟩]) ts
      simp only [List.append_assoc, List.cons_append, List.nil_append, span_append, span_cons,
        span_nil, Nat.add_zero] at b1 b2 b3
      simp only [List.mem_cons, List.not_mem_nil, or_false] at ho
      rcases ho with rfl | rfl | rfl
      · exact b1
      · exact b2
      · rw [Nat.add_assoc]
        exact b3

/-- Plugging the hole in front of a free item. -/
theorem plugBackward_spec {n : Nat} (P : Placed h (pre ++ ⟨n, false⟩ :: post)) :
    ∃ m', h.plugBackward (h.item (span pre)) = { h with mem := m' } ∧
      Placed { h with mem := m' } (joinLeft pre (⟨n, false⟩ :: post)) ∧
      HeaderFrame h.mem m' h.heapPtr (boundaries (pre ++ ⟨n, false⟩ :: post)) := by
  have T := P.toTiled
  rcases List.eq_nil_or_concat pre with rfl | ⟨pre', ⟨k, used⟩, rfl⟩
  · refine ⟨h.mem, ?_, P, HeaderFrame.refl _ _ _⟩
    rw [plugBackward, T.prev_item, lastStart_nil, if_neg (fun hc => hc.1 rfl)]
  · rw [List.concat_eq_append] at P T ⊢
    have hspan : span (pre' ++ [⟨k, used⟩]) = span pre' + k := by simp
    have hlast : lastStart 0 0 (pre' ++ [⟨k, used⟩]) = span pre' := by simp
    have T' : Tiled h (pre' ++ ⟨k, used⟩ :: ⟨n, false⟩ :: post) := by simpa using T
    obtain ⟨_, hlen, _, _⟩ := T'.extent
    cases used with
    | true =>
      refine ⟨h.mem, ?_, ?_, HeaderFrame.refl _ _ _⟩
      · rw [plugBackward, T.prev_item, hlast, T'.memIsUsed_item, if_neg (by simp)]
      · rw [joinLeft_used (by simp)]
        exact P
    | false =>
      have P' : Placed h (pre' ++ ⟨k, false⟩ :: ⟨n, false⟩ :: post) := by simpa using P
      obtain ⟨m', hm, hP, hf⟩ := combine_spec P'
      have hne : h.item (span pre') ≠ h.item (span pre' + k) := by
        unfold item
        omega
      refine ⟨m', ?_, by rwa [joinLeft_free], fun x hx => hf x fun o ho => hx o ?_⟩
      · rw [plugBackward, T.prev_item, hlast, T'.memIsUsed_item, hspan, if_pos ⟨hne, rfl⟩]
        exact hm
      · have b1 := boundary_mem pre' (⟨k, false⟩ :: ⟨n, false⟩ :: post)
        have b2 := boundary_mem (pre' ++ [⟨k, false⟩]) (⟨n, false⟩ :: post)
        have b3 := boundary_mem (pre' ++ [⟨k, false⟩, ⟨n, false⟩]) post
        simp only [List.append_assoc, List.cons_append, List.nil_append, span_append, span_cons,
          span_nil, Nat.add_zero] at b1 b2 b3 ⊢
        simp only [List.mem_cons, List.not_mem_nil, or_false] at ho
        rcases ho with rfl | rfl | rfl
        · exact b1
        · exact b2
        · rw [Nat.add_assoc]
          exact b3

theorem boundaries_joinRight (pre post : List Seg) (n : Nat) :
    boundaries (pre ++ joinRight n post) ⊆ boundaries (pre ++ ⟨n, false⟩ :: post) := by
  match post with
  | [] => exact List.Subset.refl _
  | ⟨b, true⟩ :: ts => exact List.Subset.refl _
  | ⟨b, false⟩ :: ts => exact boundaries_join pre ts n b false false false

/-- **`plug_holes`** joins a free item with its free neighbours. -/
theorem plugHoles_spec {n : Nat} (P : Placed h (pre ++ ⟨n, false⟩ :: post)) :
    ∃ m', h.plugHoles (h.item (span pre)) = .ok { h with mem := m' } ∧
      Placed { h with mem := m' } (release pre n post) ∧
      HeaderFrame h.mem m' h.heapPtr (boundaries (pre ++ ⟨n, false⟩ :: post)) := by
  obtain ⟨m₁, hm₁, P₁, hf₁⟩ := plugForward_spec P
  obtain ⟨j, ts, hj⟩ : ∃ j ts, joinRight n post = ⟨j, false⟩ :: ts := by
    unfold joinRight
    split <;> exact ⟨_, _, rfl⟩
  rw [hj] at P₁
  obtain ⟨m₂, hm₂, P₂, hf₂⟩ := plugBackward_spec P₁
  refine ⟨m₂, ?_, by rwa [release, hj], hf₁.trans hf₂ (List.Subset.refl _) ?_⟩
  · obtain ⟨hext, hlen, _, _⟩ := P.toTiled.extent
    have hend := P.end_eq
    rw [plugHoles, rtAssert_bind (by unfold item; omega),
      rtAssert_bind (by rw [hend]; unfold item; omega), hm₁]
    exact congrArg Except.ok hm₂
  · have := boundaries_joinRight pre post n
    rwa [hj] at this

end RTThread.SmallMem
