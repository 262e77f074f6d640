import RTThread.Drivers.RingBlkBuf
import RTThread.Lib.Runs

/-!
# The two lists of a ring block buffer

`Linked` is what holds in every run: no descriptor is in a list twice or in
both, the lists agree with the statuses, and `tail` is the last node. What it
does not say is that every descriptor is in a list: `rt_rbb_blk_alloc` takes a
descriptor off the free list before it looks for space, and forgets it when
there is none. `rtRbb_conserved` shows that this is the only way to lose one.

Besides allocation a call only changes statuses (`Marked`) or gives back blocks
one by one (`freed`); `step_rule` says so once for all invariants.
-/

namespace RTThread.Rbb

variable {rbb rbb' : Rbb} {b : Nat}

/-- The invariant of the lists. -/
structure Linked (rbb : Rbb) : Prop where
  nodup : (rbb.freeList ++ rbb.blkList).Nodup
  tail_eq : rbb.tail = rbb.blkList.getLast?
  free_status : ∀ b ∈ rbb.freeList, (rbb.blkSet b).status = .unused
  list_status : ∀ b ∈ rbb.blkList, (rbb.blkSet b).status ≠ .unused
  in_list : ∀ b < rbb.blkMaxNum, (rbb.blkSet b).status ≠ .unused → b ∈ rbb.blkList
  in_set : ∀ b ∈ rbb.freeList ++ rbb.blkList, b < rbb.blkMaxNum

-- --------
-- Statuses
-- --------

/-- A change of statuses that unuses no block and uses none. -/
structure Marked (rbb rbb' : Rbb) : Prop where
  buf_eq : rbb'.buf = rbb.buf
  bufSize_eq : rbb'.bufSize = rbb.bufSize
  num_eq : rbb'.blkMaxNum = rbb.blkMaxNum
  blkList_eq : rbb'.blkList = rbb.blkList
  tail_eq : rbb'.tail = rbb.tail
  freeList_eq : rbb'.freeList = rbb.freeList
  place_eq : ∀ b, (rbb'.blkSet b).buf = (rbb.blkSet b).buf ∧
    (rbb'.blkSet b).size = (rbb.blkSet b).size
  unused_iff : ∀ b, (rbb'.blkSet b).status = .unused ↔ (rbb.blkSet b).status = .unused

theorem Marked.refl (rbb : Rbb) : Marked rbb rbb :=
  ⟨rfl, rfl, rfl, rfl, rfl, rfl, fun _ => ⟨rfl, rfl⟩, fun _ => Iff.rfl⟩

theorem Marked.trans {rbb'' : Rbb} (h : Marked rbb rbb') (h' : Marked rbb' rbb'') :
    Marked rbb rbb'' :=
  ⟨h'.buf_eq.trans h.buf_eq, h'.bufSize_eq.trans h.bufSize_eq, h'.num_eq.trans h.num_eq,
    h'.blkList_eq.trans h.blkList_eq, h'.tail_eq.trans h.tail_eq,
    h'.freeList_eq.trans h.freeList_eq,
    fun b => ⟨(h'.place_eq b).1.trans (h.place_eq b).1, (h'.place_eq b).2.trans (h.place_eq b).2⟩,
    fun b => (h'.unused_iff b).trans (h.unused_iff b)⟩

theorem setStatus_marked {s : RbbStatus} (hb : (rbb.blkSet b).status ≠ .unused)
    (hs : s ≠ .unused) : Marked rbb (rbb.setStatus b s) := by
  refine ⟨rfl, rfl, rfl, rfl, rfl, rfl, fun c => ?_, fun c => ?_⟩
  · by_cases hc : c = b
    · simp [setStatus, setBlk, hc]
    · simp [setStatus, setBlk, hc]
  · by_cases hc : c = b
    · simp [setStatus, setBlk, hc, hb, hs]
    · simp [setStatus, setBlk, hc]

theorem queueRest_marked (len : Nat) (nodes : List Nat) :
    ∀ (rbb : Rbb) (total last : Nat) (queue : RbbBlkQueue),
      Marked rbb (queueRest len rbb total last queue nodes).rbb := by
  induction nodes with
  | nil => intro rbb _ _ _; exact Marked.refl rbb
  | cons block nodes ih =>
    intro rbb total last queue
    rw [queueRest]
    by_cases hstop : rbb.queueStops len total last block
    · rw [if_pos hstop]
      exact Marked.refl rbb
    · rw [if_neg hstop]
      have hput : (rbb.blkSet block).status = .put := by
        by_contra hne
        exact hstop (Or.inl hne)
      exact (setStatus_marked (by rw [hput]; decide) (by decide)).trans (ih _ _ _ _)

theorem queueGet_marked (rbb : Rbb) (len : Nat) : Marked rbb (rbb.rtRbbBlkQueueGet len).rbb := by
  have hfirst : ∀ nodes, Marked rbb (queueFirst len rbb nodes).rbb := by
    intro nodes
    induction nodes with
    | nil => exact Marked.refl rbb
    | cons block nodes ih =>
      rw [queueFirst]
      by_cases hput : (rbb.blkSet block).status = .put
      · rw [if_pos hput]
        exact (setStatus_marked (by rw [hput]; decide) (by decide)).trans
          (queueRest_marked _ _ _ _ _ _)
      · rw [if_neg hput]
        exact ih
  unfold rtRbbBlkQueueGet
  split
  · exact Marked.refl rbb
  · exact hfirst _

theorem get_marked (rbb : Rbb) : Marked rbb rbb.rtRbbBlkGet.2 := by
  unfold rtRbbBlkGet
  split
  · rename_i block heq
    have hput : (rbb.blkSet block).status = .put := by simpa using List.find?_some heq
    exact setStatus_marked (by rw [hput]; decide) (by decide)
  · exact Marked.refl rbb

theorem put_marked (h : rbb.rtRbbBlkPut b = .ok rbb') : Marked rbb rbb' := by
  unfold rtRbbBlkPut at h
  by_cases hs : (rbb.blkSet b).status = .inited
  · rw [rtAssert_bind hs] at h
    cases h
    exact setStatus_marked (by rw [hs]; decide) (by decide)
  · rw [rtAssert, if_neg hs] at h
    cases h

theorem Linked.marked (L : Linked rbb) (M : Marked rbb rbb') : Linked rbb' where
  nodup := by rw [M.freeList_eq, M.blkList_eq]; exact L.nodup
  tail_eq := by rw [M.tail_eq, M.blkList_eq]; exact L.tail_eq
  free_status b hb := by
    rw [M.freeList_eq] at hb
    exact (M.unused_iff b).mpr (L.free_status b hb)
  list_status b hb := by
    rw [M.blkList_eq] at hb
    exact mt (M.unused_iff b).mp (L.list_status b hb)
  in_list b hb hs := by
    rw [M.num_eq] at hb
    rw [M.blkList_eq]
    exact L.in_list b hb (mt (M.unused_iff b).mpr hs)
  in_set := by rw [M.freeList_eq, M.blkList_eq, M.num_eq]; exact L.in_set

-- --------
-- Giving blocks back
-- --------

/-- The buffer after `rt_rbb_blk_free` of a block. -/
def freed (rbb : Rbb) (b : Nat) : Rbb :=
  { (rbb.listRemove b).setStatus b .unused with freeList := b :: rbb.freeList }

theorem free_eq (h : rbb.rtRbbBlkFree b = .ok rbb') :
    (rbb.blkSet b).status ≠ .unused ∧ rbb' = rbb.freed b := by
  unfold rtRbbBlkFree at h
  by_cases hs : (rbb.blkSet b).status ≠ .unused
  · rw [rtAssert_bind hs] at h
    cases h
    refine ⟨hs, ?_⟩
    unfold freed listRemove
    split <;> rfl
  · rw [rtAssert, if_neg hs] at h
    cases h

/-- Removing a node: the rest of the list, with the tail moved back when it was the last. -/
theorem Linked.remove (L : Linked rbb) (hb : b ∈ rbb.blkList) :
    ∃ pre post, rbb.blkList = pre ++ b :: post ∧ b ∉ pre ++ post ∧
      rbb.listRemove b = { rbb with blkList := pre ++ post, tail := (pre ++ post).getLast? } := by
  have hnodup : rbb.blkList.Nodup := (List.nodup_append.mp L.nodup).2.1
  obtain ⟨pre, post, hl⟩ := List.append_of_mem hb
  rw [hl] at hnodup
  have hpre : b ∉ pre := fun h => by
    exact (List.nodup_append.mp hnodup).2.2 b h b (by simp) rfl
  have hpost : b ∉ post := (List.nodup_cons.mp (List.nodup_append.mp hnodup).2.1).1
  have htail := L.tail_eq
  refine ⟨pre, post, hl, by simp [hpre, hpost], ?_⟩
  rw [listRemove, if_pos hb]
  have herase : rbb.blkList.erase b = pre ++ post := by
    rw [hl, List.erase_append_right _ hpre, List.erase_cons_head]
  have hbefore : rbb.blkList.takeWhile (· ≠ b) = pre := by
    rw [hl, List.takeWhile_append_of_pos]
    · simp
    · intro c hc
      simp only [decide_eq_true_eq]
      rintro rfl
      exact hpre hc
  rw [herase, hbefore]
  congr 1
  rw [htail, hl]
  cases post with
  | nil => simp
  | cons c cs =>
    have hlast : (pre ++ b :: c :: cs).getLast? = (pre ++ c :: cs).getLast? := by
      simp [List.getLast?_append]
    rw [hlast, if_neg]
    intro heq
    have hmem := List.mem_of_getLast? heq
    rcases List.mem_append.mp hmem with h | h
    · exact hpre h
    · exact hpost h

theorem Linked.freed (L : Linked rbb) (hb : b ∈ rbb.blkList) : Linked (rbb.freed b) := by
  obtain ⟨pre, post, hl, hnot, hrem⟩ := L.remove hb
  have hnodup := L.nodup
  rw [hl] at hnodup
  have hset := L.in_set
  rw [hl] at hset
  have hfresh : b ∉ rbb.freeList := fun h =>
    L.list_status b hb (L.free_status b h)
  have hstatus : ∀ c, c ≠ b → ((rbb.freed b).blkSet c) = rbb.blkSet c := fun c hc => by
    simp [Rbb.freed, hrem, setStatus, setBlk, hc]
  have hself : ((rbb.freed b).blkSet b).status = .unused := by
    simp [Rbb.freed, setStatus, setBlk]
  have hlist : (rbb.freed b).blkList = pre ++ post := by
    simp [Rbb.freed, hrem, setStatus, setBlk]
  have hfree : (rbb.freed b).freeList = b :: rbb.freeList := rfl
  have hnum : (rbb.freed b).blkMaxNum = rbb.blkMaxNum := by
    simp [Rbb.freed, hrem, setStatus, setBlk]
  have hperm : (rbb.freeList ++ (pre ++ b :: post)).Perm (b :: rbb.freeList ++ (pre ++ post)) := by
    rw [← List.append_assoc, ← List.append_assoc]
    exact List.perm_middle
  exact
    { nodup := by
        rw [hlist, hfree]
        exact hperm.nodup_iff.mp hnodup
      tail_eq := by simp [Rbb.freed, hrem, setStatus, setBlk]
      free_status := fun c hc => by
        by_cases hcb : c = b
        · rw [hcb, hself]
        · rw [hstatus c hcb]
          exact L.free_status c ((List.mem_cons.mp hc).resolve_left hcb)
      list_status := fun c hc => by
        rw [hlist] at hc
        have hcb : c ≠ b := fun h => hnot (h ▸ hc)
        rw [hstatus c hcb]
        refine L.list_status c ?_
        rw [hl]
        rcases List.mem_append.mp hc with h | h
        · simp [h]
        · simp [h]
      in_list := fun c hc hs => by
        have hcb : c ≠ b := fun h => hs (h ▸ hself)
        rw [hstatus c hcb] at hs
        rw [hnum] at hc
        have hmem := L.in_list c hc hs
        rw [hl] at hmem
        rw [hlist]
        rcases List.mem_append.mp hmem with h | h
        · simp [h]
        · rcases List.mem_cons.mp h with h | h
          · exact absurd h hcb
          · simp [h]
      in_set := fun c hc => by
        rw [hlist, hfree] at hc
        rw [hnum]
        exact hset c (hperm.mem_iff.mpr hc) }

/-- **The rule for calls other than allocation**: they mark blocks and give blocks back. -/
theorem step_rule {P : Rbb → Prop} (hlinked : ∀ r, P r → Linked r)
    (hmark : ∀ r r', P r → Marked r r' → P r')
    (hfree : ∀ r b, P r → b ∈ r.blkList → P (r.freed b)) {a : Action} (ha : ∀ n, a ≠ .alloc n)
    (hP : P rbb) (hs : Step rbb a rbb') : P rbb' := by
  have hone : ∀ r b r', P r → b < r.blkMaxNum → r.rtRbbBlkFree b = .ok r' → P r' := by
    intro r b r' hr hb h
    obtain ⟨hstatus, rfl⟩ := free_eq h
    exact hfree r b hr ((hlinked r hr).in_list b hb hstatus)
  obtain ⟨hset, hexec⟩ := hs
  cases a with
  | alloc n => exact absurd rfl (ha n)
  | put b => exact hmark _ _ hP (put_marked hexec)
  | get =>
    cases hexec
    exact hmark _ _ hP (get_marked rbb)
  | queueGet len =>
    cases hexec
    exact hmark _ _ hP (queueGet_marked rbb len)
  | free b => exact hone _ _ _ hP hset hexec
  | queueFree queue =>
    have hloop : ∀ (n : Nat) (r : Rbb) (blk : Option Nat), P r →
        (∀ b ∈ blk, b < r.blkMaxNum) → queueFreeLoop n r blk = .ok rbb' → P rbb' := by
      intro n
      induction n with
      | zero =>
        intro r blk hr _ h
        cases h
        exact hr
      | succ n ih =>
        intro r blk hr hblk h
        cases blk with
        | none => cases h
        | some c =>
          rw [queueFreeLoop] at h
          cases hc : r.rtRbbBlkFree c with
          | error e =>
            rw [hc] at h
            cases h
          | ok r' =>
            rw [hc] at h
            have hr' := hone r c r' hr (hblk c rfl) hc
            refine ih r' (r.nextOf c) hr' (fun d hd => ?_) h
            have hnum : r'.blkMaxNum = r.blkMaxNum := by
              rw [(free_eq hc).2]
              unfold Rbb.freed listRemove
              split <;> rfl
            have hmem : d ∈ r.blkList := by
              have h1 := List.mem_of_mem_head? hd
              exact List.dropWhile_subset _ (List.mem_of_mem_tail h1)
            rw [hnum]
            exact (hlinked r hr).in_set d (by simp [hmem])
    exact hloop _ _ _ hP (fun b hb => by cases hb; exact hset) hexec

-- --------
-- Allocation
-- --------

/-- Appending behind the last node. -/
theorem upTo_getLast {l : List Nat} (hnodup : l.Nodup) : upTo l l.getLast? = l := by
  rcases List.eq_nil_or_concat l with rfl | ⟨pre, t, rfl⟩
  · rfl
  · rw [List.concat_eq_append] at hnodup ⊢
    have hnot : t ∉ pre := fun h => (List.nodup_append.mp hnodup).2.2 t h t (by simp) rfl
    rw [List.getLast?_concat, upTo, List.takeWhile_append_of_pos]
    · simp
    · intro c hc
      simp only [decide_eq_true_eq]
      rintro rfl
      exact hnot hc

/-- **The ways an allocation ends.** -/
theorem alloc_cases {size : Nat} {r : Option Nat} (L : Linked rbb)
    (h : rbb.rtRbbBlkAlloc size = .ok (r, rbb')) :
    (rbb.freeList = [] ∧ r = none ∧ rbb' = rbb) ∨
      (∃ n rest, rbb.freeList = n :: rest ∧ rbb.place size = none ∧ r = none ∧
        rbb' = { rbb with freeList := rest }) ∨
      ∃ n rest buf, rbb.freeList = n :: rest ∧ rbb.place size = some buf ∧ r = some n ∧
        rbb' = { rbb with freeList := rest, blkList := rbb.blkList ++ [n], tail := some n
                          blkSet := fun i => if i = n then ⟨.inited, size, buf⟩
                            else rbb.blkSet i } := by
  unfold rtRbbBlkAlloc at h
  by_cases hsize : size < 2 ^ 24
  swap
  · rw [rtAssert, if_neg hsize] at h
    cases h
  rw [rtAssert_bind hsize, findEmptyBlkInSet] at h
  cases hfree : rbb.freeList with
  | nil =>
    rw [hfree] at h
    cases h
    exact Or.inl ⟨rfl, rfl, rfl⟩
  | cons n rest =>
    rw [hfree] at h
    dsimp only at h
    rw [rtAssert_bind (L.free_status n (by simp [hfree]))] at h
    have hplace : ∀ s, Rbb.place { rbb with freeList := rest } s = rbb.place s := fun _ => rfl
    cases hp : rbb.place size with
    | none =>
      dsimp only [bind, Except.bind, pure, Except.pure] at h
      rw [hplace, hp] at h
      cases h
      exact Or.inr (Or.inl ⟨n, rest, rfl, rfl, rfl, rfl⟩)
    | some buf =>
      dsimp only [bind, Except.bind, pure, Except.pure] at h
      rw [hplace, hp] at h
      cases h
      refine Or.inr (Or.inr ⟨n, rest, buf, rfl, rfl, rfl, ?_⟩)
      have hnodup : rbb.blkList.Nodup := (List.nodup_append.mp L.nodup).2.1
      simp only [addBlk, listAppend, setBlk, L.tail_eq, upTo_getLast hnodup]

/-- Forgetting a free descriptor keeps the lists linked. -/
theorem Linked.leak {n : Nat} {rest : List Nat} (L : Linked rbb)
    (hfree : rbb.freeList = n :: rest) :
    Linked { rbb with freeList := rest } where
  nodup := by
    have := L.nodup
    rw [hfree, List.cons_append, List.nodup_cons] at this
    exact this.2
  tail_eq := L.tail_eq
  free_status b hb := L.free_status b (by rw [hfree]; exact List.mem_cons_of_mem _ hb)
  list_status := L.list_status
  in_list := L.in_list
  in_set b hb := L.in_set b (by
    rw [hfree, List.cons_append]
    exact List.mem_cons_of_mem _ hb)

/-- A free descriptor moves to the end of the block list. -/
theorem Linked.add {n buf size : Nat} {rest : List Nat} (L : Linked rbb)
    (hfree : rbb.freeList = n :: rest) :
    Linked { rbb with
      freeList := rest, blkList := rbb.blkList ++ [n], tail := some n
      blkSet := fun i => if i = n then ⟨.inited, size, buf⟩ else rbb.blkSet i } := by
  have hnodup := L.nodup
  rw [hfree] at hnodup
  have hn : n ∉ rest ++ rbb.blkList := (List.nodup_cons.mp hnodup).1
  have hperm : (n :: rest ++ rbb.blkList).Perm (rest ++ (rbb.blkList ++ [n])) := by
    rw [← List.append_assoc]
    exact (List.perm_append_singleton n _).symm
  have hset := L.in_set
  rw [hfree] at hset
  exact
    { nodup := hperm.nodup_iff.mp hnodup
      tail_eq := by simp
      free_status := fun b hb => by
        have hb : b ∈ rest := hb
        have hbn : b ≠ n := fun h => hn (by simp [← h, hb])
        dsimp only
        rw [if_neg hbn]
        exact L.free_status b (by simp [hfree, hb])
      list_status := fun b hb => by
        dsimp only
        by_cases hbn : b = n
        · rw [if_pos hbn]
          exact RbbStatus.noConfusion
        · rw [if_neg hbn]
          refine L.list_status b ?_
          simpa [hbn] using hb
      in_list := fun b hb hs => by
        by_cases hbn : b = n
        · simp [hbn]
        · dsimp only at hs ⊢
          rw [if_neg hbn] at hs
          simp [L.in_list b hb hs]
      in_set := fun b hb => hset b (hperm.mem_iff.mpr hb) }

/-- **The lists stay linked**, whatever is called. -/
theorem Linked.step {a : Action} (L : Linked rbb) (hs : Step rbb a rbb') : Linked rbb' := by
  by_cases ha : ∀ n, a ≠ .alloc n
  · exact step_rule (fun _ h => h) (fun _ _ h M => h.marked M) (fun _ _ h hb => h.freed hb) ha L hs
  · obtain ⟨size, rfl⟩ := not_forall_not.mp ha
    obtain ⟨_, hexec⟩ := hs
    cases hcall : rbb.rtRbbBlkAlloc size with
    | error e =>
      rw [exec, hcall] at hexec
      cases hexec
    | ok res =>
      obtain ⟨r, r'⟩ := res
      rw [exec, hcall] at hexec
      cases hexec
      rcases alloc_cases L hcall with ⟨_, _, rfl⟩ | ⟨n, rest, hfree, _, _, rfl⟩ |
        ⟨n, rest, buf, hfree, _, _, rfl⟩
      · exact L
      · exact L.leak hfree
      · exact L.add hfree

-- --------
-- Initialisation
-- --------

/-- All blocks are free at the start. -/
theorem rtRbbInit_spec {buf bufSize : Nat} {blockSet : Nat → RbbBlk} {n : Nat}
    (hinit : rtRbbInit buf bufSize blockSet n = .ok rbb) :
    Linked rbb ∧ rbb.blkMaxNum = n ∧ rbb.blkList = [] ∧ rbb.freeList = (List.range n).reverse ∧
      rbb.buf = buf ∧ rbb.bufSize = bufSize := by
  have hfold : ∀ k, ∃ set, (List.range k).foldl
      (fun (rbb : Rbb) i => { rbb.setStatus i .unused with freeList := i :: rbb.freeList })
      { buf, bufSize, blkSet := blockSet, blkMaxNum := n, blkList := [], tail := none
        freeList := [] } =
      { buf, bufSize, blkSet := set, blkMaxNum := n, blkList := [], tail := none
        freeList := (List.range k).reverse } ∧ ∀ i < k, (set i).status = .unused := by
    intro k
    induction k with
    | zero => exact ⟨blockSet, rfl, by simp⟩
    | succ k ih =>
      obtain ⟨set, heq, hset⟩ := ih
      refine ⟨fun i => if i = k then { set k with status := .unused } else set i, ?_, ?_⟩
      · rw [List.range_succ, List.foldl_append, heq]
        simp [setStatus, setBlk]
      · intro i hi
        by_cases hik : i = k
        · simp [hik]
        · simp only [if_neg hik]
          exact hset i (by omega)
  obtain ⟨set, heq, hset⟩ := hfold n
  unfold rtRbbInit at hinit
  by_cases hbuf : buf ≠ 0
  swap
  · rw [rtAssert, if_neg hbuf] at hinit
    cases hinit
  rw [rtAssert_bind hbuf] at hinit
  dsimp only at hinit
  rw [heq] at hinit
  cases hinit
  refine ⟨?_, rfl, rfl, rfl, rfl, rfl⟩
  exact
    { nodup := by
        rw [List.append_nil]
        exact (List.reverse_perm _).nodup_iff.mpr List.nodup_range
      tail_eq := rfl
      free_status := fun b hb => hset b (by simpa using hb)
      list_status := fun b hb => by simp at hb
      in_list := fun b hb hs => absurd (hset b hb) hs
      in_set := fun b hb => by simpa using hb }

-- --------
-- Conservation
-- --------

/-- The descriptor `b` is in exactly one of the lists, with a status that fits. -/
def InOneList (rbb : Rbb) (b : Nat) : Prop :=
  (b ∈ rbb.freeList ∧ b ∉ rbb.blkList ∧ (rbb.blkSet b).status = .unused) ∨
    (b ∉ rbb.freeList ∧ b ∈ rbb.blkList ∧
      ((rbb.blkSet b).status = .inited ∨ (rbb.blkSet b).status = .put ∨
        (rbb.blkSet b).status = .get))

/-- No descriptor is lost, none is in two places. -/
structure Conserved (rbb : Rbb) : Prop where
  one : ∀ b < rbb.blkMaxNum, InOneList rbb b
  nodup_free : rbb.freeList.Nodup
  nodup_blk : rbb.blkList.Nodup

/-- An allocation that finds a descriptor and no space for the block. -/
def LacksSpace (rbb : Rbb) : Action → Prop
  | .alloc blkSize => rbb.freeList ≠ [] ∧ rbb.place blkSize = none
  | _ => False

/-- Linked lists that hold every descriptor. -/
def Complete (rbb : Rbb) : Prop :=
  Linked rbb ∧ ∀ b < rbb.blkMaxNum, b ∈ rbb.freeList ++ rbb.blkList

theorem Complete.conserved (h : Complete rbb) : Conserved rbb := by
  obtain ⟨L, hall⟩ := h
  obtain ⟨hfree, hblk, hdisj⟩ := List.nodup_append.mp L.nodup
  refine ⟨fun b hb => ?_, hfree, hblk⟩
  rcases List.mem_append.mp (hall b hb) with hmem | hmem
  · exact Or.inl ⟨hmem, fun h => hdisj b hmem b h rfl, L.free_status b hmem⟩
  · refine Or.inr ⟨fun h => hdisj b h b hmem rfl, hmem, ?_⟩
    have hne := L.list_status b hmem
    cases hs : (rbb.blkSet b).status with
    | unused => exact absurd hs hne
    | inited => exact Or.inl rfl
    | put => exact Or.inr (Or.inl rfl)
    | get => exact Or.inr (Or.inr rfl)

theorem Complete.freed (h : Complete rbb) (hb : b ∈ rbb.blkList) : Complete (rbb.freed b) := by
  obtain ⟨L, hall⟩ := h
  refine ⟨L.freed hb, fun c hc => ?_⟩
  obtain ⟨pre, post, hl, _, hrem⟩ := L.remove hb
  have hnum : (rbb.freed b).blkMaxNum = rbb.blkMaxNum := by
    simp [Rbb.freed, hrem, setStatus, setBlk]
  have hlist : (rbb.freed b).freeList ++ (rbb.freed b).blkList =
      b :: rbb.freeList ++ (pre ++ post) := by
    simp [Rbb.freed, hrem, setStatus, setBlk]
  have hmem := hall c (hnum ▸ hc)
  rw [hl] at hmem
  rw [hlist]
  simp only [List.cons_append, List.mem_append, List.mem_cons] at hmem ⊢
  tauto

/-- One call that does not lack space loses no descriptor. -/
theorem Complete.step {a : Action} (h : Complete rbb) (hok : ¬ LacksSpace rbb a)
    (hs : Step rbb a rbb') : Complete rbb' := by
  by_cases ha : ∀ n, a ≠ .alloc n
  · refine step_rule (fun _ h => h.1) (fun r r' h M => ⟨h.1.marked M, ?_⟩)
      (fun _ _ h hb => h.freed hb) ha h hs
    rw [M.num_eq, M.freeList_eq, M.blkList_eq]
    exact h.2
  · obtain ⟨size, rfl⟩ := not_forall_not.mp ha
    obtain ⟨L, hall⟩ := h
    have L' := L.step hs
    obtain ⟨_, hexec⟩ := hs
    cases hcall : rbb.rtRbbBlkAlloc size with
    | error e =>
      rw [exec, hcall] at hexec
      cases hexec
    | ok res =>
      obtain ⟨r, r'⟩ := res
      rw [exec, hcall] at hexec
      cases hexec
      rcases alloc_cases L hcall with ⟨_, _, rfl⟩ | ⟨n, rest, hfree, hplace, _, _⟩ |
        ⟨n, rest, buf, hfree, _, _, rfl⟩
      · exact ⟨L, hall⟩
      · exact absurd ⟨by rw [hfree]; simp, hplace⟩ hok
      · refine ⟨L', fun b hb => ?_⟩
        have hmem := hall b hb
        rw [hfree] at hmem
        simp only [List.cons_append, List.mem_append, List.mem_cons] at hmem ⊢
        tauto

/-- **Conservation.** In a run in which no allocation finds a descriptor but no space, every
descriptor is in exactly one list all the time, and an allocation that fails changes nothing. -/
theorem rtRbb_conserved {buf bufSize n : Nat} {blockSet : Nat → RbbBlk} {rbb₀ : Rbb}
    (hinit : rtRbbInit buf bufSize blockSet n = .ok rbb₀)
    (hrun : Runs Step (fun r a => ¬ LacksSpace r a) rbb₀ rbb) :
    Conserved rbb ∧ ∀ size rbb', ¬ LacksSpace rbb (.alloc size) →
      rbb.rtRbbBlkAlloc size = .ok (none, rbb') → rbb' = rbb := by
  have h₀ : Complete rbb₀ := by
    obtain ⟨L, hnum, hblk, hfree, _⟩ := rtRbbInit_spec hinit
    refine ⟨L, fun b hb => ?_⟩
    rw [hfree, hblk]
    simpa [hnum] using hb
  have h : Complete rbb := hrun.invariant (fun _ _ _ h hok hs => h.step hok hs) h₀
  refine ⟨h.conserved, fun size rbb' hok hcall => ?_⟩
  rcases alloc_cases h.1 hcall with ⟨_, _, rfl⟩ | ⟨m, rest, hfree, hplace, _, _⟩ |
    ⟨m, rest, addr, _, _, hr, _⟩
  · rfl
  · exact absurd ⟨by rw [hfree]; simp, hplace⟩ hok
  · cases hr

/-- A set of two descriptors over eight bytes, after two allocations that found space. -/
theorem rtRbb_conserved_two :
    ∃ rbb₀ rbb, rtRbbInit 4096 8 (fun _ => ⟨.unused, 0, 0⟩) 2 = .ok rbb₀ ∧
      Runs Step (fun r a => ¬ LacksSpace r a) rbb₀ rbb ∧ rbb.blkList = [1, 0] ∧ Conserved rbb := by
  have hrun : ∃ rbb₀ rbb, rtRbbInit 4096 8 (fun _ => ⟨.unused, 0, 0⟩) 2 = .ok rbb₀ ∧
      Runs Step (fun r a => ¬ LacksSpace r a) rbb₀ rbb ∧ rbb.blkList = [1, 0] :=
    ⟨_, _, rfl, (Runs.refl.snoc (a := .alloc 4) (fun h => absurd h.2 (by decide))
      ⟨trivial, rfl⟩).snoc (a := .alloc 4) (fun h => absurd h.2 (by decide)) ⟨trivial, rfl⟩, rfl⟩
  obtain ⟨rbb₀, rbb, hinit, hruns, hlist⟩ := hrun
  exact ⟨rbb₀, rbb, hinit, hruns, hlist, (rtRbb_conserved hinit hruns).1⟩

/-- A failing allocation loses a descriptor: the second of two blocks does not fit. -/
theorem rtRbb_descriptor_lost :
    ¬ ∀ (buf bufSize n : Nat) (blockSet : Nat → RbbBlk) (rbb₀ rbb : Rbb),
      rtRbbInit buf bufSize blockSet n = .ok rbb₀ → Runs Step Runs.always rbb₀ rbb →
        Conserved rbb := by
  intro h
  have hrun : ∃ rbb₀ rbb, rtRbbInit 4096 8 (fun _ => ⟨.unused, 0, 0⟩) 2 = .ok rbb₀ ∧
      Runs Step Runs.always rbb₀ rbb ∧ rbb.freeList = [] ∧ rbb.blkList = [1] ∧ rbb.blkMaxNum = 2 :=
    ⟨_, _, rfl, (Runs.refl.snoc (a := .alloc 8) trivial ⟨trivial, rfl⟩).snoc (a := .alloc 1)
      trivial ⟨trivial, rfl⟩, rfl, rfl, rfl⟩
  obtain ⟨rbb₀, rbb, hinit, hruns, hfree, hblk, hnum⟩ := hrun
  have hone := (h _ _ _ _ _ _ hinit hruns).one 0 (by rw [hnum]; decide)
  rcases hone with ⟨hmem, _⟩ | ⟨_, hmem, _⟩
  · rw [hfree] at hmem
    cases hmem
  · rw [hblk] at hmem
    revert hmem
    decide

end RTThread.Rbb
