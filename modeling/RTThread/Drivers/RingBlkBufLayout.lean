import RTThread.Drivers.RingBlkBufLists
import RTThread.Lib.Ascending

/-!
# Where the blocks of a ring block buffer lie

The blocks in `blk_list` form two ascending rows: the older one up to the end
of the buffer, and, after the allocation went around, a younger one from its
beginning up to the first block of the older row (`Laid`). The source tells the
two layouts apart by comparing the addresses of the first and the last block.
That test takes two rows for one when the last block is empty and lies exactly
in front of the first one, and the branch for the empty list does not look at
the size at all (`Misplaces`); `rtRbb_apart` shows that nothing else goes wrong.
-/

namespace RTThread.Rbb

variable {rbb rbb' : Rbb} {b : Nat}

/-- First byte of a block, and first byte behind it. -/
def startOf (rbb : Rbb) (b : Nat) : Nat := (rbb.blkSet b).buf
def stopOf (rbb : Rbb) (b : Nat) : Nat := (rbb.blkSet b).buf + (rbb.blkSet b).size

/-- The blocks lie in the buffer and do not overlap. -/
structure Apart (rbb : Rbb) : Prop where
  inside : ∀ b ∈ rbb.blkList, rbb.buf ≤ rbb.startOf b ∧ rbb.stopOf b ≤ rbb.buf + rbb.bufSize
  disjoint : ∀ b ∈ rbb.blkList, ∀ c ∈ rbb.blkList, b ≠ c → ∀ x,
    ¬ ((rbb.startOf b ≤ x ∧ x < rbb.stopOf b) ∧ (rbb.startOf c ≤ x ∧ x < rbb.stopOf c))

/-- The list is in address order. -/
def InOrder (rbb : Rbb) : Prop := rbb.blkList.IsChain fun b c => rbb.stopOf b ≤ rbb.startOf c

/-- `head->buf <= tail->buf`, the test for a layout that did not go around. -/
def LooksUnwrapped (rbb : Rbb) : Prop :=
  ∃ head ∈ rbb.blkList.head?, ∃ tail ∈ rbb.blkList.getLast?, rbb.startOf head ≤ rbb.startOf tail

/-- The allocations that go wrong: into an empty list, a block larger than the buffer; or a
block of some size, when the list went around but looks as if it had not. -/
def Misplaces (rbb : Rbb) : Action → Prop
  | .alloc blkSize => rbb.freeList ≠ [] ∧
      ((rbb.blkList = [] ∧ rbb.bufSize < blkSize) ∨
        (rbb.LooksUnwrapped ∧ ¬ rbb.InOrder ∧ 0 < blkSize))
  | _ => False

/-- Two rows of blocks: `old` up to the end of the buffer, `young` from its beginning up to
`old`. -/
structure Laid (rbb : Rbb) (old young : List Nat) (m : Nat) : Prop extends Linked rbb where
  space : rbb.buf + rbb.bufSize < 2 ^ 32
  list_eq : rbb.blkList = old ++ young
  old_asc : Asc rbb.startOf rbb.stopOf m (rbb.buf + rbb.bufSize) old
  young_asc : Asc rbb.startOf rbb.stopOf rbb.buf m young

theorem Laid.apart {old young : List Nat} {m : Nat} (L : Laid rbb old young m) : Apart rbb := by
  have hold := L.old_asc.le
  have hyoung := L.young_asc.le
  constructor
  · intro b hb
    rw [L.list_eq] at hb
    rcases List.mem_append.mp hb with h | h
    · have := L.old_asc.mem h
      omega
    · have := L.young_asc.mem h
      omega
  · rintro b hb c hc hne x ⟨hbx, hcx⟩
    rw [L.list_eq] at hb hc
    have hsep : rbb.stopOf b ≤ rbb.startOf c ∨ rbb.stopOf c ≤ rbb.startOf b := by
      rcases List.mem_append.mp hb with h | h <;> rcases List.mem_append.mp hc with h' | h'
      · exact L.old_asc.apart h h' hne
      · have := L.old_asc.mem h
        have := L.young_asc.mem h'
        omega
      · have := L.young_asc.mem h
        have := L.old_asc.mem h'
        omega
      · exact L.young_asc.apart h h' hne
    omega

-- --------
-- Calls other than allocation
-- --------

theorem Laid.marked {old young : List Nat} {m : Nat} (L : Laid rbb old young m)
    (M : Marked rbb rbb') : Laid rbb' old young m := by
  have hstart : ∀ b, rbb'.startOf b = rbb.startOf b := fun b => (M.place_eq b).1
  have hstop : ∀ b, rbb'.stopOf b = rbb.stopOf b := fun b => by
    rw [stopOf, stopOf, (M.place_eq b).1, (M.place_eq b).2]
  exact
    { toLinked := L.toLinked.marked M
      space := by rw [M.buf_eq, M.bufSize_eq]; exact L.space
      list_eq := by rw [M.blkList_eq]; exact L.list_eq
      old_asc := by
        rw [M.buf_eq, M.bufSize_eq]
        exact L.old_asc.congr (fun b _ => hstart b) fun b _ => hstop b
      young_asc := by
        rw [M.buf_eq]
        exact L.young_asc.congr (fun b _ => hstart b) fun b _ => hstop b }

/-- A block given back leaves both rows, whichever it was in. -/
theorem Laid.freed {old young : List Nat} {m : Nat} (L : Laid rbb old young m)
    (hb : b ∈ rbb.blkList) : ∃ old' young', Laid (rbb.freed b) old' young' m := by
  obtain ⟨pre, post, hl, hnot, hrem⟩ := L.toLinked.remove hb
  have herase : pre ++ post = (old ++ young).erase b := by
    rw [← L.list_eq, hl, List.erase_append_right _ fun h => hnot (by simp [h]),
      List.erase_cons_head]
  have hnodup := (List.nodup_append.mp L.nodup).2.1
  -- the rows without the block
  have hrows : ∃ old' young', pre ++ post = old' ++ young' ∧ old'.Sublist old ∧
      young'.Sublist young := by
    by_cases h : b ∈ old
    · exact ⟨old.erase b, young, by rw [herase, List.erase_append_left _ h],
        List.erase_sublist, List.Sublist.refl _⟩
    · exact ⟨old, young.erase b, by rw [herase, List.erase_append_right _ h],
        List.Sublist.refl _, List.erase_sublist⟩
  obtain ⟨old', young', hlist, hsub, hsub'⟩ := hrows
  have hplace : ∀ c, ((rbb.freed b).blkSet c).buf = (rbb.blkSet c).buf ∧
      ((rbb.freed b).blkSet c).size = (rbb.blkSet c).size := by
    intro c
    by_cases hc : c = b
    · simp [Rbb.freed, hrem, setStatus, setBlk, hc]
    · simp [Rbb.freed, hrem, setStatus, setBlk, hc]
  have hbuf : (rbb.freed b).buf = rbb.buf ∧ (rbb.freed b).bufSize = rbb.bufSize := by
    simp [Rbb.freed, hrem, setStatus, setBlk]
  have hstart : ∀ c, (rbb.freed b).startOf c = rbb.startOf c := fun c => (hplace c).1
  have hstop : ∀ c, (rbb.freed b).stopOf c = rbb.stopOf c := fun c => by
    rw [stopOf, stopOf, (hplace c).1, (hplace c).2]
  exact ⟨old', young',
    { toLinked := L.toLinked.freed hb
      space := by rw [hbuf.1, hbuf.2]; exact L.space
      list_eq := by
        rw [← hlist]
        simp [Rbb.freed, hrem, setStatus, setBlk]
      old_asc := by
        rw [hbuf.1, hbuf.2]
        exact (L.old_asc.sublist hsub).congr (fun c _ => hstart c) fun c _ => hstop c
      young_asc := by
        rw [hbuf.1]
        exact (L.young_asc.sublist hsub').congr (fun c _ => hstart c) fun c _ => hstop c }⟩

-- --------
-- Allocation
-- --------

/-- The buffer after a free descriptor `n` became the block at `addr`. -/
def added (rbb : Rbb) (n addr size : Nat) (rest : List Nat) : Rbb :=
  { rbb with
    freeList := rest, blkList := rbb.blkList ++ [n], tail := some n
    blkSet := fun i => if i = n then ⟨.inited, size, addr⟩ else rbb.blkSet i }

section Added

variable {n addr size lo hi : Nat} {rest : List Nat}

@[simp] theorem startOf_added_self : (rbb.added n addr size rest).startOf n = addr := by
  simp [added, startOf]

@[simp] theorem stopOf_added_self : (rbb.added n addr size rest).stopOf n = addr + size := by
  simp [added, stopOf]

theorem asc_added {l : List Nat} (size : Nat) (rest : List Nat)
    (h : Asc rbb.startOf rbb.stopOf lo hi l) (hn : n ∉ l) :
    Asc (rbb.added n addr size rest).startOf (rbb.added n addr size rest).stopOf lo hi l := by
  refine h.congr (fun b hb => ?_) fun b hb => ?_
  · have hbn : b ≠ n := fun h => hn (h ▸ hb)
    simp [added, startOf, hbn]
  · have hbn : b ≠ n := fun h => hn (h ▸ hb)
    simp [added, stopOf, hbn]

/-- A row extended by the new block, which starts where the row ends or later. -/
theorem asc_added_concat {l : List Nat} (size : Nat) (rest : List Nat)
    (h : Asc rbb.startOf rbb.stopOf lo hi l) (hn : n ∉ l) (ha : hi ≤ addr) :
    Asc (rbb.added n addr size rest).startOf (rbb.added n addr size rest).stopOf lo (addr + size)
      (l ++ [n]) := by
  have hold : Asc (rbb.added n addr size rest).startOf (rbb.added n addr size rest).stopOf
      lo hi l := asc_added size rest h hn
  have hstart : hi ≤ (rbb.added n addr size rest).startOf n := by
    rw [startOf_added_self]
    exact ha
  have hcat := hold.concat hstart (by rw [startOf_added_self, stopOf_added_self]; omega)
  rwa [stopOf_added_self] at hcat

theorem asc_added_single (rbb : Rbb) (n addr size : Nat) (rest : List Nat) :
    Asc (rbb.added n addr size rest).startOf (rbb.added n addr size rest).stopOf addr
      (addr + size) [n] := by
  have hnil : Asc rbb.startOf rbb.stopOf addr addr [] := Nat.le_refl addr
  exact asc_added_concat size rest hnil (by simp) (Nat.le_refl _)

end Added

theorem Laid.asc_of_inOrder {old young : List Nat} {m : Nat} (L : Laid rbb old young m)
    (h : rbb.InOrder) : Asc rbb.startOf rbb.stopOf rbb.buf (rbb.buf + rbb.bufSize) rbb.blkList := by
  refine Asc.of_isChain h (by omega) fun b hb => ?_
  have := L.apart.inside b hb
  exact ⟨this.1, Nat.le_add_right _ _, this.2⟩

/-- Where both rows are present, the list starts with the old and ends with the young one. -/
theorem Laid.two_rows {old young : List Nat} {m : Nat} (L : Laid rbb old young m)
    (h : ¬ rbb.InOrder) {head tail : Nat} (hhead : head ∈ rbb.blkList.head?)
    (htail : tail ∈ rbb.blkList.getLast?) : head ∈ old.head? ∧ tail ∈ young.getLast? := by
  have hold : old ≠ [] := fun hnil => h (by
    unfold InOrder
    rw [L.list_eq, hnil]
    exact L.young_asc.isChain)
  have hyoung : young ≠ [] := fun hnil => h (by
    unfold InOrder
    rw [L.list_eq, hnil, List.append_nil]
    exact L.old_asc.isChain)
  rw [L.list_eq] at hhead htail
  constructor
  · rwa [List.head?_append_of_ne_nil _ hold] at hhead
  · rwa [List.getLast?_append_of_ne_nil _ hyoung] at htail

/-- **An allocation that is not misplaced** keeps the two rows. -/
theorem Laid.alloc {old young rest : List Nat} {m n addr size : Nat} (L : Laid rbb old young m)
    (hfree : rbb.freeList = n :: rest) (hok : ¬ Misplaces rbb (.alloc size))
    (hplace : rbb.place size = some addr) :
    ∃ old' young' m', Laid (rbb.added n addr size rest) old' young' m' := by
  have hspace := L.space
  have hmax := L.old_asc.le
  have hmin := L.young_asc.le
  have L' : Linked (rbb.added n addr size rest) := L.toLinked.add hfree
  have hn : n ∉ rbb.blkList := fun h => by
    have := L.nodup
    rw [hfree] at this
    exact (List.nodup_cons.mp this).1 (List.mem_append.mpr (Or.inr h))
  have hrows : n ∉ old ∧ n ∉ young := by
    rw [L.list_eq, List.mem_append, not_or] at hn
    exact hn
  have hok : (rbb.blkList = [] → size ≤ rbb.bufSize) ∧
      (rbb.LooksUnwrapped → ¬ rbb.InOrder → size = 0) := by
    have hne : rbb.freeList ≠ [] := by rw [hfree]; simp
    constructor
    · intro h
      by_contra hc
      exact hok ⟨hne, Or.inl ⟨h, by omega⟩⟩
    · intro h h'
      by_contra hc
      exact hok ⟨hne, Or.inr ⟨h, h', by omega⟩⟩
  unfold place at hplace
  cases hlist : rbb.blkList with
  | nil =>
    rw [hlist] at hplace
    cases hplace
    have hsize := hok.1 hlist
    have hrow := asc_added_single rbb n rbb.buf size rest
    exact ⟨[n], [], rbb.buf, L', hspace, by simp [added, hlist],
      hrow.mono (Nat.le_refl _) (by show _ ≤ rbb.buf + rbb.bufSize; omega), Nat.le_refl _⟩
  | cons head tl =>
    have hhead : head ∈ rbb.blkList.head? := by simp [hlist]
    obtain ⟨tail, htail⟩ : ∃ tail, tail ∈ rbb.blkList.getLast? := by
      rw [hlist]
      exact ⟨_, List.getLast?_eq_some_getLast (List.cons_ne_nil _ _)⟩
    have hin := L.apart.inside tail (List.mem_of_getLast? htail)
    have hinh := L.apart.inside head (List.mem_of_mem_head? hhead)
    have hend : rbb.endOf tail = rbb.stopOf tail :=
      Word32.add_of_lt (by unfold stopOf at hin; omega)
    have htail' : rbb.tail = some tail := by rw [L.tail_eq, htail]
    rw [show rbb.blkList.head? = some head from hhead, htail'] at hplace
    dsimp only at hplace
    rw [hend, Word32.add_of_lt hspace, Word32.sub_of_le (by omega) hspace,
      Word32.sub_of_le (show rbb.buf ≤ (rbb.blkSet head).buf from hinh.1)
        (by unfold stopOf at hinh; omega)] at hplace
    by_cases hunwrapped : (rbb.blkSet head).buf ≤ (rbb.blkSet tail).buf
    · rw [if_pos hunwrapped] at hplace
      have hlooks : rbb.LooksUnwrapped := ⟨head, hhead, tail, htail, hunwrapped⟩
      by_cases hroom : rbb.buf + rbb.bufSize - rbb.stopOf tail ≥ size
      · rw [if_pos hroom] at hplace
        cases hplace
        by_cases horder : rbb.InOrder
        · -- one row, extended at its end
          have hrow := asc_added_concat size rest
            ((L.asc_of_inOrder horder).last htail) hn (Nat.le_refl _)
          exact ⟨rbb.blkList ++ [n], [], rbb.buf, L', hspace, by simp [added],
            hrow.mono (Nat.le_refl _) (by show _ ≤ rbb.buf + rbb.bufSize; omega), Nat.le_refl _⟩
        · -- two rows taken for one: only an empty block may be appended
          have hzero := hok.2 hlooks horder
          obtain ⟨_, hlast⟩ := L.two_rows horder hhead htail
          have hmem := L.young_asc.mem (List.mem_of_getLast? hlast)
          have hrow := asc_added_concat size rest
            (L.young_asc.last hlast) hrows.2 (Nat.le_refl _)
          exact ⟨old, young ++ [n], m, L', hspace, by simp [added, L.list_eq],
            asc_added size rest L.old_asc hrows.1,
            hrow.mono (Nat.le_refl _) (by omega)⟩
      · rw [if_neg hroom] at hplace
        by_cases hfront : (rbb.blkSet head).buf - rbb.buf ≥ size
        · rw [if_pos hfront] at hplace
          cases hplace
          have horder : rbb.InOrder := by
            by_contra h
            have := hok.2 hlooks h
            omega
          -- the list becomes the old row, the new block begins the young one
          refine ⟨rbb.blkList, [n], rbb.startOf head, L', hspace, by simp [added],
            asc_added size rest ((L.asc_of_inOrder horder).first hhead) hn, ?_⟩
          have hrow := asc_added_single rbb n rbb.buf size rest
          exact hrow.mono (Nat.le_refl _) (by show _ ≤ (rbb.blkSet head).buf; omega)
        · rw [if_neg hfront] at hplace
          cases hplace
    · rw [if_neg hunwrapped] at hplace
      have horder : ¬ rbb.InOrder := fun h => by
        have hrow := (L.asc_of_inOrder h).first hhead
        exact hunwrapped (hrow.mem (List.mem_of_getLast? htail)).1
      obtain ⟨hfirst, hlast⟩ := L.two_rows horder hhead htail
      have hmem := L.young_asc.mem (List.mem_of_getLast? hlast)
      have hmemo := L.old_asc.mem (List.mem_of_mem_head? hfirst)
      have hgap : rbb.stopOf tail ≤ (rbb.blkSet head).buf := by
        have : rbb.startOf head = (rbb.blkSet head).buf := rfl
        omega
      rw [Word32.sub_of_le hgap (by unfold stopOf at hinh; omega)] at hplace
      by_cases hroom : (rbb.blkSet head).buf - rbb.stopOf tail ≥ size
      · rw [if_pos hroom] at hplace
        cases hplace
        have hrow := asc_added_concat size rest
          (L.young_asc.last hlast) hrows.2 (Nat.le_refl _)
        exact ⟨old, young ++ [n], rbb.startOf head, L', hspace, by simp [added, L.list_eq],
          asc_added size rest (L.old_asc.first hfirst) hrows.1,
          hrow.mono (Nat.le_refl _) (by show _ ≤ (rbb.blkSet head).buf; omega)⟩
      · rw [if_neg hroom] at hplace
        cases hplace

-- --------
-- Runs
-- --------

/-- The blocks lie in two rows. -/
def Rows (rbb : Rbb) : Prop := ∃ old young m, Laid rbb old young m

/-- **A step**: only a misplaced allocation leaves the two rows. -/
theorem Rows.step {a : Action} (h : Rows rbb) (hok : ¬ Misplaces rbb a) (hs : Step rbb a rbb') :
    Rows rbb' := by
  by_cases ha : ∀ n, a ≠ .alloc n
  · refine step_rule ?_ ?_ ?_ ha h hs
    · rintro r ⟨_, _, _, L⟩
      exact L.toLinked
    · rintro r r' ⟨old, young, m, L⟩ M
      exact ⟨old, young, m, L.marked M⟩
    · rintro r b ⟨old, young, m, L⟩ hb
      obtain ⟨old', young', L'⟩ := L.freed hb
      exact ⟨old', young', m, L'⟩
  · obtain ⟨size, rfl⟩ := not_forall_not.mp ha
    obtain ⟨old, young, m, L⟩ := h
    obtain ⟨_, hexec⟩ := hs
    cases hcall : rbb.rtRbbBlkAlloc size with
    | error e =>
      rw [exec, hcall] at hexec
      cases hexec
    | ok res =>
      obtain ⟨r, r'⟩ := res
      rw [exec, hcall] at hexec
      cases hexec
      rcases alloc_cases L.toLinked hcall with ⟨_, _, rfl⟩ | ⟨n, rest, hfree, _, _, rfl⟩ |
        ⟨n, rest, addr, hfree, hplace, _, rfl⟩
      · exact ⟨old, young, m, L⟩
      · exact ⟨old, young, m, ⟨L.toLinked.leak hfree, L.space, L.list_eq, L.old_asc, L.young_asc⟩⟩
      · exact L.alloc hfree hok hplace

/-- **Blocks stay in the buffer and apart**, in every run without a misplaced allocation. -/
theorem rtRbb_apart {buf bufSize n : Nat} {blockSet : Nat → RbbBlk} {rbb₀ : Rbb}
    (hspace : buf + bufSize < 2 ^ 32) (hinit : rtRbbInit buf bufSize blockSet n = .ok rbb₀)
    (hrun : Runs Step (fun r a => ¬ Misplaces r a) rbb₀ rbb) : Apart rbb := by
  have h₀ : Rows rbb₀ := by
    obtain ⟨L, _, hblk, _, hbuf, hsize⟩ := rtRbbInit_spec hinit
    refine ⟨[], [], rbb₀.buf, L, by rw [hbuf, hsize]; exact hspace, by simp [hblk], ?_,
      Nat.le_refl _⟩
    exact Nat.le_add_right _ _
  obtain ⟨_, _, _, L⟩ := hrun.invariant (fun _ _ _ h hok hs => Rows.step h hok hs) h₀
  exact L.apart

/-- Four blocks in a buffer of eight bytes: the third one goes around, behind a block that was given
back. -/
theorem rtRbb_apart_around :
    ∃ rbb₀ rbb, rtRbbInit 4096 8 (fun _ => ⟨.unused, 0, 0⟩) 4 = .ok rbb₀ ∧
      Runs Step (fun r a => ¬ Misplaces r a) rbb₀ rbb ∧
      rbb.blkList.map rbb.startOf = [4100, 4096, 4098] ∧ Apart rbb := by
  have hno : ∀ (r : Rbb) (size : Nat), size ≤ r.bufSize → r.InOrder ∨ ¬ r.LooksUnwrapped →
      ¬ Misplaces r (.alloc size) := by
    rintro r size hsize hor ⟨_, ⟨_, h⟩ | ⟨hlooks, horder, _⟩⟩
    · omega
    · rcases hor with hin | hlook
      · exact horder hin
      · exact hlook hlooks
  have hrun : ∃ rbb₀ rbb, rtRbbInit 4096 8 (fun _ => ⟨.unused, 0, 0⟩) 4 = .ok rbb₀ ∧
      Runs Step (fun r a => ¬ Misplaces r a) rbb₀ rbb ∧
      rbb.blkList.map rbb.startOf = [4100, 4096, 4098] := by
    refine ⟨_, _, rfl, ((((((Runs.refl.snoc (a := .alloc 4) (hno _ _ (by decide) (.inl ?_))
      ⟨trivial, rfl⟩).snoc (a := .alloc 4) (hno _ _ (by decide) (.inl ?_)) ⟨trivial, rfl⟩).snoc
      (a := .put 3) id ⟨(by decide : 3 < 4), rfl⟩).snoc (a := .get) id ⟨trivial, rfl⟩).snoc
      (a := .free 3) id ⟨(by decide : 3 < 4), rfl⟩).snoc
      (a := .alloc 2) (hno _ _ (by decide) (.inl ?_)) ⟨trivial, rfl⟩).snoc
      (a := .alloc 2) (hno _ _ (by decide) (.inr ?_)) ⟨trivial, rfl⟩, rfl⟩
    · exact List.isChain_nil
    · exact List.isChain_singleton _
    · exact List.isChain_singleton _
    · rintro ⟨head, hhead, tail, htail, hle⟩
      cases hhead
      cases htail
      revert hle
      decide
  obtain ⟨rbb₀, rbb, hinit, hruns, hlist⟩ := hrun
  exact ⟨rbb₀, rbb, hinit, hruns, hlist, rtRbb_apart (by decide) hinit hruns⟩

/-- An empty block that ends the young row right in front of the old one makes the list look
unwrapped, and the next block is laid over the old row. -/
theorem rtRbb_blocks_overlap :
    ¬ ∀ (buf bufSize n : Nat) (blockSet : Nat → RbbBlk) (rbb₀ rbb : Rbb),
      buf + bufSize < 2 ^ 32 → rtRbbInit buf bufSize blockSet n = .ok rbb₀ →
        Runs Step Runs.always rbb₀ rbb → Apart rbb := by
  intro h
  have hrun : ∃ rbb₀ rbb, rtRbbInit 4096 8 (fun _ => ⟨.unused, 0, 0⟩) 6 = .ok rbb₀ ∧
      Runs Step Runs.always rbb₀ rbb ∧ rbb.blkList = [4, 3, 5, 2, 1] ∧
      rbb.startOf 4 = 4100 ∧ rbb.stopOf 4 = 4102 ∧ rbb.startOf 1 = 4100 ∧ rbb.stopOf 1 = 4102 :=
    ⟨_, _, rfl,
      ((((((Runs.refl.snoc (a := .alloc 4) trivial ⟨trivial, rfl⟩).snoc (a := .alloc 2) trivial
        ⟨trivial, rfl⟩).snoc (a := .alloc 2) trivial ⟨trivial, rfl⟩).snoc (a := .free 5) trivial
        ⟨(by decide : 5 < 6), rfl⟩).snoc (a := .alloc 4) trivial ⟨trivial, rfl⟩).snoc
        (a := .alloc 0) trivial ⟨trivial, rfl⟩).snoc (a := .alloc 2) trivial ⟨trivial, rfl⟩, rfl, rfl, rfl, rfl, rfl⟩
  obtain ⟨rbb₀, rbb, hinit, hruns, hblk, hs4, he4, hs1, he1⟩ := hrun
  have hdisj := (h _ _ _ _ _ _ (by decide) hinit hruns).disjoint 4 (by rw [hblk]; decide) 1
    (by rw [hblk]; decide) (by decide) 4100
  rw [hs4, he4, hs1, he1] at hdisj
  omega

end RTThread.Rbb
