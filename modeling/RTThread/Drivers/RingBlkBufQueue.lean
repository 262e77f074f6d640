import RTThread.Drivers.RingBlkBufLayout
import Mathlib.Data.List.TakeWhile

/-!
# Block queues

`rt_rbb_blk_queue_get` takes the first block in put status and the blocks behind
it until one of its three tests stops it. What comes out is a contiguous region
only if something stops the loop before the list ends, if the first block, which
is not tested, fits, and if blocks at rising addresses are adjacent, which the
source takes for granted. `rtRbb_queue_exact` shows that these conditions on the
list are exactly what is needed (`Served`).
-/

namespace RTThread.Rbb

variable {rbb rbb' : Rbb} {len : Nat}

/-- The sizes of a list of blocks, added up. -/
def totalSize (rbb : Rbb) (l : List Nat) : Nat := (l.map fun b => (rbb.blkSet b).size).sum

/-- Each block starts where the one before it ends. -/
def Adjacent (rbb : Rbb) (l : List Nat) : Prop :=
  l.IsChain fun b c => rbb.startOf c = rbb.stopOf b

/-- What a caller of `rt_rbb_blk_queue_get` may rely on: no null node is followed, and a queue
with data consists of adjacent blocks in put status, no larger together than asked for. -/
structure GoodQueue (rbb : Rbb) (len : Nat) (g : QueueGet) : Prop where
  no_null : g.nullNext = false
  contiguous : g.dataTotalSize ≠ 0 → ∃ queue, g.queue = some queue ∧
    (rbb.queueBlocks queue).length = queue.blkNum ∧
    (∀ b ∈ rbb.queueBlocks queue, (rbb.blkSet b).status = .put) ∧
    rbb.Adjacent (rbb.queueBlocks queue) ∧ rbb.totalSize (rbb.queueBlocks queue) ≤ len

-- --------
-- The tests of the loop
-- --------

/-- The block `b` ends the queue made of the blocks `run`. -/
def Stops (rbb : Rbb) (len : Nat) (run : List Nat) (b : Nat) : Prop :=
  (rbb.blkSet b).status ≠ .put ∨ (∃ last ∈ run.getLast?, rbb.startOf b < rbb.startOf last) ∨
    len < rbb.totalSize (run ++ [b]) % 2 ^ 32

/-- None of the blocks `more` ends the queue that begins with `run`. -/
def Takes (rbb : Rbb) (len : Nat) : List Nat → List Nat → Prop
  | _, [] => True
  | run, b :: bs => ¬ Stops rbb len run b ∧ Takes rbb len (run ++ [b]) bs

/-- The list serves a request of `len` bytes: it is empty, or the blocks from the first one in
put status on end in front of a block that stops them, and are empty or adjacent and within
the request. -/
def Served (rbb : Rbb) (len : Nat) : Prop :=
  rbb.blkList = [] ∨ ∃ skip first more stop rest,
    rbb.blkList = skip ++ first :: (more ++ stop :: rest) ∧
    (∀ b ∈ skip, (rbb.blkSet b).status ≠ .put) ∧ (rbb.blkSet first).status = .put ∧
    Takes rbb len [first] more ∧ Stops rbb len (first :: more) stop ∧
    (rbb.totalSize (first :: more) % 2 ^ 32 = 0 ∨
      (rbb.Adjacent (first :: more) ∧ rbb.totalSize (first :: more) ≤ len))

theorem totalSize_concat (rbb : Rbb) (run : List Nat) (b : Nat) :
    rbb.totalSize (run ++ [b]) = rbb.totalSize run + (rbb.blkSet b).size := by
  simp [totalSize]

theorem Takes.put {run more : List Nat} (h : Takes rbb len run more) :
    ∀ b ∈ more, (rbb.blkSet b).status = .put := by
  induction more generalizing run with
  | nil => simp
  | cons b bs ih =>
    intro c hc
    rcases List.mem_cons.mp hc with rfl | hc
    · by_contra hne
      exact h.1 (Or.inl hne)
    · exact ih h.2 c hc

/-- A buffer that differs from `rbb` in statuses, and on `nodes` in none. -/
structure SameOn (rbb rbb' : Rbb) (nodes : List Nat) : Prop where
  place_eq : ∀ b, (rbb'.blkSet b).buf = (rbb.blkSet b).buf ∧
    (rbb'.blkSet b).size = (rbb.blkSet b).size
  status_eq : ∀ b ∈ nodes, (rbb'.blkSet b).status = (rbb.blkSet b).status

theorem SameOn.setStatus {b : Nat} {nodes : List Nat} {s : RbbStatus}
    (h : SameOn rbb rbb' (b :: nodes)) (hb : b ∉ nodes) :
    SameOn rbb (rbb'.setStatus b s) nodes where
  place_eq c := by
    have := h.place_eq c
    by_cases hc : c = b
    · simpa [Rbb.setStatus, setBlk, hc] using h.place_eq b
    · simpa [Rbb.setStatus, setBlk, hc] using this
  status_eq c hc := by
    have hcb : c ≠ b := fun h => hb (h ▸ hc)
    simpa [Rbb.setStatus, setBlk, hcb] using h.status_eq c (List.mem_cons_of_mem _ hc)

/-- The source's test, told by the blocks taken so far. -/
theorem queueStops_iff {run nodes : List Nat} {last b : Nat} (h : SameOn rbb rbb' (b :: nodes))
    (hlast : last ∈ run.getLast?) :
    rbb'.queueStops len (rbb.totalSize run % 2 ^ 32) last b ↔ Stops rbb len run b := by
  have htotal : Word32.add (rbb.totalSize run % 2 ^ 32) (rbb.blkSet b).size =
      rbb.totalSize (run ++ [b]) % 2 ^ 32 := by
    rw [Word32.add, totalSize_concat, Nat.mod_add_mod]
  have hrun : run.getLast? = some last := hlast
  unfold queueStops Stops
  rw [h.status_eq b (by simp), (h.place_eq b).1, (h.place_eq b).2, (h.place_eq last).1, htotal,
    hrun]
  simp [startOf]

-- --------
-- The loop
-- --------

/-- The loop takes the blocks that do not stop it and returns at the one that does. -/
theorem queueRest_taken (more : List Nat) :
    ∀ (rbb' : Rbb) (run : List Nat) (last first stop : Nat) (rest : List Nat),
      SameOn rbb rbb' (more ++ stop :: rest) → (more ++ stop :: rest).Nodup →
      last ∈ run.getLast? → Takes rbb len run more → Stops rbb len (run ++ more) stop →
      ∃ r, queueRest len rbb' (rbb.totalSize run % 2 ^ 32) last ⟨first, run.length⟩
        (more ++ stop :: rest) =
          ⟨r, rbb.totalSize (run ++ more) % 2 ^ 32, some ⟨first, (run ++ more).length⟩, false⟩ := by
  induction more with
  | nil =>
    intro rbb' run last first stop rest hsame _ hlast _ hstop
    rw [List.append_nil] at hstop ⊢
    refine ⟨rbb', ?_⟩
    rw [List.nil_append, queueRest, if_pos ((queueStops_iff hsame hlast).mpr hstop)]
  | cons b bs ih =>
    intro rbb' run last first stop rest hsame hnodup hlast htakes hstop
    obtain ⟨hb, hbs⟩ := htakes
    have hfresh : b ∉ bs ++ stop :: rest := (List.nodup_cons.mp hnodup).1
    have hsame' : SameOn rbb (rbb'.setStatus b .get) (bs ++ stop :: rest) := hsame.setStatus hfresh
    have htotal : Word32.add (rbb.totalSize run % 2 ^ 32) (rbb'.blkSet b).size =
        rbb.totalSize (run ++ [b]) % 2 ^ 32 := by
      rw [Word32.add, (hsame.place_eq b).2, totalSize_concat, Nat.mod_add_mod]
    obtain ⟨r, hr⟩ := ih (rbb'.setStatus b .get) (run ++ [b]) b first stop rest hsame'
      (List.nodup_cons.mp hnodup).2 (by simp) hbs (by simpa using hstop)
    refine ⟨r, ?_⟩
    rw [List.cons_append, queueRest, if_neg (mt (queueStops_iff hsame hlast).mp hb), htotal]
    simpa using hr

/-- When the loop does not run behind the list, a block stopped it. -/
theorem queueRest_ends (nodes : List Nat) :
    ∀ (rbb' : Rbb) (run : List Nat) (last : Nat) (queue : RbbBlkQueue),
      SameOn rbb rbb' nodes → nodes.Nodup → last ∈ run.getLast? →
      (queueRest len rbb' (rbb.totalSize run % 2 ^ 32) last queue nodes).nullNext = false →
      ∃ more stop rest, nodes = more ++ stop :: rest ∧ Takes rbb len run more ∧
        Stops rbb len (run ++ more) stop := by
  induction nodes with
  | nil =>
    intro rbb' run last queue _ _ _ h
    cases h
  | cons b bs ih =>
    intro rbb' run last queue hsame hnodup hlast h
    by_cases hstop : Stops rbb len run b
    · exact ⟨[], b, bs, rfl, trivial, by rwa [List.append_nil]⟩
    · have hsame' : SameOn rbb (rbb'.setStatus b .get) bs :=
        hsame.setStatus (List.nodup_cons.mp hnodup).1
      have htotal : Word32.add (rbb.totalSize run % 2 ^ 32) (rbb'.blkSet b).size =
          rbb.totalSize (run ++ [b]) % 2 ^ 32 := by
        rw [Word32.add, (hsame.place_eq b).2, totalSize_concat, Nat.mod_add_mod]
      rw [queueRest, if_neg (mt (queueStops_iff hsame hlast).mp hstop), htotal] at h
      obtain ⟨more, stop, rest, rfl, htakes, hstop'⟩ := ih _ (run ++ [b]) b _ hsame'
        (List.nodup_cons.mp hnodup).2 (by simp) h
      exact ⟨b :: more, stop, rest, rfl, ⟨hstop, htakes⟩, by simpa using hstop'⟩

theorem queueFirst_skip {skip nodes : List Nat}
    (hskip : ∀ b ∈ skip, (rbb.blkSet b).status ≠ .put) :
    queueFirst len rbb (skip ++ nodes) = queueFirst len rbb nodes := by
  induction skip with
  | nil => rfl
  | cons b bs ih =>
    rw [List.cons_append, queueFirst, if_neg (hskip b (by simp))]
    exact ih fun c hc => hskip c (by simp [hc])

theorem queueFirst_put {first : Nat} {nodes : List Nat}
    (hput : (rbb.blkSet first).status = .put) :
    queueFirst len rbb (first :: nodes) =
      queueRest len (rbb.setStatus first .get) (rbb.totalSize [first] % 2 ^ 32) first
        ⟨first, [first].length⟩ nodes := by
  have htotal : Word32.add 0 (rbb.blkSet first).size = rbb.totalSize [first] % 2 ^ 32 := by
    simp [Word32.add, totalSize]
  rw [queueFirst, if_pos hput, htotal]
  rfl

/-- The blocks of a queue that starts behind `skip`. -/
theorem queueBlocks_eq {skip run rest : List Nat} {first : Nat}
    (hlist : rbb.blkList = skip ++ first :: (run ++ rest)) (hfirst : first ∉ skip) :
    rbb.queueBlocks ⟨first, (first :: run).length⟩ = first :: run := by
  have hdrop : rbb.blkList.dropWhile (· ≠ first) = first :: (run ++ rest) := by
    rw [hlist, List.dropWhile_append_of_pos]
    · rw [List.dropWhile_cons_of_neg (by simp)]
    · intro c hc
      simp only [decide_eq_true_eq]
      rintro rfl
      exact hfirst hc
  rw [queueBlocks, hdrop, ← List.cons_append, List.take_left]

theorem goodQueue_iff (L : Linked rbb) (len : Nat) :
    GoodQueue rbb len (rbb.rtRbbBlkQueueGet len) ↔ Served rbb len := by
  have hnodup : rbb.blkList.Nodup := (List.nodup_append.mp L.nodup).2.1
  unfold rtRbbBlkQueueGet
  by_cases hnil : rbb.blkList = []
  · rw [if_pos hnil]
    exact ⟨fun _ => Or.inl hnil, fun _ => ⟨rfl, fun h => absurd rfl h⟩⟩
  rw [if_neg hnil]
  -- what the loop returns, and which blocks its queue has, once the list is taken apart
  have hrun : ∀ skip first more stop rest, rbb.blkList = skip ++ first :: (more ++ stop :: rest) →
      (∀ b ∈ skip, (rbb.blkSet b).status ≠ .put) → (rbb.blkSet first).status = .put →
      Takes rbb len [first] more → Stops rbb len (first :: more) stop →
      (∃ r, queueFirst len rbb rbb.blkList = ⟨r, rbb.totalSize (first :: more) % 2 ^ 32,
        some ⟨first, (first :: more).length⟩, false⟩) ∧
      rbb.queueBlocks ⟨first, (first :: more).length⟩ = first :: more := by
    intro skip first more stop rest hlist hskip hput htakes hstop
    rw [hlist] at hnodup
    have hnodup' := (List.nodup_append.mp hnodup).2.1
    have hfirst : first ∉ skip :=
      fun h => (List.nodup_append.mp hnodup).2.2 first h first (by simp) rfl
    refine ⟨?_, queueBlocks_eq hlist hfirst⟩
    rw [hlist, queueFirst_skip hskip, queueFirst_put hput]
    have hsame : SameOn rbb rbb (first :: (more ++ stop :: rest)) :=
      ⟨fun _ => ⟨rfl, rfl⟩, fun _ _ => rfl⟩
    exact queueRest_taken more _ [first] first first stop rest
      (hsame.setStatus (List.nodup_cons.mp hnodup').1) (List.nodup_cons.mp hnodup').2 rfl htakes
      hstop
  constructor
  · rintro ⟨hnull, hcont⟩
    -- the first block in put status
    obtain ⟨skip, nodes, hlist, hskip, hnodes⟩ : ∃ skip nodes, rbb.blkList = skip ++ nodes ∧
        (∀ b ∈ skip, (rbb.blkSet b).status ≠ .put) ∧
        ∀ b ∈ nodes.head?, (rbb.blkSet b).status = .put := by
      refine ⟨rbb.blkList.takeWhile fun b => (rbb.blkSet b).status ≠ .put,
        rbb.blkList.dropWhile fun b => (rbb.blkSet b).status ≠ .put,
        List.takeWhile_append_dropWhile.symm, fun b hb => ?_, fun b hb => ?_⟩
      · simpa using List.mem_takeWhile_imp hb
      · have := List.head?_dropWhile_not
          (fun b => decide ((rbb.blkSet b).status ≠ .put)) rbb.blkList
        rw [show _ = some b from hb] at this
        simpa using this
    rw [hlist, queueFirst_skip hskip] at hnull
    cases nodes with
    | nil => cases hnull
    | cons first nodes =>
      have hput := hnodes first rfl
      rw [queueFirst_put hput] at hnull
      have hnodup' := hnodup
      rw [hlist] at hnodup'
      have hnodup' := (List.nodup_append.mp hnodup').2.1
      have hsame : SameOn rbb rbb (first :: nodes) := ⟨fun _ => ⟨rfl, rfl⟩, fun _ _ => rfl⟩
      obtain ⟨more, stop, rest, rfl, htakes, hstop⟩ := queueRest_ends nodes _ [first] first _
        (hsame.setStatus (List.nodup_cons.mp hnodup').1) (List.nodup_cons.mp hnodup').2 rfl hnull
      obtain ⟨⟨r, hr⟩, hblocks⟩ := hrun skip first more stop rest hlist hskip hput htakes hstop
      rw [hr] at hcont
      refine Or.inr ⟨skip, first, more, stop, rest, hlist, hskip, hput, htakes, hstop, ?_⟩
      by_cases hzero : rbb.totalSize (first :: more) % 2 ^ 32 = 0
      · exact Or.inl hzero
      · obtain ⟨queue, hqueue, _, _, hadj, hsum⟩ := hcont hzero
        cases hqueue
        rw [hblocks] at hadj hsum
        exact Or.inr ⟨hadj, hsum⟩
  · rintro (h | ⟨skip, first, more, stop, rest, hlist, hskip, hput, htakes, hstop, hgood⟩)
    · exact absurd h hnil
    · obtain ⟨⟨r, hr⟩, hblocks⟩ := hrun skip first more stop rest hlist hskip hput htakes hstop
      rw [hr]
      refine ⟨rfl, fun hne => ?_⟩
      obtain ⟨hadj, hsum⟩ := hgood.resolve_left hne
      refine ⟨_, rfl, ?_, ?_, ?_, ?_⟩
      · rw [hblocks]
      · rw [hblocks]
        intro b hb
        rcases List.mem_cons.mp hb with rfl | hb
        · exact hput
        · exact htakes.put b hb
      · rwa [hblocks]
      · rwa [hblocks]

-- --------
-- Runs
-- --------

/-- **Queues are good exactly when the list serves the request**, in every state of every
run. -/
theorem rtRbb_queue_exact {buf bufSize n : Nat} {blockSet : Nat → RbbBlk} {rbb₀ : Rbb}
    (hinit : rtRbbInit buf bufSize blockSet n = .ok rbb₀) (hrun : Runs Step Runs.always rbb₀ rbb)
    (queueDataLen : Nat) :
    GoodQueue rbb queueDataLen (rbb.rtRbbBlkQueueGet queueDataLen) ↔ Served rbb queueDataLen :=
  goodQueue_iff (hrun.invariant (fun _ _ _ h _ hs => h.step hs) (rtRbbInit_spec hinit).1) _

/-- Two blocks of four bytes in put status and an empty one behind them: a queue of eight. -/
theorem rtRbb_queue_exact_eight :
    ∃ rbb₀ rbb, rtRbbInit 4096 8 (fun _ => ⟨.unused, 0, 0⟩) 3 = .ok rbb₀ ∧
      Runs Step Runs.always rbb₀ rbb ∧ (rbb.rtRbbBlkQueueGet 8).dataTotalSize = 8 ∧
      Served rbb 8 ∧ GoodQueue rbb 8 (rbb.rtRbbBlkQueueGet 8) := by
  have hrun : ∃ rbb₀ rbb, rtRbbInit 4096 8 (fun _ => ⟨.unused, 0, 0⟩) 3 = .ok rbb₀ ∧
      Runs Step Runs.always rbb₀ rbb ∧ (rbb.rtRbbBlkQueueGet 8).dataTotalSize = 8 ∧
      rbb.blkList = [2, 1, 0] ∧ rbb.blkSet 2 = ⟨.put, 4, 4096⟩ ∧ rbb.blkSet 1 = ⟨.put, 4, 4100⟩ ∧
      rbb.blkSet 0 = ⟨.inited, 0, 4104⟩ :=
    ⟨_, _, rfl,
      ((((Runs.refl.snoc (a := .alloc 4) trivial ⟨trivial, rfl⟩).snoc (a := .alloc 4) trivial
        ⟨trivial, rfl⟩).snoc (a := .alloc 0) trivial ⟨trivial, rfl⟩).snoc (a := .put 2) trivial
        ⟨by exact (by decide : 2 < 3), rfl⟩).snoc (a := .put 1) trivial
        ⟨by exact (by decide : 1 < 3), rfl⟩, rfl, rfl, rfl, rfl, rfl⟩
  obtain ⟨rbb₀, rbb, hinit, hruns, htotal, hlist, h2, h1, h0⟩ := hrun
  have hserved : Served rbb 8 := by
    refine Or.inr
      ⟨[], 2, [1], 0, [], hlist, by simp, by rw [h2], ⟨?_, trivial⟩, ?_, Or.inr ⟨?_, ?_⟩⟩
    · simp [Stops, startOf, totalSize, h2, h1]
    · exact Or.inl (by rw [h0]; decide)
    · exact List.isChain_cons_cons.mpr ⟨by simp [startOf, stopOf, h2, h1], List.isChain_singleton _⟩
    · simp [totalSize, h2, h1]
  exact ⟨rbb₀, rbb, hinit, hruns, htotal, hserved, (rtRbb_queue_exact hinit hruns 8).mpr hserved⟩

/-- A single block in put status: the loop reads the successor of the null node. -/
theorem rtRbb_queue_null :
    ¬ ∀ (buf bufSize n : Nat) (blockSet : Nat → RbbBlk) (rbb₀ rbb : Rbb) (queueDataLen : Nat),
      rtRbbInit buf bufSize blockSet n = .ok rbb₀ → Runs Step Runs.always rbb₀ rbb →
        GoodQueue rbb queueDataLen (rbb.rtRbbBlkQueueGet queueDataLen) := by
  intro h
  have hrun : ∃ rbb₀ rbb, rtRbbInit 4096 8 (fun _ => ⟨.unused, 0, 0⟩) 1 = .ok rbb₀ ∧
      Runs Step Runs.always rbb₀ rbb ∧ (rbb.rtRbbBlkQueueGet 8).nullNext = true :=
    ⟨_, _, rfl, (Runs.refl.snoc (a := .alloc 8) trivial ⟨trivial, rfl⟩).snoc (a := .put 0) trivial
      ⟨by exact (by decide : 0 < 1), rfl⟩, rfl⟩
  obtain ⟨rbb₀, rbb, hinit, hruns, hnull⟩ := hrun
  have hgood := (h _ _ _ _ _ _ 8 hinit hruns).no_null
  rw [hnull] at hgood
  cases hgood

end RTThread.Rbb
