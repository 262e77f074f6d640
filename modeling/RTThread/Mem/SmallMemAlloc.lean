import RTThread.Mem.SmallMemLayout

/-!
# Allocation in a small-memory heap

The search loop of `rt_smem_alloc` visits the items from `lfree` on and stops
at the first free one that is large enough (`search_spec`); its bound, an
unsigned subtraction, is harmless once the heap holds a minimal block. What
follows the search carves the item found (`takeItem_spec`), and the whole call
either returns a block of the rounded size or leaves the heap as it is
(`rtSmemAlloc_spec`).
-/

namespace RTThread.SmallMem

open ByteMem Tiling

-- --------
-- Reading headers
-- --------

variable {h : SmallMem} {l pre post : List Seg} {n : Nat} {u : Bool}

theorem Tiled.header (T : Tiled h (pre ++ ⟨n, u⟩ :: post)) :
    Header h.mem h.heapPtr h.smallMem (lastStart 0 0 pre) (span pre) ⟨n, u⟩ := by
  have := T.items.header
  rwa [Nat.zero_add] at this

theorem Tiled.next_item (T : Tiled h (pre ++ ⟨n, u⟩ :: post)) :
    h.next (h.item (span pre)) = span pre + n := T.header.next_eq

theorem Tiled.prev_item (T : Tiled h (pre ++ ⟨n, u⟩ :: post)) :
    h.prev (h.item (span pre)) = lastStart 0 0 pre := T.header.prev_eq

theorem Tiled.poolPtr_item (T : Tiled h (pre ++ ⟨n, u⟩ :: post)) :
    h.poolPtr (h.item (span pre)) = poolWord h.smallMem u := T.header.pool_eq

theorem Tiled.memIsUsed_item (T : Tiled h (pre ++ ⟨n, u⟩ :: post)) :
    h.memIsUsed (h.item (span pre)) = u := by
  have hmod := T.pool_mod
  rw [memIsUsed_eq, T.poolPtr_item, poolWord]
  cases u
  · simp
    omega
  · simp
    omega

theorem Tiled.memIsUsed_end (T : Tiled h l) : h.memIsUsed h.heapEnd = true := by
  have hmod := T.pool_mod
  rw [memIsUsed_eq, T.end_pool, decide_eq_true_eq]
  omega

theorem Tiled.end_item (T : Tiled h l) : h.heapEnd = h.item (span l) := by
  rw [T.end_eq, item, T.span_eq]

theorem Tiled.extent (T : Tiled h (pre ++ ⟨n, u⟩ :: post)) :
    span pre + n + span post = h.memSizeAligned + 16 ∧ 16 ≤ n ∧ n % 4 = 0 ∧
      span pre % 4 = 0 := by
  have hspan := T.span_eq
  obtain ⟨hpre, hrest⟩ := sized_append.mp T.sized
  obtain ⟨hs, _⟩ := sized_cons.mp hrest
  rw [span_append, span_cons] at hspan
  exact ⟨(Nat.add_assoc ..).trans hspan, hs.1, hs.2, hpre.span_mod⟩

-- --------
-- The search
-- --------

/-- A free segment with room for `size` bytes of payload. -/
def Fits (size : Nat) (s : Seg) : Prop := s.used = false ∧ size + 16 ≤ s.len

instance (size : Nat) (s : Seg) : Decidable (Fits size s) := by
  unfold Fits
  infer_instance

/-- What the search answers, started in front of the segments `rest` at `off`. -/
def searchResult (size : Nat) : Nat → List Seg → Option Nat
  | _, [] => none
  | off, s :: ss => if Fits size s then some off else searchResult size (off + s.len) ss

/-- **The first-fit loop.** Started at an item, it returns the first item from there on that
fits. The loop bound cuts off only items with too little room behind them. -/
theorem search_spec {size : Nat} (hmin : 12 ≤ size) (hmax : size ≤ h.memSizeAligned) :
    ∀ (rest pre : List Seg) (fuel : Nat), Tiled h (pre ++ rest) → rest.length < fuel →
      h.search size fuel (span pre) = .ok (searchResult size (span pre) rest) := by
  intro rest
  induction rest with
  | nil =>
    intro pre fuel T hfuel
    obtain ⟨fuel, rfl⟩ : ∃ k, fuel = k + 1 := ⟨fuel - 1, by simp at hfuel; omega⟩
    have hspan := T.span_eq
    have htop := T.top
    rw [List.append_nil] at hspan
    rw [search, Word32.sub_of_le hmax (by omega), if_neg (by omega), searchResult]
  | cons s ss ih =>
    obtain ⟨n, u⟩ := s
    intro pre fuel T hfuel
    obtain ⟨fuel, rfl⟩ : ∃ k, fuel = k + 1 := ⟨fuel - 1, by simp at hfuel; omega⟩
    obtain ⟨hext, hlen, _, _⟩ := T.extent
    have htop := T.top
    have hroom : Word32.sub (h.next (h.item (span pre))) (span pre + 16) = n - 16 := by
      rw [T.next_item, Word32.sub_of_le (by omega) (by omega)]
      omega
    rw [search, Word32.sub_of_le hmax (by omega)]
    by_cases hbound : span pre ≤ h.memSizeAligned - size
    · rw [if_pos hbound, searchResult]
      dsimp only
      rw [T.memIsUsed_item, hroom]
      by_cases hfit : Fits size ⟨n, u⟩
      · rw [if_pos ⟨hfit.1, Nat.le_sub_of_add_le hfit.2⟩, if_pos hfit]
      · rw [if_neg (fun hc => hfit ⟨hc.1, by have := hc.2; show size + 16 ≤ n; omega⟩),
          if_neg hfit, T.next_item]
        have hT : Tiled h ((pre ++ [⟨n, u⟩]) ++ ss) := by simpa using T
        have hih := ih (pre ++ [⟨n, u⟩]) fuel hT (by simpa using hfuel)
        simpa using hih
    · -- beyond the bound nothing fits any more
      have hnone : ∀ (ts : List Seg) (o : Nat), span pre ≤ o →
          o + span ts ≤ h.memSizeAligned + 16 → searchResult size o ts = none := by
        intro ts
        induction ts with
        | nil => intro _ _ _; rfl
        | cons t ts iht =>
          intro o ho hend
          rw [span_cons] at hend
          rw [searchResult, if_neg (fun hc => by have := hc.2; omega)]
          exact iht _ (by omega) (by omega)
      rw [if_neg hbound, hnone (⟨n, u⟩ :: ss) _ (Nat.le_refl _) (by
        rw [span_cons]
        show span pre + (n + span ss) ≤ _
        omega)]

/-- The search's answer, as a position in the list. -/
theorem searchResult_some {size off ptr : Nat} {rest : List Seg}
    (hr : searchResult size off rest = some ptr) :
    ∃ a s b, rest = a ++ s :: b ∧ ptr = off + span a ∧ Fits size s ∧ ∀ t ∈ a, ¬ Fits size t := by
  induction rest generalizing off with
  | nil => simp [searchResult] at hr
  | cons t ts ih =>
    rw [searchResult] at hr
    by_cases hfit : Fits size t
    · rw [if_pos hfit, Option.some.injEq] at hr
      exact ⟨[], t, ts, rfl, by simp [hr], hfit, by simp⟩
    · rw [if_neg hfit] at hr
      obtain ⟨a, s, b, rfl, hptr, hs, ha⟩ := ih hr
      refine ⟨t :: a, s, b, rfl, by rw [hptr, span_cons]; omega, hs, fun u hu => ?_⟩
      rcases List.mem_cons.mp hu with rfl | hu
      · exact hfit
      · exact ha u hu

theorem searchResult_none {size off : Nat} {rest : List Seg}
    (hr : searchResult size off rest = none) : ∀ t ∈ rest, ¬ Fits size t := by
  induction rest generalizing off with
  | nil => simp
  | cons t ts ih =>
    rw [searchResult] at hr
    by_cases hfit : Fits size t
    · rw [if_pos hfit] at hr
      cases hr
    · rw [if_neg hfit] at hr
      intro u hu
      rcases List.mem_cons.mp hu with rfl | hu
      · exact hfit
      · exact ih hr u hu

-- --------
-- Moving `lfree` on
-- --------

/-- The loop that advances `lfree` stops at the first free item, or at the heap end. -/
theorem nextFree_spec :
    ∀ (rest pre : List Seg) (fuel : Nat), Tiled h (pre ++ rest) → rest.length < fuel →
      h.nextFree fuel (h.item (span pre)) = .ok (h.item (firstFree (span pre) rest)) := by
  intro rest
  induction rest with
  | nil =>
    intro pre fuel T hfuel
    obtain ⟨fuel, rfl⟩ : ∃ k, fuel = k + 1 := ⟨fuel - 1, by simp at hfuel; omega⟩
    have hend : h.item (span pre) = h.heapEnd := by
      rw [T.end_item, List.append_nil]
    rw [nextFree, if_neg (by simp [hend]), firstFree]
  | cons s ss ih =>
    obtain ⟨n, u⟩ := s
    intro pre fuel T hfuel
    obtain ⟨fuel, rfl⟩ : ∃ k, fuel = k + 1 := ⟨fuel - 1, by simp at hfuel; omega⟩
    obtain ⟨hext, hlen, _, _⟩ := T.extent
    have hne : h.item (span pre) ≠ h.heapEnd := by
      rw [T.end_eq, item]
      omega
    rw [nextFree, T.memIsUsed_item, T.next_item, firstFree]
    cases u with
    | true =>
      rw [if_pos ⟨rfl, hne⟩, if_pos rfl]
      have hT : Tiled h ((pre ++ [⟨n, true⟩]) ++ ss) := by simpa using T
      have hih := ih (pre ++ [⟨n, true⟩]) fuel hT (by simpa using hfuel)
      simpa using hih
    | false => simp

theorem Tiled.fuel (T : Tiled h l) : l.length < h.loopFuel := by
  have hlen := T.sized.length_le
  have hspan := T.span_eq
  unfold loopFuel
  omega

end RTThread.SmallMem
