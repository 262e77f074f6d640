import Mathlib.Data.List.Cycle
import Mathlib.Tactic.Common

/-!
# Circular doubly linked lists

An intrusive doubly linked list is a pair of pointer fields, read here as two
functions `nxt` and `prv`. `Circular nxt prv l` says that following `nxt`
around visits the cells of `l` in order and that `prv` goes back; a list and
its rotations are the same circle, so a cell's place does not matter.

The two edits are stated by what the fields are afterwards, at the cells of the
list only: what the pointers of other cells hold is irrelevant, and so is the
order in which the stores are made.

Main results: `Circular.insert` and `Circular.remove`.
-/

namespace CircularList

variable {α : Type*} {nxt prv nxt' prv' : α → α} {a b p x : α} {l u v : List α}

/-- `a` points to `b` and `b` points back. -/
def Link (nxt prv : α → α) (a b : α) : Prop := nxt a = b ∧ prv b = a

/-- The cells of `l`, in this order, form a circle. -/
def Circular (nxt prv : α → α) (l : List α) : Prop := Cycle.Chain (Link nxt prv) (l : Cycle α)

-- --------
-- Reading
-- --------

theorem circular_cons : Circular nxt prv (a :: l) ↔ (a :: (l ++ [a])).IsChain (Link nxt prv) :=
  Cycle.chain_coe_cons _ _ _

theorem circular_rotate : Circular nxt prv (u ++ v) ↔ Circular nxt prv (v ++ u) := by
  unfold Circular
  rw [Cycle.coe_eq_coe.mpr List.isRotated_append]

theorem circular_singleton : Circular nxt prv [a] ↔ nxt a = a ∧ prv a = a :=
  Cycle.chain_singleton _ _

theorem Circular.link (h : Circular nxt prv (u ++ a :: b :: v)) : nxt a = b ∧ prv b = a := by
  rw [circular_rotate] at h
  exact (List.isChain_cons_cons.mp (circular_cons.mp h)).1

theorem Circular.link_last (h : Circular nxt prv (a :: u ++ [b])) : nxt b = a ∧ prv a = b := by
  rw [circular_rotate] at h
  exact Circular.link (u := []) h

/-- A cell's successor is in the circle, and points back to it. -/
theorem Circular.next_mem (h : Circular nxt prv l) (ha : a ∈ l) :
    nxt a ∈ l ∧ prv (nxt a) = a := by
  obtain ⟨u, v, rfl⟩ := List.append_of_mem ha
  rw [circular_rotate] at h
  rw [List.cons_append, circular_cons] at h
  rcases hvu : v ++ u with _ | ⟨b, t⟩
  · rw [hvu] at h
    obtain ⟨hn, hp⟩ := (List.isChain_cons_cons.mp h).1
    exact ⟨by rw [hn]; simp, by rw [hn, hp]⟩
  · rw [hvu] at h
    obtain ⟨hn, hp⟩ := (List.isChain_cons_cons.mp h).1
    have hb : b ∈ v ++ u := by simp [hvu]
    refine ⟨?_, by rw [hn, hp]⟩
    rw [hn]
    simp only [List.mem_append, List.mem_cons] at hb ⊢
    tauto

/-- A cell's predecessor is in the circle, and points to it. -/
theorem Circular.prev_mem (h : Circular nxt prv l) (ha : a ∈ l) :
    prv a ∈ l ∧ nxt (prv a) = a := by
  obtain ⟨u, v, rfl⟩ := List.append_of_mem ha
  rcases List.eq_nil_or_concat (v ++ [] ++ u) with hvu | ⟨t, b, hvu⟩
  · simp only [List.append_nil, List.append_eq_nil_iff] at hvu
    obtain ⟨rfl, rfl⟩ := hvu
    obtain ⟨hn, hp⟩ := circular_singleton.mp h
    exact ⟨by rw [hp]; simp, by rw [hp, hn]⟩
  · rw [List.append_nil, List.concat_eq_append] at hvu
    rw [circular_rotate, List.cons_append, hvu] at h
    obtain ⟨hn, hp⟩ := Circular.link_last h
    have hb : b ∈ v ++ u := by simp [hvu]
    refine ⟨?_, by rw [hp, hn]⟩
    rw [hp]
    simp only [List.mem_append, List.mem_cons] at hb ⊢
    tauto

/-- Only the fields of the cells matter. -/
theorem chain_congr (h : (a :: l).IsChain (Link nxt prv))
    (hn : ∀ y ∈ (a :: l).dropLast, nxt' y = nxt y) (hp : ∀ y ∈ l, prv' y = prv y) :
    (a :: l).IsChain (Link nxt' prv') := by
  induction l generalizing a with
  | nil => exact List.isChain_singleton _
  | cons b t ih =>
    obtain ⟨⟨hab, hba⟩, ht⟩ := List.isChain_cons_cons.mp h
    refine List.isChain_cons_cons.mpr ⟨⟨?_, ?_⟩, ih ht (fun y hy => hn y ?_) fun y hy => ?_⟩
    · rw [hn a (by simp), hab]
    · rw [hp b (by simp), hba]
    · rw [List.dropLast_cons_cons]
      exact List.mem_cons_of_mem _ hy
    · exact hp y (List.mem_cons_of_mem _ hy)

theorem Circular.congr (h : Circular nxt prv l) (hn : ∀ y ∈ l, nxt' y = nxt y)
    (hp : ∀ y ∈ l, prv' y = prv y) : Circular nxt' prv' l := by
  cases l with
  | nil => exact Cycle.Chain.nil _
  | cons a t =>
    rw [circular_cons] at h ⊢
    refine chain_congr h (fun y hy => hn y ?_) fun y hy => hp y ?_
    · rwa [← List.cons_append, List.dropLast_concat] at hy
    · simpa [or_comm] using hy

-- --------
-- Editing
-- --------

/-- An edit behind `p` leaves the links from the next cell around to `p` alone. -/
theorem chain_rest {t : List α} (h : (b :: (t ++ [p])).IsChain (Link nxt prv))
    (hnd : (p :: b :: t).Nodup) (hn : ∀ y ∈ b :: t, y ≠ p → nxt' y = nxt y)
    (hv : ∀ y ∈ p :: t, y ≠ b → prv' y = prv y) :
    (b :: (t ++ [p])).IsChain (Link nxt' prv') := by
  obtain ⟨hpn, hnd⟩ := List.nodup_cons.mp hnd
  refine chain_congr h (fun y hy => ?_) fun y hy => ?_
  · rw [← List.cons_append, List.dropLast_concat] at hy
    exact hn y hy fun he => hpn (he ▸ hy)
  · rcases List.mem_append.mp hy with hy | hy
    · exact hv y (List.mem_cons_of_mem _ hy) fun he => (List.nodup_cons.mp hnd).1 (he ▸ hy)
    · rw [List.mem_singleton.mp hy]
      refine hv p (by simp) fun he => hpn ?_
      rw [he]
      simp

/-- **Insertion** of a new cell `x` behind the cell `p`. -/
theorem Circular.insert (h : Circular nxt prv (u ++ p :: v)) (hnd : (u ++ p :: v).Nodup)
    (hp : nxt' p = x) (hx : nxt' x = nxt p) (hx' : prv' x = p) (hq : prv' (nxt p) = x)
    (hn : ∀ y ∈ u ++ p :: v, y ≠ p → nxt' y = nxt y)
    (hv : ∀ y ∈ u ++ p :: v, y ≠ nxt p → prv' y = prv y) :
    Circular nxt' prv' (u ++ p :: x :: v) := by
  rw [circular_rotate, List.cons_append, List.cons_append, circular_cons]
  rw [circular_rotate, List.cons_append, circular_cons] at h
  have hmem : ∀ y, y ∈ p :: (v ++ u) → y ∈ u ++ p :: v := fun y hy => by
    simp only [List.mem_append, List.mem_cons] at hy ⊢
    tauto
  have hnd' : (p :: (v ++ u)).Nodup := (@List.perm_append_comm _ (p :: v) u).nodup_iff.mpr hnd
  rcases hvu : v ++ u with _ | ⟨b, t⟩
  · -- `p` was alone
    rw [hvu] at h
    obtain ⟨⟨hpp, _⟩, _⟩ := List.isChain_cons_cons.mp h
    rw [hpp] at hx hq
    exact List.isChain_cons_cons.mpr ⟨⟨hp, hx'⟩,
      List.isChain_cons_cons.mpr ⟨⟨hx, hq⟩, List.isChain_singleton _⟩⟩
  · rw [hvu] at h hmem hnd'
    obtain ⟨⟨hpb, _⟩, ht⟩ := List.isChain_cons_cons.mp h
    rw [hpb] at hx hq hv
    refine List.isChain_cons_cons.mpr ⟨⟨hp, hx'⟩, List.isChain_cons_cons.mpr ⟨⟨hx, hq⟩, ?_⟩⟩
    refine chain_rest ht hnd' (fun y hy => hn y (hmem y ?_)) fun y hy => hv y (hmem y ?_)
    · exact List.mem_cons_of_mem _ hy
    · simp only [List.mem_cons] at hy ⊢
      tauto

/-- **Removal** of the cell `x` behind the cell `p`. -/
theorem Circular.remove (h : Circular nxt prv (u ++ p :: x :: v))
    (hnd : (u ++ p :: x :: v).Nodup) (hp : nxt' p = nxt x) (hq : prv' (nxt x) = p)
    (hn : ∀ y ∈ u ++ p :: v, y ≠ p → nxt' y = nxt y)
    (hv : ∀ y ∈ u ++ p :: v, y ≠ nxt x → prv' y = prv y) :
    Circular nxt' prv' (u ++ p :: v) := by
  rw [circular_rotate, List.cons_append, circular_cons]
  rw [circular_rotate, List.cons_append, List.cons_append, circular_cons] at h
  have hmem : ∀ y, y ∈ p :: (v ++ u) → y ∈ u ++ p :: v := fun y hy => by
    simp only [List.mem_append, List.mem_cons] at hy ⊢
    tauto
  have hnd' : (p :: (v ++ u)).Nodup := by
    have := (@List.perm_append_comm _ (p :: x :: v) u).nodup_iff.mpr hnd
    simp only [List.cons_append, List.nodup_cons, List.mem_cons, not_or] at this ⊢
    exact ⟨this.1.2, this.2.2⟩
  obtain ⟨_, h⟩ := List.isChain_cons_cons.mp h
  rcases hvu : v ++ u with _ | ⟨b, t⟩
  · -- `p` stays alone
    rw [hvu] at h
    obtain ⟨⟨hxp, _⟩, _⟩ := List.isChain_cons_cons.mp h
    rw [hxp] at hp hq
    exact List.isChain_cons_cons.mpr ⟨⟨hp, hq⟩, List.isChain_singleton _⟩
  · rw [hvu] at h hmem hnd'
    obtain ⟨⟨hxb, _⟩, ht⟩ := List.isChain_cons_cons.mp h
    rw [hxb] at hp hq hv
    refine List.isChain_cons_cons.mpr ⟨⟨hp, hq⟩, ?_⟩
    refine chain_rest ht hnd' (fun y hy => hn y (hmem y ?_)) fun y hy => hv y (hmem y ?_)
    · exact List.mem_cons_of_mem _ hy
    · simp only [List.mem_cons] at hy ⊢
      tauto

end CircularList
