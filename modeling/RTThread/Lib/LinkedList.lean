import Mathlib.Data.List.Nodup
import Mathlib.Tactic.Common

/-!
# Singly linked lists

Nodes that name the next one, the last one the null node. `Linked next null a l` says that the
nodes reached from `a` are those of `l`; what a program does to such a list is to change one link
and one of the pointers to its ends. `nodes` follows the links.
-/

namespace LinkedList

variable {α : Type*} {next next' : α → α} {null a b x z : α} {l : List α}

/-- From `a` on the links lead through the nodes of the list to `null`. -/
def Linked (next : α → α) (null : α) : α → List α → Prop
  | a, [] => a = null
  | a, x :: l => a = x ∧ x ≠ null ∧ Linked next null (next x) l

/-- The first `n` nodes from `a` on. -/
def nodes (next : α → α) : α → Nat → List α
  | _, 0 => []
  | a, n + 1 => a :: nodes next (next a) n

theorem Linked.nodes_eq (h : Linked next null a l) : nodes next a l.length = l := by
  induction l generalizing a with
  | nil => rfl
  | cons x l ih =>
    obtain ⟨rfl, -, h⟩ := h
    exact congrArg (List.cons a) (ih h)

theorem Linked.null_iff (h : Linked next null a l) : a = null ↔ l = [] := by
  cases l with
  | nil => exact iff_of_true h rfl
  | cons x l =>
    obtain ⟨rfl, hne, -⟩ := h
    exact iff_of_false hne (List.cons_ne_nil _ _)

theorem Linked.exists_cons (h : Linked next null a l) (ha : a ≠ null) :
    ∃ l', l = a :: l' ∧ Linked next null (next a) l' := by
  cases l with
  | nil => exact absurd h ha
  | cons x l =>
    obtain ⟨rfl, -, h⟩ := h
    exact ⟨l, rfl, h⟩

theorem Linked.congr (h : Linked next null a l) (heq : ∀ y ∈ l, next' y = next y) :
    Linked next' null a l := by
  induction l generalizing a with
  | nil => exact h
  | cons x l ih =>
    obtain ⟨rfl, hne, h⟩ := h
    refine ⟨rfl, hne, ?_⟩
    rw [heq a List.mem_cons_self]
    exact ih h fun y hy => heq y (List.mem_cons_of_mem a hy)

theorem Linked.push (h : Linked next null a l) (hx : x ≠ null) (hnext : next' x = a)
    (heq : ∀ y ∈ l, next' y = next y) : Linked next' null x (x :: l) :=
  ⟨rfl, hx, hnext ▸ h.congr heq⟩

/-- A node behind the last one. -/
theorem Linked.push_back (h : Linked next null a (l ++ [z])) (hx : x ≠ null)
    (hlast : next' z = x) (hnext : next' x = null) (heq : ∀ y ∈ l, next' y = next y) :
    Linked next' null a (l ++ [z, x]) := by
  induction l generalizing a with
  | nil =>
    obtain ⟨rfl, hz, -⟩ := h
    exact ⟨rfl, hz, hlast, hx, hnext⟩
  | cons y l ih =>
    obtain ⟨rfl, hy, h⟩ := h
    refine ⟨rfl, hy, ?_⟩
    rw [heq a List.mem_cons_self]
    exact ih h fun y hy => heq y (List.mem_cons_of_mem a hy)

/-- Nodes that are linked one after the other, the last one to `null`: by induction on the number
of those that are left. -/
theorem linked_chain {f : Nat → α} {n : Nat} (hne : ∀ k < n, f k ≠ null)
    (hnext : ∀ k, k + 1 < n → next (f k) = f (k + 1))
    (hlast : ∀ k, k + 1 = n → next (f k) = null) (m : Nat) : ∀ {j : Nat}, j + (m + 1) = n →
    Linked next null (f j) ((List.range' j (m + 1)).map f) := by
  induction m with
  | zero =>
    intro j hj
    exact ⟨rfl, hne j (by omega), hlast j hj⟩
  | succ m ih =>
    intro j hj
    rw [List.range'_succ, List.map_cons]
    refine ⟨rfl, hne j (by omega), ?_⟩
    rw [hnext j (by omega)]
    exact ih (by omega)

end LinkedList
