import Mathlib.Data.List.Induction
import Mathlib.Tactic.Common

/-!
# Bounded double-ended queues

What a mailbox is for: values are taken from the front, put behind what is there, or in front of
it when they are urgent. The operations are partial, a full queue takes no value and a value can
only be taken when it is at the front; a list of operations is a history of the queue when it can
be taken from the empty one, and `foldlM` is what takes it.

## Main results

* `Deque.perm_of_history` — since it was last cleared a queue has lost and duplicated nothing.
* `Deque.fifo_of_history` — without urgent values it is a first-in first-out queue.
-/

/-- The operations on a queue. -/
inductive DequeOp (α : Type*)
  | pushBack (a : α)
  | pushFront (a : α)
  | popFront (a : α)
  | clear
deriving DecidableEq

namespace Deque

variable {α : Type*} [DecidableEq α] {cap : Nat} {q q' : List α} {op : DequeOp α}

/-- What an operation makes of a queue of at most `cap` values. -/
def apply (cap : Nat) (q : List α) : DequeOp α → Option (List α)
  | .pushBack a => if q.length < cap then some (q ++ [a]) else none
  | .pushFront a => if q.length < cap then some (a :: q) else none
  | .popFront a => if q.head? = some a then some q.tail else none
  | .clear => some []

@[simp] theorem apply_pushBack {a : α} (h : q.length < cap) :
    apply cap q (.pushBack a) = some (q ++ [a]) := if_pos h

@[simp] theorem apply_pushFront {a : α} (h : q.length < cap) :
    apply cap q (.pushFront a) = some (a :: q) := if_pos h

@[simp] theorem apply_popFront {a : α} : apply cap (a :: q) (.popFront a) = some q := if_pos rfl

@[simp] theorem apply_clear : apply cap q .clear = some [] := rfl

/-- What an operation that can be taken does. -/
theorem apply_cases (h : apply cap q op = some q') :
    (∃ a, op = .pushBack a ∧ q.length < cap ∧ q' = q ++ [a]) ∨
    (∃ a, op = .pushFront a ∧ q.length < cap ∧ q' = a :: q) ∨
    (∃ a, op = .popFront a ∧ q = a :: q') ∨ (op = .clear ∧ q' = []) := by
  cases op with
  | pushBack a =>
    obtain ⟨hlen, h⟩ := Option.ite_none_right_eq_some.1 h
    exact Or.inl ⟨a, rfl, hlen, (Option.some.inj h).symm⟩
  | pushFront a =>
    obtain ⟨hlen, h⟩ := Option.ite_none_right_eq_some.1 h
    exact Or.inr (Or.inl ⟨a, rfl, hlen, (Option.some.inj h).symm⟩)
  | popFront a =>
    obtain ⟨hhead, h⟩ := Option.ite_none_right_eq_some.1 h
    obtain ⟨q₁, rfl⟩ := List.head?_eq_some_iff.1 hhead
    cases h
    exact Or.inr (Or.inr (Or.inl ⟨a, rfl, rfl⟩))
  | clear => exact Or.inr (Or.inr (Or.inr ⟨rfl, (Option.some.inj h).symm⟩))

/-- The operations since the queue was last cleared. -/
def sinceClear (ops : List (DequeOp α)) : List (DequeOp α) :=
  ops.foldl (fun l op => if op = .clear then [] else l ++ [op]) []

theorem sinceClear_snoc (ops : List (DequeOp α)) (op : DequeOp α) :
    sinceClear (ops ++ [op]) = if op = .clear then [] else sinceClear ops ++ [op] := by
  unfold sinceClear
  rw [List.foldl_append]
  rfl

/-- The values put into the queue. -/
def pushed (ops : List (DequeOp α)) : List α :=
  ops.filterMap fun
    | .pushBack a => some a
    | .pushFront a => some a
    | _ => none

/-- The values taken out of the queue. -/
def popped (ops : List (DequeOp α)) : List α :=
  ops.filterMap fun
    | .popFront a => some a
    | _ => none

theorem history_snoc {ops : List (DequeOp α)} (h : (ops ++ [op]).foldlM (apply cap) [] = some q') :
    ∃ q, ops.foldlM (apply cap) [] = some q ∧ apply cap q op = some q' := by
  rw [List.foldlM_append] at h
  obtain ⟨q, hq, h⟩ := Option.bind_eq_some_iff.1 h
  rw [List.foldlM_cons, Option.bind_eq_bind, Option.bind_eq_some_iff] at h
  obtain ⟨q₁, h₁, h⟩ := h
  cases h
  exact ⟨q, hq, h₁⟩

/-- **Nothing lost and nothing duplicated** since the queue was last cleared: what was put into
it is what was taken out and what is still there. -/
theorem perm_of_history {ops : List (DequeOp α)} :
    ∀ {q : List α}, ops.foldlM (apply cap) [] = some q →
      (pushed (sinceClear ops)).Perm (popped (sinceClear ops) ++ q) := by
  induction ops using List.reverseRecOn with
  | nil =>
    intro q h
    cases h
    exact List.Perm.refl _
  | append_singleton ops op ih =>
    intro q' h
    obtain ⟨q, hq, hop⟩ := history_snoc h
    have hperm := ih hq
    simp only [pushed, popped] at hperm
    rw [sinceClear_snoc]
    rcases apply_cases hop with ⟨a, rfl, -, rfl⟩ | ⟨a, rfl, -, rfl⟩ | ⟨a, rfl, rfl⟩ | ⟨rfl, rfl⟩
    · simpa [pushed, popped, ← List.append_assoc] using hperm.append_right [a]
    · have hmid := (hperm.append_right [a]).trans (List.perm_append_singleton a _)
      simpa [pushed, popped] using hmid.trans List.perm_middle.symm
    · simpa [pushed, popped] using hperm
    · exact List.Perm.refl _

/-- **First in, first out**, when no value is urgent. -/
theorem fifo_of_history {ops : List (DequeOp α)} :
    ∀ {q : List α}, (∀ a, .pushFront a ∉ ops) → ops.foldlM (apply cap) [] = some q →
      pushed (sinceClear ops) = popped (sinceClear ops) ++ q := by
  induction ops using List.reverseRecOn with
  | nil =>
    intro q _ h
    cases h
    rfl
  | append_singleton ops op ih =>
    intro q' hurgent h
    obtain ⟨q, hq, hop⟩ := history_snoc h
    have heq := ih (fun a ha => hurgent a (List.mem_append_left _ ha)) hq
    simp only [pushed, popped] at heq
    rw [sinceClear_snoc]
    rcases apply_cases hop with ⟨a, rfl, -, rfl⟩ | ⟨a, rfl, -, rfl⟩ | ⟨a, rfl, rfl⟩ | ⟨rfl, rfl⟩
    · simp [pushed, popped, heq]
    · exact absurd (List.mem_append_right ops List.mem_cons_self) (hurgent a)
    · simpa [pushed, popped] using heq
    · rfl

end Deque
