import Mathlib.Data.List.Basic
import Mathlib.Tactic.Common

/-!
# Bounded queues

What a ring buffer is for: a first-in first-out queue of at most `cap` items,
with the bound carried by the type. `put` accepts what fits, `force` makes room
by discarding the oldest items.
-/

/-- A queue of at most `cap` items, the oldest first. -/
@[ext] structure BoundedFifo (α : Type*) (cap : Nat) where
  items : List α
  fits : items.length ≤ cap

namespace BoundedFifo

variable {α : Type*} {cap : Nat}

/-- The last `n` items of a list. -/
def lastOf (n : Nat) (l : List α) : List α := l.drop (l.length - n)

theorem length_lastOf (n : Nat) (l : List α) : (lastOf n l).length = min n l.length := by
  rw [lastOf, List.length_drop]
  omega

theorem lastOf_of_le {n : Nat} {l : List α} (h : l.length ≤ n) : lastOf n l = l := by
  rw [lastOf, Nat.sub_eq_zero_of_le h, List.drop_zero]

/-- Only the last `n` items of the second list can matter to the last `n` of both. -/
theorem lastOf_append_lastOf (n : Nat) (a b : List α) :
    lastOf n (a ++ lastOf n b) = lastOf n (a ++ b) := by
  by_cases h : b.length ≤ n
  · rw [lastOf_of_le h]
  · have hlen : (lastOf n b).length = n := by
      rw [length_lastOf]
      omega
    have hleft : lastOf n (a ++ lastOf n b) = lastOf n b := by
      rw [lastOf, List.length_append, hlen, Nat.add_sub_cancel, List.drop_left]
    have hright : lastOf n (a ++ b) = lastOf n b := by
      rw [lastOf, List.length_append, show a.length + b.length - n = a.length + (b.length - n) by
        omega, ← List.drop_drop, List.drop_left, lastOf]
    rw [hleft, hright]

theorem lastOf_lastOf_append (n : Nat) (a b : List α) :
    lastOf n (lastOf n a ++ b) = lastOf n (a ++ b) := by
  rw [lastOf, lastOf, lastOf, List.length_append, List.length_append, List.length_drop]
  by_cases h : a.length ≤ n
  · rw [Nat.sub_eq_zero_of_le h, List.drop_zero, Nat.sub_zero]
  · have hsplit : a.drop (a.length - n) ++ b = (a ++ b).drop (a.length - n) :=
      (List.drop_append_of_le_length (by omega)).symm
    rw [hsplit, List.drop_drop]
    congr 1
    omega

theorem lastOf_append {n : Nat} {a b : List α} (h : b.length ≤ n) :
    lastOf n (a ++ b) = a.drop (a.length + b.length - n) ++ b := by
  rw [lastOf, List.length_append, List.drop_append_of_le_length (by omega)]

def empty : BoundedFifo α cap := ⟨[], Nat.zero_le _⟩

/-- Append the longest prefix that fits. -/
def put (q : BoundedFifo α cap) (data : List α) : BoundedFifo α cap where
  items := q.items ++ data.take (cap - q.items.length)
  fits := by
    have := q.fits
    rw [List.length_append, List.length_take]
    omega

/-- Append all of the data and keep the newest items. -/
def force (q : BoundedFifo α cap) (data : List α) : BoundedFifo α cap where
  items := lastOf cap (q.items ++ data)
  fits := by
    rw [length_lastOf]
    omega

/-- Remove the oldest `n` items. -/
def drop (q : BoundedFifo α cap) (n : Nat) : BoundedFifo α cap where
  items := q.items.drop n
  fits := by
    have := q.fits
    rw [List.length_drop]
    omega

theorem length_force (q : BoundedFifo α cap) (data : List α) :
    (q.force data).items.length = min cap (q.items.length + data.length) := by
  rw [← List.length_append]
  exact length_lastOf _ _

theorem force_force (q : BoundedFifo α cap) (a b : List α) :
    (q.force a).force b = q.force (a ++ b) := by
  ext1
  show lastOf cap (lastOf cap (q.items ++ a) ++ b) = lastOf cap (q.items ++ (a ++ b))
  rw [lastOf_lastOf_append, List.append_assoc]

theorem force_eq_put {q : BoundedFifo α cap} {data : List α}
    (h : q.items.length + data.length ≤ cap) : q.force data = q.put data := by
  ext1
  show lastOf cap (q.items ++ data) = q.items ++ data.take _
  rw [lastOf_of_le (by rw [List.length_append]; omega), List.take_of_length_le (by omega)]

end BoundedFifo
