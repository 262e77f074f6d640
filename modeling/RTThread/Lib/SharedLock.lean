import Mathlib.Data.Finset.Card
import Mathlib.Data.List.Defs

/-!
# A lock that many share or one owns

`SharedLock` says who has the lock: those that share it, once for each time, or the one that owns it,
and never both (a field). `step` refuses what is not allowed in a state, so that whatever gives a list
of steps that are all taken excludes. `Counts` is the number of those with a property.
-/

/-- **The lock.** -/
structure SharedLock (α : Type*) where
  sharers : List α
  owner : Option α
  alone : owner.isSome → sharers = []

/-- What is done with it. -/
inductive SharedLock.Act (α : Type*)
  | share (a : α)
  | own (a : α)
  | release (a : α)

namespace SharedLock

variable {α : Type*}

def free : SharedLock α := ⟨[], none, fun h => absurd h Bool.false_ne_true⟩

/-- How much the lock is taken: `-1` by an owner, or as often as it is shared. -/
def level (l : SharedLock α) : Int := if l.owner.isSome then -1 else l.sharers.length

/-- It has the lock. -/
def Has (l : SharedLock α) (a : α) : Prop := l.owner = some a ∨ a ∈ l.sharers

instance [DecidableEq α] (l : SharedLock α) (a : α) : Decidable (l.Has a) :=
  inferInstanceAs (Decidable (_ ∨ _))

/-- A step, where it is allowed. -/
def step [DecidableEq α] (l : SharedLock α) : Act α → Option (SharedLock α)
  | .share a => if l.level < 0 then none
    else some ⟨a :: l.sharers, none, fun h => absurd h Bool.false_ne_true⟩
  | .own a => if l.level = 0 then some ⟨[], some a, fun _ => rfl⟩ else none
  | .release a => if l.owner = some a then some free
    else if a ∈ l.sharers then
      some ⟨l.sharers.erase a, none, fun h => absurd h Bool.false_ne_true⟩ else none

variable {l l' : SharedLock α} {a : α}

theorem level_neg : l.level < 0 ↔ l.owner.isSome := by
  unfold level
  split
  case isTrue h => exact iff_of_true (by decide) h
  case isFalse h => exact iff_of_false (by omega) h

theorem Has.level_ne (h : l.Has a) : l.level ≠ 0 := by
  unfold level
  split
  case isTrue => decide
  case isFalse hfree =>
    have hmem : a ∈ l.sharers := h.resolve_left fun ho => hfree (by rw [ho]; rfl)
    have := List.length_pos_of_mem hmem
    omega

variable [DecidableEq α]

theorem step_share (h : 0 ≤ l.level) : ∃ l', l.step (.share a) = some l' ∧
    l'.level = l.level + 1 := by
  refine ⟨_, if_neg (by omega), ?_⟩
  have hfree : ¬ l.owner.isSome := fun ho => absurd (level_neg.mpr ho) (by omega)
  rw [level, level, if_neg hfree]
  rfl

theorem step_own (h : l.level = 0) : ∃ l', l.step (.own a) = some l' ∧ l'.level = -1 :=
  ⟨_, if_pos h, rfl⟩

/-- Who has the lock can release it: it is free behind an owner, and shared once less behind one of
those that share it. -/
theorem step_release (h : l.Has a) : ∃ l', l.step (.release a) = some l' ∧
    l'.level = if l.level < 0 then 0 else l.level - 1 := by
  by_cases ho : l.owner = some a
  · have hneg : l.level < 0 := level_neg.mpr (by rw [ho]; rfl)
    exact ⟨free, if_pos ho, (if_pos hneg).symm⟩
  · have hmem : a ∈ l.sharers := h.resolve_left ho
    have hfree : ¬ l.owner.isSome := fun hs => by simp [l.alone hs] at hmem
    refine ⟨_, (if_neg ho).trans (if_pos hmem), ?_⟩
    have hlen := List.length_pos_of_mem hmem
    rw [if_neg fun hn => hfree (level_neg.mp hn), level, level, if_neg hfree]
    show ((l.sharers.erase a).length : Int) = l.sharers.length - 1
    rw [List.length_erase_of_mem hmem]
    omega

end SharedLock

/-- So many have the property. -/
def Counts {α : Type*} (P : α → Prop) (n : Int) : Prop :=
  ∃ s : Finset α, (∀ a, a ∈ s ↔ P a) ∧ n = s.card

namespace Counts

variable {α : Type*} {P Q : α → Prop} {n : Int} {a : α}

theorem congr (h : Counts P n) (hPQ : ∀ b, P b ↔ Q b) : Counts Q n := by
  obtain ⟨s, hs, hn⟩ := h
  exact ⟨s, fun b => (hs b).trans (hPQ b), hn⟩

theorem nonneg (h : Counts P n) : 0 ≤ n := by
  obtain ⟨s, -, hn⟩ := h
  omega

theorem pos_iff (h : Counts P n) : 0 < n ↔ ∃ a, P a := by
  obtain ⟨s, hs, hn⟩ := h
  rw [hn, Int.natCast_pos, Finset.card_pos]
  exact exists_congr hs

variable [DecidableEq α]

/-- One more. -/
theorem insert (h : Counts P n) (ha : ¬ P a) (hQ : ∀ b, Q b ↔ b = a ∨ P b) : Counts Q (n + 1) := by
  obtain ⟨s, hs, hn⟩ := h
  refine ⟨Insert.insert a s, fun b => ?_, ?_⟩
  · rw [Finset.mem_insert, hs, hQ]
  · rw [Finset.card_insert_of_notMem (fun hmem => ha ((hs a).mp hmem)), hn]
    rfl

/-- One less. -/
theorem erase (h : Counts P n) (ha : P a) (hQ : ∀ b, Q b ↔ b ≠ a ∧ P b) : Counts Q (n - 1) := by
  obtain ⟨s, hs, hn⟩ := h
  have hmem := (hs a).mpr ha
  have hpos := Finset.card_pos.mpr ⟨a, hmem⟩
  refine ⟨s.erase a, fun b => ?_, ?_⟩
  · rw [Finset.mem_erase, hs, hQ]
  · rw [Finset.card_erase_of_mem hmem, hn]
    omega

end Counts
