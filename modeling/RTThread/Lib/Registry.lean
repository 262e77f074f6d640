import Mathlib.Data.List.Basic
import Mathlib.Logic.Function.Basic

/-!
# Named objects with reference counts

A registry maps names to objects and counts the references to each. An object lives as long as it
has a name or a reference, and is destroyed when it loses the last of both.
-/

/-- The object of each name, the name of each object, and the references. -/
structure Registry (α : Type*) where
  named : α → Option Nat
  nameOf : Nat → Option α
  refs : Nat → Nat
  /-- the objects that were destroyed, in this order -/
  destroyed : List Nat
  /-- the next new object -/
  next : Nat

namespace Registry

variable {α : Type*} [DecidableEq α] (r : Registry α) {n n' : α} {i j : Nat}

def empty : Registry α := ⟨fun _ => none, fun _ => none, fun _ => 0, [], 0⟩

def Alive (i : Nat) : Prop := (r.nameOf i).isSome ∨ 0 < r.refs i

instance : Decidable (r.Alive i) := instDecidableOr

/-- A new object of a name. -/
def create (n : α) : Registry α where
  named := Function.update r.named n (some r.next)
  nameOf := Function.update r.nameOf r.next (some n)
  refs := Function.update r.refs r.next 1
  destroyed := r.destroyed
  next := r.next + 1

/-- One reference more. -/
def addRef (i : Nat) : Registry α := { r with refs := Function.update r.refs i (r.refs i + 1) }

/-- One reference less. -/
def dropRef (i : Nat) : Registry α :=
  { r with
    refs := Function.update r.refs i (r.refs i - 1)
    destroyed := if (r.nameOf i).isNone ∧ r.refs i = 1 then r.destroyed ++ [i] else r.destroyed }

/-- The object loses its name. -/
def dropName (n : α) (i : Nat) : Registry α :=
  { r with
    named := Function.update r.named n none
    nameOf := Function.update r.nameOf i none
    destroyed := if r.refs i = 0 then r.destroyed ++ [i] else r.destroyed }

/-- Names and objects belong together, and objects that are alive were made. -/
structure Sound (r : Registry α) : Prop where
  inverse : ∀ n i, r.named n = some i ↔ r.nameOf i = some n
  below : ∀ i, r.Alive i → i < r.next

variable {r}

omit [DecidableEq α] in
theorem sound_empty : (empty : Registry α).Sound :=
  ⟨fun _ _ => iff_of_false nofun nofun, fun i h => by
    rcases h with h | h <;> cases h⟩

theorem alive_create : (r.create n).Alive i ↔ i = r.next ∨ r.Alive i := by
  unfold Alive create
  by_cases hi : i = r.next
  · subst hi
    simp
  · simp [hi]

omit [DecidableEq α] in
theorem alive_addRef : (r.addRef j).Alive i ↔ i = j ∨ r.Alive i := by
  unfold Alive addRef
  by_cases hi : i = j
  · subst hi
    simp
  · simp [hi]

omit [DecidableEq α] in
theorem alive_dropRef (hj : 0 < r.refs j) :
    (r.dropRef j).Alive i ↔ r.Alive i ∧ ¬ (i = j ∧ (r.nameOf j).isNone ∧ r.refs j = 1) := by
  unfold Alive dropRef
  by_cases hi : i = j
  · subst hi
    cases r.nameOf i with
    | none =>
      simp only [Function.update_self, Option.isSome_none, Option.isNone_none]
      simp
      omega
    | some m => simp
  · simp [hi]

theorem alive_dropName (hj : (r.nameOf j).isSome) :
    (r.dropName n j).Alive i ↔ r.Alive i ∧ ¬ (i = j ∧ r.refs j = 0) := by
  unfold Alive dropName
  by_cases hi : i = j
  · subst hi
    simp only [Function.update_self, hj]
    simp
    omega
  · simp [hi]

theorem Sound.create (h : r.Sound) (hn : r.named n = none) : (r.create n).Sound where
  inverse m i := by
    have hfresh : r.nameOf r.next = none := by
      by_contra hne
      exact absurd (h.below _ (Or.inl (Option.isSome_iff_ne_none.2 hne))) (Nat.lt_irrefl _)
    unfold Registry.create
    dsimp only
    by_cases hm : m = n <;> by_cases hi : i = r.next
    · subst hm hi
      simp
    · subst hm
      rw [Function.update_self, Function.update_of_ne hi, ← h.inverse, hn]
      simp only [Option.some.injEq, reduceCtorEq, iff_false]
      exact fun heq => hi heq.symm
    · subst hi
      rw [Function.update_of_ne hm, Function.update_self, h.inverse, hfresh]
      simp only [reduceCtorEq, Option.some.injEq, false_iff]
      exact fun heq => hm heq.symm
    · rw [Function.update_of_ne hm, Function.update_of_ne hi, h.inverse]
  below i hi := by
    rcases alive_create.1 hi with rfl | hi
    · exact Nat.lt_succ_self _
    · exact Nat.lt_succ_of_lt (h.below i hi)

omit [DecidableEq α] in
theorem Sound.addRef (h : r.Sound) (hj : r.Alive j) : (r.addRef j).Sound where
  inverse := h.inverse
  below i hi := by
    rcases alive_addRef.1 hi with rfl | hi
    · exact h.below _ hj
    · exact h.below i hi

omit [DecidableEq α] in
theorem Sound.dropRef (h : r.Sound) (hj : 0 < r.refs j) : (r.dropRef j).Sound where
  inverse := h.inverse
  below i hi := h.below i ((alive_dropRef hj).1 hi).1

theorem Sound.dropName (h : r.Sound) (hn : r.named n = some j) : (r.dropName n j).Sound where
  inverse m i := by
    have hname : r.nameOf j = some n := (h.inverse n j).1 hn
    unfold Registry.dropName
    dsimp only
    by_cases hm : m = n <;> by_cases hi : i = j
    · subst hm hi
      simp
    · subst hm
      rw [Function.update_self, Function.update_of_ne hi, ← h.inverse, hn]
      simp only [reduceCtorEq, Option.some.injEq, false_iff]
      exact fun heq => hi heq.symm
    · subst hi
      rw [Function.update_of_ne hm, Function.update_self, h.inverse, hname]
      simp only [Option.some.injEq, reduceCtorEq, iff_false]
      exact fun heq => hm heq.symm
    · rw [Function.update_of_ne hm, Function.update_of_ne hi, h.inverse]
  below i hi := by
    have hname : (r.nameOf j).isSome := by rw [(h.inverse n j).1 hn]; rfl
    exact h.below i ((alive_dropName hname).1 hi).1

end Registry
