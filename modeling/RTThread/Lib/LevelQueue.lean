import Mathlib.Data.List.Induction
import Mathlib.Logic.Function.Basic
import Mathlib.Tactic.Common

/-!
# Queues with levels

Values wait at levels, the lower the more urgent. Who takes a value takes the first one of the
lowest level that has one, keeps it in the hand, and gives it away later. A history is a list of
events, each of which does to the queue what it says.

## Main results

* `History.levels` — what was put at a level is what was taken from it and what is still there, in
  this order.
* `History.hands` — everybody gives away what they took, in the order they took it.
* `History.urgent` — when a value is taken, nothing is left at the levels below.
-/

/-- Values at levels `ι`, and in the hands of `κ`. -/
structure LevelQueue (ι κ α : Type*) where
  level : ι → List α
  hand : κ → Option α

namespace LevelQueue

/-- What is done to a queue. -/
inductive Event (ι κ α : Type*)
  | put (p : ι) (x : α)
  | take (k : κ) (p : ι) (x : α)
  | give (k : κ) (x : α)
deriving DecidableEq

variable {ι κ α : Type*}

def empty : LevelQueue ι κ α := ⟨fun _ => [], fun _ => none⟩

section Levels

variable [DecidableEq ι]

/-- The values put at a level. -/
def putAt (p : ι) : List (Event ι κ α) → List α :=
  List.filterMap fun
    | .put p' x => if p' = p then some x else none
    | _ => none

/-- The values taken from a level. -/
def takenAt (p : ι) : List (Event ι κ α) → List α :=
  List.filterMap fun
    | .take _ p' x => if p' = p then some x else none
    | _ => none

theorem putAt_snoc (p : ι) (es : List (Event ι κ α)) (e : Event ι κ α) :
    putAt p (es ++ [e]) = putAt p es ++ putAt p [e] := List.filterMap_append

theorem takenAt_snoc (p : ι) (es : List (Event ι κ α)) (e : Event ι κ α) :
    takenAt p (es ++ [e]) = takenAt p es ++ takenAt p [e] := List.filterMap_append

end Levels

section Hands

variable [DecidableEq κ]

/-- The values somebody took. -/
def takenBy (k : κ) : List (Event ι κ α) → List α :=
  List.filterMap fun
    | .take k' _ x => if k' = k then some x else none
    | _ => none

/-- The values somebody gave away. -/
def givenBy (k : κ) : List (Event ι κ α) → List α :=
  List.filterMap fun
    | .give k' x => if k' = k then some x else none
    | _ => none

theorem takenBy_snoc (k : κ) (es : List (Event ι κ α)) (e : Event ι κ α) :
    takenBy k (es ++ [e]) = takenBy k es ++ takenBy k [e] := List.filterMap_append

theorem givenBy_snoc (k : κ) (es : List (Event ι κ α)) (e : Event ι κ α) :
    givenBy k (es ++ [e]) = givenBy k es ++ givenBy k [e] := List.filterMap_append

end Hands

variable [DecidableEq ι] [LT ι] [DecidableEq κ]

/-- What an event does. -/
inductive Does : LevelQueue ι κ α → Event ι κ α → LevelQueue ι κ α → Prop
  | put (q p x) : Does q (.put p x) { q with level := Function.update q.level p (q.level p ++ [x]) }
  | take (q k p x l) (hfirst : q.level p = x :: l) (hurgent : ∀ p' < p, q.level p' = [])
      (hhand : q.hand k = none) :
      Does q (.take k p x) ⟨Function.update q.level p l, Function.update q.hand k (some x)⟩
  | give (q k x) (hhand : q.hand k = some x) :
      Does q (.give k x) { q with hand := Function.update q.hand k none }

/-- The events lead from the empty queue to this one. -/
inductive History : List (Event ι κ α) → LevelQueue ι κ α → Prop
  | nil : History [] empty
  | snoc {es e q q'} (h : History es q) (hdoes : Does q e q') : History (es ++ [e]) q'

variable {es es₁ es₂ : List (Event ι κ α)} {e : Event ι κ α} {q : LevelQueue ι κ α} {p p' : ι}
  {k : κ} {x : α}

/-- **What was put at a level** was taken from it in the same order, or is still there. -/
theorem History.levels (h : History es q) (p : ι) : putAt p es = takenAt p es ++ q.level p := by
  induction h with
  | nil => rfl
  | snoc h hdoes ih =>
    rw [putAt_snoc, takenAt_snoc, ih]
    cases hdoes with
    | put p' x =>
      by_cases hp : p' = p
      · subst hp
        simp [putAt, takenAt]
      · simp [putAt, takenAt, hp, Function.update_of_ne (Ne.symm hp)]
    | take k p' x l hfirst =>
      by_cases hp : p' = p
      · subst hp
        simp [putAt, takenAt, hfirst]
      · simp [putAt, takenAt, hp, Function.update_of_ne (Ne.symm hp)]
    | give k x => simp [putAt, takenAt]

/-- **Everybody gives away what they took**, in the same order. -/
theorem History.hands (h : History es q) (k : κ) :
    takenBy k es = givenBy k es ++ (q.hand k).toList := by
  induction h with
  | nil => rfl
  | snoc h hdoes ih =>
    rw [takenBy_snoc, givenBy_snoc, ih]
    cases hdoes with
    | put p x => simp [takenBy, givenBy]
    | take k' p x l _ _ hhand =>
      by_cases hk : k' = k
      · subst hk
        simp [takenBy, givenBy, hhand]
      · simp [takenBy, givenBy, hk, Function.update_of_ne (Ne.symm hk)]
    | give k' x hhand =>
      by_cases hk : k' = k
      · subst hk
        simp [takenBy, givenBy, hhand]
      · simp [takenBy, givenBy, hk, Function.update_of_ne (Ne.symm hk)]

theorem Does.urgent {q' : LevelQueue ι κ α} (h : Does q (.take k p x) q') (hp : p' < p) :
    q.level p' = [] := by
  cases h with
  | take => exact ‹∀ p' < p, q.level p' = []› _ hp

/-- What an event was done to, and what the history was before it. -/
theorem History.cut (h : History (es₁ ++ e :: es₂) q) :
    ∃ q₁ q₂, History es₁ q₁ ∧ Does q₁ e q₂ := by
  induction es₂ using List.reverseRecOn generalizing q with
  | nil =>
    generalize hes : es₁ ++ [e] = es at h
    cases h with
    | nil => exact absurd hes (by simp)
    | snoc h hdoes =>
      obtain ⟨rfl, hlast⟩ := List.append_inj' hes rfl
      cases hlast
      exact ⟨_, _, h, hdoes⟩
  | append_singleton es₂ e' ih =>
    generalize hes : es₁ ++ e :: (es₂ ++ [e']) = es at h
    cases h with
    | nil => exact absurd hes (by simp)
    | snoc h hdoes =>
      rw [← List.cons_append, ← List.append_assoc] at hes
      obtain ⟨rfl, -⟩ := List.append_inj' hes rfl
      exact ih h

/-- **Nothing more urgent is left** when a value is taken. -/
theorem History.urgent (h : History (es₁ ++ .take k p x :: es₂) q) (hp : p' < p) :
    putAt p' es₁ = takenAt p' es₁ := by
  obtain ⟨q₁, q₂, h₁, hdoes⟩ := h.cut
  rw [h₁.levels p', hdoes.urgent hp, List.append_nil]

end LevelQueue
