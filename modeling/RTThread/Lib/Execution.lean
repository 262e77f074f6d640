import Mathlib.Logic.Function.Iterate
import Mathlib.Tactic.ByContra
import RTThread.Lib.Runs

/-!
# Executions

A run without end: in every step an action is taken, or nothing happens. What is asked of a
scheduler is a hypothesis about an execution: some actions are taken again and again.

Two rules go with it: what every step keeps holds from then on (`Execution.stays`), and what a
measure counts down is done at last, if the actions that lower it are taken again and again
(`Execution.leads_to`).
-/

/-- A run without end. -/
structure Execution {σ α : Type*} (Step : σ → α → σ → Prop) where
  state : Nat → σ
  act : Nat → Option α
  step : ∀ n a, act n = some a → Step (state n) a (state (n + 1))
  rest : ∀ n, act n = none → state (n + 1) = state n

namespace Execution

variable {σ α : Type*} {Step : σ → α → σ → Prop} (e : Execution Step) {k : Nat}

/-- What every step keeps holds from then on. -/
theorem stays {P : σ → Prop} (hstep : ∀ s a s', P s → Step s a s' → P s') (hk : P (e.state k)) :
    ∀ n, k ≤ n → P (e.state n) := by
  intro n hn
  induction hn with
  | refl => exact hk
  | @step n hn ih =>
    cases ha : e.act n with
    | none =>
      rw [e.rest n ha]
      exact ih
    | some a => exact hstep _ a _ ih (e.step n a ha)

/-- **Progress.** Until it is done no step raises the measure, and the actions that help lower it.
If as long as it is not done one of these is taken again and again, it is done at last. -/
theorem leads_to {Busy Done : σ → Prop} {Helps : α → Prop} {measure : σ → Nat}
    (hstep : ∀ s a s', Busy s → Step s a s' →
      Done s' ∨ (Busy s' ∧ measure s' ≤ measure s ∧ (Helps a → measure s' < measure s)))
    (hhelp : ∀ n, k ≤ n → Busy (e.state n) → ∃ m, n ≤ m ∧ ∃ a, e.act m = some a ∧ Helps a)
    (hk : Busy (e.state k)) : ∃ n, k < n ∧ Done (e.state n) := by
  by_contra hnot
  have hnever : ∀ n, k < n → ¬Done (e.state n) := fun n hn hdone => hnot ⟨n, hn, hdone⟩
  have hone : ∀ n, k ≤ n → Busy (e.state n) →
      Busy (e.state (n + 1)) ∧ measure (e.state (n + 1)) ≤ measure (e.state n) := by
    intro n hn hbusy
    cases ha : e.act n with
    | none =>
      rw [e.rest n ha]
      exact ⟨hbusy, Nat.le_refl _⟩
    | some a =>
      have h := (hstep _ a _ hbusy (e.step n a ha)).resolve_left (hnever _ (by omega))
      exact ⟨h.1, h.2.1⟩
  have hlater : ∀ n, k ≤ n → Busy (e.state n) → ∀ m, n ≤ m →
      Busy (e.state m) ∧ measure (e.state m) ≤ measure (e.state n) := by
    intro n hn hbusy m hm
    induction hm with
    | refl => exact ⟨hbusy, Nat.le_refl _⟩
    | @step m hm ih =>
      obtain ⟨hbusy', hle⟩ := hone m (Nat.le_trans hn hm) ih.1
      exact ⟨hbusy', Nat.le_trans hle ih.2⟩
  -- the measure would have to fall for ever
  have hfall : ∀ v n, k ≤ n → Busy (e.state n) → measure (e.state n) = v → False := by
    intro v
    induction v using Nat.strongRecOn with
    | ind v ih =>
      intro n hn hbusy hv
      obtain ⟨m, hm, a, ha, hhelps⟩ := hhelp n hn hbusy
      obtain ⟨hbusy', hle⟩ := hlater n hn hbusy m hm
      obtain ⟨hnext, -, hlt⟩ :=
        (hstep _ a _ hbusy' (e.step m a ha)).resolve_left (hnever _ (by omega))
      exact ih _ (by have := hlt hhelps; omega) (m + 1) (by omega) hnext rfl
  exact hfall _ k (Nat.le_refl _) hk rfl

/-- An execution that takes one more step first. -/
def cons {s : σ} {a : α} (e : Execution Step) (h : Step s a (e.state 0)) : Execution Step where
  state
    | 0 => s
    | n + 1 => e.state n
  act
    | 0 => some a
    | n + 1 => e.act n
  step n b hb := by
    cases n with
    | zero =>
      obtain rfl := Option.some.inj hb
      exact h
    | succ n => exact e.step n b hb
  rest n hn := by
    cases n with
    | zero => cases hn
    | succ n => exact e.rest n hn

/-- Nothing happens any more. -/
def still (s : σ) : Execution Step where
  state _ := s
  act _ := none
  step _ _ h := by cases h
  rest _ _ := rfl

/-- **A scheduler that always finds an action** has an execution of its choices. -/
theorem exists_of_choice {Inv : σ → Prop} {choose : σ → α} {next : σ → σ}
    (h : ∀ s, Inv s → Step s (choose s) (next s) ∧ Inv (next s)) {s : σ} (hs : Inv s) :
    ∃ e : Execution Step, e.state 0 = s ∧
      ∀ n, Inv (e.state n) ∧ e.act n = some (choose (e.state n)) := by
  have hinv : ∀ n, Inv (next^[n] s) := by
    intro n
    induction n with
    | zero => exact hs
    | succ n ih =>
      rw [Function.iterate_succ_apply']
      exact (h _ ih).2
  refine ⟨⟨fun n => next^[n] s, fun n => some (choose (next^[n] s)), fun n a ha => ?_,
    fun n hn => by cases hn⟩, rfl, fun n => ⟨hinv n, rfl⟩⟩
  obtain rfl := Option.some.inj ha
  rw [Function.iterate_succ_apply']
  exact (h _ (hinv n)).1

/-- **What is replayed is the beginning of an execution** in which nothing happens behind it. -/
theorem exists_of_replay {exec : σ → α → Option σ}
    (hexec : ∀ s a s', exec s a = some s' → Step s a s') {s' : σ} {as : List α} :
    ∀ {s : σ}, Runs.replay exec s as = some s' →
      ∃ e : Execution Step, e.state 0 = s ∧ (∀ n, e.act n = as[n]?) ∧
        ∀ n, as.length ≤ n → e.state n = s' := by
  induction as with
  | nil =>
    intro s h
    obtain rfl := Option.some.inj h
    exact ⟨still s, rfl, fun _ => rfl, fun _ _ => rfl⟩
  | cons a as ih =>
    intro s h
    rw [Runs.replay, Option.bind_eq_some_iff] at h
    obtain ⟨s₁, h₁, h⟩ := h
    obtain ⟨e, rfl, hact, hend⟩ := ih h
    refine ⟨e.cons (hexec s a _ h₁), rfl, fun n => ?_, fun n hn => ?_⟩
    · cases n with
      | zero => rfl
      | succ n => exact hact n
    · cases n with
      | zero => exact absurd hn (Nat.not_succ_le_zero _)
      | succ n => exact hend n (Nat.le_of_succ_le_succ hn)

end Execution
