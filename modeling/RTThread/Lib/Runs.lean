import Mathlib.Logic.Relation

/-!
# Runs of a labelled transition system

A step relation `Step s a s'` says that the action `a` may take the state `s`
to `s'`. `Runs Step Ok` is the reachability relation of the runs in which every
action satisfies `Ok` in the state it is taken in; with `Ok` always true these
are all runs. The one induction every safety result needs is `Runs.invariant`.
-/

/-- `s'` is reached from `s` by actions that all satisfy `Ok` when they are taken. -/
def Runs {σ α : Type*} (Step : σ → α → σ → Prop) (Ok : σ → α → Prop) : σ → σ → Prop :=
  Relation.ReflTransGen fun s s' => ∃ a, Ok s a ∧ Step s a s'

namespace Runs

variable {σ α : Type*} {Step : σ → α → σ → Prop} {Ok Ok' : σ → α → Prop} {s s' s'' : σ}

/-- Every action is allowed. -/
def always : σ → α → Prop := fun _ _ => True

instance (s : σ) (a : α) : Decidable (always s a) := isTrue trivial

theorem refl : Runs Step Ok s s := Relation.ReflTransGen.refl

theorem snoc {a : α} (h : Runs Step Ok s s') (hok : Ok s' a) (hstep : Step s' a s'') :
    Runs Step Ok s s'' :=
  Relation.ReflTransGen.tail h ⟨a, hok, hstep⟩

/-- **Invariants.** What every allowed step preserves holds along every allowed run. -/
theorem invariant {Inv : σ → Prop}
    (hstep : ∀ s a s', Inv s → Ok s a → Step s a s' → Inv s')
    (h : Runs Step Ok s s') (h0 : Inv s) : Inv s' := by
  induction h with
  | refl => exact h0
  | tail _ hs ih =>
    obtain ⟨a, hok, ha⟩ := hs
    exact hstep _ a _ ih hok ha

/-- A run is also one under a condition that its own condition and an invariant give. -/
theorem mono {Inv : σ → Prop} (hok : ∀ s a, Inv s → Ok s a → Ok' s a)
    (hstep : ∀ s a s', Inv s → Ok s a → Step s a s' → Inv s')
    (h : Runs Step Ok s s') (h0 : Inv s) : Runs Step Ok' s s' := by
  have hboth : Runs Step Ok' s s' ∧ Inv s' := by
    induction h with
    | refl => exact ⟨refl, h0⟩
    | tail _ hs ih =>
      obtain ⟨a, ha, hsa⟩ := hs
      obtain ⟨hrun, hinv⟩ := ih
      exact ⟨hrun.snoc (hok _ a hinv ha) hsa, hstep _ a _ hinv ha hsa⟩
  exact hboth.1

-- --------
-- Observed runs
-- --------

/-- A step together with what an observer makes of it: its record `γ` is updated from the state
before the step and the action. -/
def Observed {γ : Type*} (Step : σ → α → σ → Prop) (observe : γ → σ → α → γ) :
    σ × γ → α → σ × γ → Prop :=
  fun p a q => Step p.1 a q.1 ∧ q.2 = observe p.2 p.1 a

theorem of_observed {γ : Type*} {observe : γ → σ → α → γ} {Ok₂ : σ × γ → α → Prop} {p q : σ × γ}
    (hok : ∀ p a, Ok₂ p a → Ok p.1 a) (h : Runs (Observed Step observe) Ok₂ p q) :
    Runs Step Ok p.1 q.1 := by
  induction h with
  | refl => exact refl
  | tail _ hs ih =>
    obtain ⟨a, ha, hsa, -⟩ := hs
    exact ih.snoc (hok _ a ha) hsa

/-- An observer that keeps the steps: the state and what was done in it. -/
def steps (log : List (σ × α)) (s : σ) (a : α) : List (σ × α) := (s, a) :: log

/-- Every step that was kept is one of the run. -/
theorem mem_steps {Ok : σ × List (σ × α) → α → Prop} {log : List (σ × α)}
    (h : Runs (Observed Step steps) Ok (s, []) (s', log)) :
    ∀ p ∈ log, Runs Step always s p.1 ∧ ∃ s', Step p.1 p.2 s' := by
  have hboth : Runs Step always s s' ∧
      ∀ p ∈ log, Runs Step always s p.1 ∧ ∃ s', Step p.1 p.2 s' := by
    refine @invariant _ _ _ _ _ _
      (fun q => Runs Step always s q.1 ∧
        ∀ p ∈ q.2, Runs Step always s p.1 ∧ ∃ s', Step p.1 p.2 s') ?_ h ⟨refl, nofun⟩
    rintro ⟨s₁, log₁⟩ a ⟨s₂, log₂⟩ ⟨hrun, hlog⟩ - ⟨hstep, hkept⟩
    have hkept : log₂ = (s₁, a) :: log₁ := hkept
    subst hkept
    refine ⟨hrun.snoc trivial hstep, fun p hp => ?_⟩
    rcases List.mem_cons.1 hp with rfl | hp
    · exact ⟨hrun, s₂, hstep⟩
    · exact hlog p hp
  exact hboth.2

/-- **When a run is good.** As long as every step met the condition there is an invariant. Then the
states of a run are all good if and only if its steps all meet the condition. -/
theorem steps_good_iff {Inv Good : σ → Prop} {Cond : σ → α → Prop}
    {Ok : σ × List (σ × α) → α → Prop} {log : List (σ × α)} (hgood : ∀ s, Inv s → Good s)
    (hstep : ∀ s a s', Inv s → Step s a s' → (Good s' ↔ Cond s a) ∧ (Cond s a → Inv s'))
    (h0 : Inv s) (h : Runs (Observed Step steps) Ok (s, []) (s', log)) :
    (Good s' ∧ ∀ p ∈ log, Good p.1) ↔ ∀ p ∈ log, Cond p.1 p.2 := by
  have hboth : ((Good s' ∧ ∀ p ∈ log, Good p.1) ↔ ∀ p ∈ log, Cond p.1 p.2) ∧
      ((∀ p ∈ log, Cond p.1 p.2) → Inv s') := by
    refine @invariant _ _ _ _ _ _
      (fun q => ((Good q.1 ∧ ∀ p ∈ q.2, Good p.1) ↔ ∀ p ∈ q.2, Cond p.1 p.2) ∧
        ((∀ p ∈ q.2, Cond p.1 p.2) → Inv q.1)) ?_ h
      ⟨iff_of_true ⟨hgood _ h0, nofun⟩ nofun, fun _ => h0⟩
    rintro ⟨s₁, log₁⟩ a ⟨s₂, log₂⟩ ⟨hiff, hinv⟩ - ⟨hs, hkept⟩
    have hkept : log₂ = (s₁, a) :: log₁ := hkept
    subst hkept
    refine ⟨?_, fun hall => ?_⟩
    · rw [List.forall_mem_cons, List.forall_mem_cons]
      constructor
      · rintro ⟨hs₂, hs₁, hlog⟩
        have hall := hiff.1 ⟨hs₁, hlog⟩
        exact ⟨(hstep _ _ _ (hinv hall) hs).1.1 hs₂, hall⟩
      · rintro ⟨hcond, hall⟩
        obtain ⟨hs₁, hlog⟩ := hiff.2 hall
        exact ⟨(hstep _ _ _ (hinv hall) hs).1.2 hcond, hs₁, hlog⟩
    · rw [List.forall_mem_cons] at hall
      exact (hstep _ _ _ (hinv hall.2) hs).2 hall.1
  exact hboth.1

-- --------
-- Systems given by a function
-- --------

/-- The steps of a function that says which state an action leads to, where it can be taken. -/
def Exec (exec : σ → α → Option σ) : σ → α → σ → Prop := fun s a s' => exec s a = some s'

/-- An action that can be taken if the condition holds. -/
def takeIf (p : Prop) [Decidable p] (s' : σ) : Option σ :=
  if p then some s' else none

theorem takeIf_eq_some {p : Prop} [Decidable p] {s₁ s₂ : σ} :
    takeIf p s₁ = some s₂ ↔ p ∧ s₁ = s₂ := by
  unfold takeIf
  by_cases hp : p
  · simp [hp]
  · simp [hp]

-- --------
-- Replayed runs
-- --------

/-- The actions of a list taken one after the other, by a function that says which state an
action leads to. -/
def replay (exec : σ → α → Option σ) : σ → List α → Option σ
  | s, [] => some s
  | s, a :: as => (exec s a).bind fun s' => replay exec s' as

/-- An observer joins in. -/
def execObserved {γ : Type*} (exec : σ → α → Option σ) (observe : γ → σ → α → γ)
    (p : σ × γ) (a : α) : Option (σ × γ) :=
  (exec p.1 a).map fun s' => (s', observe p.2 p.1 a)

variable {exec : σ → α → Option σ}

/-- **What is replayed is a run.** -/
theorem of_replay (hexec : ∀ s a s', exec s a = some s' → Ok s a ∧ Step s a s') {as : List α} :
    ∀ {s : σ}, replay exec s as = some s' → Runs Step Ok s s' := by
  induction as with
  | nil =>
    intro s h
    rw [replay, Option.some.injEq] at h
    subst h
    exact refl
  | cons a as ih =>
    intro s h
    rw [replay, Option.bind_eq_some_iff] at h
    obtain ⟨s₁, h₁, h⟩ := h
    exact Relation.ReflTransGen.head ⟨a, hexec s a s₁ h₁⟩ (ih h)

theorem exists_of_replay (hexec : ∀ s a s', exec s a = some s' → Ok s a ∧ Step s a s')
    {as : List α} {p : σ → Bool} (h : (replay exec s as).any p = true) :
    ∃ s', replay exec s as = some s' ∧ Runs Step Ok s s' ∧ p s' = true := by
  cases hr : replay exec s as with
  | none =>
    rw [hr] at h
    cases h
  | some s' =>
    rw [hr] at h
    exact ⟨s', rfl, of_replay hexec hr, h⟩

/-- An executor that refuses the actions that are not `Ok`. -/
def execOk (exec : σ → α → Option σ) (Ok : σ → α → Prop) [∀ s a, Decidable (Ok s a)] (s : σ)
    (a : α) : Option σ :=
  if Ok s a then exec s a else none

theorem exec_of_replay [∀ s a, Decidable (Ok s a)] {as : List α} {p : σ → Bool}
    (h : (replay (execOk exec Ok) s as).any p = true) :
    ∃ s', replay (execOk exec Ok) s as = some s' ∧ Runs (Exec exec) Ok s s' ∧ p s' = true := by
  refine exists_of_replay (fun s a s' hs => ?_) h
  unfold execOk at hs
  split at hs
  case isTrue hok => exact ⟨hok, hs⟩
  case isFalse => cases hs

/-- The replay of such a system with an observer. -/
theorem observed_of_replay {γ : Type*} {observe : γ → σ → α → γ} {Ok : σ × γ → α → Prop}
    [∀ p a, Decidable (Ok p a)] {as : List α} {p : σ × γ → Bool} {q : σ × γ}
    (h : (replay (execOk (execObserved exec observe) Ok) q as).any p = true) :
    ∃ q', Runs (Observed (Exec exec) observe) Ok q q' ∧ p q' = true := by
  obtain ⟨q', -, hrun, hp⟩ := @exists_of_replay _ _ (Observed (Exec exec) observe) Ok q _
    (fun q₁ a q₂ hq => by
      unfold execOk at hq
      split at hq
      case isTrue hok =>
        obtain ⟨s', hs, rfl⟩ := Option.map_eq_some_iff.1 hq
        exact ⟨hok, hs, rfl⟩
      case isFalse => cases hq) as p h
  exact ⟨q', hrun, hp⟩

/-- Every action of a list has the property in the state it is taken in. Behind an action that
cannot be taken nothing is left to say. -/
def Along (exec : σ → α → Option σ) (P : σ → α → Prop) : σ → List α → Prop
  | _, [] => True
  | s, a :: as => P s a ∧ ∀ s', exec s a = some s' → Along exec P s' as

theorem along_iff {Inv : σ → Prop} {P Q : σ → α → Prop} (hiff : ∀ s a, Inv s → (P s a ↔ Q s a))
    (hstep : ∀ s a s', Inv s → Q s a → exec s a = some s' → Inv s') {as : List α} :
    ∀ {s : σ}, Inv s → (Along exec P s as ↔ Along exec Q s as) := by
  induction as with
  | nil => exact fun _ => Iff.rfl
  | cons a as ih =>
    intro s hinv
    rw [Along, Along, hiff s a hinv]
    refine and_congr_right fun hq => ?_
    exact forall₂_congr fun s' hs' => ih (hstep s a s' hinv hq hs')

theorem along_imp {Inv : σ → Prop} {P Q : σ → α → Prop} (himp : ∀ s a, Inv s → P s a → Q s a)
    (hstep : ∀ s a s', Inv s → P s a → exec s a = some s' → Inv s') {as : List α} :
    ∀ {s : σ}, Inv s → Along exec P s as → Along exec Q s as := by
  induction as with
  | nil => exact fun _ _ => trivial
  | cons a as ih =>
    rintro s hinv ⟨hp, hrest⟩
    exact ⟨himp s a hinv hp, fun s' hs' => ih (hstep s a s' hinv hp hs') (hrest s' hs')⟩

-- --------
-- Refinement
-- --------

/-- A function that also says what a step yields: what is yielded is collected. -/
def traced {ε : Type*} (exec : σ → α → Option (σ × List ε)) (p : σ × List ε) (a : α) :
    Option (σ × List ε) :=
  (exec p.1 a).map fun r => (r.1, p.2 ++ r.2)

/-- **Refinement.** If every allowed step yields what the abstract system can do between the
abstractions of its two states, then so does every allowed run. -/
theorem refines {β ε : Type*} {exec : σ → α → Option (σ × List ε)} {abs : σ → β}
    {apply : β → ε → Option β} {Inv : σ → Prop} {Ok : σ × List ε → α → Prop} {p : σ × List ε}
    (hstep : ∀ s tr a s' es, Inv s → Ok (s, tr) a → exec s a = some (s', es) →
      Inv s' ∧ es.foldlM apply (abs s) = some (abs s'))
    (hrun : Runs (Exec (traced exec)) Ok (s, []) p) (h0 : Inv s) :
    Inv p.1 ∧ p.2.foldlM apply (abs s) = some (abs p.1) := by
  refine @invariant _ _ _ _ _ _
    (fun p => Inv p.1 ∧ p.2.foldlM apply (abs s) = some (abs p.1)) ?_ hrun ⟨h0, rfl⟩
  rintro ⟨s₁, tr⟩ a ⟨s₂, tr'⟩ ⟨hinv, htr⟩ hok hs
  obtain ⟨⟨s₃, es⟩, hexec, heq⟩ := Option.map_eq_some_iff.1 hs
  cases heq
  obtain ⟨hinv', hes⟩ := hstep s₁ tr a _ es hinv hok hexec
  refine ⟨hinv', ?_⟩
  rw [List.foldlM_append, htr]
  exact hes

end Runs
