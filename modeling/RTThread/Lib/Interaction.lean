import Mathlib.Tactic.Common

/-!
# Programs that interact

A program performs operations of its surroundings and goes on with their answers. `Interact E A α`
is the tree of such a program: it returns an `α`, or it performs an operation `e : E` and goes on,
for each answer in `A e`. An operation without an answer is one that the program does not come
back from.

`wp` is the precondition of a program in rely-guarantee style: each operation that it performs is
guaranteed by the history so far, as long as the answers are those relied on. `wp_bind` composes,
`wp_mono` weakens, and `Runs` are the histories the precondition speaks about (`wp_sound`).
-/

/-- A program with operations `E` and their answers. -/
inductive Interact (E : Type) (A : E → Type) (α : Type)
  | ret (a : α)
  | op (e : E) (k : A e → Interact E A α)

namespace Interact

variable {E : Type} {A : E → Type} {α β γ : Type}

def bind : Interact E A α → (α → Interact E A β) → Interact E A β
  | ret a, f => f a
  | op e k, f => op e fun x => (k x).bind f

instance : Monad (Interact E A) where
  pure := ret
  bind := bind

@[simp] theorem pure_eq (a : α) : (pure a : Interact E A α) = ret a := rfl

@[simp] theorem ret_bind (a : α) (f : α → Interact E A β) : (ret a >>= f) = f a := rfl

@[simp] theorem op_bind (e : E) (k : A e → Interact E A α) (f : α → Interact E A β) :
    (op e k >>= f) = op e fun x => k x >>= f := rfl

theorem bind_assoc (p : Interact E A α) (f : α → Interact E A β) (g : β → Interact E A γ) :
    (p >>= f) >>= g = p >>= fun a => f a >>= g := by
  induction p with
  | ret a => rfl
  | op e k ih => exact congrArg (op e) (funext ih)

-- --------
-- Preconditions
-- --------

/-- The operations performed so far, with their answers. -/
abbrev History (E : Type) (A : E → Type) := List (Sigma A)

variable {G : History E A → E → Prop} {R : History E A → (e : E) → A e → Prop}
  {Q Q' : History E A → α → Prop} {h h' : History E A}

/-- After the history `h`, each operation of the program is guaranteed by `G` and its result
satisfies `Q`, if the answers satisfy `R`. -/
def wp (G : History E A → E → Prop) (R : History E A → (e : E) → A e → Prop) :
    Interact E A α → (History E A → α → Prop) → History E A → Prop
  | ret a, Q, h => Q h a
  | op e k, Q, h => G h e ∧ ∀ x, R h e x → wp G R (k x) Q (h ++ [⟨e, x⟩])

theorem wp_ret {a : α} (hQ : Q h a) : wp G R (ret a) Q h := hQ

theorem wp_mono {p : Interact E A α} (hQ : ∀ h a, Q h a → Q' h a) (hp : wp G R p Q h) :
    wp G R p Q' h := by
  induction p generalizing h with
  | ret a => exact hQ h a hp
  | op e k ih => exact ⟨hp.1, fun x hx => ih x (hp.2 x hx)⟩

/-- **Composition.** -/
theorem wp_bind {p : Interact E A α} {f : α → Interact E A β} {Q : History E A → β → Prop}
    (hp : wp G R p (fun h a => wp G R (f a) Q h) h) : wp G R (p >>= f) Q h := by
  induction p generalizing h with
  | ret a => exact hp
  | op e k ih => exact ⟨hp.1, fun x hx => ih x (hp.2 x hx)⟩

theorem wp_ite {c : Prop} [Decidable c] {p q : Interact E A α} (hp : c → wp G R p Q h)
    (hq : ¬ c → wp G R q Q h) : wp G R (if c then p else q) Q h := by
  by_cases hc : c
  · rw [if_pos hc]
    exact hp hc
  · rw [if_neg hc]
    exact hq hc

-- --------
-- Runs
-- --------

/-- A run: the program `p` after the history `h` comes to `q` after `h'`, with answers that
satisfy `R`. -/
inductive Run (R : History E A → (e : E) → A e → Prop) :
    Interact E A α → History E A → Interact E A α → History E A → Prop
  | refl (p : Interact E A α) (h : History E A) : Run R p h p h
  | step {e : E} {k : A e → Interact E A α} {h h' : History E A} {q : Interact E A α} (x : A e)
      (hx : R h e x) (hrun : Run R (k x) (h ++ [⟨e, x⟩]) q h') : Run R (op e k) h q h'

/-- **Soundness.** What the precondition promises holds along every run. -/
theorem wp_sound {p q : Interact E A α} (hrun : Run R p h q h') (hp : wp G R p Q h) :
    wp G R q Q h' := by
  induction hrun with
  | refl p h => exact hp
  | step x hx _ ih => exact ih (hp.2 x hx)

end Interact
