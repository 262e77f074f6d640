import Mathlib.Data.List.Chain
import Mathlib.Tactic.Common

/-!
# Ascending intervals

`Asc start stop lo hi l`: the half-open intervals `[start x, stop x)` of the
items of `l` lie in `[lo, hi]` in the order of the list, each beginning where
the one before it ends or later. The bounds are loose, so a list can be cut,
thinned out and extended at its end without touching the rest.
-/

/-- The intervals of `l` follow each other between `lo` and `hi`. -/
def Asc {α : Type*} (start stop : α → Nat) (lo hi : Nat) : List α → Prop
  | [] => lo ≤ hi
  | x :: xs => lo ≤ start x ∧ start x ≤ stop x ∧ Asc start stop (stop x) hi xs

namespace Asc

variable {α : Type*} {start stop start' stop' : α → Nat} {lo hi lo' hi' : Nat} {l l' : List α}
  {x y : α}

theorem le (h : Asc start stop lo hi l) : lo ≤ hi := by
  induction l generalizing lo with
  | nil => exact h
  | cons x xs ih =>
    obtain ⟨h1, h2, h3⟩ := h
    have := ih h3
    omega

theorem mono (h : Asc start stop lo hi l) (hlo : lo' ≤ lo) (hhi : hi ≤ hi') :
    Asc start stop lo' hi' l := by
  induction l generalizing lo lo' with
  | nil =>
    have : lo ≤ hi := h
    show lo' ≤ hi'
    omega
  | cons x xs ih =>
    obtain ⟨h1, h2, h3⟩ := h
    exact ⟨by omega, h2, ih h3 (Nat.le_refl _)⟩

theorem congr (h : Asc start stop lo hi l) (hs : ∀ x ∈ l, start' x = start x)
    (he : ∀ x ∈ l, stop' x = stop x) : Asc start' stop' lo hi l := by
  induction l generalizing lo with
  | nil => exact h
  | cons x xs ih =>
    obtain ⟨h1, h2, h3⟩ := h
    have hx := hs x (by simp)
    have hx' := he x (by simp)
    refine ⟨by omega, by omega, ?_⟩
    rw [hx']
    exact ih h3 (fun y hy => hs y (by simp [hy])) fun y hy => he y (by simp [hy])

theorem concat (h : Asc start stop lo hi l) (hx : hi ≤ start x) (hs : start x ≤ stop x) :
    Asc start stop lo (stop x) (l ++ [x]) := by
  induction l generalizing lo with
  | nil =>
    have : lo ≤ hi := h
    exact ⟨by omega, hs, Nat.le_refl _⟩
  | cons y ys ih =>
    obtain ⟨h1, h2, h3⟩ := h
    exact ⟨h1, h2, ih h3⟩

theorem sublist (h : Asc start stop lo hi l) (hsub : l'.Sublist l) : Asc start stop lo hi l' := by
  induction hsub generalizing lo with
  | slnil => exact h
  | cons x _ ih =>
    obtain ⟨h1, h2, h3⟩ := h
    exact (ih h3).mono (by omega) (Nat.le_refl _)
  | cons_cons x _ ih =>
    obtain ⟨h1, h2, h3⟩ := h
    exact ⟨h1, h2, ih h3⟩

/-- Items lie between the bounds. -/
theorem mem (h : Asc start stop lo hi l) (hx : x ∈ l) :
    lo ≤ start x ∧ start x ≤ stop x ∧ stop x ≤ hi := by
  induction l generalizing lo with
  | nil => cases hx
  | cons y ys ih =>
    obtain ⟨h1, h2, h3⟩ := h
    have hle := h3.le
    rcases List.mem_cons.mp hx with rfl | hx
    · omega
    · have := ih h3 hx
      omega

/-- The upper bound may be drawn at the end of the last item. -/
theorem last (h : Asc start stop lo hi l) (hx : x ∈ l.getLast?) :
    Asc start stop lo (stop x) l := by
  induction l generalizing lo with
  | nil => cases hx
  | cons y ys ih =>
    obtain ⟨h1, h2, h3⟩ := h
    cases ys with
    | nil =>
      simp only [List.getLast?_singleton, Option.mem_def, Option.some.injEq] at hx
      subst hx
      exact ⟨h1, h2, Nat.le_refl _⟩
    | cons z zs => exact ⟨h1, h2, ih h3 (by simpa using hx)⟩

theorem first (h : Asc start stop lo hi l) (hx : x ∈ l.head?) :
    Asc start stop (start x) hi l := by
  cases l with
  | nil => cases hx
  | cons y ys =>
    simp only [List.head?_cons, Option.mem_def, Option.some.injEq] at hx
    subst hx
    exact ⟨Nat.le_refl _, h.2⟩

theorem isChain (h : Asc start stop lo hi l) : l.IsChain fun x y => stop x ≤ start y := by
  induction l generalizing lo with
  | nil => exact List.isChain_nil
  | cons x xs ih =>
    obtain ⟨_, _, h3⟩ := h
    cases xs with
    | nil => exact List.isChain_singleton _
    | cons y ys => exact List.isChain_cons_cons.mpr ⟨h3.1, ih h3⟩

theorem of_isChain (h : l.IsChain fun x y => stop x ≤ start y) (hle : lo ≤ hi)
    (hin : ∀ x ∈ l, lo ≤ start x ∧ start x ≤ stop x ∧ stop x ≤ hi) : Asc start stop lo hi l := by
  induction l generalizing lo with
  | nil => exact hle
  | cons x xs ih =>
    obtain ⟨h1, h2, h3⟩ := hin x (by simp)
    refine ⟨h1, h2, ih h.tail h3 fun y hy => ?_⟩
    obtain ⟨_, hy2, hy3⟩ := hin y (by simp [hy])
    refine ⟨?_, hy2, hy3⟩
    -- every later item starts behind the end of the first
    have hfirst : ∀ (zs : List α) (z : α), (z :: zs).IsChain (fun x y => stop x ≤ start y) →
        (∀ w ∈ z :: zs, start w ≤ stop w) → ∀ w ∈ zs, stop z ≤ start w := by
      intro zs
      induction zs with
      | nil => intro _ _ _ w hw; cases hw
      | cons u us ihz =>
        intro z hz hle w hw
        have hzu := (List.isChain_cons_cons.mp hz).1
        have hu := hle u (by simp)
        rcases List.mem_cons.mp hw with rfl | hw
        · exact hzu
        · have := ihz u hz.tail (fun v hv => hle v (by simp [hv])) w hw
          omega
    exact hfirst xs x h (fun w hw => (hin w hw).2.1) y hy

/-- Two different items do not share a position. -/
theorem apart (h : Asc start stop lo hi l) (hx : x ∈ l) (hy : y ∈ l) (hne : x ≠ y) :
    stop x ≤ start y ∨ stop y ≤ start x := by
  induction l generalizing lo with
  | nil => cases hx
  | cons z zs ih =>
    obtain ⟨_, _, h3⟩ := h
    rcases List.mem_cons.mp hx with rfl | hx' <;> rcases List.mem_cons.mp hy with rfl | hy'
    · exact absurd rfl hne
    · exact Or.inl (h3.mem hy').1
    · exact Or.inr (h3.mem hx').1
    · exact ih h3 hx' hy'

end Asc
