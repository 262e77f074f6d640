import Mathlib.Data.List.Sort

/-!
# Lists by key, then by arrival

A queue that serves the least key first and, among equal keys, the item that came first. Each
item has a key and a stamp, the time of its arrival. `InOrder key stamp l` says that the list is
in this order; it survives removals, the insertion of the newest item before the first greater
key, and a change of one key that compares to the others as before.
-/

namespace StableOrder

variable {τ : Type*} {key key' stamp stamp' : τ → Nat} {x y z : τ} {l l' : List τ}

/-- The item `x` is to be served before `y`. -/
def Before (key stamp : τ → Nat) (x y : τ) : Prop :=
  key x < key y ∨ key x = key y ∧ stamp x < stamp y

instance : Decidable (Before key stamp x y) := inferInstanceAs (Decidable (_ ∨ _))

theorem Before.trans (hxy : Before key stamp x y) (hyz : Before key stamp y z) :
    Before key stamp x z := by
  unfold Before at *
  omega

theorem Before.key_le (h : Before key stamp x y) : key x ≤ key y := by
  unfold Before at h
  omega

/-- The list is in the order of service. -/
def InOrder (key stamp : τ → Nat) (l : List τ) : Prop := l.Pairwise (Before key stamp)

theorem InOrder.nil : InOrder key stamp [] := List.Pairwise.nil

theorem InOrder.sublist (h : InOrder key stamp l) (hl : l'.Sublist l) : InOrder key stamp l' :=
  List.Pairwise.sublist hl h

theorem InOrder.congr (h : InOrder key stamp l) (hk : ∀ x ∈ l, key' x = key x)
    (hs : ∀ x ∈ l, stamp' x = stamp x) : InOrder key' stamp' l := by
  refine List.Pairwise.imp_of_mem ?_ h
  intro x y hx hy hxy
  unfold Before
  rw [hk x hx, hk y hy, hs x hx, hs y hy]
  exact hxy

/-- **The first item has the least key.** -/
theorem InOrder.head_le (h : InOrder key stamp (x :: l)) (hy : y ∈ x :: l) : key x ≤ key y := by
  rcases List.mem_cons.1 hy with rfl | hy
  · exact Nat.le_refl _
  · exact (List.rel_of_pairwise_cons h hy).key_le

/-- **The newest item goes before the first item with a greater key.** -/
theorem InOrder.insert (h : InOrder key stamp l) (hnew : ∀ y ∈ l, stamp y < stamp x) :
    InOrder key stamp (l.orderedInsert (fun a b => key a < key b) x) := by
  induction l with
  | nil => exact List.pairwise_singleton _ _
  | cons y l ih =>
    obtain ⟨hy, hl⟩ := List.pairwise_cons.1 h
    by_cases hlt : key x < key y
    · -- `x` is before `y`, and so before everything behind `y`
      rw [List.orderedInsert_cons_of_le (fun a b => key a < key b) l hlt]
      refine List.pairwise_cons.2 ⟨fun z hz => ?_, h⟩
      rcases List.mem_cons.1 hz with rfl | hz
      · exact Or.inl hlt
      · exact Before.trans (Or.inl hlt) (hy z hz)
    · rw [List.orderedInsert_of_not_le (fun a b => key a < key b) l hlt]
      have hl' := ih hl fun z hz => hnew z (List.mem_cons_of_mem _ hz)
      refine List.pairwise_cons.2 ⟨fun z hz => ?_, hl'⟩
      rcases (List.mem_orderedInsert _).1 hz with rfl | hz
      · -- `x` came last, so it may be behind an item with the same key
        have hstamp := hnew y List.mem_cons_self
        unfold Before
        omega
      · exact hy z hz

/-- **One key changes**, and the item compares to the others as before. -/
theorem InOrder.rekey (h : InOrder key stamp l) (hkey : ∀ y, y ≠ x → key' y = key y)
    (hplace : ∀ y ∈ l, y ≠ x → (Before key' stamp x y ↔ Before key stamp x y) ∧
      (Before key' stamp y x ↔ Before key stamp y x))
    (hnodup : l.Nodup) : InOrder key' stamp l := by
  refine List.Pairwise.imp_of_mem ?_ (List.Pairwise.and h hnodup)
  rintro y z hy hz ⟨hyz, hne⟩
  by_cases hyx : y = x
  · subst hyx
    exact (hplace z hz (Ne.symm hne)).1.2 hyz
  · by_cases hzx : z = x
    · subst hzx
      exact (hplace y hy hyx).2.2 hyz
    · unfold Before
      rw [hkey y hyx, hkey z hzx]
      exact hyz

end StableOrder
