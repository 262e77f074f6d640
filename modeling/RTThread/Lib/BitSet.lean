import Mathlib.Data.BitVec

/-!
# Bit vectors as sets of small numbers

A word is the set of the numbers of its one bits: a number is added by or-ing its
mask in and taken out by and-ing with the complement, and the least member is what
a find-first-set search returns.
-/

namespace BitSet

variable {w : Nat}

/-- The mask of the number `i`. -/
def mask (w i : Nat) : BitVec w := 1#w <<< i

/-- `i` is the least number in the set. -/
structure IsLowest (v : BitVec w) (i : Nat) : Prop where
  mem : v.getLsbD i = true
  least : ∀ j < i, v.getLsbD j = false

theorem getLsbD_mask (w i j : Nat) : (mask w i).getLsbD j = (decide (j = i) && decide (i < w)) := by
  rw [mask, BitVec.getLsbD_shiftLeft, BitVec.getLsbD_one]
  by_cases hji : j = i
  · subst hji
    by_cases hw : j < w
    · have h0 : 0 < w := by omega
      simp [hw, h0]
    · simp [hw]
  · by_cases hlt : j < i
    · simp [hji, hlt]
    · have hsub : j - i ≠ 0 := by omega
      simp [hji, hsub]

theorem getLsbD_insert (v : BitVec w) {i : Nat} (hi : i < w) (j : Nat) :
    (v ||| mask w i).getLsbD j = true ↔ v.getLsbD j = true ∨ j = i := by
  rw [BitVec.getLsbD_or, getLsbD_mask]
  simp [hi]

/-- Taking a number out. -/
theorem getLsbD_erase (v : BitVec w) {i : Nat} (hi : i < w) (j : Nat) :
    (v &&& ~~~mask w i).getLsbD j = true ↔ v.getLsbD j = true ∧ j ≠ i := by
  rw [BitVec.getLsbD_and, BitVec.getLsbD_not, getLsbD_mask]
  constructor
  · intro h
    simp only [Bool.and_eq_true, Bool.not_eq_true', decide_eq_true_eq] at h
    refine ⟨h.1, ?_⟩
    rintro rfl
    simp [hi] at h
  · rintro ⟨hv, hne⟩
    have hj : j < w := BitVec.lt_of_getLsbD hv
    simp [hv, hne, hj]

/-- The empty set is the zero word. -/
theorem ne_zero_iff (v : BitVec w) : v ≠ 0#w ↔ ∃ i, v.getLsbD i = true := by
  constructor
  · intro h
    by_contra hall
    apply h
    apply BitVec.eq_of_getLsbD_eq
    intro i _
    have hi : ¬ v.getLsbD i = true := fun hi => hall ⟨i, hi⟩
    simpa using hi
  · rintro ⟨i, hi⟩ rfl
    simp at hi

theorem IsLowest.le {v : BitVec w} {i j : Nat} (h : IsLowest v i) (hj : v.getLsbD j = true) :
    i ≤ j := by
  by_contra hlt
  have hzero := h.least j (by omega)
  rw [hj] at hzero
  cases hzero

theorem IsLowest.lt {v : BitVec w} {i : Nat} (h : IsLowest v i) : i < w :=
  BitVec.lt_of_getLsbD h.mem

/-- The least number of a wider word with the same bits. -/
theorem IsLowest.of_setWidth {v : BitVec w} {w' i : Nat} (h : IsLowest (v.setWidth w') i) :
    IsLowest v i where
  mem := by
    have hmem := h.mem
    rw [BitVec.getLsbD_setWidth, Bool.and_eq_true] at hmem
    exact hmem.2
  least j hj := by
    have hi := h.lt
    have hleast := h.least j hj
    have hjw : j < w' := by omega
    rw [BitVec.getLsbD_setWidth] at hleast
    simpa [hjw] using hleast

/-- **A search by fields.** If the bits below the field at `off` are zero, the least number of
a nonzero field, counted from `off`, is the least number of the word. -/
theorem IsLowest.of_field {v : BitVec w} {n off i : Nat} (hbelow : ∀ j < off, v.getLsbD j = false)
    (hfield : ∀ j, n.testBit j = true → v.getLsbD (off + j) = true)
    (hrest : ∀ j < i, n.testBit j = false → v.getLsbD (off + j) = false)
    (hi : n.testBit i = true) (hleast : ∀ j < i, n.testBit j = false) : IsLowest v (off + i) where
  mem := hfield i hi
  least j hj := by
    rcases Nat.lt_or_ge j off with hlt | hge
    · exact hbelow j hlt
    · have hsub : j = off + (j - off) := by omega
      rw [hsub]
      exact hrest (j - off) (by omega) (hleast (j - off) (by omega))

end BitSet
