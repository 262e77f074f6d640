import Mathlib.Data.List.Nodup
import Mathlib.Data.List.Perm.Subperm
import Mathlib.Data.List.Range
import Mathlib.Tactic.Common

/-!
# Slots

A block of memory cut into slots of one width, one behind the other: `addr start width k` is where
the slot `k` begins. Slots are apart, and none goes beyond the beginning of a later one.
-/

namespace Slots

variable {start width n j k x y : Nat}

/-- Where the slot `k` begins. -/
def addr (start width k : Nat) : Nat := start + k * width

/-- The first `n` slots. -/
def all (start width n : Nat) : List Nat := (List.range n).map (addr start width)

theorem addr_zero : addr start width 0 = start := by
  unfold addr
  rw [Nat.zero_mul, Nat.add_zero]

theorem addr_add_le (start width : Nat) (h : j < k) :
    addr start width j + width ≤ addr start width k := by
  have hmul := Nat.mul_le_mul_right width (Nat.succ_le_of_lt h)
  rw [Nat.succ_mul] at hmul
  unfold addr
  omega

theorem le_addr (start width k : Nat) : start ≤ addr start width k := Nat.le_add_right _ _

theorem mem_all : x ∈ all start width n ↔ ∃ k < n, addr start width k = x := by
  unfold all
  rw [List.mem_map]
  simp only [List.mem_range]

theorem length_all : (all start width n).length = n := by
  rw [all, List.length_map, List.length_range]

/-- **Two slots do not overlap.** -/
theorem apart (hx : x ∈ all start width n) (hy : y ∈ all start width n) (hne : x ≠ y) :
    x + width ≤ y ∨ y + width ≤ x := by
  obtain ⟨j, -, rfl⟩ := mem_all.1 hx
  obtain ⟨k, -, rfl⟩ := mem_all.1 hy
  rcases Nat.lt_trichotomy j k with hjk | rfl | hjk
  · exact Or.inl (addr_add_le _ _ hjk)
  · exact absurd rfl hne
  · exact Or.inr (addr_add_le _ _ hjk)

theorem bounds (hx : x ∈ all start width n) : start ≤ x ∧ x + width ≤ addr start width n := by
  obtain ⟨k, hk, rfl⟩ := mem_all.1 hx
  exact ⟨le_addr _ _ _, addr_add_le _ _ hk⟩

theorem nodup_all (hwidth : 0 < width) : (all start width n).Nodup := by
  refine List.Nodup.map_on (fun j _ k _ hjk => ?_) List.nodup_range
  rcases Nat.lt_trichotomy j k with hlt | rfl | hlt
  · have hslot := addr_add_le start width hlt
    omega
  · rfl
  · have hslot := addr_add_le start width hlt
    omega

theorem length_le {l : List Nat} (hnd : l.Nodup) (hl : ∀ x ∈ l, x ∈ all start width n) :
    l.length ≤ n := by
  have hsub := (hnd.subperm hl).length_le
  rwa [length_all] at hsub

end Slots
