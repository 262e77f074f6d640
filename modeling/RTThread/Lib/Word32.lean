import Mathlib.Data.Nat.Bitwise
import Mathlib.Tactic.Linarith

/-!
# 32-bit words as naturals

Machine words are natural numbers below `2 ^ 32`; the operations reduce modulo
`2 ^ 32` the way unsigned C arithmetic does. The lemmas give the plain result
wherever no wrap-around takes place, so that a proof rewrites a wrapped
operation once and then works with ordinary arithmetic.

`alignUp` rounds to a power of two with the usual mask trick; `alignUp_eq`
turns the mask into a division.
-/

namespace Word32

/-- Unsigned addition. -/
def add (a b : Nat) : Nat := (a + b) % 2 ^ 32

/-- Unsigned subtraction. -/
def sub (a b : Nat) : Nat := (a + (2 ^ 32 - b % 2 ^ 32)) % 2 ^ 32

/-- Unsigned multiplication. -/
def mul (a b : Nat) : Nat := (a * b) % 2 ^ 32

/-- Bitwise complement. -/
def not (a : Nat) : Nat := 2 ^ 32 - 1 - a

/-- `(a + align - 1) & ~(align - 1)`. -/
def alignUp (a align : Nat) : Nat := add a (sub align 1) &&& not (sub align 1)

/-- `a & ~(align - 1)`. -/
def alignDown (a align : Nat) : Nat := a &&& not (sub align 1)

-- --------
-- Arithmetic without wrap-around
-- --------

theorem add_of_lt {a b : Nat} (h : a + b < 2 ^ 32) : add a b = a + b :=
  Nat.mod_eq_of_lt h

theorem add_of_ge {a b : Nat} (h : 2 ^ 32 ≤ a + b) (h' : a + b < 2 ^ 33) :
    add a b = a + b - 2 ^ 32 := by
  unfold add
  omega

theorem sub_of_le {a b : Nat} (h : b ≤ a) (ha : a < 2 ^ 32) : sub a b = a - b := by
  unfold sub
  omega

theorem sub_of_lt {a b : Nat} (h : a < b) (hb : b < 2 ^ 32) : sub a b = 2 ^ 32 - (b - a) := by
  unfold sub
  omega

theorem mul_of_lt {a b : Nat} (h : a * b < 2 ^ 32) : mul a b = a * b :=
  Nat.mod_eq_of_lt h

theorem add_lt (a b : Nat) : add a b < 2 ^ 32 := Nat.mod_lt _ (by decide)

-- --------
-- Differences
-- --------

theorem sub_sub_sub (a b c : Nat) : sub (sub a c) (sub b c) = sub a b := by
  unfold sub
  omega

theorem sub_sub_add (a b n : Nat) : sub a (sub ((b + n) % 2 ^ 32) 1) =
    sub (sub a (sub (b % 2 ^ 32) 1)) n := by
  unfold sub
  omega

theorem sub_add_sub_one {a b : Nat} (h : b + 1 < 2 ^ 32) : sub (add a b) (sub a 1) = b + 1 := by
  unfold sub add
  omega

theorem sub_mod_of_le {a b : Nat} (h : b ≤ a) (h' : a < b + 2 ^ 32) :
    sub (a % 2 ^ 32) (b % 2 ^ 32) = a - b := by
  unfold sub
  omega

theorem sub_mod_of_lt {a b : Nat} (h : a < b) (h' : b < a + 2 ^ 32) :
    sub (a % 2 ^ 32) (b % 2 ^ 32) = 2 ^ 32 - (b - a) := by
  unfold sub
  omega

theorem add_mod (a b : Nat) : add (a % 2 ^ 32) b = (a + b) % 2 ^ 32 := by
  unfold add
  omega

/-- Two distances within half the range keep their order when the origin moves, as long as
they stay within it. -/
theorem sub_lt_sub {a b n : Nat} (hb : b < 2 ^ 31) (hb' : sub b n < 2 ^ 31) (h : a < b) :
    sub a n < 2 ^ 31 → sub a n < sub b n := by
  intro ha'
  unfold sub at *
  omega

-- --------
-- Masks
-- --------

/-- Clearing the low `k` bits of a word rounds it down to a multiple of `2 ^ k`. -/
theorem and_not_mask {x k : Nat} (hx : x < 2 ^ 32) (hk : k ≤ 32) :
    x &&& not (2 ^ k - 1) = x / 2 ^ k * 2 ^ k := by
  have hpow : 2 ^ k ≤ 2 ^ 32 := Nat.pow_le_pow_right (by decide) hk
  have hpos : 0 < 2 ^ k := Nat.two_pow_pos k
  rw [← Nat.shiftRight_eq_div_pow, ← Nat.shiftLeft_eq]
  apply Nat.eq_of_testBit_eq
  intro i
  rw [Nat.testBit_and, Nat.testBit_shiftLeft, Nat.testBit_shiftRight,
    show not (2 ^ k - 1) = 2 ^ 32 - ((2 ^ k - 1) + 1) by unfold not; omega,
    Nat.testBit_two_pow_sub_succ (by omega), Nat.testBit_two_pow_sub_one]
  by_cases hi : k ≤ i
  · by_cases h32 : i < 32
    · simp [hi, h32, Nat.add_sub_cancel' hi]
    · have : x.testBit i = false :=
        Nat.testBit_lt_two_pow (lt_of_lt_of_le hx (Nat.pow_le_pow_right (by decide) (by omega)))
      simp [h32, Nat.add_sub_cancel' hi, this]
  · simp [hi, show i < k by omega]

theorem alignUp_eq {a k : Nat} (hk : k < 32) :
    alignUp a (2 ^ k) = add a (2 ^ k - 1) / 2 ^ k * 2 ^ k := by
  have hpow : 2 ^ k < 2 ^ 32 := Nat.pow_lt_pow_right (by decide) hk
  have hpos : 0 < 2 ^ k := Nat.two_pow_pos k
  rw [alignUp, sub_of_le (by omega) hpow]
  exact and_not_mask (add_lt _ _) (by omega)

theorem alignDown_eq {a k : Nat} (ha : a < 2 ^ 32) (hk : k < 32) :
    alignDown a (2 ^ k) = a / 2 ^ k * 2 ^ k := by
  have hpow : 2 ^ k < 2 ^ 32 := Nat.pow_lt_pow_right (by decide) hk
  have hpos : 0 < 2 ^ k := Nat.two_pow_pos k
  rw [alignDown, sub_of_le (by omega) hpow]
  exact and_not_mask ha (by omega)

/-- A word is made of its bits inside a mask and of those outside. -/
theorem and_add_and_not {x m : Nat} (hx : x < 2 ^ 32) (hm : m < 2 ^ 32) :
    (x &&& m) + (x &&& not m) = x := by
  obtain ⟨a, rfl⟩ : ∃ a : BitVec 32, a.toNat = x :=
    ⟨BitVec.ofNat 32 x, by rw [BitVec.toNat_ofNat, Nat.mod_eq_of_lt hx]⟩
  obtain ⟨b, rfl⟩ : ∃ b : BitVec 32, b.toNat = m :=
    ⟨BitVec.ofNat 32 m, by rw [BitVec.toNat_ofNat, Nat.mod_eq_of_lt hm]⟩
  have hnot : not b.toNat = (~~~b).toNat := by rw [BitVec.toNat_not, not]
  have hzero : (a &&& b) &&& (a &&& ~~~b) = 0#32 := by
    ext i
    simp
    tauto
  have hall : (a &&& b) ||| (a &&& ~~~b) = a := by
    ext i
    simp [← Bool.and_or_distrib_left]
  rw [hnot, ← BitVec.toNat_and, ← BitVec.toNat_and, ← BitVec.toNat_add_of_and_eq_zero hzero,
    BitVec.add_eq_or_of_and_eq_zero _ _ hzero, hall]

theorem and_not_and {m : Nat} (x : Nat) (hm : m < 2 ^ 32) : (x &&& not m) &&& m = 0 := by
  have hself := and_add_and_not hm hm
  rw [Nat.and_self] at hself
  rw [Nat.and_assoc, Nat.and_comm (not m), show m &&& not m = 0 by omega, Nat.and_zero]

theorem lt_add_and_not {x m : Nat} (hxm : x + m < 2 ^ 32) (hne : x &&& m ≠ 0) :
    x < (x + m) &&& not m := by
  have hm : m < 2 ^ 32 := by omega
  have hparts := and_add_and_not hxm hm
  have hle : (x + m) &&& m ≤ m := Nat.and_le_right
  by_contra hcon
  -- then all bits of the mask are in the sum, and `x` is what is outside
  have hx : (x + m) &&& not m = x := by omega
  rw [← hx, and_not_and _ hm] at hne
  exact hne rfl

theorem and_not_le (x m : Nat) : x &&& not m ≤ x := Nat.and_le_left

end Word32
