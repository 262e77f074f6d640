import Mathlib.Data.List.GetD
import Mathlib.Logic.Function.Basic
import Mathlib.Tactic.Linarith

/-!
# Byte-addressed memory

A memory maps addresses to bytes. Words are stored little-endian in four
consecutive bytes; a copy moves a block of bytes at once (its source and
destination are disjoint in every use of `memcpy`).

The lemmas come in two kinds: what an access reads at the place just written
(`load32_store32_self`, `memcpy_dst`) and the frame of a write, everything
outside the bytes it covers (`store32_out`, `storeBytes_out`, `memcpy_out` and
their word versions). Their side conditions are linear, so a chain of writes
is read with `simp (disch := omega)`.
-/

/-- Memory, one byte for each address. -/
abbrev ByteMem := Nat → UInt8

namespace ByteMem

/-- The word in the four bytes from `a`. -/
def load32 (m : ByteMem) (a : Nat) : Nat :=
  (m a).toNat + 2 ^ 8 * (m (a + 1)).toNat + 2 ^ 16 * (m (a + 2)).toNat +
    2 ^ 24 * (m (a + 3)).toNat

/-- Store the word `v` in the four bytes from `a`. -/
def store32 (m : ByteMem) (a v : Nat) : ByteMem := fun x =>
  if x = a then UInt8.ofNat v
  else if x = a + 1 then UInt8.ofNat (v / 2 ^ 8)
  else if x = a + 2 then UInt8.ofNat (v / 2 ^ 16)
  else if x = a + 3 then UInt8.ofNat (v / 2 ^ 24)
  else m x

/-- Store a list of bytes from `a` on. -/
def storeBytes (m : ByteMem) (a : Nat) (bs : List UInt8) : ByteMem := fun x =>
  if a ≤ x then bs.getD (x - a) (m x) else m x

/-- The `n` bytes from `a` on. -/
def loadBytes (m : ByteMem) (a n : Nat) : List UInt8 := (List.range n).map fun i => m (a + i)

/-- Copy `n` bytes from `src` to `dst`. -/
def memcpy (m : ByteMem) (dst src n : Nat) : ByteMem := fun x =>
  if dst ≤ x ∧ x < dst + n then m (src + (x - dst)) else m x

/-- Set `n` bytes from `dst` on to `c`. -/
def memset (m : ByteMem) (dst : Nat) (c : UInt8) (n : Nat) : ByteMem := fun x =>
  if dst ≤ x ∧ x < dst + n then c else m x

variable {m m' : ByteMem} {a b v x n dst src : Nat}

theorem load32_lt (m : ByteMem) (a : Nat) : m.load32 a < 2 ^ 32 := by
  have h0 := (m a).toNat_lt
  have h1 := (m (a + 1)).toNat_lt
  have h2 := (m (a + 2)).toNat_lt
  have h3 := (m (a + 3)).toNat_lt
  unfold load32
  omega

theorem load32_congr (h : ∀ i < 4, m' (a + i) = m (a + i)) : m'.load32 a = m.load32 a := by
  have h0 := h 0 (by decide)
  have h1 := h 1 (by decide)
  have h2 := h 2 (by decide)
  have h3 := h 3 (by decide)
  simp only [Nat.add_zero] at h0
  simp only [load32, h0, h1, h2, h3]

-- --------
-- Words
-- --------

theorem store32_out (h : x < a ∨ a + 4 ≤ x) : m.store32 a v x = m x := by
  unfold store32
  rw [if_neg (by omega), if_neg (by omega), if_neg (by omega), if_neg (by omega)]

theorem load32_store32_self (hv : v < 2 ^ 32) : (m.store32 a v).load32 a = v := by
  have e0 : m.store32 a v a = UInt8.ofNat v := by simp [store32]
  have e1 : m.store32 a v (a + 1) = UInt8.ofNat (v / 2 ^ 8) := by simp [store32]
  have e2 : m.store32 a v (a + 2) = UInt8.ofNat (v / 2 ^ 16) := by simp [store32]
  have e3 : m.store32 a v (a + 3) = UInt8.ofNat (v / 2 ^ 24) := by simp [store32]
  simp only [load32, e0, e1, e2, e3, UInt8.toNat_ofNat']
  omega

theorem load32_store32_out (h : b + 4 ≤ a ∨ a + 4 ≤ b) :
    (m.store32 a v).load32 b = m.load32 b :=
  load32_congr fun i hi => store32_out (by omega)

-- --------
-- Byte blocks
-- --------

theorem storeBytes_out {bs : List UInt8} (h : x < a ∨ a + bs.length ≤ x) :
    m.storeBytes a bs x = m x := by
  unfold storeBytes
  by_cases hx : a ≤ x
  · rw [if_pos hx, List.getD_eq_default _ _ (by omega)]
  · rw [if_neg hx]

theorem load32_storeBytes_out {bs : List UInt8} (h : b + 4 ≤ a ∨ a + bs.length ≤ b) :
    (m.storeBytes a bs).load32 b = m.load32 b :=
  load32_congr fun i hi => storeBytes_out (by omega)

theorem memcpy_dst (h : x < n) : m.memcpy dst src n (dst + x) = m (src + x) := by
  unfold memcpy
  rw [if_pos ⟨by omega, by omega⟩, Nat.add_sub_cancel_left]

theorem memcpy_out (h : x < dst ∨ dst + n ≤ x) : m.memcpy dst src n x = m x := by
  unfold memcpy
  rw [if_neg (by omega)]

theorem memset_out {c : UInt8} (h : x < dst ∨ dst + n ≤ x) : m.memset dst c n x = m x :=
  if_neg (by omega)

-- --------
-- What is kept in memory
-- --------

/-- The bytes are kept from `a` on. -/
def Holds (m : ByteMem) (a : Nat) (bs : List UInt8) : Prop :=
  ∀ i (h : i < bs.length), m (a + i) = bs[i]

theorem holds_nil : m.Holds a [] := fun _ h => absurd h (Nat.not_lt_zero _)

theorem Holds.congr {bs : List UInt8} (h : m.Holds a bs)
    (heq : ∀ i < bs.length, m' (a + i) = m (a + i)) : m'.Holds a bs :=
  fun i hi => (heq i hi).trans (h i hi)

theorem holds_storeBytes (m : ByteMem) (a : Nat) (bs : List UInt8) :
    (m.storeBytes a bs).Holds a bs := by
  intro i hi
  rw [storeBytes, if_pos (Nat.le_add_right a i), Nat.add_sub_cancel_left,
    List.getD_eq_getElem _ _ hi]

theorem Holds.append_right {bs cs : List UInt8} (h : m.Holds a (bs ++ cs)) :
    m.Holds (a + bs.length) cs := by
  intro i hi
  have := h (bs.length + i) (by rw [List.length_append]; omega)
  rw [List.getElem_append_right (by omega)] at this
  simpa [Nat.add_assoc] using this

theorem Holds.append_left {bs cs : List UInt8} (h : m.Holds a (bs ++ cs)) : m.Holds a bs := by
  intro i hi
  rw [h i (by rw [List.length_append]; omega), List.getElem_append_left hi]

theorem Holds.loadBytes_eq {bs : List UInt8} (h : m.Holds a bs) :
    m.loadBytes a bs.length = bs := by
  refine List.ext_getElem (by simp [loadBytes]) fun i hi hi' => ?_
  rw [← h i hi']
  simp [loadBytes]

theorem Holds.snoc {bs : List UInt8} {c : UInt8} (h : m.Holds a bs) :
    Holds (Function.update m (a + bs.length) c) a (bs ++ [c]) := by
  intro i hi
  rw [List.length_append, List.length_singleton] at hi
  by_cases hlast : i = bs.length
  · subst hlast
    rw [Function.update_self, List.getElem_concat_length rfl]
  · rw [Function.update_of_ne (by omega), List.getElem_append_left (by omega)]
    exact h i (by omega)

theorem storeBytes_update {c : UInt8} {bs : List UInt8} :
    storeBytes (Function.update m a c) (a + 1) bs = m.storeBytes a (c :: bs) := by
  funext x
  unfold storeBytes
  rcases Nat.lt_trichotomy x a with hx | rfl | hx
  · rw [if_neg (by omega), if_neg (by omega), Function.update_of_ne (by omega)]
  · rw [if_neg (by omega), if_pos (Nat.le_refl x), Nat.sub_self, Function.update_self]
    rfl
  · rw [if_pos (show a + 1 ≤ x from hx), if_pos (by omega), Function.update_of_ne (by omega),
      show x - a = x - (a + 1) + 1 by omega, List.getD_cons_succ]

theorem load32_update_out {c : UInt8} (h : x < b ∨ b + 4 ≤ x) :
    load32 (Function.update m x c) b = m.load32 b :=
  load32_congr fun i hi => Function.update_of_ne (by omega) _ _

end ByteMem
