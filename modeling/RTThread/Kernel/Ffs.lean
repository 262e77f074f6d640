import RTThread.Lib.BitSet

/-!
# `__rt_ffs` (`kservice.c`)

The search for the first one bit goes through the four bytes of the word and looks
the first one that is not zero up in `__lowest_bit_bitmap`.

## Main results

* `rtFfs_isLowest` — of a word that is not zero, `__rt_ffs` returns one more than the number
  of its lowest one bit.
-/

namespace RTThread

/-- `__lowest_bit_bitmap`. -/
def lowestBitBitmap : List Nat := [
    0, 0, 1, 0, 2, 0, 1, 0, 3, 0, 1, 0, 2, 0, 1, 0,
    4, 0, 1, 0, 2, 0, 1, 0, 3, 0, 1, 0, 2, 0, 1, 0,
    5, 0, 1, 0, 2, 0, 1, 0, 3, 0, 1, 0, 2, 0, 1, 0,
    4, 0, 1, 0, 2, 0, 1, 0, 3, 0, 1, 0, 2, 0, 1, 0,
    6, 0, 1, 0, 2, 0, 1, 0, 3, 0, 1, 0, 2, 0, 1, 0,
    4, 0, 1, 0, 2, 0, 1, 0, 3, 0, 1, 0, 2, 0, 1, 0,
    5, 0, 1, 0, 2, 0, 1, 0, 3, 0, 1, 0, 2, 0, 1, 0,
    4, 0, 1, 0, 2, 0, 1, 0, 3, 0, 1, 0, 2, 0, 1, 0,
    7, 0, 1, 0, 2, 0, 1, 0, 3, 0, 1, 0, 2, 0, 1, 0,
    4, 0, 1, 0, 2, 0, 1, 0, 3, 0, 1, 0, 2, 0, 1, 0,
    5, 0, 1, 0, 2, 0, 1, 0, 3, 0, 1, 0, 2, 0, 1, 0,
    4, 0, 1, 0, 2, 0, 1, 0, 3, 0, 1, 0, 2, 0, 1, 0,
    6, 0, 1, 0, 2, 0, 1, 0, 3, 0, 1, 0, 2, 0, 1, 0,
    4, 0, 1, 0, 2, 0, 1, 0, 3, 0, 1, 0, 2, 0, 1, 0,
    5, 0, 1, 0, 2, 0, 1, 0, 3, 0, 1, 0, 2, 0, 1, 0,
    4, 0, 1, 0, 2, 0, 1, 0, 3, 0, 1, 0, 2, 0, 1, 0]

/-- `__rt_ffs`. -/
def rtFfs (value : BitVec 32) : Nat :=
  if value = 0#32 then 0
  else if value &&& 0xff#32 ≠ 0#32 then
    lowestBitBitmap.getD (value &&& 0xff#32).toNat 0 + 1
  else if value &&& 0xff00#32 ≠ 0#32 then
    lowestBitBitmap.getD ((value &&& 0xff00#32) >>> 8).toNat 0 + 9
  else if value &&& 0xff0000#32 ≠ 0#32 then
    lowestBitBitmap.getD ((value &&& 0xff0000#32) >>> 16).toNat 0 + 17
  else
    lowestBitBitmap.getD ((value &&& 0xff000000#32) >>> 24).toNat 0 + 25

theorem lowestBitBitmap_entries : ∀ p ∈ lowestBitBitmap.zipIdx, p.2 ≠ 0 →
    p.2.testBit p.1 = true ∧ ∀ j < p.1, p.2.testBit j = false := by
  decide +kernel

theorem length_lowestBitBitmap : lowestBitBitmap.length = 256 := by
  decide +kernel

theorem lowestBitBitmap_spec (n : Nat) (hn : n < 256) : n ≠ 0 →
    n.testBit (lowestBitBitmap.getD n 0) = true ∧
      ∀ j < lowestBitBitmap.getD n 0, n.testBit j = false := by
  have hlt : n < lowestBitBitmap.length := by rwa [length_lowestBitBitmap]
  rw [List.getD_eq_getElem?_getD, List.getElem?_eq_getElem hlt, Option.getD_some]
  exact lowestBitBitmap_entries (lowestBitBitmap[n], n)
    (List.mk_mem_zipIdx_iff_getElem?.2 (List.getElem?_eq_getElem hlt))

/-- The mask of the byte at `off`. -/
abbrev byteMask (off : Nat) : BitVec 32 := 0xff#32 <<< off

theorem getLsbD_byteMask {off : Nat} (hoff : off ≤ 24) (j : Nat) :
    (byteMask off).getLsbD (off + j) = decide (j < 8) := by
  have hbyte : (0xff#32).getLsbD j = decide (j < 8) := by
    rcases Nat.lt_or_ge j 8 with hj | hj
    · have hall : ∀ j < 8, (0xff#32).getLsbD j = true := by decide
      rw [hall j hj, decide_eq_true hj]
    · rw [decide_eq_false (by omega)]
      have hpow : 2 ^ 8 ≤ 2 ^ j := Nat.pow_le_pow_right (by decide) hj
      exact Nat.testBit_lt_two_pow (Nat.lt_of_lt_of_le (by decide) hpow)
  rw [BitVec.getLsbD_shiftLeft, Nat.add_sub_cancel_left, hbyte]
  by_cases hj : j < 8
  · have hlt : off + j < 32 := by omega
    simp [hj, hlt]
  · simp [hj]

theorem testBit_byte (value : BitVec 32) {off : Nat} (hoff : off ≤ 24) (j : Nat) :
    ((value &&& byteMask off) >>> off).toNat.testBit j =
      (decide (j < 8) && value.getLsbD (off + j)) := by
  rw [BitVec.testBit_toNat, BitVec.getLsbD_ushiftRight, BitVec.getLsbD_and,
    getLsbD_byteMask hoff, Bool.and_comm]

/-- A byte that is zero extends the zero bits below it. -/
theorem zero_below_of_byte {value : BitVec 32} {off : Nat} (hoff : off ≤ 24)
    (hbelow : ∀ j < off, value.getLsbD j = false) (hzero : value &&& byteMask off = 0#32) :
    ∀ j < off + 8, value.getLsbD j = false := by
  intro j hj
  rcases Nat.lt_or_ge j off with hlt | hge
  · exact hbelow j hlt
  · have hbit := testBit_byte value hoff (j - off)
    have hadd : off + (j - off) = j := by omega
    rw [hzero, decide_eq_true (by omega), Bool.true_and, hadd] at hbit
    rw [← hbit]
    simp

/-- The lookup in the first byte that is not zero finds the lowest one bit of the word. -/
theorem isLowest_of_byte {value : BitVec 32} {off : Nat} (hoff : off ≤ 24)
    (hbelow : ∀ j < off, value.getLsbD j = false) (hne : value &&& byteMask off ≠ 0#32) :
    BitSet.IsLowest value
      (off + lowestBitBitmap.getD ((value &&& byteMask off) >>> off).toNat 0) := by
  have hbit := testBit_byte value hoff
  -- the byte is not zero: a bit that is left under the mask is one of its bits
  have hn0 : ((value &&& byteMask off) >>> off).toNat ≠ 0 := by
    intro hn
    obtain ⟨i, hi⟩ := (BitSet.ne_zero_iff _).1 hne
    rw [BitVec.getLsbD_and, Bool.and_eq_true] at hi
    have hge : off ≤ i := by
      by_contra hlt
      rw [hbelow i (by omega)] at hi
      exact absurd hi.1 (by decide)
    have hadd : off + (i - off) = i := by omega
    have hi8 := getLsbD_byteMask hoff (i - off)
    have hzero := hbit (i - off)
    rw [hadd] at hi8 hzero
    rw [← hi8, hi.1, hi.2, hn, Nat.zero_testBit] at hzero
    exact absurd hzero (by decide)
  generalize ((value &&& byteMask off) >>> off).toNat = n at hbit hn0 ⊢
  have hlt : n < 2 ^ 8 := by
    apply Nat.lt_pow_two_of_testBit
    intro j hj
    rw [hbit, decide_eq_false (by omega), Bool.false_and]
  obtain ⟨hi, hleast⟩ := lowestBitBitmap_spec n hlt hn0
  refine BitSet.IsLowest.of_field hbelow ?_ ?_ hi hleast
  · intro j hj
    rw [hbit, Bool.and_eq_true] at hj
    exact hj.2
  · intro j hj hz
    -- the lookup stays inside the byte
    have hi8 : lowestBitBitmap.getD n 0 < 8 := by
      rw [hbit, Bool.and_eq_true, decide_eq_true_eq] at hi
      exact hi.1
    rw [hbit, decide_eq_true (by omega), Bool.true_and] at hz
    exact hz

/-- The masks of the code are the masks of the bytes. -/
theorem rtFfs_eq (value : BitVec 32) :
    rtFfs value =
      if value = 0#32 then 0
      else if value &&& byteMask 0 ≠ 0#32 then
        lowestBitBitmap.getD ((value &&& byteMask 0) >>> 0).toNat 0 + 1
      else if value &&& byteMask 8 ≠ 0#32 then
        lowestBitBitmap.getD ((value &&& byteMask 8) >>> 8).toNat 0 + 9
      else if value &&& byteMask 16 ≠ 0#32 then
        lowestBitBitmap.getD ((value &&& byteMask 16) >>> 16).toNat 0 + 17
      else lowestBitBitmap.getD ((value &&& byteMask 24) >>> 24).toNat 0 + 25 :=
  rfl

/-- **`__rt_ffs` finds the lowest one bit**, counted from one. -/
theorem rtFfs_isLowest {value : BitVec 32} (h : value ≠ 0#32) :
    BitSet.IsLowest value (rtFfs value - 1) := by
  have hbelow0 : ∀ j < 0, value.getLsbD j = false := fun j hj => absurd hj (Nat.not_lt_zero j)
  rw [rtFfs_eq, if_neg h]
  by_cases h0 : value &&& byteMask 0 = 0#32
  · have hbelow8 := zero_below_of_byte (by decide) hbelow0 h0
    rw [if_neg (not_not_intro h0)]
    by_cases h8 : value &&& byteMask 8 = 0#32
    · have hbelow16 := zero_below_of_byte (by decide) hbelow8 h8
      rw [if_neg (not_not_intro h8)]
      by_cases h16 : value &&& byteMask 16 = 0#32
      · have hbelow24 := zero_below_of_byte (by decide) hbelow16 h16
        rw [if_neg (not_not_intro h16)]
        have h24 : value &&& byteMask 24 ≠ 0#32 := by
          intro h24
          -- all four bytes are zero
          have hall := zero_below_of_byte (by decide) hbelow24 h24
          exact h (BitVec.eq_of_getLsbD_eq fun j hj => by rw [hall j hj, BitVec.getLsbD_zero])
        have hlow := isLowest_of_byte (by decide) hbelow24 h24
        rwa [Nat.add_comm] at hlow
      · have hlow := isLowest_of_byte (by decide) hbelow16 h16
        rw [if_pos h16]
        rwa [Nat.add_comm] at hlow
    · have hlow := isLowest_of_byte (by decide) hbelow8 h8
      rw [if_pos h8]
      rwa [Nat.add_comm] at hlow
  · have hlow := isLowest_of_byte (by decide) hbelow0 h0
    rw [if_pos h0]
    rwa [Nat.add_comm] at hlow

theorem rtFfs_pos {value : BitVec 32} (h : value ≠ 0#32) : 0 < rtFfs value := by
  rw [rtFfs, if_neg h]
  split
  · exact Nat.succ_pos _
  split
  · exact Nat.succ_pos _
  split <;> exact Nat.succ_pos _

end RTThread
