import Mathlib.Data.List.GetD
import Mathlib.Data.Nat.ModEq
import Mathlib.Tactic.Common

/-!
# Circular stores

A store of `size` cells read and written around its end: the cell behind the
last one is the first one again. `read` lists the contents of consecutive cells
from a position on, `write` is the pair of block copies every ring buffer makes,
one up to the end and one from the beginning.

Positions need not be reduced; they count modulo `size`. With that convention
the laws are those of a straight array: `read_add` splits a reading,
`read_write` gives back what was written, `read_write_before` is the frame.
-/

namespace Ring

variable {α : Type*}

/-- Copy a list into the cells from `a` on. -/
def blit (m : Nat → α) (a : Nat) (bs : List α) : Nat → α := fun x =>
  if a ≤ x then bs.getD (x - a) (m x) else m x

/-- The contents of `n` cells in a row. -/
def slice (m : Nat → α) (a n : Nat) : List α := (List.range n).map fun i => m (a + i)

/-- The contents of `n` cells around the ring. -/
def read (m : Nat → α) (size start n : Nat) : List α :=
  (List.range n).map fun i => m ((start + i) % size)

/-- Write a list around the ring: what fits before the end, then the rest from the start. -/
def write (m : Nat → α) (size w : Nat) (bs : List α) : Nat → α :=
  blit (blit m w (bs.take (size - w))) 0 (bs.drop (size - w))

variable {m m' : Nat → α} {size start w n k : Nat} {bs : List α}

theorem blit_in {a i : Nat} (h : i < bs.length) : blit m a bs (a + i) = bs[i] := by
  unfold blit
  rw [if_pos (by omega), Nat.add_sub_cancel_left, List.getD_eq_getElem _ _ h]

theorem blit_out {a x : Nat} (h : x < a ∨ a + bs.length ≤ x) : blit m a bs x = m x := by
  unfold blit
  by_cases hx : a ≤ x
  · rw [if_pos hx, List.getD_eq_default _ _ (by omega)]
  · rw [if_neg hx]

-- --------
-- Reading
-- --------

@[simp] theorem length_read : (read m size start n).length = n := by
  simp [read]

@[simp] theorem length_slice {a : Nat} : (slice m a n).length = n := by
  simp [slice]

@[simp] theorem read_zero : read m size start 0 = [] := rfl

theorem read_mod (m : Nat → α) (size start n : Nat) :
    read m size (start % size) n = read m size start n := by
  simp [read, Nat.mod_add_mod]

theorem read_add :
    read m size start (n + k) = read m size start n ++ read m size (start + n) k := by
  unfold read
  rw [List.range_add, List.map_append, List.map_map]
  simp [Function.comp_def, Nat.add_assoc]

theorem take_read (h : k ≤ n) : (read m size start n).take k = read m size start k := by
  obtain ⟨j, rfl⟩ := Nat.exists_eq_add_of_le h
  rw [read_add, List.take_left' length_read]

theorem drop_read (h : k ≤ n) :
    (read m size start n).drop k = read m size (start + k) (n - k) := by
  obtain ⟨j, rfl⟩ := Nat.exists_eq_add_of_le h
  rw [read_add, List.drop_left' length_read, Nat.add_sub_cancel_left]

theorem read_straight (h : start + n ≤ size) : read m size start n = slice m start n := by
  unfold read slice
  refine List.map_congr_left fun i hi => ?_
  rw [Nat.mod_eq_of_lt (by have := List.mem_range.mp hi; omega)]

theorem read_wrapped (h : start < size) (hn : size ≤ start + n) (hle : n ≤ size) :
    read m size start n = slice m start (size - start) ++ slice m 0 (n - (size - start)) := by
  obtain ⟨j, rfl⟩ := Nat.exists_eq_add_of_le (show size - start ≤ n by omega)
  rw [read_add, read_straight (by omega), Nat.add_sub_cancel_left,
    show start + (size - start) = size by omega, ← read_mod, Nat.mod_self,
    read_straight (by omega)]

-- --------
-- Writing
-- --------

theorem blit_nil {a : Nat} : blit m a [] = m := by
  funext x
  unfold blit
  split <;> rfl

theorem slice_add {a : Nat} : slice m a (n + k) = slice m a n ++ slice m (a + n) k := by
  unfold slice
  rw [List.range_add, List.map_append, List.map_map]
  simp [Function.comp_def, Nat.add_assoc]

theorem drop_slice {a : Nat} (h : k ≤ n) : (slice m a n).drop k = slice m (a + k) (n - k) := by
  obtain ⟨j, rfl⟩ := Nat.exists_eq_add_of_le h
  rw [slice_add, List.drop_left' length_slice, Nat.add_sub_cancel_left]

theorem take_slice {a : Nat} (h : k ≤ n) : (slice m a n).take k = slice m a k := by
  obtain ⟨j, rfl⟩ := Nat.exists_eq_add_of_le h
  rw [slice_add, List.take_left' length_slice]

theorem slice_blit {a : Nat} (h : n = bs.length) : slice (blit m a bs) a n = bs := by
  subst h
  refine List.ext_getElem length_slice fun i h1 h2 => ?_
  simp only [slice, List.getElem_map, List.getElem_range]
  exact blit_in h2

theorem slice_blit_out {a b : Nat} (h : b + n ≤ a ∨ a + bs.length ≤ b) :
    slice (blit m a bs) b n = slice m b n := by
  unfold slice
  refine List.map_congr_left fun i hi => ?_
  have := List.mem_range.mp hi
  exact blit_out (by omega)

theorem write_straight (h : w + bs.length ≤ size) : write m size w bs = blit m w bs := by
  rw [write, List.take_of_length_le (by omega), List.drop_of_length_le (by omega), blit_nil]

/-- The cell `i` places behind the first one written. -/
theorem write_in {i : Nat} (hw : w < size) (hle : bs.length ≤ size) (hi : i < bs.length) :
    write m size w bs ((w + i) % size) = bs[i] := by
  unfold write
  by_cases hend : w + i < size
  · -- in front of the end: the second copy does not reach up here
    rw [Nat.mod_eq_of_lt hend, blit_out (by rw [List.length_drop]; omega),
      blit_in (by rw [List.length_take]; omega), List.getElem_take]
  · have hmod : (w + i) % size = 0 + (i - (size - w)) := by
      rw [Nat.mod_eq_sub_mod (by omega), Nat.mod_eq_of_lt (by omega)]
      omega
    rw [hmod, blit_in (by rw [List.length_drop]; omega), List.getElem_drop]
    congr 1
    omega

/-- The other cells of the ring. -/
theorem write_out {i : Nat} (hw : w < size) (hle : bs.length ≤ i) (hi : i < size) :
    write m size w bs ((w + i) % size) = m ((w + i) % size) := by
  unfold write
  by_cases hend : w + i < size
  · rw [Nat.mod_eq_of_lt hend, blit_out (by rw [List.length_drop]; omega),
      blit_out (by rw [List.length_take]; omega)]
  · have hmod : (w + i) % size = i - (size - w) := by
      rw [Nat.mod_eq_sub_mod (by omega), Nat.mod_eq_of_lt (by omega)]
      omega
    rw [hmod, blit_out (by rw [List.length_drop]; omega),
      blit_out (by rw [List.length_take]; omega)]

/-- **Reading back** what was written. -/
theorem read_write (hw : w < size) (hle : bs.length ≤ size) :
    read (write m size w bs) size w bs.length = bs := by
  refine List.ext_getElem length_read fun i h1 h2 => ?_
  simp only [read, List.getElem_map, List.getElem_range]
  exact write_in hw hle h2

/-- **The frame**: a reading that ends in front of the cells written, and begins behind them. -/
theorem read_write_before (hw : w < size) (hstart : (start + n) % size = w)
    (hle : n + bs.length ≤ size) :
    read (write m size w bs) size start n = read m size start n := by
  unfold read
  refine List.map_congr_left fun i hi => ?_
  have hin := List.mem_range.mp hi
  -- the cell as seen from the first one written
  have hpos : (start + i) % size = (w + (size - n + i)) % size := by
    rw [← hstart, Nat.mod_add_mod, show start + n + (size - n + i) = start + i + size by omega,
      Nat.add_mod_right]
  rw [hpos, write_out hw (by omega) (by omega)]

theorem read_write_append (hw : w < size) (hstart : (start + n) % size = w)
    (hle : n + bs.length ≤ size) :
    read (write m size w bs) size start (n + bs.length) = read m size start n ++ bs := by
  rw [read_add, read_write_before hw hstart hle, ← read_mod _ _ (start + n), hstart,
    read_write hw (by omega)]

/-- **Overwriting**: what is written over the oldest cells leaves the newest, from behind it on. -/
theorem read_overwrite (hw : w < size) (hstart : (start + n) % size = w)
    (hle : bs.length ≤ size) (hover : size ≤ n + bs.length) :
    read (write m size w bs) size (w + bs.length) size =
      (read m size start n).drop (n + bs.length - size) ++ bs := by
  -- one round from behind the bytes written leads back to where they begin
  have hround : (w + bs.length + (size - bs.length)) % size = w := by
    rw [show w + bs.length + (size - bs.length) = w + size by omega, Nat.add_mod_right,
      Nat.mod_eq_of_lt hw]
  have hkept : (w + bs.length) % size = (start + (n + bs.length - size)) % size := by
    rw [← hstart, Nat.mod_add_mod,
      show start + n + bs.length = start + (n + bs.length - size) + size by omega,
      Nat.add_mod_right]
  have happend := @read_write_append _ m _ (w + bs.length) w (size - bs.length) bs hw hround (by omega)
  rw [show size - bs.length + bs.length = size by omega] at happend
  rw [happend, ← read_mod m size (w + bs.length), hkept, read_mod, drop_read (by omega),
    show n - (n + bs.length - size) = size - bs.length by omega]

-- --------
-- Single cells
-- --------

section Cells

variable {a : α}

theorem read_one : read m size start 1 = [m (start % size)] := rfl

theorem read_succ : read m size start (n + 1) = m (start % size) :: read m size (start + 1) n := by
  rw [Nat.add_comm n 1, read_add, read_one]
  rfl

theorem mod_ne (start : Nat) {i j : Nat} (hij : i < j) (hj : j < size) :
    (start + i) % size ≠ (start + j) % size := by
  intro heq
  have hdvd : size ∣ start + j - (start + i) := (Nat.modEq_iff_dvd' (by omega)).1 heq
  rw [Nat.add_sub_add_left] at hdvd
  have hle := Nat.le_of_dvd (by omega) hdvd
  omega

theorem read_update (h : ∀ i < n, (start + i) % size ≠ w) :
    read (Function.update m w a) size start n = read m size start n := by
  unfold read
  refine List.map_congr_left fun i hi => ?_
  exact Function.update_of_ne (h i (List.mem_range.mp hi)) _ _

/-- **Behind the last cell read.** -/
theorem read_push_back (hn : n < size) (hw : w = (start + n) % size) :
    read (Function.update m w a) size start (n + 1) = read m size start n ++ [a] := by
  rw [read_add, read_one, read_update fun i hi => hw ▸ mod_ne _ hi hn, ← hw, Function.update_self]

/-- **In front of the first cell read.** -/
theorem read_push_front (hn : n < size) (hw : w < size) (hstart : start = (w + 1) % size) :
    read (Function.update m w a) size w (n + 1) = a :: read m size start n := by
  have hfront : ∀ i < n, (w + 1 + i) % size ≠ w := by
    intro i hi
    have hne := mod_ne w (show 0 < 1 + i by omega) (show 1 + i < size by omega)
    rw [Nat.add_zero, Nat.mod_eq_of_lt hw, ← Nat.add_assoc] at hne
    exact hne.symm
  rw [read_succ, Nat.mod_eq_of_lt hw, Function.update_self, read_update hfront, hstart, read_mod]

end Cells

end Ring
