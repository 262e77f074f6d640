import Mathlib.Data.List.TakeWhile
import Mathlib.Tactic.Common

/-!
# Strings in a buffer

A buffer is the list of its cells, a pointer into it the integer index of a cell, so the
places before the first cell and after the last are pointers too, which `load` and `store`
refuse. `read` and `write` move a run of cells at once, all of them or none. A `CString` is
the text before the terminating NUL.
-/

namespace Buffer

variable {α : Type*} {buf buf' xs ys : List α} {i : Int} {x y : α}

/-- The cell at `i`. -/
def load (buf : List α) (i : Int) : Option α :=
  if 0 ≤ i then buf[i.toNat]? else none

/-- The buffer with `x` in the cell at `i`. -/
def store (buf : List α) (i : Int) (x : α) : Option (List α) :=
  if 0 ≤ i ∧ i < buf.length then some (buf.set i.toNat x) else none

theorem load_append (h : i = xs.length) : load (xs ++ x :: ys) i = some x := by
  subst h
  rw [load, if_pos (by omega), Int.toNat_natCast, List.getElem?_append_right (Nat.le_refl _),
    Nat.sub_self, List.getElem?_cons_zero]

theorem load_before (h : i < 0) : load buf i = none := by
  rw [load, if_neg (by omega)]

theorem store_append (h : i = xs.length) : store (xs ++ y :: ys) i x = some (xs ++ x :: ys) := by
  subst h
  have hlt : (xs.length : Int) < (xs ++ y :: ys).length := by
    rw [List.length_append, List.length_cons]
    omega
  rw [store, if_pos ⟨by omega, hlt⟩, Int.toNat_natCast,
    List.set_append_right _ _ (Nat.le_refl _), Nat.sub_self, List.set_cons_zero]

/-- The `n` cells from `i` on. -/
def read (buf : List α) (i n : Nat) : Option (List α) :=
  if i + n ≤ buf.length then some ((buf.drop i).take n) else none

/-- The buffer with `xs` in the cells from `i` on. -/
def write (buf : List α) (i : Nat) (xs : List α) : Option (List α) :=
  if i + xs.length ≤ buf.length then
    some (buf.take i ++ xs ++ buf.drop (i + xs.length))
  else none

variable {zs : List α} {n k : Nat}

theorem read_append (hk : k = xs.length) (hn : n = ys.length) :
    read (xs ++ (ys ++ zs)) k n = some ys := by
  subst hk hn
  have hle : xs.length + ys.length ≤ (xs ++ (ys ++ zs)).length := by
    rw [List.length_append, List.length_append]
    omega
  rw [read, if_pos hle, List.drop_left, List.take_left]

theorem write_append {ys' : List α} (hk : k = xs.length) (h : ys'.length = ys.length) :
    write (xs ++ (ys ++ zs)) k ys' = some (xs ++ (ys' ++ zs)) := by
  subst hk
  have hle : xs.length + ys'.length ≤ (xs ++ (ys ++ zs)).length := by
    rw [List.length_append, List.length_append]
    omega
  have hdrop : (xs ++ (ys ++ zs)).drop (xs.length + ys'.length) = zs := by
    rw [List.drop_length_add_append, h, List.drop_left]
  rw [write, if_pos hle, List.take_left, hdrop, List.append_assoc]

/-- The characters before the first NUL at or after `i`. -/
def string (buf : List Char) (i : Nat) : Option (List Char) :=
  if '\x00' ∈ buf.drop i then some ((buf.drop i).takeWhile fun c => c ≠ '\x00') else none

theorem string_append {buf cs junk : List Char} (hk : k = buf.length) (h : '\x00' ∉ cs) :
    string (buf ++ (cs ++ '\x00' :: junk)) k = some cs := by
  have hcs : ∀ c ∈ cs, decide (c ≠ '\x00') = true := by
    intro c hc
    rw [decide_eq_true_eq]
    rintro rfl
    exact h hc
  have hmem : '\x00' ∈ cs ++ '\x00' :: junk :=
    List.mem_append_right _ List.mem_cons_self
  rw [string, hk, List.drop_left, if_pos hmem, List.takeWhile_append_of_pos hcs,
    List.takeWhile_cons_of_neg (by simp), List.append_nil]

-- --------
-- A string in a cleared buffer
-- --------

variable {size : Nat} {cs ds : List Char}

theorem rightpad_split (h : cs.length + k ≤ size) :
    cs.rightpad size '\x00'
      = cs ++ (List.replicate k '\x00' ++ List.replicate (size - cs.length - k) '\x00') := by
  rw [List.rightpad, List.replicate_append_replicate]
  congr 2
  omega

theorem rightpad_cons (h : cs.length < size) :
    cs.rightpad size '\x00'
      = cs ++ '\x00' :: List.replicate (size - cs.length - 1) '\x00' :=
  rightpad_split (k := 1) h

theorem length_rightpad (h : cs.length ≤ size) : (cs.rightpad size '\x00').length = size := by
  rw [List.length_rightpad, Nat.max_eq_left h]

theorem string_rightpad (hk : k ≤ cs.length) (hlt : cs.length < size) (h : '\x00' ∉ cs) :
    string (cs.rightpad size '\x00') k = some (cs.drop k) := by
  have hcs : cs.rightpad size '\x00'
      = cs.take k ++ (cs.drop k ++ '\x00' :: List.replicate (size - cs.length - 1) '\x00') := by
    rw [rightpad_cons hlt, ← List.append_assoc, List.take_append_drop]
  have hlen : k = (cs.take k).length := by
    rw [List.length_take, Nat.min_eq_left hk]
  rw [hcs, string_append hlen fun hmem => h (List.mem_of_mem_drop hmem)]

/-- A string that goes on longer. -/
theorem write_rightpad {word ext : List Char} (hword : word <+: ext) (hk : k = cs.length)
    (hle : (cs ++ ext).length ≤ size) :
    write ((cs ++ word).rightpad size '\x00') k ext = some ((cs ++ ext).rightpad size '\x00') := by
  obtain ⟨more, rfl⟩ := hword
  rw [List.length_append, List.length_append] at hle
  have hsize : (cs ++ word).length + more.length ≤ size := by
    rw [List.length_append]
    omega
  rw [rightpad_split hsize, List.append_assoc, ← List.append_assoc word]
  rw [write_append hk (by rw [List.length_append, List.length_append, List.length_replicate])]
  have hrest : size - (cs ++ word).length - more.length = size - (cs ++ (word ++ more)).length := by
    simp only [List.length_append]
    omega
  rw [hrest, List.rightpad, List.append_assoc cs, List.append_assoc word]

theorem rightpad_inj (hcs : '\x00' ∉ cs) (hds : '\x00' ∉ ds) (hlt : cs.length < size)
    (hlt' : ds.length < size) (h : cs.rightpad size '\x00' = ds.rightpad size '\x00') : cs = ds := by
  have hstring := string_rightpad (Nat.zero_le _) hlt hcs
  rw [h, string_rightpad (Nat.zero_le _) hlt' hds, List.drop_zero, List.drop_zero,
    Option.some.injEq] at hstring
  exact hstring.symm

theorem rightpad_succ (h : cs.length ≤ size) :
    cs.rightpad (size + 1) '\x00' = cs.rightpad size '\x00' ++ ['\x00'] := by
  rw [List.rightpad, List.rightpad, Nat.succ_sub h, List.replicate_succ', List.append_assoc]

theorem rightpad_nul (h : cs.length < size) :
    (cs ++ ['\x00']).rightpad size '\x00' = cs.rightpad size '\x00' := by
  rw [rightpad_cons h, List.rightpad, List.append_assoc, List.singleton_append, List.length_append,
    List.length_singleton, Nat.sub_sub]

theorem read_rightpad (hk : k = cs.length) (hn : n = ds.length) :
    read ((cs ++ ds).rightpad size '\x00') k n = some ds := by
  rw [List.rightpad, List.append_assoc, read_append hk hn]

theorem overwrite_rightpad {word word' : List Char} (hk : k = cs.length)
    (h : word'.length = word.length) :
    write ((cs ++ (word ++ ds)).rightpad size '\x00') k word'
      = some ((cs ++ (word' ++ ds)).rightpad size '\x00') := by
  have hlen : (cs ++ (word' ++ ds)).length = (cs ++ (word ++ ds)).length := by
    simp only [List.length_append, h]
  rw [List.rightpad, List.rightpad, hlen, List.append_assoc, List.append_assoc,
    write_append hk h, List.append_assoc, List.append_assoc]

theorem set_rightpad {c d : Char} {i : Int} (hi : i = cs.length) :
    store ((cs ++ d :: ds).rightpad size '\x00') i c
      = some ((cs ++ c :: ds).rightpad size '\x00') := by
  have hlen : (cs ++ c :: ds).length = (cs ++ d :: ds).length := by
    simp only [List.length_append, List.length_cons]
  rw [List.rightpad, List.rightpad, hlen, List.append_assoc, List.append_assoc, List.cons_append,
    store_append hi, List.cons_append]

theorem remove_rightpad {c : Char} {i : Int} (hlt : (cs ++ ds).length < size)
    (hi : i = (cs ++ ds).length) :
    (write ((cs ++ c :: ds).rightpad size '\x00') cs.length ds).bind (fun buf => store buf i '\x00')
      = some ((cs ++ ds).rightpad size '\x00') := by
  have hlast : c :: ds = (c :: ds).dropLast ++ [(c :: ds).getLast (by simp)] :=
    (List.dropLast_concat_getLast _).symm
  have hlen : ds.length = (c :: ds).dropLast.length := by
    rw [List.length_dropLast, List.length_cons, Nat.add_sub_cancel]
  rw [hlast, overwrite_rightpad rfl hlen, Option.bind_some, ← List.append_assoc, set_rightpad hi,
    rightpad_nul hlt]

/-- A character comes in, and those behind it move down. -/
theorem insert_rightpad {c d : Char} {i : Int} (hlt : (cs ++ d :: ds).length < size)
    (hi : i = cs.length) :
    (write ((cs ++ d :: ds).rightpad size '\x00') (cs.length + 1) (d :: ds)).bind
        (fun buf => store buf i c)
      = some ((cs ++ c :: d :: ds).rightpad size '\x00') := by
  have hk : cs.length + 1 = (cs ++ [d]).length := by
    rw [List.length_append, List.length_singleton]
  have hsplit : cs ++ d :: ds ++ ['\x00'] = cs ++ [d] ++ (ds ++ ['\x00'] ++ []) := by
    simp only [List.append_assoc, List.cons_append, List.nil_append, List.append_nil]
  have hlen : (d :: ds).length = (ds ++ ['\x00']).length := by
    rw [List.length_append, List.length_cons, List.length_singleton]
  rw [← rightpad_nul hlt, hsplit, overwrite_rightpad hk hlen, Option.bind_some, List.append_nil,
    List.append_assoc, List.singleton_append, set_rightpad hi]

end Buffer

/-- A string, without its terminator. -/
structure CString where
  chars : List Char
  nul : '\x00' ∉ chars
deriving DecidableEq

namespace CString

/-- The string at the start of a buffer. -/
def ofBuffer (buf : List Char) : CString where
  chars := buf.takeWhile fun c => c ≠ '\x00'
  nul h := by
    have := List.mem_takeWhile_imp h
    simp at this

theorem ofBuffer_append {cs junk : List Char} (h : '\x00' ∉ cs) :
    ofBuffer (cs ++ '\x00' :: junk) = ⟨cs, h⟩ := by
  have hcs : ∀ c ∈ cs, decide (c ≠ '\x00') = true := by
    intro c hc
    rw [decide_eq_true_eq]
    rintro rfl
    exact h hc
  rw [ofBuffer, CString.mk.injEq, List.takeWhile_append_of_pos hcs,
    List.takeWhile_cons_of_neg (by simp), List.append_nil]

end CString
