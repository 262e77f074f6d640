import RTThread.Kernel.Format
import RTThread.Lib.Ring

/-!
# Formatting into a buffer (`src/kservice.c`)

`rt_vsnprintf` stores a character only below `end` and moves on whether it stored it or not, so
the stores are those of the first characters of the text and the result is the length of the
whole text. `str` is an address: where the text runs to the end of the address space it comes
back to address zero, which is below `end` again.

`vsnprintf_text` says what the buffer holds for every text that ends before that;
`vsnprintf_wrapped` is a text that does not.
-/

namespace RTThread.Kernel

-- --------
-- The code
-- --------

/-- `str`, and the stores so far with their addresses. -/
structure StrBuf where
  str : Nat
  stores : List (Nat × Char)

/-- `if (str < end) *str = c; ++ str;` -/
def StrBuf.put (stop : Nat) (o : StrBuf) (c : Char) : StrBuf where
  str := (o.str + 1) % 2 ^ 32
  stores := if o.str < stop then o.stores ++ [(o.str, c)] else o.stores

/-- `end` and `size`, once `end` has been made no less than `buf`. -/
def vsnprintfEnd (buf size : Nat) : Nat × Nat :=
  let stop := (buf + size) % 2 ^ 32
  if stop < buf then (2 ^ 32 - 1, 2 ^ 32 - 1 - buf) else (stop, size)

/-- `rt_vsnprintf(buf, size, fmt, args)`: what it returns, and its stores. -/
def rtVsnprintf (strings : BitVec 32 → CString) (buf size : Nat) (fmt : List Char)
    (args : VaList) : Int × List (Nat × Char) :=
  let (stop, size) := vsnprintfEnd buf size
  let o := formatLoop (StrBuf.put stop) strings fmt args { str := buf, stores := [] }
  let stores :=
    if 0 < size then o.stores ++ [(if o.str < stop then o.str else stop - 1, '\x00')]
    else o.stores
  (toInt (o.str - buf), stores)

/-- The memory after the stores. -/
def stored (m : Nat → Char) (stores : List (Nat × Char)) : Nat → Char :=
  stores.foldl (fun m s => Function.update m s.1 s.2) m

-- --------
-- The stores of a text
-- --------

/-- The characters of a text, from an address on, as far as there is room. -/
def textStores (stop : Nat) : Nat → List Char → List (Nat × Char)
  | _, [] => []
  | a, c :: text =>
    if a < stop then (a, c) :: textStores stop (a + 1) text else textStores stop (a + 1) text

variable {buf size stop a x : Nat} {text : List Char} {strings : BitVec 32 → CString}
variable {fmt : List Char} {args : VaList} {o : StrBuf} {m : Nat → Char}

/-- Without a wrap, the stores are those of the text. -/
theorem put_text (h : o.str + text.length < 2 ^ 32) : text.foldl (StrBuf.put stop) o =
    { str := o.str + text.length, stores := o.stores ++ textStores stop o.str text } := by
  induction text generalizing o with
  | nil => rw [textStores, List.append_nil]; rfl
  | cons c text ih =>
    rw [List.length_cons] at h
    have hnext : (o.put stop c).str = o.str + 1 := Nat.mod_eq_of_lt (by omega)
    rw [List.foldl_cons, ih (by rw [hnext]; omega), hnext, List.length_cons, textStores]
    rw [StrBuf.mk.injEq]
    refine ⟨by omega, ?_⟩
    rw [StrBuf.put]
    split
    · rw [List.append_assoc]
      rfl
    · rfl

theorem mem_textStores {s : Nat × Char} (h : s ∈ textStores stop a text) :
    a ≤ s.1 ∧ s.1 < stop := by
  induction text generalizing a with
  | nil => cases h
  | cons c text ih =>
    rw [textStores] at h
    by_cases ha : a < stop
    · rw [if_pos ha, List.mem_cons] at h
      rcases h with rfl | h
      · exact ⟨Nat.le_refl _, ha⟩
      · exact ⟨Nat.le_of_succ_le (ih h).1, (ih h).2⟩
    · rw [if_neg ha] at h
      exact ⟨Nat.le_of_succ_le (ih h).1, (ih h).2⟩

theorem stored_below (h : x < a) : stored m (textStores stop a text) x = m x := by
  induction text generalizing a m with
  | nil => rfl
  | cons c text ih =>
    rw [textStores]
    split
    · exact (ih (Nat.lt_succ_of_lt h)).trans (Function.update_of_ne (Nat.ne_of_lt h) ..)
    · exact ih (Nat.lt_succ_of_lt h)

/-- A character of the text for which there is room. -/
theorem stored_text {i : Nat} (hi : i < text.length) (hstop : a + i < stop) :
    stored m (textStores stop a text) (a + i) = text[i] := by
  induction text generalizing a i m with
  | nil => exact absurd hi (Nat.not_lt_zero _)
  | cons c text ih =>
    rw [textStores, if_pos (by omega)]
    cases i with
    | zero => exact (stored_below (Nat.lt_succ_self a)).trans (Function.update_self ..)
    | succ i =>
      have hnext := ih (a := a + 1) (m := Function.update m a c) (Nat.lt_of_succ_lt_succ hi)
        (by omega)
      rw [Nat.succ_add_eq_add_succ] at hnext
      exact hnext

theorem stored_snoc {l : List (Nat × Char)} {c : Char} :
    stored m (l ++ [(a, c)]) = Function.update (stored m l) a c := by
  rw [stored, List.foldl_append]
  rfl

-- --------
-- The buffer
-- --------

/-- The places between `buf` and the last address, at most `size` of them. -/
def bufferRoom (buf size : Nat) : Nat := min size (2 ^ 32 - 1 - buf)

theorem vsnprintfEnd_eq (hbuf : buf < 2 ^ 32) (hsize : size < 2 ^ 32) :
    vsnprintfEnd buf size = (buf + bufferRoom buf size, bufferRoom buf size) := by
  unfold vsnprintfEnd bufferRoom
  dsimp only
  split
  · rw [Prod.mk.injEq]
    omega
  · rw [Prod.mk.injEq]
    omega

/-- The result and the stores of a call, for a text that does not wrap. -/
theorem rtVsnprintf_eq (hbuf : buf < 2 ^ 32) (hsize : size < 2 ^ 32)
    (hfits : buf + (format strings fmt args).length < 2 ^ 32) :
    rtVsnprintf strings buf size fmt args = (toInt (format strings fmt args).length,
      textStores (buf + bufferRoom buf size) buf (format strings fmt args) ++
        if 0 < bufferRoom buf size then
          [(buf + min (bufferRoom buf size - 1) (format strings fmt args).length, '\x00')]
        else []) := by
  rw [rtVsnprintf, vsnprintfEnd_eq hbuf hsize]
  dsimp only
  rw [formatLoop_eq, put_text hfits]
  dsimp only
  rw [List.nil_append, Prod.mk.injEq]
  constructor
  · congr 1
    omega
  · by_cases hroom : 0 < bufferRoom buf size
    · rw [if_pos hroom, if_pos hroom]
      congr 3
      split
      · omega
      · omega
    · rw [if_neg hroom, if_neg hroom, List.append_nil]

theorem stored_char {i : Nat} (hbuf : buf < 2 ^ 32) (hsize : size < 2 ^ 32)
    (hfits : buf + (format strings fmt args).length < 2 ^ 32)
    (hi : i < (format strings fmt args).length) (hroom : i + 1 < bufferRoom buf size) :
    stored m (rtVsnprintf strings buf size fmt args).2 (buf + i) =
      (format strings fmt args)[i] := by
  rw [rtVsnprintf_eq hbuf hsize hfits]
  dsimp only
  rw [if_pos (by omega), stored_snoc, Function.update_of_ne (by omega),
    stored_text hi (by omega)]

theorem stored_nul (hbuf : buf < 2 ^ 32) (hsize : size < 2 ^ 32)
    (hfits : buf + (format strings fmt args).length < 2 ^ 32) (hroom : 0 < bufferRoom buf size) :
    stored m (rtVsnprintf strings buf size fmt args).2
      (buf + min (bufferRoom buf size - 1) (format strings fmt args).length) = '\x00' := by
  rw [rtVsnprintf_eq hbuf hsize hfits]
  dsimp only
  rw [if_pos hroom, stored_snoc, Function.update_self]

theorem stores_mem (hbuf : buf < 2 ^ 32) (hsize : size < 2 ^ 32)
    (hfits : buf + (format strings fmt args).length < 2 ^ 32) :
    ∀ s ∈ (rtVsnprintf strings buf size fmt args).2,
      buf ≤ s.1 ∧ s.1 < buf + bufferRoom buf size := by
  rw [rtVsnprintf_eq hbuf hsize hfits]
  intro s hs
  rcases List.mem_append.mp hs with hs | hs
  · exact mem_textStores hs
  · by_cases hroom : 0 < bufferRoom buf size
    · rw [if_pos hroom, List.mem_singleton] at hs
      rw [hs]
      dsimp only
      omega
    · rw [if_neg hroom] at hs
      cases hs

/-- The bytes from `buf` on: as much of the text as there is room for, and the NUL. -/
theorem slice_stored (hbuf : buf < 2 ^ 32) (hsize : size < 2 ^ 32)
    (hfits : buf + (format strings fmt args).length < 2 ^ 32) (hroom : 0 < bufferRoom buf size) :
    Ring.slice (stored m (rtVsnprintf strings buf size fmt args).2) buf
        (min (bufferRoom buf size - 1) (format strings fmt args).length + 1) =
      (format strings fmt args).take (bufferRoom buf size - 1) ++ ['\x00'] := by
  refine List.ext_getElem ?_ fun i hi hi' => ?_
  · rw [Ring.slice, List.length_map, List.length_range, List.length_append, List.length_take,
      List.length_singleton]
  · rw [Ring.slice, List.length_map, List.length_range] at hi
    simp only [Ring.slice, List.getElem_map, List.getElem_range]
    by_cases hlast : i < min (bufferRoom buf size - 1) (format strings fmt args).length
    · rw [stored_char hbuf hsize hfits (by omega) (by omega), List.getElem_append_left
        (by rw [List.length_take]; exact hlast), List.getElem_take]
    · obtain rfl : i = min (bufferRoom buf size - 1) (format strings fmt args).length := by omega
      rw [stored_nul hbuf hsize hfits hroom, List.getElem_append_right
        (by rw [List.length_take]), List.getElem_singleton]

/-- **The formatted buffer.** Every store is in the buffer, the result is the length of the whole
text, and the buffer holds the characters of the text for which there is room with a NUL behind
them, the same ones for any two sizes. -/
theorem vsnprintf_text (hbuf : buf < 2 ^ 32) (hsize : size < 2 ^ 32)
    (hfits : buf + (format strings fmt args).length < 2 ^ 32) :
    (∀ s ∈ (rtVsnprintf strings buf size fmt args).2,
      buf ≤ s.1 ∧ s.1 < buf + bufferRoom buf size) ∧
    (rtVsnprintf strings buf size fmt args).1 = toInt (format strings fmt args).length ∧
    (0 < bufferRoom buf size → ∀ m,
      Ring.slice (stored m (rtVsnprintf strings buf size fmt args).2) buf
          (min (bufferRoom buf size - 1) (format strings fmt args).length + 1) =
        (format strings fmt args).take (bufferRoom buf size - 1) ++ ['\x00']) ∧
    ∀ size' < 2 ^ 32, ∀ m m' i, i < (format strings fmt args).length →
      i + 1 < bufferRoom buf size → i + 1 < bufferRoom buf size' →
        stored m (rtVsnprintf strings buf size fmt args).2 (buf + i) =
          stored m' (rtVsnprintf strings buf size' fmt args).2 (buf + i) := by
  refine ⟨stores_mem hbuf hsize hfits, by rw [rtVsnprintf_eq hbuf hsize hfits],
    fun hroom m => slice_stored hbuf hsize hfits hroom, ?_⟩
  intro size' hsize' m m' i hi hroom hroom'
  rw [stored_char hbuf hsize hfits hi hroom, stored_char hbuf hsize' hfits hi hroom']

/-- A plain text, cut off by a buffer of two bytes. -/
theorem vsnprintf_text_plain :
    (rtVsnprintf (fun _ => ⟨[], by decide⟩) 4096 2 ['o', 'k'] fun _ => 0).1 = 2 ∧
      Ring.slice (stored (fun _ => '?')
        (rtVsnprintf (fun _ => ⟨[], by decide⟩) 4096 2 ['o', 'k'] fun _ => 0).2) 4096 2 =
        ['o', '\x00'] := by
  have htext : format (fun _ => ⟨[], by decide⟩) ['o', 'k'] (fun _ => 0) = ['o', 'k'] := by
    rw [format, formatLoop, if_pos (by decide), formatLoop, if_pos (by decide), formatLoop]
    rfl
  have h := @vsnprintf_text 4096 2 (fun _ => ⟨[], by decide⟩) ['o', 'k'] (fun _ => 0)
    (by decide) (by decide) (by rw [htext]; decide)
  obtain ⟨-, hresult, hslice, -⟩ := h
  rw [htext] at hresult hslice
  exact ⟨hresult, hslice (by decide) _⟩

-- --------
-- A text that wraps
-- --------

theorem mem_put_text {s : Nat × Char} (h : s ∈ o.stores) :
    s ∈ (text.foldl (StrBuf.put stop) o).stores := by
  induction text generalizing o with
  | nil => exact h
  | cons c text ih =>
    refine ih ?_
    change s ∈ if o.str < stop then o.stores ++ [(o.str, c)] else o.stores
    split
    · exact List.mem_append_left _ h
    · exact h

/-- Wherever `str` comes below `end`, also again, there is a store. -/
theorem put_text_mem {i : Nat} (hstr : o.str < 2 ^ 32) (hi : i < text.length)
    (hstop : (o.str + i) % 2 ^ 32 < stop) :
    ∃ c, ((o.str + i) % 2 ^ 32, c) ∈ (text.foldl (StrBuf.put stop) o).stores := by
  induction text generalizing o i with
  | nil => exact absurd hi (Nat.not_lt_zero _)
  | cons c text ih =>
    cases i with
    | zero =>
      rw [Nat.add_zero, Nat.mod_eq_of_lt hstr] at hstop ⊢
      have hput : (o.put stop c).stores = o.stores ++ [(o.str, c)] := if_pos hstop
      refine ⟨c, mem_put_text (o := o.put stop c) ?_⟩
      rw [hput]
      exact List.mem_append_right _ (List.mem_singleton_self _)
    | succ i =>
      have hnext : ((o.put stop c).str + i) % 2 ^ 32 = (o.str + (i + 1)) % 2 ^ 32 := by
        rw [StrBuf.put]
        dsimp only
        omega
      rw [← hnext] at hstop ⊢
      exact ih (Nat.mod_lt _ (by decide)) (Nat.lt_of_succ_lt_succ hi) hstop

theorem foldl_snoc (cs str : List Char) : cs.foldl (fun text c => text ++ [c]) str = str ++ cs := by
  induction cs generalizing str with
  | nil => rw [List.append_nil]; rfl
  | cons c cs ih => rw [List.foldl_cons, ih, List.append_assoc]; rfl

/-- A character in a field takes the width of the field. -/
theorem length_convertChar {w : Nat} {word : BitVec 32} {precision : Int} {qualifier : Option Char}
    (hpos : 0 < w) (hlt : w < 2 ^ 31) :
    (convertChar (fun text c => text ++ [c]) ⟨{}, w, precision, qualifier⟩ word []).length = w := by
  have hfirst : toInt ((w : Int) - 1) = (w - 1 : Nat) :=
    (toInt_of_fits (by omega) (by omega)).trans (by omega)
  have hlast :
      toInt ((if (0 : Int) < (w - 1 : Nat) then 0 else ((w - 1 : Nat) : Int)) - 1) = -1 := by
    split
    · exact toInt_of_fits (by decide) (by decide)
    · rw [toInt_of_fits (by omega) (by omega)]
      omega
  unfold convertChar putField putTimes
  dsimp only
  rw [if_neg (by decide)]
  dsimp only
  rw [hfirst, hlast, foldl_snoc, foldl_snoc, List.length_append, List.length_append,
    List.length_append, List.length_replicate, List.length_replicate, Int.toNat_natCast]
  simp only [List.length_nil, List.length_singleton]
  omega

/-- The text of `%*c`, for a positive width. -/
theorem format_width {w : Nat} (hw : args.word = BitVec.ofNat 32 w) (hpos : 0 < w)
    (hlt : w < 2 ^ 31) :
    (format strings ('%' :: '*' :: 'c' :: fmt) args).length =
      w + (format strings fmt args.next.next).length := by
  have hint : args.word.toInt = w := by
    have hnat : args.word.toNat = w := by
      rw [hw, BitVec.toNat_ofNat]
      exact Nat.mod_eq_of_lt (by omega)
    rw [BitVec.toInt_eq_toNat_of_lt (by omega), hnat]
  have hwidth : parseWidth {} args ('*' :: 'c' :: fmt) =
      ((w : Int), ({} : PrintFlags), 'c' :: fmt, args.next) := by
    rw [parseWidth, if_neg (by decide), if_pos rfl]
    dsimp only
    rw [hint, if_neg (by omega)]
  have hspec : parseSpec ('*' :: 'c' :: fmt) args =
      (⟨{}, w, -1, none⟩, 'c' :: fmt, args.next) := by
    have hflags : parseFlags ('*' :: 'c' :: fmt) {} = ({}, '*' :: 'c' :: fmt) := rfl
    rw [parseSpec, hflags]
    dsimp only
    rw [hwidth]
    rfl
  rw [format, formatLoop, if_neg (by decide), hspec]
  dsimp only
  rw [show convert (fun text c => text ++ [c]) strings ⟨{}, w, -1, none⟩ 'c' args.next [] =
    (convertChar (fun text c => text ++ [c]) ⟨{}, w, -1, none⟩ args.next.word [],
      args.next.next) from rfl]
  dsimp only
  rw [formatLoop_eq, foldl_snoc, List.length_append, length_convertChar hpos hlt]

/-- **A text longer than the address space**: three fields of the largest width, formatted into
sixteen bytes, are stored at address zero as well. -/
theorem vsnprintf_wrapped : ¬ ∀ strings buf size fmt args, buf + size < 2 ^ 32 →
    ∀ s ∈ (rtVsnprintf strings buf size fmt args).2, buf ≤ s.1 ∧ s.1 < buf + size := by
  intro h
  let args : VaList := fun _ => BitVec.ofNat 32 (2 ^ 31 - 1)
  let strings : BitVec 32 → CString := fun _ => ⟨[], by decide⟩
  let fmt := ['%', '*', 'c', '%', '*', 'c', '%', '*', 'c']
  have hwidth : ∀ fmt, (format strings ('%' :: '*' :: 'c' :: fmt) args).length =
      (2 ^ 31 - 1) + (format strings fmt args).length :=
    fun fmt => format_width rfl (by decide) (by decide)
  have hlength : 2 ^ 32 - 4096 < (format strings fmt args).length := by
    rw [hwidth, hwidth, hwidth]
    omega
  obtain ⟨c, hc⟩ := @put_text_mem 4112 _ { str := 4096, stores := [] } _ (by decide) hlength
    (by decide)
  have hstores := h strings 4096 16 fmt args (by decide) (0, c) ?_
  · exact absurd hstores.1 (Nat.not_succ_le_zero 4095)
  · rw [rtVsnprintf, show vsnprintfEnd 4096 16 = (4112, 16) from rfl]
    dsimp only
    rw [if_pos (by decide), formatLoop_eq]
    exact List.mem_append_left _ hc

end RTThread.Kernel
