import RTThread.Kernel.Vsnprintf

/-!
# The integer conversions against `printf` (`src/kservice.c`)

What `printf` gives for a directive with one of the conversions `d`, `i`, `u`, `o`, `x` and `X`:
padding, the sign, and the digits of the value in the base of the conversion, as many as the
precision asks for. `rt_vsnprintf` parses the same directives, and `print_number` counts the same
characters down in one variable.

`format_printf_iff`: the texts are the same if and only if `Prints` holds of the directive and the
value. `divide` has no base 8, a precision of 0 takes the digits of every value, the flag `0` is
not ignored with a precision, and the counter may pass its smallest value.
-/

namespace RTThread.Kernel

-- --------
-- `printf`
-- --------

/-- An integer conversion: its base, whether there is a sign, and capitals for digits. -/
structure IntConversion where
  base : Nat
  sign : Bool
  large : Bool

/-- The integer conversions. -/
def intConversion (c : Char) : Option IntConversion :=
  if c = 'd' ∨ c = 'i' then some ⟨10, true, false⟩
  else if c = 'u' then some ⟨10, false, false⟩
  else if c = 'o' then some ⟨8, false, false⟩
  else if c = 'x' then some ⟨16, false, false⟩
  else if c = 'X' then some ⟨16, false, true⟩
  else none

/-- The character of a digit. -/
def digitChar (large : Bool) (d : Nat) : Char :=
  (if large then "0123456789ABCDEF".toList else "0123456789abcdef".toList).getD d '\x00'

/-- The value of an argument. -/
def printfValue (sign : Bool) (word : BitVec 32) : Int := if sign then word.toInt else word.toNat

/-- The digits: at least as many as the precision says, and one without a precision. -/
def printfDigits (conv : IntConversion) (precision : Option Nat) (value : Int) : List Char :=
  let digits := ((Nat.digits conv.base value.natAbs).map (digitChar conv.large)).reverse
  List.replicate (precision.getD 1 - digits.length) '0' ++ digits

/-- The sign. -/
def printfSign (conv : IntConversion) (flags : PrintFlags) (value : Int) : List Char :=
  if conv.sign then
    if value < 0 then ['-'] else if flags.plus then ['+'] else if flags.space then [' '] else []
  else []

/-- **What `printf` gives** for one directive. The flag `0` counts without a precision only. -/
def printfText (conv : IntConversion) (flags : PrintFlags) (width precision : Option Nat)
    (value : Int) : List Char :=
  let sign := printfSign conv flags value
  let digits := printfDigits conv precision value
  let pad := width.getD 0 - (sign.length + digits.length)
  if flags.left then sign ++ digits ++ List.replicate pad ' '
  else if flags.zeropad = true ∧ precision = none then sign ++ List.replicate pad '0' ++ digits
  else List.replicate pad ' ' ++ sign ++ digits

/-- The text of a directive behind its `%`. -/
def directive (flags : List Char) (width precision : Option Nat) (c : Char) : List Char :=
  flags ++ width.elim [] decimal ++ precision.elim [] (fun p => '.' :: decimal p) ++ [c]
where
  decimal (n : Nat) : List Char := (tmpDigits false 10 n).reverse

/-- The flags that a directive asks for. -/
def flagsOf (flags : List Char) : PrintFlags where
  zeropad := '0' ∈ flags
  plus := '+' ∈ flags
  space := ' ' ∈ flags
  left := '-' ∈ flags

/-- The field width, and the precision, as `int`s. -/
def fieldOf (n : Option Nat) : Int := n.elim (-1) fun n => (n : Int)

/-- **Which directives `rt_vsnprintf` prints like `printf`.** -/
structure Prints (conv : IntConversion) (flags : PrintFlags) (width precision : Option Nat)
    (value : Int) : Prop where
  octal : conv.base = 8 → value.natAbs < 8
  zero : precision = some 0 → value = 0 ∧ width.getD 0 ≤ (printfSign conv flags value).length
  zeropad : flags.zeropad = true → flags.left = false → precision ≠ none →
    width.getD 0 ≤ (printfSign conv flags value).length + (printfDigits conv precision value).length
  fits : (precision.getD 1 : Int) + (printfSign conv flags value).length +
      (if flags.left then 0 else if flags.zeropad then 1 else 2) ≤
    2 ^ 31 + fieldOf width

-- --------
-- The directive
-- --------

section Directive

variable {fmt rest : List Char} {args : VaList}

/-- The digits that `print_number` finds, the last one first. -/
def codeDigits (base n : Nat) : List Nat :=
  if n = 0 then [0] else Nat.digits (if base = 10 then 10 else 16) n

theorem tmpDigits_eq (large : Bool) (base n : Nat) :
    tmpDigits large base n = (codeDigits base n).map (digitChar large) := by
  unfold tmpDigits codeDigits
  by_cases hzero : n = 0
  · rw [if_pos hzero, if_pos hzero]
    cases large with
    | false => rfl
    | true => rfl
  · rw [if_neg hzero, if_neg hzero]
    rfl

theorem codeDigits_lt {base n d : Nat} (hd : d ∈ codeDigits base n) : d < 16 := by
  unfold codeDigits at hd
  split at hd
  · rw [List.mem_singleton.1 hd]
    decide
  · split at hd
    · exact (Nat.digits_lt_base (by decide) hd).trans (by decide)
    · exact Nat.digits_lt_base (by decide) hd

theorem ofDigits_codeDigits (n : Nat) : Nat.ofDigits 10 (codeDigits 10 n) = n := by
  unfold codeDigits
  split
  case isTrue hzero =>
    rw [hzero]
    rfl
  case isFalse => exact Nat.ofDigits_digits 10 n

theorem digitChar_decimal : ∀ d < 10, (digitChar false d).isDigit = true ∧
    ((digitChar false d).toNat : Int) - ('0'.toNat : Int) = d := by decide

/-- The text of a number is read back, unless it is too long for an `int`. -/
theorem skipAtoi_digits {ds : List Nat} (hds : ∀ d ∈ ds, d < 10)
    (hfits : Nat.ofDigits 10 ds < 2 ^ 31) :
    ∀ rest, skipAtoi ((ds.map (digitChar false)).reverse ++ rest) 0 =
      skipAtoi rest (Nat.ofDigits 10 ds : Nat) := by
  induction ds with
  | nil =>
    intro rest
    rfl
  | cons d ds ih =>
    intro rest
    have hsum : Nat.ofDigits 10 (d :: ds) = d + 10 * Nat.ofDigits 10 ds := Nat.ofDigits_cons
    rw [hsum] at hfits
    obtain ⟨hdigit, hvalue⟩ := digitChar_decimal d (hds d List.mem_cons_self)
    rw [List.map_cons, List.reverse_cons, List.append_assoc,
      ih (fun d' hd' => hds d' (List.mem_cons_of_mem _ hd')) (by omega), List.singleton_append,
      skipAtoi, if_pos hdigit, hvalue, hsum, toInt_of_fits (by omega) (by omega)]
    congr 1
    push_cast
    omega

/-- The next character is no digit. -/
def NoDigit (rest : List Char) : Prop := ∀ c ∈ rest.head?, c.isDigit = false

theorem skipAtoi_stop (h : NoDigit rest) (i : Int) : skipAtoi rest i = (i, rest) := by
  cases rest with
  | nil => rfl
  | cons c rest =>
    rw [skipAtoi, if_neg]
    rw [h c rfl]
    decide

theorem skipAtoi_decimal {n : Nat} (hn : n < 2 ^ 31) (hrest : NoDigit rest) :
    skipAtoi (directive.decimal n ++ rest) 0 = ((n : Int), rest) := by
  have hds : ∀ d ∈ codeDigits 10 n, d < 10 := by
    intro d hd
    unfold codeDigits at hd
    split at hd
    · rw [List.mem_singleton.1 hd]
      decide
    · exact Nat.digits_lt_base (by decide) hd
  rw [directive.decimal, tmpDigits_eq, skipAtoi_digits hds, ofDigits_codeDigits,
    skipAtoi_stop hrest]
  rw [ofDigits_codeDigits]
  exact hn

/-- A number begins with a digit, and with a 0 only if it is 0. -/
theorem decimal_cons (n : Nat) : ∃ c cs, directive.decimal n = c :: cs ∧ c.isDigit = true ∧
    (n ≠ 0 → c ≠ '0') := by
  by_cases hzero : n = 0
  · subst hzero
    exact ⟨'0', [], rfl, by decide, fun h => absurd rfl h⟩
  · have hne : Nat.digits 10 n ≠ [] := (Nat.digits_ne_nil_iff_ne_zero).2 hzero
    have hlast := Nat.getLast_digit_ne_zero 10 hzero
    have hlt : (Nat.digits 10 n).getLast hne < 10 :=
      Nat.digits_lt_base (by decide) (List.getLast_mem hne)
    refine ⟨digitChar false ((Nat.digits 10 n).getLast hne),
      ((Nat.digits 10 n).dropLast.map (digitChar false)).reverse, ?_, (digitChar_decimal _ hlt).1,
      fun _ => ?_⟩
    · have hsplit := List.dropLast_append_getLast hne
      rw [directive.decimal, tmpDigits_eq, codeDigits, if_neg hzero, if_pos rfl]
      calc ((Nat.digits 10 n).map (digitChar false)).reverse
          = (((Nat.digits 10 n).dropLast ++ [(Nat.digits 10 n).getLast hne]).map
              (digitChar false)).reverse := by rw [hsplit]
        _ = _ := by rw [List.map_append, List.reverse_append]; rfl
    · have hall : ∀ d < 10, d ≠ 0 → digitChar false d ≠ '0' := by decide
      exact hall _ hlt hlast

end Directive

section Parse

variable {fs rest : List Char} {args : VaList} {c : Char} {width precision : Option Nat}

/-- A flag of a directive; `#` is none of the integer conversions'. -/
def IsFlag (c : Char) : Prop := c = '-' ∨ c = '+' ∨ c = ' ' ∨ c = '0'

instance (c : Char) : Decidable (IsFlag c) := inferInstanceAs (Decidable (_ ∨ _))

/-- The next character is none of the flags that `rt_vsnprintf` knows. -/
def NoFlag (rest : List Char) : Prop := ∀ c ∈ rest.head?, ¬ IsFlag c ∧ c ≠ '#'

theorem parseFlags_stop (h : NoFlag rest) (flags : PrintFlags) :
    parseFlags rest flags = (flags, rest) := by
  cases rest with
  | nil => rfl
  | cons c rest =>
    obtain ⟨hflag, hspecial⟩ := h c rfl
    obtain ⟨hleft, hplus, hspace, hzero⟩ : c ≠ '-' ∧ c ≠ '+' ∧ c ≠ ' ' ∧ c ≠ '0' := by
      simpa [IsFlag] using hflag
    rw [parseFlags, if_neg hleft, if_neg hplus, if_neg hspace, if_neg hspecial, if_neg hzero]

/-- What is asked for, and what was before. -/
def PrintFlags.merge (flags more : PrintFlags) : PrintFlags :=
  { flags with
    zeropad := flags.zeropad || more.zeropad
    plus := flags.plus || more.plus
    space := flags.space || more.space
    left := flags.left || more.left }

theorem parseFlags_append (hfs : ∀ c ∈ fs, IsFlag c) (hrest : NoFlag rest) :
    ∀ flags, parseFlags (fs ++ rest) flags = (flags.merge (flagsOf fs), rest) := by
  induction fs with
  | nil =>
    intro flags
    rw [List.nil_append, parseFlags_stop hrest]
    simp [PrintFlags.merge, flagsOf]
  | cons c fs ih =>
    intro flags
    have ih := ih fun c' hc' => hfs c' (List.mem_cons_of_mem _ hc')
    rw [List.cons_append]
    rcases hfs c List.mem_cons_self with rfl | rfl | rfl | rfl
    · rw [parseFlags, if_pos rfl, ih]
      simp [PrintFlags.merge, flagsOf]
    · rw [parseFlags, if_neg (by decide), if_pos rfl, ih]
      simp [PrintFlags.merge, flagsOf]
    · rw [parseFlags, if_neg (by decide), if_neg (by decide), if_pos rfl, ih]
      simp [PrintFlags.merge, flagsOf]
    · rw [parseFlags, if_neg (by decide), if_neg (by decide), if_neg (by decide),
        if_neg (by decide), if_pos rfl, ih]
      simp [PrintFlags.merge, flagsOf]

theorem parseWidth_text (hwidth : ∀ w ∈ width, w < 2 ^ 31) (hrest : NoDigit rest)
    (hstar : ∀ c ∈ rest.head?, c ≠ '*') (flags : PrintFlags) :
    parseWidth flags args (width.elim [] directive.decimal ++ rest) =
      (fieldOf width, flags, rest, args) := by
  cases width with
  | none =>
    change parseWidth flags args rest = (-1, flags, rest, args)
    cases rest with
    | nil => rfl
    | cons c rest =>
      have hdigit : ¬ c.isDigit = true := by
        rw [hrest c rfl]
        decide
      rw [parseWidth, if_neg hdigit, if_neg (hstar c rfl)]
  | some w =>
    obtain ⟨c, cs, hcs, hdigit, -⟩ := decimal_cons w
    have hread := skipAtoi_decimal (hwidth w rfl) hrest
    change parseWidth flags args (directive.decimal w ++ rest) = ((w : Int), flags, rest, args)
    rw [hcs, List.cons_append] at hread ⊢
    rw [parseWidth, if_pos hdigit, hread]

theorem parsePrecision_text (hprecision : ∀ p ∈ precision, p < 2 ^ 31) (hrest : NoDigit rest)
    (hdot : ∀ c ∈ rest.head?, c ≠ '.') :
    parsePrecision args (precision.elim [] (fun p => '.' :: directive.decimal p) ++ rest) =
      (fieldOf precision, rest, args) := by
  cases precision with
  | none =>
    change parsePrecision args rest = (-1, rest, args)
    cases rest with
    | nil => rfl
    | cons c rest => rw [parsePrecision, if_neg (hdot c rfl)]
  | some p =>
    obtain ⟨c, cs, hcs, hdigit, -⟩ := decimal_cons p
    have hread := skipAtoi_decimal (hprecision p rfl) hrest
    change parsePrecision args ('.' :: (directive.decimal p ++ rest)) = ((p : Int), rest, args)
    rw [hcs, List.cons_append] at hread ⊢
    rw [parsePrecision, if_pos rfl, parsePrecisionValue, if_pos hdigit, hread]
    dsimp only
    rw [if_neg (by omega)]

theorem conversion_cases {conv : IntConversion} (hconv : intConversion c = some conv) :
    c = 'd' ∨ c = 'i' ∨ c = 'u' ∨ c = 'o' ∨ c = 'x' ∨ c = 'X' := by
  by_contra hno
  simp only [not_or] at hno
  obtain ⟨hd, hi, hu, ho, hx, hX⟩ := hno
  rw [intConversion, if_neg (not_or.2 ⟨hd, hi⟩), if_neg hu, if_neg ho, if_neg hx, if_neg hX]
    at hconv
  cases hconv

theorem conversion_ne {conv : IntConversion} (hconv : intConversion c = some conv) :
    c.isDigit = false ∧ c ≠ '*' ∧ c ≠ '.' ∧ c ≠ 'h' ∧ c ≠ 'l' ∧ ¬ IsFlag c ∧ c ≠ '#' := by
  rcases conversion_cases hconv with rfl | rfl | rfl | rfl | rfl | rfl
  · decide
  · decide
  · decide
  · decide
  · decide
  · decide

/-- **The directive** as `rt_vsnprintf` reads it. -/
theorem parseSpec_directive {conv : IntConversion} (hconv : intConversion c = some conv)
    (hfs : ∀ c ∈ fs, IsFlag c) (hwidth : ∀ w ∈ width, 0 < w ∧ w < 2 ^ 31)
    (hprecision : ∀ p ∈ precision, p < 2 ^ 31) :
    parseSpec (directive fs width precision c) args =
      (⟨flagsOf fs, fieldOf width, fieldOf precision, none⟩, [c], args) := by
  obtain ⟨hdigit, hstar, hdot, hh, hl, hflag, hspecial⟩ := conversion_ne hconv
  have hend : NoDigit [c] := by
    rintro c' ⟨⟩
    exact hdigit
  -- the characters in front of which the width ends, and the flags
  have hhead : ∀ c' ∈ (precision.elim [] (fun p => '.' :: directive.decimal p) ++ [c]).head?,
      c' = '.' ∨ c' = c := by
    cases precision with
    | none =>
      rintro c' ⟨⟩
      exact .inr rfl
    | some p =>
      rintro c' ⟨⟩
      exact .inl rfl
  have hbehind : NoDigit (precision.elim [] (fun p => '.' :: directive.decimal p) ++ [c]) := by
    intro c' hc'
    rcases hhead c' hc' with rfl | rfl
    · decide
    · exact hdigit
  have hflags : NoFlag (width.elim [] directive.decimal ++
      (precision.elim [] (fun p => '.' :: directive.decimal p) ++ [c])) := by
    intro c' hc'
    cases width with
    | none =>
      rcases hhead c' hc' with rfl | rfl
      · decide
      · exact ⟨hflag, hspecial⟩
    | some w =>
      obtain ⟨d, cs, hcs, hd, hzero⟩ := decimal_cons w
      change c' ∈ (directive.decimal w ++ _).head? at hc'
      rw [hcs] at hc'
      obtain rfl : d = c' := Option.some.inj hc'
      have hne := hzero (hwidth w rfl).1.ne'
      refine ⟨?_, ?_⟩
      · rintro (rfl | rfl | rfl | rfl)
        · cases hd
        · cases hd
        · cases hd
        · exact hne rfl
      · rintro rfl
        cases hd
  rw [directive, List.append_assoc, List.append_assoc, parseSpec, parseFlags_append hfs hflags]
  dsimp only
  rw [parseWidth_text (fun w hw => (hwidth w hw).2) hbehind]
  · dsimp only
    rw [parsePrecision_text hprecision hend]
    · dsimp only
      rw [parseQualifier, if_neg (not_or.2 ⟨hh, hl⟩)]
      simp [PrintFlags.merge, flagsOf]
    · rintro c' ⟨⟩
      exact hdot
  · intro c' hc'
    rcases hhead c' hc' with rfl | rfl
    · decide
    · exact hstar

end Parse

-- --------
-- Pieces of a text
-- --------

/-- The sink that is a text. -/
abbrev snoc (text : List Char) (c : Char) : List Char := text ++ [c]

section Pieces

variable {strings : BitVec 32 → CString} {fmt rest : List Char} {args args' : VaList} {c : Char}
variable {spec : PrintSpec}

theorem format_nil : format strings [] args = [] := by
  rw [format, formatLoop]

theorem format_conversion (hspec : parseSpec fmt args = (spec, c :: rest, args')) :
    format strings ('%' :: fmt) args =
      (convert snoc strings spec c args' []).1 ++
        format strings rest (convert snoc strings spec c args' []).2 := by
  rw [format, formatLoop, if_neg (by decide), hspec]
  dsimp only
  rw [formatLoop_eq, foldl_snoc]

theorem putTimes_snoc (c : Char) (n : Nat) (text : List Char) :
    putTimes snoc c n text = text ++ List.replicate n c := foldl_snoc _ _

theorem putWhile_snoc (c : Char) (text : List Char) (size : Int) :
    putWhile snoc c (text, size) =
      (text ++ List.replicate size.toNat c, if 0 < size then -1 else toInt (size - 1)) := by
  rw [putWhile, putTimes_snoc]

theorem putSign_snoc (sign : Option Char) (text : List Char) (size : Int) :
    putSign snoc sign (text, size) =
      (text ++ sign.toList, if sign.isSome then toInt (size - 1) else size) := by
  cases sign with
  | none =>
    rw [Option.toList_none, List.append_nil]
    rfl
  | some c => rfl

end Pieces

-- --------
-- The text
-- --------

/-- The padding: in front of the sign, behind it, and behind the digits. -/
structure Padding where
  lead : Nat
  inner : Nat
  trail : Nat

/-- What the loops of `print_number` make of `size`, which is what the digits leave of the width. -/
def countedPadding (zeropad left sign : Bool) (size : Int) : Padding :=
  let start := if sign = true ∧ 0 < size then size - 1 else size
  let lead := if zeropad || left then 0 else start.toNat
  let size := if zeropad || left then size else if 0 < start then -1 else toInt (start - 1)
  let size := if sign then toInt (size - 1) else size
  { lead
    inner := if left then 0 else size.toNat
    trail := (if left then size else if 0 < size then -1 else toInt (size - 1)).toNat }

/-- The text that `print_number` makes of a value, with the digits of `divide`. -/
def codeText (conv : IntConversion) (flags : PrintFlags) (width precision : Option Nat)
    (value : Int) : List Char :=
  let zeropad := flags.zeropad && !flags.left
  let sign := printfSign conv flags value
  let tmp := tmpDigits conv.large conv.base value.natAbs
  let pad := countedPadding zeropad flags.left (!sign.isEmpty)
    (toInt (fieldOf width - max (tmp.length : Int) (fieldOf precision)))
  List.replicate pad.lead ' ' ++ sign ++ List.replicate pad.inner (if zeropad then '0' else ' ') ++
    List.replicate (fieldOf precision - tmp.length).toNat '0' ++
    (if precision = some 0 then [] else tmp.reverse) ++ List.replicate pad.trail ' '

section Padding

variable {zeropad left sign : Bool} {size : Int}

/-- One character for a sign, none without. -/
def signLength (sign : Bool) : Int := if sign then 1 else 0

/-- How often `size` is counted down behind its last character. -/
def countDowns (zeropad left : Bool) : Int := if left then 0 else if zeropad then 1 else 2

/-- `size` behind a loop. -/
theorem countDown_eq {x : Int} (h : -2 ^ 31 < x) (h' : x < 2 ^ 31) :
    (if 0 < x then -1 else toInt (x - 1)) = min x 0 - 1 := by
  split
  · omega
  · rw [toInt_of_fits (by omega) (by omega)]
    omega

/-- The padding is in one place, as long as `size` does not pass its smallest value. -/
theorem countedPadding_fits (hzero : zeropad = true → left = false) (hlt : size < 2 ^ 31)
    (hfits : -2 ^ 31 ≤ size - signLength sign - countDowns zeropad left) :
    countedPadding zeropad left sign size =
      { lead := if zeropad || left then 0 else (size - signLength sign).toNat
        inner := if zeropad then (size - signLength sign).toNat else 0
        trail := if left then (size - signLength sign).toNat else 0 } := by
  have hsigned : ∀ x < 2 ^ 31, -2 ^ 31 ≤ x - signLength sign →
      (if sign = true then toInt (x - 1) else x) = x - signLength sign := by
    intro x hx hge
    cases sign with
    | true => exact toInt_of_fits hge (by omega)
    | false => exact (Int.sub_zero x).symm
  have hsign : 0 ≤ signLength sign ∧ signLength sign ≤ 1 := by
    cases sign with
    | true => decide
    | false => decide
  unfold countDowns at hfits
  unfold countedPadding
  cases left with
  | true =>
    obtain rfl : zeropad = false := by
      cases zeropad with
      | false => rfl
      | true => exact absurd (hzero rfl) (by decide)
    simp only [if_true] at hfits
    simp only [Bool.or_true, if_true, if_false, Bool.false_eq_true]
    rw [hsigned size hlt (by omega)]
  | false =>
    cases zeropad with
    | true =>
      simp only [if_true, if_false, Bool.false_eq_true] at hfits
      simp only [Bool.true_or, if_true, if_false, Bool.false_eq_true]
      rw [hsigned size hlt (by omega), countDown_eq (by omega) (by omega)]
      rw [show (min (size - signLength sign) 0 - 1).toNat = 0 by omega]
    | false =>
      simp only [if_false, Bool.false_eq_true] at hfits
      simp only [Bool.or_false, if_false, Bool.false_eq_true]
      -- the sign takes its place of the width in front of the first loop, if there is one
      have hstart : ∃ start, (if sign = true ∧ 0 < size then size - 1 else size) = start ∧
          size - signLength sign ≤ start ∧ start ≤ size ∧
          start.toNat = (size - signLength sign).toNat := by
        refine ⟨_, rfl, ?_⟩
        cases sign with
        | true =>
          rw [show signLength true = 1 from rfl]
          by_cases hpos : 0 < size
          · rw [if_pos ⟨rfl, hpos⟩]
            omega
          · rw [if_neg fun h => hpos h.2]
            omega
        | false =>
          rw [if_neg fun h => Bool.false_ne_true h.1, show signLength false = 0 from rfl]
          omega
      obtain ⟨start, heq, hle, hge, hnat⟩ := hstart
      rw [heq, countDown_eq (by omega) (by omega), hsigned _ (by omega) (by omega),
        countDown_eq (by omega) (by omega), Padding.mk.injEq]
      exact ⟨hnat, by omega, by omega⟩

/-- And then there is some more of it. -/
theorem countedPadding_wraps (hge : -2 ^ 31 ≤ size)
    (hwraps : size - signLength sign - countDowns zeropad left < -2 ^ 31) :
    0 < (countedPadding zeropad left sign size).lead +
      (countedPadding zeropad left sign size).inner +
      (countedPadding zeropad left sign size).trail := by
  have hsize : size = -2 ^ 31 ∨ size = -2 ^ 31 + 1 ∨ size = -2 ^ 31 + 2 := by
    unfold signLength countDowns at hwraps
    split at hwraps
    all_goals
      split at hwraps
      · omega
      · split at hwraps
        · omega
        · omega
  revert zeropad left sign
  rcases hsize with rfl | rfl | rfl
  · decide
  · decide
  · decide

end Padding

section Text

variable {conv : IntConversion} {flags : PrintFlags} {width precision : Option Nat} {value : Int}
variable {num : Int}

/-- The type flags of an integer conversion. -/
def typeFlags (flags : PrintFlags) (conv : IntConversion) : PrintFlags :=
  { flags with sign := conv.sign, large := conv.large }

theorem numberSign_eq (h : conv.sign = true → num = value) :
    (numberSign (typeFlags flags conv) num).toList = printfSign conv flags value := by
  rw [numberSign, printfSign, typeFlags]
  dsimp only
  cases hsign : conv.sign with
  | false => rfl
  | true =>
    rw [h hsign, if_pos rfl, if_pos rfl]
    repeat' split
    all_goals rfl

theorem fieldOf_eq_zero : fieldOf precision = 0 ↔ precision = some 0 := by
  cases precision with
  | none => exact ⟨fun h => absurd h (by decide), fun h => absurd h (by decide)⟩
  | some p =>
    rw [Option.some.injEq]
    exact Int.natCast_eq_zero

/-- The loops of `print_number`, for a sign and digits. -/
def printPieces (zeropad left : Bool) (sign : Option Char) (tmp : List Char) (s precision : Int) :
    List Char :=
  let c := if zeropad then '0' else ' '
  let i : Int := tmp.length
  let digits := if i > precision then i else precision
  let size := toInt (s - digits)
  let p :=
    if zeropad ∨ left then ([], size)
    else putWhile snoc ' ' ([], if sign.isSome ∧ 0 < size then size - 1 else size)
  let p := putSign snoc sign p
  let p := if left then p else putWhile snoc c p
  let buf := putTimes snoc '0' (digits - i).toNat p.1
  let buf := if precision = 0 then buf else tmp.reverse.foldl snoc buf
  (putWhile snoc ' ' (buf, p.2)).1

theorem printNumber_pieces (base : Nat) (s precision : Int) (type : PrintFlags) :
    printNumber snoc num base s precision type [] =
      printPieces (type.zeropad && !type.left) type.left (numberSign type num)
        (tmpDigits type.large base
          ((if type.sign = true ∧ num < 0 then toInt (-num) else num) % 2 ^ 32).toNat)
        s precision := by
  rcases type with ⟨zeropad, sign, plus, space, left, special, large⟩
  cases left with
  | true =>
    rw [Bool.not_true, Bool.and_false]
    rfl
  | false =>
    rw [Bool.not_false, Bool.and_true]
    rfl

theorem printPieces_eq (zeropad left : Bool) (sign : Option Char) (tmp : List Char)
    (s precision : Int) :
    printPieces zeropad left sign tmp s precision =
      let pad := countedPadding zeropad left sign.isSome
        (toInt (s - max (tmp.length : Int) precision))
      List.replicate pad.lead ' ' ++ sign.toList ++
        List.replicate pad.inner (if zeropad then '0' else ' ') ++
        List.replicate (precision - tmp.length).toNat '0' ++
        (if precision = 0 then [] else tmp.reverse) ++ List.replicate pad.trail ' ' := by
  have hmax : (if (tmp.length : Int) > precision then (tmp.length : Int) else precision) =
      max (tmp.length : Int) precision := by
    split
    · omega
    · omega
  have hzeros : (max (tmp.length : Int) precision - tmp.length).toNat =
      (precision - tmp.length).toNat := by omega
  unfold printPieces countedPadding
  dsimp only
  rw [hmax, hzeros]
  generalize toInt (s - max (tmp.length : Int) precision) = size
  have hdigits : ∀ buf : List Char,
      (if precision = 0 then buf else tmp.reverse.foldl snoc buf) =
        buf ++ if precision = 0 then [] else tmp.reverse := by
    intro buf
    split
    · rw [List.append_nil]
    · exact foldl_snoc _ _
  simp only [putTimes_snoc, hdigits, putWhile_snoc]
  cases left with
  | true =>
    simp [putSign_snoc]
  | false =>
    cases zeropad with
    | true => 
      simp [putSign_snoc, putWhile_snoc]
    | false =>
      simp [putSign_snoc, putWhile_snoc]

/-- **The text of `print_number`.** -/
theorem printNumber_eq (hsign : conv.sign = true → num = value)
    (habs : ((if conv.sign = true ∧ num < 0 then toInt (-num) else num) % 2 ^ 32).toNat =
      value.natAbs) :
    printNumber snoc num conv.base (fieldOf width) (fieldOf precision) (typeFlags flags conv) [] =
      codeText conv flags width precision value := by
  have hshown := @numberSign_eq conv flags value num hsign
  have hsome : (numberSign (typeFlags flags conv) num).isSome =
      !(printfSign conv flags value).isEmpty := by
    rw [← hshown]
    cases numberSign (typeFlags flags conv) num with
    | none => rfl
    | some c => rfl
  have hzero : (if fieldOf precision = 0 then [] else (tmpDigits conv.large conv.base
      value.natAbs).reverse) = if precision = some 0 then [] else (tmpDigits conv.large conv.base
      value.natAbs).reverse := if_congr fieldOf_eq_zero rfl rfl
  rw [printNumber_pieces, show (typeFlags flags conv).sign = conv.sign from rfl, habs,
    printPieces_eq, hshown, hsome]
  dsimp only [typeFlags]
  rw [hzero]
  rfl

theorem toInt_emod (x : Int) : toInt x % 2 ^ 32 = x % 2 ^ 32 := Int.bmod_emod

/-- The argument as `print_number` gets it. -/
theorem numberValue_natAbs {word : BitVec 32} :
    ((if conv.sign = true ∧ word.toInt < 0 then toInt (-word.toInt) else word.toInt) %
      2 ^ 32).toNat = (printfValue conv.sign word).natAbs := by
  have hle := word.toInt_lt
  have hge := word.le_toInt
  rw [printfValue]
  cases conv.sign with
  | true =>
    by_cases hneg : word.toInt < 0
    · rw [if_pos ⟨rfl, hneg⟩, toInt_emod, if_pos rfl]
      omega
    · rw [if_neg fun h => hneg h.2, if_pos rfl]
      omega
  | false =>
    rw [if_neg fun h => Bool.false_ne_true h.1, if_neg Bool.false_ne_true,
      BitVec.toInt_eq_toNat_bmod]
    have hlt := word.isLt
    rw [show Int.bmod (word.toNat : Int) (2 ^ 32) % 2 ^ 32 = (word.toNat : Int) % 2 ^ 32 from
      Int.bmod_emod]
    omega

/-- **What `rt_vsnprintf` gives** for a directive. -/
theorem format_directive {strings : BitVec 32 → CString} {args : VaList} {fs : List Char} {c : Char}
    (hconv : intConversion c = some conv) (hfs : ∀ c ∈ fs, IsFlag c)
    (hwidth : ∀ w ∈ width, 0 < w ∧ w < 2 ^ 31) (hprecision : ∀ p ∈ precision, p < 2 ^ 31) :
    format strings ('%' :: directive fs width precision c) args =
      codeText conv (flagsOf fs) width precision (printfValue conv.sign args.word) := by
  have hconvert : (convert snoc strings ⟨flagsOf fs, fieldOf width, fieldOf precision, none⟩ c args
      []).1 = printNumber snoc args.word.toInt conv.base (fieldOf width) (fieldOf precision)
        (typeFlags (flagsOf fs) conv) [] := by
    rcases conversion_cases hconv with rfl | rfl | rfl | rfl | rfl | rfl
    all_goals
      obtain rfl := Option.some.inj hconv
      rfl
  rw [format_conversion (parseSpec_directive hconv hfs hwidth hprecision), format_nil,
    List.append_nil, hconvert, printNumber_eq _ numberValue_natAbs]
  intro hsign
  rw [printfValue, if_pos hsign]

end Text

-- --------
-- The digits of a text
-- --------

section Read

variable {ds : List Nat} {text : List Char} {large : Bool}

/-- The digit that a character is. -/
def digitValue (c : Char) : Option Nat :=
  (List.range 16).find? fun d => digitChar false d = c ∨ digitChar true d = c

/-- One more character of a text in base 16. -/
def readDigit (n : Nat) (c : Char) : Nat := (digitValue c).elim n fun d => d + 16 * n

theorem readDigit_digitChar (n : Nat) {d : Nat} (hd : d < 16) :
    readDigit n (digitChar large d) = d + 16 * n := by
  have hvalue : ∀ d < 16, ∀ large, digitValue (digitChar large d) = some d := by decide
  rw [readDigit, hvalue d hd large]
  rfl

theorem foldl_digits (hds : ∀ d ∈ ds, d < 16) :
    ((ds.map (digitChar large)).reverse).foldl readDigit 0 = Nat.ofDigits 16 ds := by
  induction ds with
  | nil => rfl
  | cons d ds ih =>
    rw [List.map_cons, List.reverse_cons, List.foldl_append,
      ih fun d' hd' => hds d' (List.mem_cons_of_mem _ hd')]
    exact readDigit_digitChar _ (hds d List.mem_cons_self)

/-- Characters that leave the value as it is. -/
theorem foldl_same {n : Nat} (h : ∀ c ∈ text, readDigit n c = n) : text.foldl readDigit n = n := by
  induction text with
  | nil => rfl
  | cons c text ih =>
    rw [List.foldl_cons, h c List.mem_cons_self]
    exact ih fun c' hc' => h c' (List.mem_cons_of_mem _ hc')

/-- What stands in front of the digits of a number. -/
def InFront (c : Char) : Prop := c = ' ' ∨ c = '0' ∨ c = '+' ∨ c = '-'

/-- A number is read back in base 16 from its text. -/
theorem foldl_text (hfront : ∀ c ∈ text, InFront c) (hds : ∀ d ∈ ds, d < 16) (n : Nat) :
    (text ++ (ds.map (digitChar large)).reverse ++ List.replicate n ' ').foldl readDigit 0 =
      Nat.ofDigits 16 ds := by
  have hlead : text.foldl readDigit 0 = 0 := by
    refine foldl_same fun c hc => ?_
    rcases hfront c hc with rfl | rfl | rfl | rfl
    · decide
    · decide
    · decide
    · decide
  rw [List.foldl_append, List.foldl_append, hlead, foldl_digits hds]
  refine foldl_same fun c hc => ?_
  rw [List.eq_of_mem_replicate hc]
  rfl

/-- The same digits in base 8 and in base 16: less than two of them. -/
theorem lt_of_ofDigits_eq (h : Nat.ofDigits 16 ds = Nat.ofDigits 8 ds) (hds : ∀ d ∈ ds, d < 8) :
    Nat.ofDigits 8 ds < 8 := by
  cases ds with
  | nil => decide
  | cons d ds =>
    have hle : Nat.ofDigits 8 ds ≤ Nat.ofDigits 16 ds := Nat.ofDigits_monotone ds (by decide)
    have hd := hds d List.mem_cons_self
    simp only [Nat.ofDigits_cons] at h ⊢
    omega

end Read

-- --------
-- The same text
-- --------

section Same

variable {conv : IntConversion} {flags : PrintFlags} {width precision : Option Nat} {value : Int}
variable {c : Char}

theorem conversion_base (hconv : intConversion c = some conv) :
    conv.base = 8 ∨ conv.base = 10 ∨ conv.base = 16 := by
  rcases conversion_cases hconv with rfl | rfl | rfl | rfl | rfl | rfl
  all_goals
    obtain rfl := Option.some.inj hconv
    decide

theorem length_printfSign_le : (printfSign conv flags value).length ≤ 1 := by
  unfold printfSign
  repeat' split
  all_goals decide

theorem signLength_printfSign :
    signLength (!(printfSign conv flags value).isEmpty) = (printfSign conv flags value).length := by
  have hle := @length_printfSign_le conv flags value
  generalize printfSign conv flags value = sign at hle
  cases sign with
  | nil => rfl
  | cons c sign =>
    obtain rfl : sign = [] := List.eq_nil_of_length_eq_zero (by simpa using hle)
    rfl

theorem inFront_printfSign {c : Char} (hc : c ∈ printfSign conv flags value) : InFront c := by
  unfold printfSign at hc
  repeat' split at hc
  · rw [List.mem_singleton.1 hc]
    exact .inr (.inr (.inr rfl))
  · rw [List.mem_singleton.1 hc]
    exact .inr (.inr (.inl rfl))
  · rw [List.mem_singleton.1 hc]
    exact .inl rfl
  · cases hc
  · cases hc

theorem inFront_replicate {c c' : Char} {n : Nat} (h : InFront c) (hc : c' ∈ List.replicate n c) :
    InFront c' := by
  rw [List.eq_of_mem_replicate hc]
  exact h

/-- The digits of `divide` are those of the base, unless it is 8. -/
theorem digits_eq {n : Nat} (hbase : conv.base = 8 ∨ conv.base = 10 ∨ conv.base = 16)
    (hoctal : conv.base = 8 → n < 8) (hn : n ≠ 0) :
    Nat.digits conv.base n = codeDigits conv.base n := by
  rw [codeDigits, if_neg hn]
  rcases hbase with hbase | hbase | hbase
  · rw [hbase, if_neg (by decide), Nat.digits_of_lt 8 n hn (hoctal hbase),
      Nat.digits_of_lt 16 n hn ((hoctal hbase).trans (by decide))]
  · rw [hbase, if_pos rfl]
  · rw [hbase, if_neg (by decide)]

theorem length_codeDigits_pos (base n : Nat) : 0 < (codeDigits base n).length := by
  unfold codeDigits
  split
  · decide
  case isFalse hn =>
    exact List.length_pos_of_ne_nil (Nat.digits_ne_nil_iff_ne_zero.2 hn)

/-- **The digits of `printf`**, with the digits of `divide`. -/
theorem printfDigits_eq (hbase : conv.base = 8 ∨ conv.base = 10 ∨ conv.base = 16)
    (hoctal : conv.base = 8 → value.natAbs < 8) (hzero : precision ≠ some 0) :
    printfDigits conv precision value =
      List.replicate
          (fieldOf precision - (tmpDigits conv.large conv.base value.natAbs).length).toNat '0' ++
        (tmpDigits conv.large conv.base value.natAbs).reverse := by
  rw [printfDigits, tmpDigits_eq]
  by_cases hn : value.natAbs = 0
  · rw [hn, codeDigits, if_pos rfl, Nat.digits_zero]
    cases precision with
    | none =>
      cases conv.large with
      | false => rfl
      | true => rfl
    | some p =>
      obtain ⟨q, rfl⟩ := Nat.exists_eq_succ_of_ne_zero fun h => hzero (congrArg some h)
      have hdigit : digitChar conv.large 0 = '0' := by
        cases conv.large with
        | false => rfl
        | true => rfl
      have hlen : (((q + 1 : Nat) : Int) - ((1 : Nat) : Int)).toNat = q := by omega
      change List.replicate (q + 1) '0' ++ [] =
        List.replicate (((q + 1 : Nat) : Int) - ((1 : Nat) : Int)).toNat '0' ++
          [digitChar conv.large 0]
      rw [hlen, hdigit, List.append_nil, List.replicate_succ']
  · rw [digits_eq hbase hoctal hn]
    have hpos := length_codeDigits_pos conv.base value.natAbs
    congr 2
    rw [List.length_reverse, List.length_map]
    cases precision with
    | none =>
      change 1 - _ = ((-1 : Int) - _).toNat
      omega
    | some p =>
      change p - _ = ((p : Int) - _).toNat
      omega

end Same

section Iff

variable {conv : IntConversion} {flags : PrintFlags} {width precision : Option Nat} {value : Int}

theorem fieldOf_bounds {n : Option Nat} (h : ∀ m ∈ n, m < 2 ^ 31) :
    -1 ≤ fieldOf n ∧ fieldOf n < 2 ^ 31 := by
  cases n with
  | none => decide
  | some m =>
    have hlt := h m rfl
    change -1 ≤ (m : Int) ∧ (m : Int) < 2 ^ 31
    omega

/-- What is left of the width. -/
def roomOf (width : Option Nat) (digits sign : Int) : Nat := (fieldOf width - digits - sign).toNat

theorem countDowns_le (zeropad left : Bool) :
    0 ≤ countDowns zeropad left ∧ countDowns zeropad left ≤ 2 := by
  cases zeropad with
  | false =>
    cases left with
    | false => decide
    | true => decide
  | true =>
    cases left with
    | false => decide
    | true => decide

/-- The counter does not pass its smallest value. -/
theorem fits_iff {len : Nat} (hlen : len ≤ 10) (hwidth : ∀ w ∈ width, w < 2 ^ 31) :
    -2 ^ 31 ≤ fieldOf width - max (len : Int) (fieldOf precision) -
        (printfSign conv flags value).length -
        countDowns (flags.zeropad && !flags.left) flags.left ↔
      (precision.getD 1 : Int) + (printfSign conv flags value).length +
        (if flags.left then 0 else if flags.zeropad then 1 else 2) ≤ 2 ^ 31 + fieldOf width := by
  have hsign := @length_printfSign_le conv flags value
  have hwidth := fieldOf_bounds hwidth
  have hdowns : countDowns (flags.zeropad && !flags.left) flags.left =
      if flags.left then 0 else if flags.zeropad then 1 else 2 := by
    rw [countDowns]
    cases flags.left with
    | true => rfl
    | false => rw [Bool.not_false, Bool.and_true]
  have hle := countDowns_le (flags.zeropad && !flags.left) flags.left
  rw [← hdowns]
  cases precision with
  | none =>
    change _ ≤ _ - max (len : Int) (-1) - _ - _ ↔ ((1 : Nat) : Int) + _ + _ ≤ _
    omega
  | some p =>
    change _ ≤ _ - max (len : Int) (p : Int) - _ - _ ↔ (p : Int) + _ + _ ≤ _
    omega

/-- The code's text, with its padding in one place. -/
theorem codeText_fits (hvalue : value.natAbs < 2 ^ 32) (hwidth : ∀ w ∈ width, w < 2 ^ 31)
    (hprecision : ∀ p ∈ precision, p < 2 ^ 31)
    (hfits : (precision.getD 1 : Int) + (printfSign conv flags value).length +
        (if flags.left then 0 else if flags.zeropad then 1 else 2) ≤ 2 ^ 31 + fieldOf width) :
    codeText conv flags width precision value =
      let zeropad := flags.zeropad && !flags.left
      let sign := printfSign conv flags value
      let tmp := tmpDigits conv.large conv.base value.natAbs
      let n := roomOf width (max (tmp.length : Int) (fieldOf precision)) sign.length
      List.replicate (if zeropad || flags.left then 0 else n) ' ' ++ sign ++
        List.replicate (if zeropad then n else 0) (if zeropad then '0' else ' ') ++
        List.replicate (fieldOf precision - tmp.length).toNat '0' ++
        (if precision = some 0 then [] else tmp.reverse) ++
        List.replicate (if flags.left then n else 0) ' ' := by
  have hlen : (tmpDigits conv.large conv.base value.natAbs).length ≤ 10 := by
    refine (length_tmpDigits_le hvalue).trans ?_
    split
    · decide
    · decide
  have hw := fieldOf_bounds hwidth
  have hp := fieldOf_bounds hprecision
  rw [← fits_iff hlen hwidth] at hfits
  have hzero : (flags.zeropad && !flags.left) = true → flags.left = false := by
    cases flags.left with
    | true => simp
    | false => simp
  rw [codeText]
  dsimp only
  rw [toInt_of_fits (by omega) (by omega), countedPadding_fits hzero (by omega)]
  · rw [signLength_printfSign]
    rfl
  · rw [signLength_printfSign]
    exact hfits

theorem length_printfDigits (hbase : conv.base = 8 ∨ conv.base = 10 ∨ conv.base = 16)
    (hoctal : conv.base = 8 → value.natAbs < 8) (hzero : precision ≠ some 0) :
    ((printfDigits conv precision value).length : Int) =
      max ((tmpDigits conv.large conv.base value.natAbs).length : Int) (fieldOf precision) := by
  rw [printfDigits_eq hbase hoctal hzero, List.length_append, List.length_replicate,
    List.length_reverse]
  omega

theorem roomOf_eq (width : Option Nat) (digits sign : Nat) :
    roomOf width digits sign = width.getD 0 - (sign + digits) := by
  cases width with
  | none =>
    change ((-1 : Int) - digits - sign).toNat = 0 - (sign + digits)
    omega
  | some w =>
    change ((w : Int) - digits - sign).toNat = w - (sign + digits)
    omega

/-- A precision of 0, and the value 0: no digits at all. -/
theorem codeText_zero (hwidth : ∀ w ∈ width, w < 2 ^ 31)
    (hroom : width.getD 0 ≤ (printfSign conv flags 0).length) :
    codeText conv flags width (some 0) 0 = printfText conv flags width (some 0) 0 := by
  have hsign := @length_printfSign_le conv flags 0
  have hw := fieldOf_bounds hwidth
  have hpad : width.getD 0 - ((printfSign conv flags 0).length + 0) = 0 := by omega
  have hroom' : roomOf width (max ((tmpDigits conv.large conv.base 0).length : Int)
      (fieldOf (some 0))) (printfSign conv flags 0).length = 0 := by
    rw [show max ((tmpDigits conv.large conv.base 0).length : Int) (fieldOf (some 0)) =
      ((1 : Nat) : Int) from rfl, roomOf_eq]
    omega
  rw [codeText_fits (by decide) hwidth (by rintro p ⟨⟩; decide)]
  · have hdigits : printfDigits conv (some 0) 0 = [] := by
      rw [printfDigits, Int.natAbs_zero, Nat.digits_zero]
      rfl
    rw [printfText]
    simp only [Int.natAbs_zero, hroom', hdigits, List.length_nil, hpad, if_true]
    simp [fieldOf]
  · change ((0 : Nat) : Int) + _ + _ ≤ _
    split
    · omega
    · split
      · omega
      · omega

/-- The text is that of `printf`. -/
theorem codeText_of_prints (hbase : conv.base = 8 ∨ conv.base = 10 ∨ conv.base = 16)
    (hvalue : value.natAbs < 2 ^ 32) (hwidth : ∀ w ∈ width, w < 2 ^ 31)
    (hprecision : ∀ p ∈ precision, p < 2 ^ 31) (h : Prints conv flags width precision value) :
    codeText conv flags width precision value = printfText conv flags width precision value := by
  by_cases hp : precision = some 0
  · obtain ⟨rfl, hroom⟩ := h.zero hp
    subst hp
    exact codeText_zero hwidth hroom
  · have hdigits := printfDigits_eq hbase h.octal hp
    have hlen := length_printfDigits hbase h.octal hp
    have hpad := h.zeropad
    rw [codeText_fits hvalue hwidth hprecision h.fits]
    dsimp only
    rw [if_neg hp, ← hlen, roomOf_eq, List.append_assoc _ (List.replicate _ '0'), ← hdigits,
      printfText]
    generalize printfDigits conv precision value = digits at hpad
    generalize printfSign conv flags value = sign at hpad
    cases hleft : flags.left with
    | true => simp
    | false =>
      cases hzero : flags.zeropad with
      | true =>
        by_cases hnone : precision = none
        · simp [hnone]
        · have hle := hpad hzero hleft hnone
          have hno : width.getD 0 - (sign.length + digits.length) = 0 := by omega
          simp [hno, hnone]
      | false => simp

/-- The value that the code's text has in base 16. -/
theorem read_codeText : (codeText conv flags width precision value).foldl readDigit 0 =
    Nat.ofDigits 16 (if precision = some 0 then [] else codeDigits conv.base value.natAbs) := by
  have hdigits : (if precision = some 0 then [] else
      (tmpDigits conv.large conv.base value.natAbs).reverse) =
      ((if precision = some 0 then [] else codeDigits conv.base value.natAbs).map
        (digitChar conv.large)).reverse := by
    split
    · rfl
    · rw [tmpDigits_eq]
  rw [codeText, hdigits]
  refine foldl_text (fun c hc => ?_) (fun d hd => ?_) _
  · rcases List.mem_append.1 hc with hc | hc
    · rcases List.mem_append.1 hc with hc | hc
      · rcases List.mem_append.1 hc with hc | hc
        · exact inFront_replicate (.inl rfl) hc
        · exact inFront_printfSign hc
      · split at hc
        · exact inFront_replicate (.inr (.inl rfl)) hc
        · exact inFront_replicate (.inl rfl) hc
    · exact inFront_replicate (.inr (.inl rfl)) hc
  · split at hd
    · cases hd
    · exact codeDigits_lt hd

/-- And that of `printf`. -/
theorem read_printfText (hbase : conv.base = 8 ∨ conv.base = 10 ∨ conv.base = 16) :
    (printfText conv flags width precision value).foldl readDigit 0 =
      Nat.ofDigits 16 (Nat.digits conv.base value.natAbs) := by
  have hlt : ∀ d ∈ Nat.digits conv.base value.natAbs, d < 16 := by
    intro d hd
    have hlt := Nat.digits_lt_base (by omega) hd
    omega
  have hread : ∀ lead : List Char, (∀ c ∈ lead, InFront c) → ∀ n,
      (lead ++ printfDigits conv precision value ++ List.replicate n ' ').foldl readDigit 0 =
        Nat.ofDigits 16 (Nat.digits conv.base value.natAbs) := by
    intro lead hlead n
    rw [printfDigits, ← List.append_assoc]
    refine foldl_text (fun c hc => ?_) hlt n
    rcases List.mem_append.1 hc with hc | hc
    · exact hlead c hc
    · exact inFront_replicate (.inr (.inl rfl)) hc
  have hsign : ∀ c ∈ printfSign conv flags value, InFront c := fun c hc => inFront_printfSign hc
  rw [printfText]
  split
  · exact hread _ hsign _
  · split
    · refine (congrArg _ (List.append_nil _).symm).trans (hread _ (fun c hc => ?_) 0)
      rcases List.mem_append.1 hc with hc | hc
      · exact hsign c hc
      · exact inFront_replicate (.inr (.inl rfl)) hc
    · refine (congrArg _ (List.append_nil _).symm).trans (hread _ (fun c hc => ?_) 0)
      rcases List.mem_append.1 hc with hc | hc
      · exact inFront_replicate (.inl rfl) hc
      · exact hsign c hc

/-- **The same digits**, but for a precision of 0 and for base 8. -/
theorem digits_of_read (hread : Nat.ofDigits 16 (if precision = some 0 then [] else
      codeDigits conv.base value.natAbs) = Nat.ofDigits 16 (Nat.digits conv.base value.natAbs)) :
    (precision = some 0 → value = 0) ∧ (conv.base = 8 → value.natAbs < 8) := by
  have hvalue : precision = some 0 → value = 0 := by
    intro hp
    rw [if_pos hp, Nat.ofDigits_nil] at hread
    by_contra hne
    have hn : value.natAbs ≠ 0 := Int.natAbs_ne_zero.2 hne
    have hzero := Nat.digits_zero_of_eq_zero (by decide) hread.symm
    exact Nat.getLast_digit_ne_zero conv.base hn (hzero _ (List.getLast_mem _))
  refine ⟨hvalue, fun hoctal => ?_⟩
  by_cases hp : precision = some 0
  · rw [hvalue hp]
    decide
  · rw [if_neg hp, hoctal] at hread
    by_cases hn : value.natAbs = 0
    · rw [hn]
      decide
    · rw [codeDigits, if_neg hn, if_neg (by decide), Nat.ofDigits_digits] at hread
      have hlt := lt_of_ofDigits_eq (hread.symm.trans (Nat.ofDigits_digits 8 _).symm)
        fun d hd => Nat.digits_lt_base (by decide) hd
      rwa [Nat.ofDigits_digits] at hlt

theorem length_printfText : (printfText conv flags width precision value).length =
    max (width.getD 0) ((printfSign conv flags value).length +
      (printfDigits conv precision value).length) := by
  rw [printfText]
  split
  · simp only [List.length_append, List.length_replicate]
    omega
  · split
    · simp only [List.length_append, List.length_replicate]
      omega
    · simp only [List.length_append, List.length_replicate]
      omega

/-- **The counter has not passed its smallest value**, if the text is that of `printf`. -/
theorem fits_of_codeText (hbase : conv.base = 8 ∨ conv.base = 10 ∨ conv.base = 16)
    (hvalue : value.natAbs < 2 ^ 32) (hwidth : ∀ w ∈ width, w < 2 ^ 31)
    (hprecision : ∀ p ∈ precision, p < 2 ^ 31)
    (hoctal : conv.base = 8 → value.natAbs < 8)
    (h : codeText conv flags width precision value = printfText conv flags width precision value) :
    (precision.getD 1 : Int) + (printfSign conv flags value).length +
      (if flags.left then 0 else if flags.zeropad then 1 else 2) ≤ 2 ^ 31 + fieldOf width := by
  have hlen : (tmpDigits conv.large conv.base value.natAbs).length ≤ 10 := by
    refine (length_tmpDigits_le hvalue).trans ?_
    split
    · decide
    · decide
  have hw := fieldOf_bounds hwidth
  have hp := fieldOf_bounds hprecision
  have hsign := @length_printfSign_le conv flags value
  have hdowns := countDowns_le (flags.zeropad && !flags.left) flags.left
  by_contra hfits
  rw [← fits_iff hlen hwidth] at hfits
  have hpositive : precision ≠ some 0 := by
    rintro rfl
    change ¬ _ ≤ _ - max _ (0 : Int) - _ - _ at hfits
    omega
  have hdigits := length_printfDigits hbase hoctal hpositive
  have hmore := @countedPadding_wraps (flags.zeropad && !flags.left) flags.left
    (!(printfSign conv flags value).isEmpty)
    (fieldOf width - max ((tmpDigits conv.large conv.base value.natAbs).length : Int)
      (fieldOf precision)) (by omega) (by rw [signLength_printfSign]; omega)
  have hlength := congrArg List.length h
  have hroom : width.getD 0 ≤ (printfDigits conv precision value).length := by
    cases width with
    | none => exact Nat.zero_le _
    | some w =>
      change ¬ _ ≤ (w : Int) - _ - _ - _ at hfits
      change w ≤ _
      omega
  rw [length_printfText, codeText, toInt_of_fits (by omega) (by omega), if_neg hpositive] at hlength
  simp only [List.length_append, List.length_replicate, List.length_reverse] at hlength
  omega

/-- **Where the text is that of `printf`.** -/
theorem prints_of_codeText (hbase : conv.base = 8 ∨ conv.base = 10 ∨ conv.base = 16)
    (hvalue : value.natAbs < 2 ^ 32) (hwidth : ∀ w ∈ width, w < 2 ^ 31)
    (hprecision : ∀ p ∈ precision, p < 2 ^ 31)
    (h : codeText conv flags width precision value = printfText conv flags width precision value) :
    Prints conv flags width precision value := by
  have hread := congrArg (List.foldl readDigit 0) h
  rw [read_codeText, read_printfText hbase] at hread
  obtain ⟨hzero, hoctal⟩ := digits_of_read hread
  have hfits := fits_of_codeText hbase hvalue hwidth hprecision hoctal h
  rw [codeText_fits hvalue hwidth hprecision hfits] at h
  dsimp only at h
  have hroom : precision = some 0 → width.getD 0 ≤ (printfSign conv flags value).length := by
    intro hp
    obtain rfl := hzero hp
    subst hp
    have hdigits : (printfDigits conv (some 0) 0).length = 0 := by
      rw [printfDigits, Int.natAbs_zero, Nat.digits_zero]
      rfl
    have hone : max ((tmpDigits conv.large conv.base 0).length : Int) (fieldOf (some 0)) =
      ((1 : Nat) : Int) := rfl
    have hlength := congrArg List.length h
    rw [length_printfText, hdigits] at hlength
    simp only [Int.natAbs_zero, hone, roomOf_eq, List.length_append, List.length_replicate,
      if_true, List.length_nil] at hlength
    have hnone : (fieldOf (some 0) - (tmpDigits conv.large conv.base 0).length).toNat = 0 := rfl
    rw [hnone] at hlength
    cases hleft : flags.left with
    | true =>
      rw [hleft] at hlength
      simp at hlength
      omega
    | false =>
      cases hpad : flags.zeropad with
      | true =>
        rw [hleft, hpad] at hlength
        simp at hlength
        omega
      | false =>
        rw [hleft, hpad] at hlength
        simp at hlength
        omega
  refine ⟨hoctal, fun hp => ⟨hzero hp, hroom hp⟩, ?_, hfits⟩
  intro hpad hleft hnone
  by_cases hp : precision = some 0
  · exact (hroom hp).trans (Nat.le_add_right _ _)
  · rw [if_neg hp, ← length_printfDigits hbase hoctal hp, roomOf_eq,
      List.append_assoc _ (List.replicate _ '0'), ← printfDigits_eq hbase hoctal hp, printfText,
      hpad, hleft] at h
    have hcount := congrArg (List.count ' ') h
    simp [hnone, List.count_replicate] at hcount
    omega

end Iff

-- --------
-- `rt_vsnprintf`
-- --------

section Directives

variable {strings : BitVec 32 → CString} {args : VaList} {fs : List Char} {c : Char}
variable {conv : IntConversion} {width precision : Option Nat}

theorem natAbs_printfValue_lt (sign : Bool) (word : BitVec 32) :
    (printfValue sign word).natAbs < 2 ^ 32 := by
  have hlt := word.isLt
  have hint := word.toInt_lt
  have hint' := word.le_toInt
  rw [printfValue]
  split
  · omega
  · omega

/-- **The integer conversions.** For every value, every conversion and all flags, widths and
precisions, `rt_vsnprintf` gives what `printf` gives if and only if `Prints` holds. -/
theorem format_printf_iff (hconv : intConversion c = some conv) (hfs : ∀ c ∈ fs, IsFlag c)
    (hwidth : ∀ w ∈ width, 0 < w ∧ w < 2 ^ 31) (hprecision : ∀ p ∈ precision, p < 2 ^ 31) :
    format strings ('%' :: directive fs width precision c) args =
        printfText conv (flagsOf fs) width precision (printfValue conv.sign args.word) ↔
      Prints conv (flagsOf fs) width precision (printfValue conv.sign args.word) := by
  have hbase := conversion_base hconv
  have hvalue := natAbs_printfValue_lt conv.sign args.word
  have hwidth' : ∀ w ∈ width, w < 2 ^ 31 := fun w hw => (hwidth w hw).2
  rw [format_directive hconv hfs hwidth hprecision]
  exact ⟨prints_of_codeText hbase hvalue hwidth' hprecision,
    codeText_of_prints hbase hvalue hwidth' hprecision⟩

/-- The most negative value, with blanks in front of it. -/
theorem format_printf_iff_most_negative :
    format (fun _ => ⟨[], by decide⟩) ('%' :: directive [' '] (some 12) none 'd')
        (fun _ => BitVec.ofNat 32 (2 ^ 31)) =
      printfText ⟨10, true, false⟩ (flagsOf [' ']) (some 12) none (-2 ^ 31) := by
  refine (@format_printf_iff (fun _ => ⟨[], by decide⟩) (fun _ => BitVec.ofNat 32 (2 ^ 31)) [' ']
    'd' ⟨10, true, false⟩ (some 12) none rfl (List.forall_mem_singleton.2 (.inr (.inr (.inl rfl))))
    ?_ ?_).2 ⟨?_, ?_, ?_, ?_⟩
  · rintro w ⟨⟩
    decide
  · rintro p ⟨⟩
  · intro h
    cases h
  · intro h
    cases h
  · intro h
    cases h
  · decide

/-- **`%o` of 8** gives the digit of base 16. -/
theorem octal_not_printed : ¬ ∀ strings args fs c conv width precision,
    intConversion c = some conv → (∀ c ∈ fs, IsFlag c) →
    (∀ w ∈ width, 0 < w ∧ w < 2 ^ 31) → (∀ p ∈ precision, p < 2 ^ 31) →
    format strings ('%' :: directive fs width precision c) args =
      printfText conv (flagsOf fs) width precision (printfValue conv.sign args.word) := by
  intro h
  have hsame := h (fun _ => ⟨[], by decide⟩) (fun _ => 8) [] 'o' ⟨8, false, false⟩ none none rfl
    (List.forall_mem_nil _) (by rintro w ⟨⟩) (by rintro p ⟨⟩)
  have hread := congrArg (List.foldl readDigit 0) hsame
  rw [format_directive rfl (List.forall_mem_nil _) (by rintro w ⟨⟩) (by rintro p ⟨⟩),
    read_codeText, read_printfText (.inl rfl)] at hread
  have hlt := (digits_of_read hread).2 rfl
  exact absurd hlt (by decide)

end Directives

end RTThread.Kernel
