import RTThread.Lib.CString
import RTThread.Rtdef
import Mathlib.Data.Nat.Digits.Lemmas

/-!
# Formatted text (`src/kservice.c`)

`rt_vsnprintf` and `print_number` emit one character at a time, each by the same guarded store
and increment of `str`. The functions here are the source's with the sink of the characters as
a parameter: `put` stands for `if (str < end) *str = c; ++ str;`. What is emitted does not
depend on the sink (`formatLoop_eq`): with a list for a sink the loop returns the whole text,
and with any other sink it puts the characters of this text there, in order.

The arguments are the words of a `va_list`, of which there is always another one; `strings`
reads the string that a word points to. `%o` is written with the digits of base 16, since
`divide` knows no third base.
-/

namespace RTThread.Kernel

-- --------
-- Arguments and flags
-- --------

/-- The words that `va_arg` reads. -/
abbrev VaList := Nat → BitVec 32

namespace VaList

/-- The word that is read next. -/
def word (args : VaList) : BitVec 32 := args 0

/-- The arguments behind it. -/
def next (args : VaList) : VaList := fun i => args (i + 1)

end VaList

/-- `ZEROPAD`, `SIGN`, `PLUS`, `SPACE`, `LEFT`, `SPECIAL` and `LARGE`. -/
structure PrintFlags where
  zeropad : Bool := false
  sign : Bool := false
  plus : Bool := false
  space : Bool := false
  left : Bool := false
  special : Bool := false
  large : Bool := false
deriving DecidableEq

/-- What stands between `%` and the conversion. -/
structure PrintSpec where
  flags : PrintFlags
  fieldWidth : Int
  precision : Int
  qualifier : Option Char

/-- The flags, as far as they go. -/
def parseFlags : List Char → PrintFlags → PrintFlags × List Char
  | [], flags => (flags, [])
  | c :: fmt, flags =>
    if c = '-' then parseFlags fmt { flags with left := true }
    else if c = '+' then parseFlags fmt { flags with plus := true }
    else if c = ' ' then parseFlags fmt { flags with space := true }
    else if c = '#' then parseFlags fmt { flags with special := true }
    else if c = '0' then parseFlags fmt { flags with zeropad := true }
    else (flags, c :: fmt)

/-- `skip_atoi`, from the value read so far. -/
def skipAtoi : List Char → Int → Int × List Char
  | [], i => (i, [])
  | c :: fmt, i =>
    if c.isDigit then skipAtoi fmt (toInt (i * 10 + (c.toNat - '0'.toNat)))
    else (i, c :: fmt)

/-- The field width. -/
def parseWidth (flags : PrintFlags) (args : VaList) :
    List Char → Int × PrintFlags × List Char × VaList
  | [] => (-1, flags, [], args)
  | c :: fmt =>
    if c.isDigit then
      let (fieldWidth, fmt) := skipAtoi (c :: fmt) 0
      (fieldWidth, flags, fmt, args)
    else if c = '*' then
      let fieldWidth := args.word.toInt
      if fieldWidth < 0 then (toInt (-fieldWidth), { flags with left := true }, fmt, args.next)
      else (fieldWidth, flags, fmt, args.next)
    else (-1, flags, c :: fmt, args)

/-- What follows the `.` of a precision. -/
def parsePrecisionValue (args : VaList) : List Char → Int × List Char × VaList
  | [] => (-1, [], args)
  | c :: fmt =>
    if c.isDigit then
      let (precision, fmt) := skipAtoi (c :: fmt) 0
      (precision, fmt, args)
    else if c = '*' then (args.word.toInt, fmt, args.next)
    else (-1, c :: fmt, args)

/-- The precision. -/
def parsePrecision (args : VaList) : List Char → Int × List Char × VaList
  | [] => (-1, [], args)
  | c :: fmt =>
    if c = '.' then
      let (precision, fmt, args) := parsePrecisionValue args fmt
      (if precision < 0 then 0 else precision, fmt, args)
    else (-1, c :: fmt, args)

/-- The conversion qualifier. -/
def parseQualifier : List Char → Option Char × List Char
  | [] => (none, [])
  | c :: fmt => if c = 'h' ∨ c = 'l' then (some c, fmt) else (none, c :: fmt)

/-- Everything between `%` and the conversion. -/
def parseSpec (fmt : List Char) (args : VaList) : PrintSpec × List Char × VaList :=
  let (flags, fmt) := parseFlags fmt {}
  let (fieldWidth, flags, fmt, args) := parseWidth flags args fmt
  let (precision, fmt, args) := parsePrecision args fmt
  let (qualifier, fmt) := parseQualifier fmt
  ({ flags, fieldWidth, precision, qualifier }, fmt, args)

-- --------
-- Conversions
-- --------

section Sink

variable {σ : Type} (put : σ → Char → σ)

/-- The same character a number of times. -/
def putTimes (c : Char) (n : Nat) (str : σ) : σ := (List.replicate n c).foldl put str

/-- `while (size-- > 0)` put the character, with the pointer and the size before and after. -/
def putWhile (c : Char) : σ × Int → σ × Int
  | (buf, size) =>
    (putTimes put c size.toNat buf, if 0 < size then -1 else toInt (size - 1))

/-- The sign, if there is one. -/
def putSign : Option Char → σ × Int → σ × Int
  | some sign, (buf, size) => (put buf sign, toInt (size - 1))
  | none, p => p

/-- The digits of `print_number`, last digit first: the contents of `tmp`. -/
def tmpDigits (large : Bool) (base num : Nat) : List Char :=
  let digits := if large then "0123456789ABCDEF".toList else "0123456789abcdef".toList
  if num = 0 then ['0']
  else (Nat.digits (if base = 10 then 10 else 16) num).map fun d => digits.getD d '\x00'

/-- The sign of `print_number`, if it shows one. -/
def numberSign (type : PrintFlags) (num : Int) : Option Char :=
  if type.sign then
    if num < 0 then some '-'
    else if type.plus then some '+'
    else if type.space then some ' '
    else none
  else none

/-- `print_number(buf, end, num, base, s, precision, type)`. -/
def printNumber (num : Int) (base : Nat) (s precision : Int) (type : PrintFlags) (buf : σ) : σ :=
  let type := if type.left then { type with zeropad := false } else type
  let c := if type.zeropad then '0' else ' '
  let sign := numberSign type num
  let num := if type.sign ∧ num < 0 then toInt (-num) else num
  let tmp := tmpDigits type.large base (num % 2 ^ 32).toNat
  let i : Int := tmp.length
  let digits := if i > precision then i else precision
  let size := toInt (s - digits)
  let p :=
    if type.zeropad ∨ type.left then (buf, size)
    else putWhile put ' ' (buf, if sign.isSome ∧ 0 < size then size - 1 else size)
  let p := putSign put sign p
  let p := if type.left then p else putWhile put c p
  let buf := putTimes put '0' (digits - i).toNat p.1
  let buf := if precision = 0 then buf else tmp.reverse.foldl put buf
  (putWhile put ' ' (buf, p.2)).1

/-- `while (--field_width > 0)` put a blank, with the pointer and the width before and after. -/
def putField : σ × Int → σ × Int
  | (str, fieldWidth) =>
    let fieldWidth := toInt (fieldWidth - 1)
    (putTimes put ' ' fieldWidth.toNat str, if 0 < fieldWidth then 0 else fieldWidth)

/-- The conversion `c`. -/
def convertChar (spec : PrintSpec) (word : BitVec 32) (str : σ) : σ :=
  let p := if spec.flags.left then (str, spec.fieldWidth) else putField put (str, spec.fieldWidth)
  let str := put p.1 (Char.ofNat (word.toNat % 2 ^ 8))
  (putField put (str, p.2)).1

/-- `while (len < field_width--)` put a blank, with the pointer and the width before and after. -/
def putBeyond (len : Nat) : σ × Int → σ × Int
  | (str, fieldWidth) => (putTimes put ' ' (fieldWidth - len).toNat str,
    if len < fieldWidth then len - 1 else toInt (fieldWidth - 1))

/-- The number of characters that the conversion `s` takes of a string. -/
def stringLen (spec : PrintSpec) (s : CString) : Nat :=
  let len :=
    if 0 ≤ spec.fieldWidth then min s.chars.length spec.fieldWidth.toNat else s.chars.length
  if 0 < spec.precision ∧ spec.precision < len then spec.precision.toNat else len

/-- The conversion `s`. -/
def convertString (spec : PrintSpec) (s : CString) (str : σ) : σ :=
  let len := stringLen spec s
  let p :=
    if spec.flags.left then (str, spec.fieldWidth) else putBeyond put len (str, spec.fieldWidth)
  let str := (s.chars.take len).foldl put p.1
  (putBeyond put len (str, p.2)).1

/-- The conversion `p`. -/
def convertPointer (spec : PrintSpec) (word : BitVec 32) (str : σ) : σ :=
  if spec.fieldWidth = -1 then
    printNumber put word.toInt 16 8 spec.precision { spec.flags with zeropad := true } str
  else printNumber put word.toInt 16 spec.fieldWidth spec.precision spec.flags str

/-- The value of an integer argument, as the `long` that `print_number` gets. -/
def numberValue (qualifier : Option Char) (sign : Bool) (word : BitVec 32) : Int :=
  if qualifier = some 'h' then
    if sign then Int.bmod word.toNat (2 ^ 16) else word.toNat % 2 ^ 16
  else word.toInt

/-- The integer conversions. -/
def convertNumber (spec : PrintSpec) (base : Nat) (flags : PrintFlags) (word : BitVec 32)
    (str : σ) : σ :=
  printNumber put (numberValue spec.qualifier flags.sign word) base spec.fieldWidth spec.precision
    flags str

/-- The `switch` over the conversion. -/
def convert (strings : BitVec 32 → CString) (spec : PrintSpec) (c : Char) (args : VaList)
    (str : σ) : σ × VaList :=
  let flags := spec.flags
  if c = 'c' then (convertChar put spec args.word str, args.next)
  else if c = 's' then
    let s := if args.word = 0 then ⟨"(NULL)".toList, by decide⟩ else strings args.word
    (convertString put spec s str, args.next)
  else if c = 'p' then (convertPointer put spec args.word str, args.next)
  else if c = '%' then (put str '%', args)
  else if c = 'o' then (convertNumber put spec 8 flags args.word str, args.next)
  else if c = 'X' then
    (convertNumber put spec 16 { flags with large := true } args.word str, args.next)
  else if c = 'x' then (convertNumber put spec 16 flags args.word str, args.next)
  else if c = 'd' ∨ c = 'i' then
    (convertNumber put spec 10 { flags with sign := true } args.word str, args.next)
  else if c = 'u' then (convertNumber put spec 10 flags args.word str, args.next)
  else (put (put str '%') c, args)

end Sink

-- --------
-- The loop over the format
-- --------

theorem length_parseFlags (fmt : List Char) (flags : PrintFlags) :
    (parseFlags fmt flags).2.length ≤ fmt.length := by
  induction fmt generalizing flags with
  | nil => exact Nat.le_refl _
  | cons c fmt ih =>
    have hskip := fun flags => Nat.le_succ_of_le (ih flags)
    rw [parseFlags]
    repeat' split
    all_goals first | exact hskip _ | exact Nat.le_refl _

theorem length_skipAtoi (fmt : List Char) (i : Int) : (skipAtoi fmt i).2.length ≤ fmt.length := by
  induction fmt generalizing i with
  | nil => exact Nat.le_refl _
  | cons c fmt ih =>
    rw [skipAtoi]
    split
    · exact Nat.le_succ_of_le (ih _)
    · exact Nat.le_refl _

theorem length_parseWidth (flags : PrintFlags) (args : VaList) (fmt : List Char) :
    (parseWidth flags args fmt).2.2.1.length ≤ fmt.length := by
  cases fmt with
  | nil => exact Nat.le_refl _
  | cons c fmt =>
    rw [parseWidth]
    split
    · exact length_skipAtoi _ _
    · split
      · dsimp only
        split
        · exact Nat.le_succ _
        · exact Nat.le_succ _
      · exact Nat.le_refl _

theorem length_parsePrecision (args : VaList) (fmt : List Char) :
    (parsePrecision args fmt).2.1.length ≤ fmt.length := by
  have hvalue : ∀ fmt, (parsePrecisionValue args fmt).2.1.length ≤ fmt.length := by
    intro fmt
    cases fmt with
    | nil => exact Nat.le_refl _
    | cons c fmt =>
      rw [parsePrecisionValue]
      split
      · exact length_skipAtoi _ _
      · split
        · exact Nat.le_succ _
        · exact Nat.le_refl _
  cases fmt with
  | nil => exact Nat.le_refl _
  | cons c fmt =>
    rw [parsePrecision]
    split
    · exact Nat.le_succ_of_le (hvalue fmt)
    · exact Nat.le_refl _

theorem length_parseQualifier (fmt : List Char) : (parseQualifier fmt).2.length ≤ fmt.length := by
  cases fmt with
  | nil => exact Nat.le_refl _
  | cons c fmt =>
    rw [parseQualifier]
    split
    · exact Nat.le_succ _
    · exact Nat.le_refl _

theorem length_parseSpec (fmt : List Char) (args : VaList) :
    (parseSpec fmt args).2.1.length ≤ fmt.length := by
  have hflags := length_parseFlags fmt {}
  have hwidth := length_parseWidth (parseFlags fmt {}).1 args (parseFlags fmt {}).2
  exact ((length_parseQualifier _).trans (length_parsePrecision _ _)).trans (hwidth.trans hflags)

section Sink

variable {σ : Type} (put : σ → Char → σ)

/-- `for (; *fmt ; ++fmt)`. A format that ends in a directive gets its `%` only. -/
def formatLoop (strings : BitVec 32 → CString) : List Char → VaList → σ → σ
  | [], _, str => str
  | c :: fmt, args, str =>
    if c ≠ '%' then formatLoop strings fmt args (put str c)
    else
      match _h : parseSpec fmt args with
      | (_, [], _) => put str '%'
      | (spec, c :: rest, args) =>
        let (str, args) := convert put strings spec c args str
        formatLoop strings rest args str
termination_by fmt => fmt.length
decreasing_by
  · exact Nat.lt_succ_self _
  · have hrest := (congrArg (fun parsed => parsed.2.1.length) _h).symm.le
    exact Nat.lt_succ_of_lt (hrest.trans (length_parseSpec fmt _))

end Sink

-- --------
-- Two sinks
-- --------

section TwoSinks

variable {σ τ : Type} {put : σ → Char → σ} {put' : τ → Char → τ} {R : σ → τ → Prop}

/-- Related sinks, with the same value beside them. -/
def Beside {α : Type} (R : σ → τ → Prop) (p : σ × α) (q : τ × α) : Prop :=
  R p.1 q.1 ∧ p.2 = q.2

theorem ite_rel {α β : Type} {S : α → β → Prop} {c : Prop} [Decidable c] {a a' : α} {b b' : β}
    (h : S a b) (h' : S a' b') : S (if c then a else a') (if c then b else b') := by
  by_cases hc : c
  · rwa [if_pos hc, if_pos hc]
  · rwa [if_neg hc, if_neg hc]

variable (hput : ∀ str str' c, R str str' → R (put str c) (put' str' c))
variable {str : σ} {str' : τ} {p : σ × Int} {q : τ × Int}

include hput

theorem foldl_put_rel (cs : List Char) (h : R str str') :
    R (cs.foldl put str) (cs.foldl put' str') := by
  induction cs generalizing str str' with
  | nil => exact h
  | cons c cs ih => exact ih (hput _ _ _ h)

theorem putWhile_rel (c : Char) (h : Beside R p q) :
    Beside R (putWhile put c p) (putWhile put' c q) := by
  obtain ⟨hbuf, hsize⟩ := h
  rw [putWhile, putWhile, hsize]
  exact ⟨foldl_put_rel hput _ hbuf, rfl⟩

theorem putSign_rel (sign : Option Char) (h : Beside R p q) :
    Beside R (putSign put sign p) (putSign put' sign q) := by
  cases sign with
  | none => exact h
  | some sign =>
    obtain ⟨hbuf, hsize⟩ := h
    rw [putSign, putSign, hsize]
    exact ⟨hput _ _ _ hbuf, rfl⟩

theorem putField_rel (h : Beside R p q) : Beside R (putField put p) (putField put' q) := by
  obtain ⟨hstr, hwidth⟩ := h
  rw [putField, putField, hwidth]
  exact ⟨foldl_put_rel hput _ hstr, rfl⟩

theorem putBeyond_rel (len : Nat) (h : Beside R p q) :
    Beside R (putBeyond put len p) (putBeyond put' len q) := by
  obtain ⟨hstr, hwidth⟩ := h
  rw [putBeyond, putBeyond, hwidth]
  exact ⟨foldl_put_rel hput _ hstr, rfl⟩

theorem printNumber_rel {num : Int} {base : Nat} {s precision : Int} {type : PrintFlags}
    (h : R str str') : R (printNumber put num base s precision type str)
      (printNumber put' num base s precision type str') := by
  unfold printNumber
  extract_lets type c sign num tmp i digits size p₁ p₂ p₃ buf₁ buf₂ q₁ q₂ q₃ buf₁' buf₂'
  have h₁ : Beside R p₁ q₁ := ite_rel ⟨h, rfl⟩ (putWhile_rel hput ' ' ⟨h, rfl⟩)
  have h₂ : Beside R p₂ q₂ := putSign_rel hput sign h₁
  have h₃ : Beside R p₃ q₃ := ite_rel h₂ (putWhile_rel hput c h₂)
  have hzeros : R buf₁ buf₁' := foldl_put_rel hput _ h₃.1
  have hdigits : R buf₂ buf₂' := ite_rel hzeros (foldl_put_rel hput _ hzeros)
  exact (putWhile_rel hput ' ' (p := (buf₂, p₃.2)) (q := (buf₂', q₃.2)) ⟨hdigits, h₃.2⟩).1

theorem convertChar_rel {spec : PrintSpec} {word : BitVec 32} (h : R str str') :
    R (convertChar put spec word str) (convertChar put' spec word str') := by
  unfold convertChar
  extract_lets p str₁ q str₁'
  have h₁ : Beside R p q := ite_rel ⟨h, rfl⟩ (putField_rel hput ⟨h, rfl⟩)
  have hchar : R str₁ str₁' := hput _ _ _ h₁.1
  exact (putField_rel hput (p := (str₁, p.2)) (q := (str₁', q.2)) ⟨hchar, h₁.2⟩).1

theorem convertString_rel {spec : PrintSpec} {s : CString} (h : R str str') :
    R (convertString put spec s str) (convertString put' spec s str') := by
  unfold convertString
  extract_lets len p str₁ q str₁'
  have h₁ : Beside R p q := ite_rel ⟨h, rfl⟩ (putBeyond_rel hput len ⟨h, rfl⟩)
  have hchars : R str₁ str₁' := foldl_put_rel hput _ h₁.1
  exact (putBeyond_rel hput len (p := (str₁, p.2)) (q := (str₁', q.2)) ⟨hchars, h₁.2⟩).1

theorem convertPointer_rel {spec : PrintSpec} {word : BitVec 32} (h : R str str') :
    R (convertPointer put spec word str) (convertPointer put' spec word str') :=
  ite_rel (printNumber_rel hput h) (printNumber_rel hput h)

/-- A conversion takes the same arguments whatever the sink. -/
theorem convert_rel {strings : BitVec 32 → CString} {spec : PrintSpec} {c : Char}
    {args : VaList} (h : R str str') :
    Beside R (convert put strings spec c args str) (convert put' strings spec c args str') := by
  have hnumber : ∀ base flags, Beside R
      (convertNumber put spec base flags args.word str, args.next)
      (convertNumber put' spec base flags args.word str', args.next) :=
    fun base flags => ⟨printNumber_rel hput h, rfl⟩
  refine ite_rel (S := Beside R) ⟨convertChar_rel hput h, rfl⟩ ?_
  refine ite_rel (S := Beside R) ⟨convertString_rel hput h, rfl⟩ ?_
  refine ite_rel (S := Beside R) ⟨convertPointer_rel hput h, rfl⟩ ?_
  refine ite_rel (S := Beside R) ⟨hput _ _ _ h, rfl⟩ ?_
  refine ite_rel (S := Beside R) (hnumber _ _) ?_
  refine ite_rel (S := Beside R) (hnumber _ _) ?_
  refine ite_rel (S := Beside R) (hnumber _ _) ?_
  refine ite_rel (S := Beside R) (hnumber _ _) ?_
  refine ite_rel (S := Beside R) (hnumber _ _) ?_
  exact ⟨hput _ _ _ (hput _ _ _ h), rfl⟩

/-- **The loop puts the same characters into every sink.** -/
theorem formatLoop_rel {strings : BitVec 32 → CString} {fmt : List Char} {args : VaList}
    (h : R str str') :
    R (formatLoop put strings fmt args str) (formatLoop put' strings fmt args str') := by
  induction fmt, args, str using formatLoop.induct put strings generalizing str' with
  | case1 args str =>
    rw [formatLoop, formatLoop]
    exact h
  | case2 c fmt args str hc ih =>
    rw [formatLoop, if_pos hc, formatLoop, if_pos hc]
    exact ih (hput _ _ _ h)
  | case3 c fmt args str hc spec args' hspec =>
    rw [formatLoop, if_neg hc, formatLoop, if_neg hc, hspec]
    exact hput _ _ _ h
  | case4 c fmt args str hc spec c' rest args' hspec str₁ args₁ hconvert ih =>
    have hsame := @convert_rel _ _ _ _ _ hput _ _ strings spec c' args' h
    rw [hconvert] at hsame
    rw [formatLoop, if_neg hc, formatLoop, if_neg hc, hspec]
    dsimp only
    rw [hconvert]
    obtain ⟨hstr, hargs⟩ := hsame
    dsimp only at hstr hargs ⊢
    rw [← hargs]
    exact ih hstr

end TwoSinks

/-- The whole text. -/
def format (strings : BitVec 32 → CString) (fmt : List Char) (args : VaList) : List Char :=
  formatLoop (fun text c => text ++ [c]) strings fmt args []

/-- **What is put into a sink** is the text, from its first character to its last. -/
theorem formatLoop_eq {σ : Type} (put : σ → Char → σ) {strings : BitVec 32 → CString}
    {fmt : List Char} {args : VaList} {str : σ} :
    formatLoop put strings fmt args str = (format strings fmt args).foldl put str := by
  refine formatLoop_rel (R := fun (s : σ) (text : List Char) => s = text.foldl put str) ?_ rfl
  rintro _ text c rfl
  rw [List.foldl_append]
  rfl

-- --------
-- The digits
-- --------

/-- A word has at most ten decimal digits, and eight hexadecimal ones: `tmp` holds them. -/
theorem length_tmpDigits_le {large : Bool} {base k : Nat} (hk : k < 2 ^ 32) :
    (tmpDigits large base k).length ≤ if base = 10 then 10 else 8 := by
  unfold tmpDigits
  extract_lets digits
  by_cases hzero : k = 0
  · rw [if_pos hzero]
    split <;> decide
  · rw [if_neg hzero, List.length_map]
    by_cases hbase : base = 10
    · rw [if_pos hbase, if_pos hbase, Nat.digits_length_le_iff (by decide)]
      exact hk.trans (by decide)
    · rw [if_neg hbase, if_neg hbase, Nat.digits_length_le_iff (by decide)]
      exact hk

end RTThread.Kernel
