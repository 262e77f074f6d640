import RTThread.Lib.CString
import RTThread.Rtdef
import Mathlib.Data.List.Forall2

/-!
# The arguments of a command line (`components/finsh/msh.c`)

`msh_split` cuts a command line up in place: blanks, and the quotes that end a string, become
NULs, and `argv` points into the line. `ptr` is `cmd + position` throughout, so the position stands
for both. Every access is checked against the cells of the buffer.

`mshSplit_arguments`: the strings of `argv` are the first arguments of the line, for every line
and every limit.
-/

namespace RTThread.Finsh

-- --------
-- The code
-- --------

/-- `c == ' ' || c == '\t'`. -/
def isBlank (c : Char) : Bool := c = ' ' || c = '\t'

/-- The variables of `msh_split`, and what it has printed. -/
structure Split where
  cmd : List Char
  position : Nat := 0
  argv : List Nat := []
  console : List Char := []

/-- What a round of the loop leads to: the next one, or `break`. -/
inductive SplitRound
  | next (s : Split)
  | done (s : Split)

section Code

variable (length : Nat)

/-- The blanks in front of an argument become NULs. -/
def stripBlanks : Nat → List Char → Nat → Except Fault (List Char × Nat)
  | 0, _, _ => .error .divergence
  | fuel + 1, cmd, position => do
    let c ← deref (Buffer.load cmd position)
    if isBlank c ∧ position < length then
      let cmd ← deref (Buffer.store cmd position '\x00')
      stripBlanks fuel cmd (position + 1)
    else return (cmd, position)

/-- The end of a string, with the quotes that follow a backslash left out. -/
def skipString (cmd : List Char) : Nat → Nat → Except Fault Nat
  | 0, _ => .error .divergence
  | fuel + 1, position => do
    let c ← deref (Buffer.load cmd position)
    if c ≠ '"' ∧ position < length then
      if c = '\\' then
        let c1 ← deref (Buffer.load cmd (position + 1 : Nat))
        if c1 = '"' then skipString cmd fuel (position + 2) else skipString cmd fuel (position + 1)
      else skipString cmd fuel (position + 1)
    else return position

/-- The end of an argument without quotes. -/
def skipWord (cmd : List Char) : Nat → Nat → Except Fault Nat
  | 0, _ => .error .divergence
  | fuel + 1, position => do
    let c ← deref (Buffer.load cmd position)
    if ¬ isBlank c ∧ position < length then skipWord cmd fuel (position + 1) else return position

/-- The arguments, printed with `"%s "`. -/
def printArgs (cmd : List Char) : List Nat → Except Fault (List Char)
  | [] => return []
  | p :: argv => do
    let s ← deref (Buffer.string cmd p)
    let rest ← printArgs cmd argv
    return s ++ ' ' :: rest

/-- More rounds than any loop makes. -/
def bound : Nat := length + 1

/-- The argument at `position`, where there is one. -/
def splitArgument (s : Split) : Except Fault SplitRound := do
  let c ← deref (Buffer.load s.cmd s.position)
  if c = '"' then
    let stop ← skipString length s.cmd (bound length) (s.position + 1)
    let s := { s with position := stop, argv := s.argv ++ [s.position + 1] }
    if length ≤ stop then return .done s
    let cmd ← deref (Buffer.store s.cmd stop '\x00')
    return .next { s with cmd, position := stop + 1 }
  else
    let stop ← skipWord length s.cmd (bound length) s.position
    let s := { s with position := stop, argv := s.argv ++ [s.position] }
    if length ≤ stop then return .done s
    return .next s

/-- The body of `while (position < length)`, with room for `argMax` arguments. -/
def splitRound (argMax : Nat) (s : Split) : Except Fault SplitRound := do
  let (cmd, position) ← stripBlanks length (bound length) s.cmd s.position
  let s := { s with cmd, position }
  if argMax ≤ s.argv.length then
    let text ← printArgs cmd s.argv
    return .done { s with console := "Too many args ! We only Use:\n".toList ++ text ++ ['\n'] }
  else if length ≤ position then return .done s
  else splitArgument length s

/-- `while (position < length)`. -/
def splitLoop (argMax : Nat) : Nat → Split → Except Fault Split
  | 0, _ => .error .divergence
  | fuel + 1, s =>
    if s.position < length then do
      match ← splitRound length argMax s with
      | .next s => splitLoop argMax fuel s
      | .done s => return s
    else return s

/-- `msh_split(cmd, length, argv)`. -/
def mshSplit (argMax : Nat) (cmd : List Char) : Except Fault Split :=
  splitLoop length argMax (bound length) { cmd }

end Code

-- --------
-- The grammar
-- --------

/-- An argument of a command line, with quotes or without. -/
structure Argument where
  quoted : Bool
  text : List Char

/-- A string up to its quote, and what is behind it. The quote is the first one that no backslash
is directly in front of. -/
def quotedText : (backslash : Bool) → List Char → List Char × List Char
  | _, [] => ([], [])
  | backslash, c :: rest =>
    if c = '"' ∧ backslash = false then ([], rest)
    else (c :: (quotedText (c = '\\') rest).1, (quotedText (c = '\\') rest).2)

variable {line rest text cmd front junk : List Char} {c : Char} {backslash : Bool}

theorem length_quotedText (backslash : Bool) (rest : List Char) :
    (quotedText backslash rest).2.length ≤ rest.length := by
  induction rest generalizing backslash with
  | nil => exact Nat.le_refl _
  | cons c rest ih =>
    rw [quotedText]
    split
    · exact Nat.le_succ _
    · exact Nat.le_succ_of_le (ih _)

theorem length_dropWhile_le (p : Char → Bool) (l : List Char) :
    (l.dropWhile p).length ≤ l.length :=
  (List.dropWhile_sublist p).length_le

/-- **The arguments of a line**: strings in quotes, and runs of characters that are no blanks. -/
def arguments (line : List Char) : List Argument :=
  match _h : line.dropWhile isBlank with
  | [] => []
  | c :: rest =>
    if c = '"' then
      ⟨true, (quotedText false rest).1⟩ :: arguments (quotedText false rest).2
    else
      ⟨false, c :: rest.takeWhile fun c => !isBlank c⟩ ::
        arguments (rest.dropWhile fun c => !isBlank c)
termination_by line.length
decreasing_by
  all_goals
    have hle := length_dropWhile_le isBlank line
    rw [_h, List.length_cons] at hle
  · have := length_quotedText false rest
    omega
  · have := length_dropWhile_le (fun c => !isBlank c) rest
    omega

theorem arguments_nil (h : line.dropWhile isBlank = []) : arguments line = [] := by
  rw [arguments]
  split
  · rfl
  case h_2 heq =>
    rw [h] at heq
    cases heq

theorem arguments_cons (h : line.dropWhile isBlank = c :: rest) : arguments line =
    if c = '"' then ⟨true, (quotedText false rest).1⟩ :: arguments (quotedText false rest).2
    else ⟨false, c :: rest.takeWhile fun c => !isBlank c⟩ ::
      arguments (rest.dropWhile fun c => !isBlank c) := by
  rw [arguments]
  split
  case h_1 heq =>
    rw [h] at heq
    cases heq
  case h_2 heq =>
    rw [h, List.cons.injEq] at heq
    obtain ⟨rfl, rfl⟩ := heq
    rfl

/-- Only a string in quotes is empty. -/
theorem arguments_nonempty (line : List Char) :
    ∀ a ∈ arguments line, a.text = [] → a.quoted = true := by
  induction line using arguments.induct with
  | case1 line h =>
    rw [arguments_nil h]
    exact List.forall_mem_nil _
  | case2 line rest h ih =>
    rw [arguments_cons h, if_pos rfl]
    exact List.forall_mem_cons.2 ⟨fun _ => rfl, ih⟩
  | case3 line c rest h hc ih =>
    rw [arguments_cons h, if_neg hc]
    refine List.forall_mem_cons.2 ⟨fun hempty => ?_, ih⟩
    cases hempty

theorem quotedText_split (backslash : Bool) (rest : List Char) :
    rest = (quotedText backslash rest).1 ++ '"' :: (quotedText backslash rest).2 ∨
      rest = (quotedText backslash rest).1 ∧ (quotedText backslash rest).2 = [] := by
  induction rest generalizing backslash with
  | nil => exact .inr ⟨rfl, rfl⟩
  | cons c rest ih =>
    rw [quotedText]
    by_cases hc : c = '"' ∧ backslash = false
    · rw [if_pos hc, hc.1]
      exact .inl rfl
    · rw [if_neg hc]
      rcases ih (c = '\\') with hclosed | ⟨hopen, hnil⟩
      · exact .inl (congrArg (c :: ·) hclosed)
      · exact .inr ⟨congrArg (c :: ·) hopen, hnil⟩

/-- The characters of an argument are the line's. -/
theorem arguments_mem (line : List Char) : ∀ a ∈ arguments line, ∀ c ∈ a.text, c ∈ line := by
  induction line using arguments.induct with
  | case1 line h =>
    rw [arguments_nil h]
    exact List.forall_mem_nil _
  | case2 line rest h ih =>
    have hline : ∀ c ∈ rest, c ∈ line := fun c hc =>
      (List.dropWhile_sublist isBlank).subset (h ▸ List.mem_cons_of_mem _ hc)
    have hrest : ∀ c, c ∈ (quotedText false rest).1 ∨ c ∈ (quotedText false rest).2 → c ∈ rest := by
      intro c hc
      rcases quotedText_split false rest with hclosed | ⟨hopen, hnil⟩
      · rw [hclosed]
        exact List.mem_append.2 (hc.imp_right (List.mem_cons_of_mem _))
      · rw [hopen]
        exact hc.resolve_right (by rw [hnil]; exact List.not_mem_nil)
    rw [arguments_cons h, if_pos rfl]
    exact List.forall_mem_cons.2 ⟨fun c hc => hline c (hrest c (.inl hc)),
      fun a ha c hc => hline c (hrest c (.inr (ih a ha c hc)))⟩
  | case3 line c rest h hc ih =>
    have hline : ∀ d ∈ c :: rest, d ∈ line := fun d hd =>
      (List.dropWhile_sublist isBlank).subset (h ▸ hd)
    rw [arguments_cons h, if_neg hc]
    refine List.forall_mem_cons.2 ⟨fun d hd => hline d ?_, fun a ha d hd => hline d ?_⟩
    · exact List.cons_subset_cons c (List.takeWhile_sublist _).subset hd
    · exact List.mem_cons_of_mem _ ((List.dropWhile_sublist _).subset (ih a ha d hd))

/-- Behind a backslash only a quote is read in another way. -/
theorem quotedText_backslash (h : ∀ c ∈ rest.head?, c ≠ '"') (backslash : Bool) :
    quotedText backslash rest = quotedText false rest := by
  cases rest with
  | nil => rfl
  | cons c rest =>
    have hc : c ≠ '"' := h c rfl
    rw [quotedText, quotedText, if_neg fun h => hc h.1, if_neg fun h => hc h.1]

-- --------
-- The inner loops
-- --------

theorem load_at {i : Nat} (hi : i = front.length) (hcmd : cmd = front ++ c :: junk) :
    Buffer.load cmd i = some c := by
  rw [hcmd]
  exact Buffer.load_append (congrArg Nat.cast hi)

/-- **The blanks** in front of an argument. -/
theorem stripBlanks_eq {length fuel : Nat} (hlength : length = front.length + rest.length)
    (hfuel : rest.length < fuel) :
    stripBlanks length fuel (front ++ rest ++ ['\x00']) front.length =
      .ok (front ++ List.replicate (rest.takeWhile isBlank).length '\x00' ++
          rest.dropWhile isBlank ++ ['\x00'],
        front.length + (rest.takeWhile isBlank).length) := by
  induction rest generalizing front fuel with
  | nil =>
    obtain ⟨fuel, rfl⟩ := Nat.exists_eq_succ_of_ne_zero (Nat.ne_zero_of_lt hfuel)
    rw [stripBlanks, deref_bind (load_at rfl (by rw [List.append_nil])),
      if_neg fun h => absurd h.1 (by decide)]
    rw [List.takeWhile_nil, List.dropWhile_nil, List.length_nil, List.replicate_zero,
      List.append_nil, List.append_nil]
    rfl
  | cons c rest ih =>
    obtain ⟨fuel, rfl⟩ := Nat.exists_eq_succ_of_ne_zero (Nat.ne_zero_of_lt hfuel)
    rw [List.length_cons] at hlength hfuel
    have hcmd : front ++ c :: rest ++ ['\x00'] = front ++ c :: (rest ++ ['\x00']) := by
      rw [List.append_assoc, List.cons_append]
    rw [stripBlanks, deref_bind (load_at rfl hcmd)]
    by_cases hc : isBlank c = true
    · have hstep : front ++ '\x00' :: (rest ++ ['\x00']) =
          (front ++ ['\x00']) ++ rest ++ ['\x00'] := by
        rw [List.append_assoc, List.append_assoc, List.singleton_append]
      have hnext := @ih (front ++ ['\x00']) fuel
        (by rw [List.length_append, List.length_singleton]; omega) (by omega)
      rw [List.length_append, List.length_singleton] at hnext
      rw [if_pos ⟨hc, by omega⟩, hcmd, deref_bind (Buffer.store_append rfl), hstep, hnext,
        List.takeWhile_cons_of_pos hc, List.dropWhile_cons_of_pos hc, List.length_cons,
        List.replicate_succ, List.append_assoc front, List.singleton_append]
      congr 2
      omega
    · rw [if_neg fun h => hc h.1, List.takeWhile_cons_of_neg hc, List.dropWhile_cons_of_neg hc,
        List.length_nil, List.replicate_zero, List.append_nil]
      rfl

/-- **The end of a word.** -/
theorem skipWord_eq {length fuel : Nat} (hlength : length = front.length + rest.length)
    (hfuel : rest.length < fuel) (hcmd : cmd = front ++ rest ++ ['\x00']) :
    skipWord length cmd fuel front.length =
      .ok (front.length + (rest.takeWhile fun c => !isBlank c).length) := by
  induction rest generalizing front fuel with
  | nil =>
    obtain ⟨fuel, rfl⟩ := Nat.exists_eq_succ_of_ne_zero (Nat.ne_zero_of_lt hfuel)
    rw [List.append_nil] at hcmd
    rw [skipWord, deref_bind (load_at rfl hcmd), if_neg]
    · rfl
    · rw [hlength]
      exact fun h => absurd h.2 (Nat.lt_irrefl _)
  | cons c rest ih =>
    obtain ⟨fuel, rfl⟩ := Nat.exists_eq_succ_of_ne_zero (Nat.ne_zero_of_lt hfuel)
    rw [List.length_cons] at hlength hfuel
    rw [List.append_assoc, List.cons_append] at hcmd
    rw [skipWord, deref_bind (load_at rfl hcmd)]
    by_cases hc : isBlank c = true
    · rw [if_neg fun h => h.1 hc, List.takeWhile_cons_of_neg (by simpa using hc)]
      rfl
    · have hnext := @ih (front ++ [c]) fuel
        (by rw [List.length_append, List.length_singleton]; omega) (by omega)
        (by rw [hcmd, List.append_assoc, List.append_assoc, List.singleton_append])
      rw [List.length_append, List.length_singleton] at hnext
      rw [if_pos ⟨hc, by omega⟩, hnext, List.takeWhile_cons_of_pos (by simpa using hc),
        List.length_cons]
      congr 1
      omega

/-- **The end of a string.** -/
theorem skipString_eq {length fuel : Nat} (hlength : length = front.length + rest.length)
    (hfuel : rest.length < fuel) (hcmd : cmd = front ++ rest ++ ['\x00']) :
    skipString length cmd fuel front.length =
      .ok (front.length + (quotedText false rest).1.length) := by
  induction fuel generalizing front rest with
  | zero => exact absurd hfuel (Nat.not_lt_zero _)
  | succ fuel ih =>
    cases rest with
    | nil =>
      rw [List.append_nil] at hcmd
      rw [skipString, deref_bind (load_at rfl hcmd), if_neg]
      · rfl
      · rw [hlength]
        exact fun h => absurd h.2 (Nat.lt_irrefl _)
    | cons c rest =>
      rw [List.length_cons] at hlength hfuel
      have hcmd' : cmd = front ++ c :: (rest ++ ['\x00']) := by
        rw [hcmd, List.append_assoc, List.cons_append]
      have hnext := @ih rest (front ++ [c])
        (by rw [List.length_append, List.length_singleton]; omega) (by omega)
        (by rw [hcmd', List.append_assoc, List.append_assoc, List.singleton_append])
      rw [List.length_append, List.length_singleton] at hnext
      rw [skipString, deref_bind (load_at rfl hcmd')]
      by_cases hquote : c = '"'
      · rw [if_neg fun h => h.1 hquote, quotedText, if_pos ⟨hquote, rfl⟩]
        rfl
      · have htext : quotedText false (c :: rest) =
            (c :: (quotedText (c = '\\') rest).1, (quotedText (c = '\\') rest).2) := by
          rw [quotedText, if_neg fun h => hquote h.1]
        rw [if_pos ⟨hquote, by omega⟩, htext, List.length_cons]
        by_cases hback : c = '\\'
        · rw [if_pos hback, decide_eq_true hback]
          cases rest with
          | nil =>
            have hlast : cmd = (front ++ [c]) ++ '\x00' :: [] := by
              rw [hcmd', List.append_assoc]
              rfl
            rw [deref_bind (load_at (by rw [List.length_append]; rfl) hlast), if_neg (by decide),
              hnext]
            rfl
          | cons d rest =>
            have hsecond : cmd = (front ++ [c]) ++ d :: (rest ++ ['\x00']) := by
              rw [hcmd', List.append_assoc]
              rfl
            rw [deref_bind (load_at (by rw [List.length_append]; rfl) hsecond)]
            by_cases hd : d = '"'
            · rw [List.length_cons] at hlength hfuel
              have hskip := @ih rest (front ++ [c, d])
                (by rw [List.length_append]; exact hlength.trans (by simp; omega)) (by omega)
                (by rw [hcmd', List.append_assoc, List.append_assoc]; rfl)
              rw [List.length_append] at hskip
              rw [if_pos hd, quotedText, if_neg fun h => absurd h.2 (by decide), hd]
              refine hskip.trans (congrArg Except.ok ?_)
              rw [List.length_cons, decide_eq_false (by decide), List.length_cons, List.length_cons,
                List.length_nil]
              omega
            · rw [if_neg hd, hnext, quotedText_backslash (by rintro c' ⟨⟩; exact hd) true]
              congr 1
              omega
        · rw [if_neg hback, hnext, decide_eq_false hback]
          congr 1
          omega

-- --------
-- What `argv` points to
-- --------

variable {found : List Argument} {a : Argument} {p : Nat} {argv : List Nat}

/-- The text of an argument with a NUL behind it. -/
def Stored (buf : List Char) (p : Nat) (a : Argument) : Prop :=
  ∃ front junk, buf = front ++ (a.text ++ '\x00' :: junk) ∧ p = front.length

theorem Stored.string (h : Stored cmd p a) (hnul : '\x00' ∉ a.text) :
    Buffer.string cmd p = some a.text := by
  obtain ⟨front, junk, rfl, hp⟩ := h
  exact Buffer.string_append hp hnul

theorem Stored.exists_string (h : Stored cmd p a) : ∃ s, Buffer.string cmd p = some s := by
  obtain ⟨front, junk, rfl, rfl⟩ := h
  rw [Buffer.string, List.drop_left,
    if_pos (List.mem_append_right _ List.mem_cons_self)]
  exact ⟨_, rfl⟩

theorem Stored.append (h : Stored front p a) (more : List Char) : Stored (front ++ more) p a := by
  obtain ⟨before, junk, rfl, hp⟩ := h
  refine ⟨before, junk ++ more, ?_, hp⟩
  rw [List.append_assoc, List.append_assoc, List.cons_append]

/-- The same in front of `rest`, where the blank that becomes the NUL may be the next one. -/
def Held (front rest : List Char) (p : Nat) (a : Argument) : Prop :=
  Stored front p a ∨
    ∃ before, front = before ++ a.text ∧ p = before.length ∧ ∀ c ∈ rest.head?, isBlank c = true

/-- Behind the blanks there is a NUL. -/
theorem Held.strip (h : Held front rest p a) :
    (rest.dropWhile isBlank ≠ [] →
      Stored (front ++ List.replicate (rest.takeWhile isBlank).length '\x00') p a) ∧
    Stored (front ++ List.replicate (rest.takeWhile isBlank).length '\x00' ++
      rest.dropWhile isBlank ++ ['\x00']) p a := by
  rcases h with h | ⟨before, rfl, hp, hblank⟩
  · have hmore := h.append (List.replicate (rest.takeWhile isBlank).length '\x00')
    exact ⟨fun _ => hmore, (hmore.append _).append _⟩
  · cases rest with
    | nil =>
      refine ⟨fun h => absurd rfl h, before, [], ?_, hp⟩
      rw [List.takeWhile_nil, List.dropWhile_nil, List.length_nil, List.replicate_zero,
        List.append_nil, List.append_nil, List.append_assoc]
    | cons c rest =>
      have hc : isBlank c = true := hblank c rfl
      have hstored : Stored (before ++ a.text ++
          List.replicate ((c :: rest).takeWhile isBlank).length '\x00') p a := by
        refine ⟨before, List.replicate (rest.takeWhile isBlank).length '\x00', ?_, hp⟩
        rw [List.takeWhile_cons_of_pos hc, List.length_cons, List.replicate_succ, List.append_assoc]
      exact ⟨fun _ => hstored, (hstored.append _).append _⟩

theorem strings_stored (h : List.Forall₂ (Stored cmd) argv found)
    (hnul : ∀ a ∈ found, '\x00' ∉ a.text) :
    argv.map (fun p => Buffer.string cmd p) = found.map fun a => some a.text := by
  induction h with
  | nil => rfl
  | cons hstored _ ih =>
    obtain ⟨hhead, htail⟩ := List.forall_mem_cons.1 hnul
    rw [List.map_cons, List.map_cons, hstored.string hhead, ih htail]

theorem printArgs_ok (h : List.Forall₂ (Stored cmd) argv found) :
    ∃ text, printArgs cmd argv = .ok text := by
  induction h with
  | nil => exact ⟨[], rfl⟩
  | cons hstored _ ih =>
    obtain ⟨text, htext⟩ := ih
    obtain ⟨s, hs⟩ := hstored.exists_string
    rw [printArgs, deref_bind hs, htext]
    exact ⟨_, rfl⟩

-- --------
-- A round
-- --------

/-- In front of a round: what is done of the line, the rest of it, and the arguments found. -/
structure Cut (length argMax : Nat) (s : Split) (front rest : List Char)
    (found : List Argument) : Prop where
  cmd : s.cmd = front ++ rest ++ ['\x00']
  position : s.position = front.length
  length : length = front.length + rest.length
  argv : List.Forall₂ (Held front rest) s.argv found
  room : found.length ≤ argMax

/-- At the end: the first arguments of all. -/
structure Ended (length argMax : Nat) (s : Split) (all : List Argument) : Prop where
  length : s.cmd.length = length + 1
  argv : List.Forall₂ (Stored s.cmd) s.argv (all.take argMax)

section Round

variable {length argMax : Nat} {s : Split}

/-- What a round does: it ends the loop with all arguments for which there is room, or takes one. -/
def Rounded (length argMax : Nat) (all : List Argument) (bound : Nat) (r : SplitRound) : Prop :=
  match r with
  | .done s => Ended length argMax s all
  | .next s => ∃ front rest found, Cut length argMax s front rest found ∧ rest.length < bound ∧
      found ++ arguments rest = all

theorem forall₂_snoc {R : Nat → Argument → Prop} (h : List.Forall₂ R argv found) (hp : R p a) :
    List.Forall₂ R (argv ++ [p]) (found ++ [a]) :=
  List.rel_append h (List.Forall₂.cons hp .nil)

theorem take_of_le {all : List Argument} (h : (found ++ [a]).length ≤ argMax)
    (hall : all = []) : (found ++ a :: all).take argMax = found ++ [a] := by
  rw [hall, List.take_of_length_le h]

/-- A string, at its quote. -/
theorem splitArgument_string (hcmd : s.cmd = front ++ '"' :: rest ++ ['\x00'])
    (hposition : s.position = front.length) (hlength : length = front.length + (rest.length + 1))
    (hargv : List.Forall₂ (Stored front) s.argv found)
    (hroom : found.length < argMax) :
    ∃ r, splitArgument length s = .ok r ∧ Rounded length argMax
      (found ++ ⟨true, (quotedText false rest).1⟩ :: arguments (quotedText false rest).2)
      (rest.length + 1) r := by
  have hload : Buffer.load s.cmd s.position = some '"' := by
    rw [hposition]
    exact load_at rfl (by rw [hcmd, List.append_assoc, List.cons_append])
  have hskip := @skipString_eq rest s.cmd (front ++ ['"']) length (bound length)
    (by rw [List.length_append, List.length_singleton]; omega) (by rw [bound]; omega)
    (by rw [hcmd, List.append_assoc, List.append_assoc, List.append_assoc]; rfl)
  rw [List.length_append, List.length_singleton, ← hposition] at hskip
  have hsnoc : (found ++ [(⟨true, (quotedText false rest).1⟩ : Argument)]).length ≤ argMax := by
    rw [List.length_append, List.length_singleton]
    exact hroom
  rw [splitArgument, deref_bind hload, if_pos rfl, hskip]
  have hsplit := quotedText_split false rest
  generalize quotedText false rest = q at hsplit hsnoc
  rcases hsplit with hclosed | ⟨hopen, hnil⟩
  · have hlen : rest.length = q.1.length + (q.2.length + 1) := by
      rw [hclosed, List.length_append, List.length_cons]
    have hfront : s.position + 1 + q.1.length = (front ++ '"' :: q.1).length := by
      rw [List.length_append, List.length_cons, hposition]
      omega
    have hquote : s.cmd = (front ++ '"' :: q.1) ++ '"' :: (q.2 ++ ['\x00']) := by
      rw [hcmd, hclosed]
      simp
    change ∃ r, (if length ≤ s.position + 1 + q.1.length then _ else _ :
      Except Fault SplitRound) = _ ∧ _
    rw [if_neg (by omega), hquote, deref_bind (Buffer.store_append (congrArg Nat.cast hfront))]
    refine ⟨_, rfl, front ++ '"' :: q.1 ++ ['\x00'], q.2, found ++ [⟨true, q.1⟩], ⟨?_, ?_, ?_, ?_,
      hsnoc⟩, by omega, ?_⟩
    · simp
    · rw [List.length_append, ← hfront]
      rfl
    · rw [List.length_append, ← hfront, List.length_singleton]
      omega
    · refine forall₂_snoc (hargv.imp fun p a h => .inl ((h.append _).append _)) (.inl ?_)
      refine ⟨front ++ ['"'], [], ?_, ?_⟩
      · simp
      · rw [List.length_append, hposition]
        rfl
    · rw [List.append_assoc, List.singleton_append]
  · -- the line ends in the string
    have hlen : length = front.length + (q.1.length + 1) := by rw [hlength, ← hopen]
    refine ⟨_, if_pos (by omega), ?_, ?_⟩
    · change s.cmd.length = length + 1
      rw [hcmd, List.length_append, List.length_append, List.length_cons, List.length_singleton]
      omega
    · rw [take_of_le hsnoc (by rw [hnil]; exact arguments_nil rfl)]
      change List.Forall₂ (Stored s.cmd) _ _
      rw [hcmd]
      refine forall₂_snoc (hargv.imp fun p a h => (h.append _).append _) ?_
      refine ⟨front ++ ['"'], [], ?_, ?_⟩
      · rw [← hopen]
        simp
      · rw [List.length_append, hposition]
        rfl

theorem blank_dropWhile (line : List Char) :
    ∀ c ∈ (line.dropWhile fun c => !isBlank c).head?, isBlank c = true := by
  intro c hc
  have hnot := List.head?_dropWhile_not (fun c => !isBlank c) line
  rw [hc] at hnot
  simpa using hnot

/-- A word, at its first character. -/
theorem splitArgument_word (hcmd : s.cmd = front ++ c :: rest ++ ['\x00'])
    (hposition : s.position = front.length) (hlength : length = front.length + (rest.length + 1))
    (hc : isBlank c = false) (hquote : c ≠ '"')
    (hargv : List.Forall₂ (Stored front) s.argv found) (hroom : found.length < argMax) :
    ∃ r, splitArgument length s = .ok r ∧ Rounded length argMax
      (found ++ ⟨false, c :: rest.takeWhile fun c => !isBlank c⟩ ::
        arguments (rest.dropWhile fun c => !isBlank c)) (rest.length + 1) r := by
  have hload : Buffer.load s.cmd s.position = some c := by
    rw [hposition]
    exact load_at rfl (by rw [hcmd, List.append_assoc, List.cons_append])
  have hskip := @skipWord_eq (c :: rest) s.cmd front length (bound length)
    (by rw [List.length_cons]; omega) (by rw [bound, List.length_cons]; omega) hcmd
  rw [← hposition, List.takeWhile_cons_of_pos (by rw [hc]; rfl), List.length_cons] at hskip
  have hsnoc : (found ++ [(⟨false, c :: rest.takeWhile fun c => !isBlank c⟩ : Argument)]).length ≤
      argMax := by
    rw [List.length_append, List.length_singleton]
    exact hroom
  have hblank := blank_dropWhile rest
  have hsplit : rest = rest.takeWhile (fun c => !isBlank c) ++ rest.dropWhile fun c => !isBlank c :=
    List.takeWhile_append_dropWhile.symm
  have hlen := congrArg List.length hsplit
  rw [List.length_append] at hlen
  rw [splitArgument, deref_bind hload, if_neg hquote, hskip]
  change ∃ r, (if length ≤ s.position + _ then _ else _ : Except Fault SplitRound) = _ ∧ _
  generalize rest.takeWhile (fun c => !isBlank c) = w at hsplit hsnoc hlen
  generalize rest.dropWhile (fun c => !isBlank c) = r at hsplit hlen hblank
  by_cases hlast : r = []
  · subst hlast
    rw [List.append_nil] at hsplit
    rw [List.length_nil] at hlen
    refine ⟨_, if_pos (by omega), ?_, ?_⟩
    · change s.cmd.length = length + 1
      rw [hcmd, List.length_append, List.length_append, List.length_cons, List.length_singleton]
      omega
    · rw [take_of_le hsnoc (arguments_nil rfl)]
      change List.Forall₂ (Stored s.cmd) _ _
      rw [hcmd, hsplit]
      refine forall₂_snoc (hargv.imp fun p a h => (h.append _).append _) ?_
      exact ⟨front, [], by rw [List.append_assoc], hposition⟩
  · have hpos : 0 < r.length := List.length_pos_of_ne_nil hlast
    rw [if_neg (by omega)]
    refine ⟨_, rfl, front ++ (c :: w), r, found ++ [⟨false, c :: w⟩], ⟨?_, ?_, ?_, ?_,
      hsnoc⟩, by omega, ?_⟩
    · change s.cmd = _
      rw [hcmd, hsplit]
      simp
    · rw [List.length_append, List.length_cons]
      change s.position + (w.length + 1) = _
      omega
    · rw [List.length_append, List.length_cons]
      omega
    · refine forall₂_snoc (hargv.imp fun p a h => .inl (h.append _)) (.inr ?_)
      exact ⟨front, rfl, hposition, hblank⟩
    · rw [List.append_assoc, List.singleton_append]

theorem Rounded.mono {all : List Argument} {m n : Nat} {r : SplitRound} (h : m ≤ n)
    (hr : Rounded length argMax all m r) : Rounded length argMax all n r := by
  cases r with
  | done s => exact hr
  | next s =>
    obtain ⟨front, rest, found, hcut, hlt, hall⟩ := hr
    exact ⟨front, rest, found, hcut, hlt.trans_le h, hall⟩

/-- **One round.** -/
theorem splitRound_rounded {rest : List Char} (h : Cut length argMax s front rest found) :
    ∃ r, splitRound length argMax s = .ok r ∧
      Rounded length argMax (found ++ arguments rest) rest.length r := by
  have hlength := h.length
  have hstrip := stripBlanks_eq hlength (by rw [bound]; omega : rest.length < bound length)
  rw [← h.cmd, ← h.position] at hstrip
  have hlen := congrArg List.length (@List.takeWhile_append_dropWhile _ isBlank rest)
  rw [List.length_append] at hlen
  have hheld := h.argv.imp fun p a hp => Held.strip hp
  have hcount := h.argv.length_eq
  have hposition : s.position + (rest.takeWhile isBlank).length =
      (front ++ List.replicate (rest.takeWhile isBlank).length '\x00').length := by
    rw [List.length_append, List.length_replicate, h.position]
  have hcells : (front ++ List.replicate (rest.takeWhile isBlank).length '\x00' ++
      rest.dropWhile isBlank ++ ['\x00']).length = length + 1 := by
    rw [List.length_append, List.length_append, ← hposition, List.length_singleton, h.position]
    omega
  rw [splitRound, hstrip]
  change ∃ r, (if argMax ≤ s.argv.length then _ else _ : Except Fault SplitRound) = _ ∧ _
  by_cases hfull : argMax ≤ s.argv.length
  · have hstored := hheld.imp fun p a hp => hp.2
    obtain ⟨text, htext⟩ := printArgs_ok hstored
    rw [if_pos hfull, htext]
    refine ⟨_, rfl, hcells, ?_⟩
    rw [List.take_left' (by have := h.room; omega)]
    exact hstored
  · rw [if_neg hfull]
    cases hrest : rest.dropWhile isBlank with
    | nil =>
      rw [hrest] at hlen hcells hheld
      rw [List.length_nil] at hlen
      refine ⟨_, if_pos (by rw [h.position]; omega), hcells, ?_⟩
      rw [arguments_nil hrest, @List.append_nil _ found, List.take_of_length_le h.room]
      exact hheld.imp fun p a hp => hp.2
    | cons c r =>
      rw [hrest] at hlen hheld
      rw [List.length_cons] at hlen
      have hargv := hheld.imp fun p a hp => hp.1 (List.cons_ne_nil c r)
      have hc : isBlank c = false := by
        have hnot := List.head?_dropWhile_not isBlank rest
        rw [hrest] at hnot
        exact hnot
      have hlength' : length = (front ++ List.replicate (rest.takeWhile isBlank).length
          '\x00').length + (r.length + 1) := by
        rw [← hposition, h.position]
        omega
      have hroom : found.length < argMax := by omega
      rw [if_neg (by rw [h.position]; omega), arguments_cons hrest]
      let taken : Split := { s with
        cmd := front ++ List.replicate (rest.takeWhile isBlank).length '\x00' ++ c :: r ++ ['\x00']
        position := s.position + (rest.takeWhile isBlank).length }
      by_cases hquote : c = '"'
      · subst hquote
        rw [if_pos rfl]
        obtain ⟨r, hr, hrounded⟩ := splitArgument_string (s := taken) rfl hposition hlength'
          hargv hroom
        exact ⟨r, hr, hrounded.mono (by omega)⟩
      · rw [if_neg hquote]
        obtain ⟨r, hr, hrounded⟩ := splitArgument_word (s := taken) rfl hposition hlength' hc hquote
          hargv hroom
        exact ⟨r, hr, hrounded.mono (by omega)⟩

/-- **The loop** ends, with all arguments for which there is room. -/
theorem splitLoop_ended {fuel : Nat} (h : Cut length argMax s front rest found)
    (hfuel : rest.length < fuel) :
    ∃ s', splitLoop length argMax fuel s = .ok s' ∧
      Ended length argMax s' (found ++ arguments rest) := by
  induction fuel generalizing s front rest found with
  | zero => exact absurd hfuel (Nat.not_lt_zero _)
  | succ fuel ih =>
    rw [splitLoop]
    have hlength := h.length
    by_cases hne : rest = []
    · subst hne
      have hcells : s.cmd.length = length + 1 := by
        rw [h.cmd, List.append_nil, List.length_append, List.length_singleton, hlength]
        rfl
      refine ⟨s, if_neg (by rw [h.position, hlength]; exact Nat.lt_irrefl _), hcells, ?_⟩
      rw [arguments_nil rfl, List.append_nil, List.take_of_length_le h.room, h.cmd]
      have hheld := h.argv.imp fun p a hp => (Held.strip hp).2
      rw [List.takeWhile_nil, List.dropWhile_nil, List.length_nil, List.replicate_zero,
        @List.append_nil _ front] at hheld
      exact hheld
    · have hpos : 0 < rest.length := List.length_pos_of_ne_nil hne
      rw [if_pos (by rw [h.position]; omega)]
      obtain ⟨r, hr, hrounded⟩ := splitRound_rounded h
      rw [hr]
      cases r with
      | done s' => exact ⟨s', rfl, hrounded⟩
      | next s' =>
        obtain ⟨front', rest', found', hcut, hlt, hall⟩ := hrounded
        rw [← hall]
        exact ih hcut (by omega)

end Round

-- --------
-- `msh_split`
-- --------

/-- **The arguments of a command line.** For every line and every limit, `msh_split` ends without an
access outside the line and its NUL, and `argv` points to the first arguments of the line, each
with a NUL behind it. -/
theorem mshSplit_arguments (argMax : Nat) (line : List Char) :
    ∃ s, mshSplit line.length argMax (line ++ ['\x00']) = .ok s ∧
      s.cmd.length = line.length + 1 ∧
      s.argv.length = min argMax (arguments line).length ∧
      List.Forall₂ (Stored s.cmd) s.argv ((arguments line).take argMax) ∧
      ('\x00' ∉ line → s.argv.map (fun p => Buffer.string s.cmd p) =
        ((arguments line).take argMax).map fun a => some a.text) ∧
      ∀ a ∈ arguments line, a.text = [] → a.quoted = true := by
  have hcut : Cut line.length argMax { cmd := line ++ ['\x00'] } [] line [] :=
    ⟨rfl, rfl, (Nat.zero_add _).symm, .nil, Nat.zero_le _⟩
  obtain ⟨s, hs, hended⟩ := splitLoop_ended hcut (Nat.lt_succ_self _)
  have hargv := hended.argv
  rw [List.nil_append] at hargv
  refine ⟨s, hs, hended.length, ?_, hargv, fun hnul => ?_, arguments_nonempty line⟩
  · rw [hargv.length_eq, List.length_take]
  · exact strings_stored hargv fun a ha hmem =>
      hnul (arguments_mem line a (List.mem_of_mem_take ha) _ hmem)

/-- `a "b c" d`, with room for two arguments. -/
example : (mshSplit 9 2 ['a', ' ', '"', 'b', ' ', 'c', '"', ' ', 'd', '\x00']).map Split.argv =
    .ok [0, 3] := by decide

end RTThread.Finsh
