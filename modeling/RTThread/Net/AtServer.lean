import RTThread.Rtdef
import RTThread.Lib.CString
import Mathlib.Data.List.Infix

/-!
# The AT server (`components/net/at/src/at_server.c`)

`server_parser` appends what it receives to `recv_buffer` until `strstr` finds the end mark, cuts
the name of the command off and calls one of its functions with what follows the name. `AtLineRef`
does the same with a line of any length, and calls a function only for a line that is, as a whole,
a sentence `name[=?|?|=args|digit]CR` of the grammar (`AtGrammar`, `refCall_eq_some`).

`server_parser_serves_iff`: the two agree, and no access leaves a buffer, exactly as long as the
stream is `Tame`. Nothing in the code checks that: a line of 256 characters runs over `recv_buffer`,
a name of 16 over `cur_cmd_name`, a NUL hides the end mark, and `at_cmd_process` looks at the first
characters behind the name only: it calls a function for a line that has more text behind its first
CR, or no CR at all (the end mark may be LF).
-/

namespace RTThread

/-- `AT_CMD_END_MARK`, by the configuration. -/
inductive AtEndMark
  | crlf
  | cr
  | lf

def AtEndMark.chars : AtEndMark → List Char
  | .crlf => ['\r', '\n']
  | .cr => ['\r']
  | .lf => ['\n']

/-- What the end mark leaves behind the CR of a sentence. -/
def AtEndMark.behind : AtEndMark → List Char
  | .cr => []
  | .crlf | .lf => ['\n']

/-- `at_result_t`. -/
inductive AtResult
  | ok
  | faile
  | null
  | cmdErr
  | checkFaile
  | parseFaile

/-- `struct at_cmd`; of the functions, whether they are there. One with a setup function has an
expression, as `at_check_args` asserts. -/
structure AtCmd where
  name : List Char
  argsExpr : Option (List Char)
  test : Bool
  query : Bool
  setup : Bool
  exec : Bool
  expr_of_setup : setup = true → argsExpr.isSome = true
deriving DecidableEq

/-- The functions of a command. -/
inductive AtForm
  | test
  | query
  | setup
  | exec
deriving DecidableEq

/-- A call of a function of a command, with the argument of a setup function. -/
structure AtCall where
  cmd : AtCmd
  form : AtForm
  args : List Char
deriving DecidableEq

/-- The table, the end mark, and what the functions do: the result and `echo_mode`, by the calls up
to then (none for a line that called nothing). -/
structure AtServerConfig where
  cmdTable : List AtCmd
  endMark : AtEndMark
  answer : List (Option AtCall) → AtResult × Bool

/-- The server, with the locals of `server_parser`, what has been sent, and what was called for the
lines so far. -/
structure AtServer where
  recvBuffer : List Char
  curRecvLen : Nat
  echoMode : Bool
  curCmdName : List Char
  lastCh : Char
  out : List Char
  served : List (Option AtCall)
deriving DecidableEq

namespace At

/-- `AT_SERVER_RECV_BUFF_LEN`. -/
def atServerRecvBuffLen : Nat := 256

/-- `AT_CMD_NAME_LEN`. -/
def atCmdNameLen : Nat := 16

def escKey : Char := '\x1b'
def backspaceKey : Char := '\x08'
def delectKey : Char := '\x7f'

/-- `at_server_printfln`. -/
def printfln (text : String) : List Char := text.toList ++ ['\r', '\n']

/-- `at_server_print_result(result)`. -/
def atServerPrintResult : AtResult → List Char
  | .ok => printfln "" ++ printfln "OK"
  | .faile => printfln "" ++ printfln "ERROR"
  | .null => []
  | .cmdErr => printfln "ERR CMD MATCH FAILED!" ++ (printfln "" ++ printfln "ERROR")
  | .checkFaile => printfln "ERR CHECK ARGS FORMAT FAILED!" ++ (printfln "" ++ printfln "ERROR")
  | .parseFaile => printfln "ERR PARSE ARGS FAILED!" ++ (printfln "" ++ printfln "ERROR")

/-- The comparisons of `at_check_args(args, args_format)`. -/
def ArgsFit (args argsFormat : List Char) : Prop :=
  argsFormat.count '[' = argsFormat.count ']' ∧ argsFormat.count '<' = argsFormat.count '>' ∧
    argsFormat.count '[' ≤ argsFormat.count '<' ∧
    argsFormat.count '<' - argsFormat.count '[' ≤ args.count ',' + 1 ∧
    args.count ',' + 1 ≤ argsFormat.count '<'

instance (args argsFormat : List Char) : Decidable (ArgsFit args argsFormat) :=
  inferInstanceAs (Decidable (_ ∧ _))

/-- `at_check_args(args, args_format)`. -/
def atCheckArgs (args : List Char) (argsFormat : Option (List Char)) : Except Fault Bool := do
  let argsFormat ← deref argsFormat
  return decide (ArgsFit args argsFormat)

/-- `'0' <= c && c <= '9'`. -/
def IsDigit (c : Char) : Prop := '0' ≤ c ∧ c ≤ '9'

instance (c : Char) : Decidable (IsDigit c) := inferInstanceAs (Decidable (_ ∧ _))

-- the one character is looked at, not every character there is
instance (o : Option Char) : Decidable (∃ c ∈ o, IsDigit c) := Option.decidableExistsMem o

/-- The characters that end a name. -/
def EndsName (c : Char) : Prop := c = '?' ∨ c = '=' ∨ c = '\r' ∨ IsDigit c

instance (c : Char) : Decidable (EndsName c) := inferInstanceAs (Decidable (_ ∨ _))

/-- `strcasecmp(s, t) == 0`. -/
def strcasecmpEq (s t : List Char) : Prop := s.map Char.toLower = t.map Char.toLower

instance (s t : List Char) : Decidable (strcasecmpEq s t) := inferInstanceAs (Decidable (_ = _))

/-- `at_find_cmd(cmd)`. -/
def atFindCmd (cmdTable : List AtCmd) (cmd : List Char) : Option AtCmd :=
  cmdTable.find? fun c => strcasecmpEq cmd c.name

/-- `at_cmd_get_name(cmd_buffer, cmd_name)`: the name buffer, or none for `-RT_ERROR`. -/
def atCmdGetName (cmdBuffer cmdName : List Char) : Except Fault (Option (List Char)) := do
  let text ← deref (Buffer.string cmdBuffer 0)
  match text.findIdx? fun c => EndsName c with
  | some i =>
    let cmdName ← deref (Buffer.write cmdName 0 (text.take i))
    let cmdName ← deref (Buffer.store cmdName i '\x00')
    return some cmdName
  | none => return none

namespace Server

variable (cfg : AtServerConfig) (s : AtServer)

/-- A line for which nothing is called. -/
def refuse (result : AtResult) : AtServer :=
  { s with served := s.served ++ [none], out := s.out ++ atServerPrintResult result }

/-- A function of a command is called. -/
def call (c : AtCall) : AtServer :=
  let served := s.served ++ [some c]
  let (result, echoMode) := cfg.answer served
  { s with
    served := served, echoMode := echoMode
    out := s.out ++ atServerPrintResult result }

/-- `at_cmd_process(cmd, cmd_args)`. -/
def atCmdProcess (cmd : AtCmd) (cmdArgs : List Char) : Except Fault AtServer := do
  if ['=', '?', '\r'] <+: cmdArgs then
    return if cmd.test then call cfg s ⟨cmd, .test, []⟩ else refuse s .cmdErr
  else if ['?', '\r'] <+: cmdArgs then
    return if cmd.query then call cfg s ⟨cmd, .query, []⟩ else refuse s .cmdErr
  else if cmdArgs.head? = some '=' ∨
      ((∃ c ∈ cmdArgs.head?, IsDigit c) ∧ cmdArgs[1]? = some '\r') then
    if cmd.setup then
      let ok ← atCheckArgs cmdArgs cmd.argsExpr
      return if ok then call cfg s ⟨cmd, .setup, cmdArgs⟩ else refuse s .checkFaile
    else return refuse s .cmdErr
  else if cmdArgs.head? = some '\r' then
    return if cmd.exec then call cfg s ⟨cmd, .exec, []⟩ else refuse s .cmdErr
  else return refuse s .null

/-- The echo of a character; whether `server_parser` goes on to the next. -/
def echo (ch : Char) : Except Fault (AtServer × Bool) :=
  if s.echoMode then
    if ch = '\r' ∨ (ch = '\n' ∧ s.lastCh ≠ '\r') then
      return ({ s with out := s.out ++ ['\r', '\n'] }, false)
    else if ch = '\n' then return (s, false)
    else if ch = backspaceKey ∨ ch = delectKey then
      if s.curRecvLen ≠ 0 then do
        let curRecvLen := s.curRecvLen - 1
        let recvBuffer ← deref (Buffer.store s.recvBuffer curRecvLen '\x00')
        return ({ s with
          recvBuffer := recvBuffer, curRecvLen := curRecvLen
          out := s.out ++ [backspaceKey, ' ', backspaceKey] }, true)
      else return (s, true)
    else return ({ s with out := s.out ++ [ch] }, false)
  else return (s, false)

/-- The command whose name has been cut off. -/
def command (curCmdName : List Char) : Except Fault AtServer := do
  let s := { s with curCmdName := curCmdName }
  let name ← deref (Buffer.string curCmdName 0)
  match atFindCmd cfg.cmdTable name with
  | none => return refuse s .cmdErr
  | some cmd =>
    let cmdArgs ← deref (Buffer.string s.recvBuffer name.length)
    atCmdProcess cfg s cmd cmdArgs

/-- The `__retry` of `server_parser`. -/
def clear : AtServer :=
  { s with recvBuffer := List.replicate atServerRecvBuffLen '\x00', curRecvLen := 0 }

/-- `server_parser` once the end mark has been found. -/
def line : Except Fault AtServer := do
  match ← atCmdGetName s.recvBuffer s.curCmdName with
  | none => return clear (refuse s .cmdErr)
  | some curCmdName =>
    let s ← command cfg s curCmdName
    return clear s

/-- A character for `server_parser`. -/
def char (ch : Char) : Except Fault AtServer := do
  let (s, next) ← echo s ch
  if next then return s
  else do
    let recvBuffer ← deref (Buffer.store s.recvBuffer s.curRecvLen ch)
    let s := { s with recvBuffer := recvBuffer, curRecvLen := s.curRecvLen + 1, lastCh := ch }
    let text ← deref (Buffer.string recvBuffer 0)
    if cfg.endMark.chars <:+: text then line cfg s
    else return s

end Server

/-- `server_parser(server)`; the escape key ends it. -/
def serverParser (cfg : AtServerConfig) : AtServer → List Char → Except Fault AtServer
  | s, [] => .ok s
  | s, ch :: bs =>
    if ch = escKey then .ok s
    else do
      let s ← Server.char cfg s ch
      serverParser cfg s bs

/-- The server after `at_server_init`; `last_ch` has no value yet. -/
def serverStart (echoMode : Bool) (lastCh : Char) : AtServer where
  recvBuffer := List.replicate atServerRecvBuffLen '\x00'
  curRecvLen := 0
  echoMode := echoMode
  curCmdName := List.replicate atCmdNameLen '\x00'
  lastCh := lastCh
  out := []
  served := []

-- --------
-- The grammar
-- --------

/-- What stands before the first character that ends a name, and the rest. -/
def nameOf (line : List Char) : List Char := line.takeWhile fun c => ¬ EndsName c
def restOf (line : List Char) : List Char := line.dropWhile fun c => ¬ EndsName c

/-- What may stand between a name and the CR: `=?`, `?`, `=args`, a digit or nothing. -/
inductive AtSuffix : AtForm → List Char → Prop
  | test : AtSuffix .test ['=', '?']
  | query : AtSuffix .query ['?']
  | args {args : List Char} (hcr : '\r' ∉ args) (htest : args ≠ ['?']) :
      AtSuffix .setup ('=' :: args)
  | digit {d : Char} (hd : IsDigit d) : AtSuffix .setup [d]
  | exec : AtSuffix .exec []

/-- **The grammar**: the whole line is the name, a suffix and the CR, with what the end mark leaves
behind it. -/
structure AtGrammar (m : AtEndMark) (line name : List Char) (form : AtForm) (suffix : List Char) :
    Prop where
  line : line = name ++ (suffix ++ '\r' :: m.behind)
  name : ∀ c ∈ name, ¬ EndsName c
  suffix : AtSuffix form suffix

/-- The parser of a suffix (`suffixForm_eq_some`). -/
def suffixForm (suffix : List Char) : Option AtForm :=
  if suffix = ['=', '?'] then some .test
  else if suffix = ['?'] then some .query
  else if suffix = [] then some .exec
  else if suffix.head? = some '=' then if '\r' ∈ suffix then none else some .setup
  else if (∃ d ∈ suffix.head?, IsDigit d) ∧ suffix.length = 1 then some .setup
  else none

/-- The parser of a line (`grammarForm_eq_some`). -/
def grammarForm (m : AtEndMark) (line : List Char) : Option AtForm :=
  if '\r' :: m.behind <:+ restOf line then
    suffixForm ((restOf line).take ((restOf line).length - ('\r' :: m.behind).length))
  else none

/-- The function `form` of the command. -/
def AtCmd.function (cmd : AtCmd) (args : List Char) : AtForm → Option AtCall
  | .test => if cmd.test then some ⟨cmd, .test, []⟩ else none
  | .query => if cmd.query then some ⟨cmd, .query, []⟩ else none
  | .setup =>
    if cmd.setup ∧ ArgsFit args (cmd.argsExpr.getD []) then some ⟨cmd, .setup, args⟩ else none
  | .exec => if cmd.exec then some ⟨cmd, .exec, []⟩ else none

/-- What is to be called for a line (`refCall_eq_some`). -/
def refCall (cfg : AtServerConfig) (line : List Char) : Option AtCall :=
  (grammarForm cfg.endMark line).bind fun form =>
    (atFindCmd cfg.cmdTable (nameOf line)).bind fun cmd => AtCmd.function cmd (restOf line) form

/-- The server with a line of any length. -/
structure AtLineRef where
  text : List Char
  echoMode : Bool
  served : List (Option AtCall)

/-- `echo_mode` after a line. -/
def echoAfter (cfg : AtServerConfig) (served : List (Option AtCall)) (o : Option AtCall)
    (echoMode : Bool) : Bool :=
  if o.isSome then (cfg.answer (served ++ [o])).2 else echoMode

/-- The character takes one away. -/
def Erases (r : AtLineRef) (ch : Char) : Prop :=
  r.echoMode = true ∧ (ch = backspaceKey ∨ ch = delectKey)

instance (r : AtLineRef) (ch : Char) : Decidable (Erases r ch) :=
  inferInstanceAs (Decidable (_ ∧ _))

def refChar (cfg : AtServerConfig) (r : AtLineRef) (ch : Char) : AtLineRef :=
  if Erases r ch then { r with text := r.text.dropLast }
  else if cfg.endMark.chars <:+ r.text ++ [ch] then
    let o := refCall cfg (r.text ++ [ch])
    { text := [], echoMode := echoAfter cfg r.served o r.echoMode, served := r.served ++ [o] }
  else { r with text := r.text ++ [ch] }

def refRun (cfg : AtServerConfig) : AtLineRef → List Char → AtLineRef
  | r, [] => r
  | r, ch :: bs => if ch = escKey then r else refRun cfg (refChar cfg r ch) bs

/-- The line ends at its first CR. -/
def Whole (m : AtEndMark) (line : List Char) : Prop :=
  ∃ text, '\r' ∉ text ∧ line = text ++ '\r' :: m.behind

/-- The text behind a name begins like a sentence. -/
inductive BeginsLike : AtForm → List Char → Prop
  | test (more : List Char) : BeginsLike .test ('=' :: '?' :: '\r' :: more)
  | query (more : List Char) : BeginsLike .query ('?' :: '\r' :: more)
  | args {more : List Char} (htest : ¬ ['?', '\r'] <+: more) : BeginsLike .setup ('=' :: more)
  | digit {d : Char} (hd : IsDigit d) (more : List Char) : BeginsLike .setup (d :: '\r' :: more)
  | exec (more : List Char) : BeginsLike .exec ('\r' :: more)

/-- A line with no CR, or with more text behind its first CR, that begins like a sentence of a
command with that function. -/
def Stray (cfg : AtServerConfig) (line : List Char) : Prop :=
  ¬ Whole cfg.endMark line ∧ ∃ form, BeginsLike form (restOf line) ∧
    ∃ cmd ∈ atFindCmd cfg.cmdTable (nameOf line),
      (AtCmd.function cmd (restOf line) form).isSome = true

/-- A line that the server takes for what it is. -/
structure TameLine (cfg : AtServerConfig) (line : List Char) : Prop where
  nul : '\x00' ∉ line
  name : restOf line ≠ [] → (nameOf line).length < atCmdNameLen
  cr : ¬ Stray cfg line

/-- What has come of a line leaves a NUL in the buffer. -/
def Room (text : List Char) : Prop :=
  text.length < atServerRecvBuffLen ∨ (text.length = atServerRecvBuffLen ∧ '\x00' ∈ text)

/-- The character may come. -/
def TameChar (cfg : AtServerConfig) (r : AtLineRef) (ch : Char) : Prop :=
  ¬ Erases r ch → Room (r.text ++ [ch]) ∧
    (cfg.endMark.chars <:+ r.text ++ [ch] → TameLine cfg (r.text ++ [ch]))

/-- **The stream is tame**: what has come of a line always leaves room, and every line is tame. -/
def Tame (cfg : AtServerConfig) : AtLineRef → List Char → Prop
  | _, [] => True
  | r, ch :: bs => ch = escKey ∨ (TameChar cfg r ch ∧ Tame cfg (refChar cfg r ch) bs)

section Grammar

variable {m : AtEndMark} {line name suffix tail rest : List Char} {form : AtForm} {c d : Char}

theorem nameOf_restOf (line : List Char) : nameOf line ++ restOf line = line :=
  List.takeWhile_append_dropWhile

theorem not_endsName_of_mem_nameOf (h : c ∈ nameOf line) : ¬ EndsName c := by
  simpa using List.mem_takeWhile_imp h

theorem endsName_of_restOf (h : restOf line = d :: rest) : EndsName d := by
  have hhead := List.head?_dropWhile_not (fun c => decide (¬ EndsName c)) line
  rw [← restOf, h] at hhead
  simpa using hhead

/-- Where `at_cmd_get_name` cuts. -/
theorem findIdx_endsName (line : List Char) : (line.findIdx? fun c => EndsName c)
    = if restOf line = [] then none else some (nameOf line).length := by
  have hname : (nameOf line).findIdx? (fun c => EndsName c) = none :=
    List.findIdx?_eq_none_iff.mpr fun c hc => decide_eq_false (not_endsName_of_mem_nameOf hc)
  conv_lhs => rw [← nameOf_restOf line]
  rw [List.findIdx?_append, hname, Option.none_or]
  cases hrest : restOf line with
  | nil => rfl
  | cons d rest =>
    rw [List.findIdx?_cons, if_pos (decide_eq_true (endsName_of_restOf hrest)),
      if_neg (List.cons_ne_nil _ _), Option.map_some, Nat.zero_add]

theorem nameOf_append (hname : ∀ c ∈ name, ¬ EndsName c) (hd : EndsName d) :
    nameOf (name ++ d :: rest) = name := by
  have hall : ∀ c ∈ name, decide (¬ EndsName c) = true := fun c hc => decide_eq_true (hname c hc)
  have hstop : decide (¬ EndsName d) = false := decide_eq_false (not_not_intro hd)
  rw [nameOf, List.takeWhile_append_of_pos hall, List.takeWhile_cons, hstop]
  exact List.append_nil name

theorem restOf_append (hname : ∀ c ∈ name, ¬ EndsName c) (hd : EndsName d) :
    restOf (name ++ d :: rest) = d :: rest := by
  have hline := nameOf_restOf (name ++ d :: rest)
  rw [nameOf_append hname hd] at hline
  exact List.append_cancel_left hline

/-- A suffix with its CR begins with a character that ends a name. -/
theorem AtSuffix.endsName (h : AtSuffix form suffix) (behind : List Char) :
    ∃ d rest, EndsName d ∧ suffix ++ '\r' :: behind = d :: rest := by
  cases h with
  | test => exact ⟨_, _, .inr (.inl rfl), rfl⟩
  | query => exact ⟨_, _, .inl rfl, rfl⟩
  | args => exact ⟨_, _, .inr (.inl rfl), rfl⟩
  | digit hd => exact ⟨_, _, .inr (.inr (.inr hd)), rfl⟩
  | exec => exact ⟨_, _, .inr (.inr (.inl rfl)), rfl⟩

theorem IsDigit.ne_cr (h : IsDigit d) : d ≠ '\r' := by
  rintro rfl
  exact absurd h (by decide)

theorem AtSuffix.cr_notMem (h : AtSuffix form suffix) : '\r' ∉ suffix := by
  cases h with
  | test | query | exec => decide
  | args hcr => simpa using hcr
  | digit hd => simpa using hd.ne_cr.symm

namespace AtGrammar

/-- The name of a sentence is what stands before the first character that ends a name. -/
theorem nameOf_eq (h : AtGrammar m line name form suffix) : nameOf line = name := by
  obtain ⟨d, rest, hd, heq⟩ := h.suffix.endsName m.behind
  rw [h.line, heq, nameOf_append h.name hd]

theorem restOf_eq (h : AtGrammar m line name form suffix) :
    restOf line = suffix ++ '\r' :: m.behind := by
  obtain ⟨d, rest, hd, heq⟩ := h.suffix.endsName m.behind
  rw [h.line, heq, restOf_append h.name hd]

theorem whole (h : AtGrammar m line name form suffix) : Whole m line := by
  refine ⟨name ++ suffix, fun hmem => ?_, by rw [h.line, List.append_assoc]⟩
  rcases List.mem_append.mp hmem with hname | hsuffix
  · exact h.name _ hname (.inr (.inr (.inl rfl)))
  · exact h.suffix.cr_notMem hsuffix

end AtGrammar

theorem suffixForm_eq_some : suffixForm suffix = some form ↔ AtSuffix form suffix := by
  constructor
  · intro h
    unfold suffixForm at h
    split at h
    · next heq => cases h; rw [heq]; exact .test
    split at h
    · next heq => cases h; rw [heq]; exact .query
    split at h
    · next heq => cases h; rw [heq]; exact .exec
    cases suffix with
    | nil => contradiction
    | cons d args =>
      split at h
      · next htest _ _ heq =>
        cases Option.some_inj.mp heq
        split at h
        · cases h
        · next hcr =>
          cases h
          refine .args (fun hmem => hcr (List.mem_cons_of_mem _ hmem)) ?_
          rintro rfl
          exact htest rfl
      split at h
      · next hdigit =>
        cases h
        obtain ⟨⟨c, hc, hd⟩, hlen⟩ := hdigit
        cases Option.some_inj.mp hc
        rw [List.length_cons, Nat.add_eq_right, List.length_eq_zero_iff] at hlen
        rw [hlen]
        exact .digit hd
      · cases h
  · intro h
    cases h with
    | test | query | exec => rfl
    | args hcr htest =>
      rw [suffixForm, if_neg (by simpa using htest), if_neg (by simp), if_neg (by simp),
        if_pos List.head?_cons, if_neg (by simpa using hcr)]
    | digit hd =>
      have hne : ∀ c : Char, ¬ IsDigit c → ¬ [_] = [c] := fun c hc heq =>
        hc (List.singleton_inj.mp heq ▸ hd)
      rw [suffixForm, if_neg (by simp), if_neg (hne _ (by decide)), if_neg (by simp), if_neg,
        if_pos ⟨⟨_, rfl, hd⟩, rfl⟩]
      rintro heq
      rw [Option.some_inj.mp heq] at hd
      exact absurd hd (by decide)

/-- **The parser of a line** finds the sentence that the line is. -/
theorem grammarForm_eq_some :
    grammarForm m line = some form ↔ ∃ name suffix, AtGrammar m line name form suffix := by
  constructor
  · intro h
    unfold grammarForm at h
    split at h
    case isFalse => cases h
    case isTrue hend =>
    obtain ⟨suffix, hrest⟩ := hend
    rw [← hrest, List.length_append, Nat.add_sub_cancel, List.take_left] at h
    refine ⟨nameOf line, suffix, ?_, fun c => not_endsName_of_mem_nameOf,
      suffixForm_eq_some.mp h⟩
    rw [hrest, nameOf_restOf]
  · rintro ⟨name, suffix, h⟩
    rw [grammarForm, h.restOf_eq, if_pos (List.suffix_append _ _), List.length_append,
      Nat.add_sub_cancel, List.take_left]
    exact suffixForm_eq_some.mpr h.suffix

/-- **What is to be called** for a line: the function of the command that the sentence names, with
the text behind the name. -/
theorem refCall_eq_some {cfg : AtServerConfig} {call : AtCall} :
    refCall cfg line = some call ↔ ∃ name form suffix cmd,
      AtGrammar cfg.endMark line name form suffix ∧ atFindCmd cfg.cmdTable name = some cmd ∧
      AtCmd.function cmd (suffix ++ '\r' :: cfg.endMark.behind) form = some call := by
  unfold refCall
  constructor
  · intro h
    obtain ⟨form, hform, h⟩ := Option.bind_eq_some_iff.mp h
    obtain ⟨cmd, hcmd, h⟩ := Option.bind_eq_some_iff.mp h
    obtain ⟨name, suffix, hline⟩ := grammarForm_eq_some.mp hform
    rw [hline.nameOf_eq] at hcmd
    rw [hline.restOf_eq] at h
    exact ⟨name, form, suffix, cmd, hline, hcmd, h⟩
  · rintro ⟨name, form, suffix, cmd, hline, hcmd, h⟩
    rw [grammarForm_eq_some.mpr ⟨name, suffix, hline⟩, hline.nameOf_eq, hline.restOf_eq,
      Option.bind_some, hcmd, Option.bind_some, h]

/-- Behind the name of a line that ends at its first CR stands a suffix with that CR. -/
theorem Whole.restOf_eq (h : Whole m line) :
    ∃ suffix, '\r' ∉ suffix ∧ restOf line = suffix ++ '\r' :: m.behind := by
  obtain ⟨text, hcr, hline⟩ := h
  refine ⟨restOf text, fun hmem => hcr ((List.dropWhile_suffix _).subset hmem), ?_⟩
  have hall : ∀ c ∈ nameOf text, ¬ EndsName c := fun c => not_endsName_of_mem_nameOf
  cases hrest : restOf text with
  | nil =>
    have htext : nameOf text = text := by
      calc nameOf text = nameOf text ++ restOf text := by rw [hrest, List.append_nil]
        _ = text := nameOf_restOf text
    rw [htext] at hall
    rw [hline, restOf_append hall (.inr (.inr (.inl rfl))), List.nil_append]
  | cons d rest =>
    have htext : nameOf text ++ d :: rest = text := by rw [← hrest, nameOf_restOf]
    rw [hline, ← htext, List.append_assoc, List.cons_append,
      restOf_append hall (endsName_of_restOf hrest)]

end Grammar

-- --------
-- The server against the reference
-- --------

section Server

variable {cfg : AtServerConfig} {s : AtServer} {r : AtLineRef} {text : List Char} {ch : Char}

theorem takeWhile_of_not_nul (h : '\x00' ∉ text) :
    text.takeWhile (fun c => c ≠ '\x00') = text := by
  refine List.takeWhile_eq_self_iff.mpr fun c hc => ?_
  rw [decide_eq_true_eq]
  rintro rfl
  exact h hc

/-- The string in a buffer that may hold NULs before its end. -/
theorem string_rightpad_room (h : Room text) :
    Buffer.string (text.rightpad atServerRecvBuffLen '\x00') 0
      = some (text.takeWhile fun c => c ≠ '\x00') := by
  by_cases hnul : '\x00' ∈ text
  · have hmem : '\x00' ∈ (text.rightpad atServerRecvBuffLen '\x00').drop 0 :=
      List.mem_append_left _ hnul
    rw [Buffer.string, if_pos hmem, List.drop_zero, List.rightpad]
    obtain ⟨as, bs, rfl, has⟩ := List.eq_append_cons_of_mem hnul
    have hall : ∀ c ∈ as, decide (c ≠ '\x00') = true := by
      intro c hc
      rw [decide_eq_true_eq]
      rintro rfl
      exact has hc
    rw [List.append_assoc, List.takeWhile_append_of_pos hall, List.takeWhile_append_of_pos hall,
      List.cons_append, List.takeWhile_cons_of_neg (by simp), List.takeWhile_cons_of_neg (by simp)]
  · have hlt : text.length < atServerRecvBuffLen := h.resolve_right fun hr => hnul hr.2
    rw [Buffer.string_rightpad (Nat.zero_le _) hlt hnul, List.drop_zero]
    rw [takeWhile_of_not_nul hnul]

theorem string_rightpad_full (hle : text.length ≤ atServerRecvBuffLen) (h : ¬ Room text) :
    Buffer.string (text.rightpad atServerRecvBuffLen '\x00') 0 = none := by
  unfold Room at h
  have hlen : atServerRecvBuffLen - text.length = 0 := by omega
  have hnul : '\x00' ∉ text := fun hmem => h (.inr ⟨by omega, hmem⟩)
  rw [Buffer.string, List.drop_zero, List.rightpad, hlen, List.replicate_zero, List.append_nil,
    if_neg hnul]

theorem store_rightpad_concat (h : text.length < atServerRecvBuffLen) :
    Buffer.store (text.rightpad atServerRecvBuffLen '\x00') text.length ch
      = some ((text ++ [ch]).rightpad atServerRecvBuffLen '\x00') := by
  rw [← Buffer.rightpad_nul h, Buffer.set_rightpad rfl]

theorem store_rightpad_full (h : text.length = atServerRecvBuffLen) :
    Buffer.store (text.rightpad atServerRecvBuffLen '\x00') text.length ch = none := by
  rw [Buffer.store, if_neg]
  rw [Buffer.length_rightpad h.le, h]
  omega

/-- `at_cmd_get_name`: the name with its NUL has to fit. -/
theorem atCmdGetName_eq {cmdBuffer cmdName : List Char} (hlen : cmdName.length = atCmdNameLen)
    (htext : Buffer.string cmdBuffer 0 = some text) (hnul : '\x00' ∉ text) :
    (restOf text = [] → atCmdGetName cmdBuffer cmdName = .ok none) ∧
    (restOf text ≠ [] → (nameOf text).length < atCmdNameLen → ∃ cmdName',
      atCmdGetName cmdBuffer cmdName = .ok (some cmdName') ∧ cmdName'.length = atCmdNameLen ∧
      Buffer.string cmdName' 0 = some (nameOf text)) ∧
    (restOf text ≠ [] → ¬ (nameOf text).length < atCmdNameLen →
      atCmdGetName cmdBuffer cmdName = .error .badPointer) := by
  have hname : text.take (nameOf text).length = nameOf text := by
    calc text.take (nameOf text).length
        = (nameOf text ++ restOf text).take (nameOf text).length := by rw [nameOf_restOf]
      _ = nameOf text := List.take_left
  have hnul' : '\x00' ∉ nameOf text := fun hmem => hnul ((List.takeWhile_prefix _).subset hmem)
  unfold atCmdGetName
  rw [deref_bind htext, findIdx_endsName]
  refine ⟨?_, ?_, ?_⟩
  · intro hrest
    rw [if_pos hrest]
    rfl
  · intro hrest hfit
    rw [if_neg hrest]
    dsimp only
    rw [hname]
    -- the old name where the new one comes, the place of the NUL, and the rest
    obtain ⟨old, c, junk, rfl, hold⟩ : ∃ old c junk, cmdName = old ++ (c :: junk) ∧
        old.length = (nameOf text).length := by
      obtain ⟨c, junk, hdrop⟩ := List.exists_cons_of_length_pos
        (l := cmdName.drop (nameOf text).length) (by rw [List.length_drop]; omega)
      refine ⟨cmdName.take (nameOf text).length, c, junk, ?_, ?_⟩
      · rw [← hdrop, List.take_append_drop]
      · rw [List.length_take]
        omega
    have hwrite : Buffer.write (old ++ (c :: junk)) 0 (nameOf text)
        = some (nameOf text ++ (c :: junk)) :=
      @Buffer.write_append _ [] old _ _ _ rfl hold.symm
    rw [deref_bind hwrite, deref_bind (Buffer.store_append rfl)]
    refine ⟨_, rfl, ?_, ?_⟩
    · rw [← hlen, List.length_append, List.length_append, hold, List.length_cons, List.length_cons]
    · exact @Buffer.string_append 0 [] (nameOf text) junk rfl hnul'
  · intro hrest hlong
    rw [if_neg hrest]
    dsimp only
    rw [hname]
    by_cases hfit : (nameOf text).length ≤ atCmdNameLen
    · -- the name fits, its NUL does not
      have hwrite : Buffer.write cmdName 0 (nameOf text) = some (nameOf text) := by
        rw [Buffer.write, if_pos (by omega), List.take_zero, List.nil_append,
          List.drop_eq_nil_of_le (by omega), List.append_nil]
      rw [deref_bind hwrite, deref_none_bind]
      rw [Buffer.store, if_neg (by omega)]
    · rw [deref_none_bind]
      rw [Buffer.write, if_neg (by omega)]

/-- The branch that `at_cmd_process` takes. -/
def branchOf (cmdArgs : List Char) : Option AtForm :=
  if ['=', '?', '\r'] <+: cmdArgs then some .test
  else if ['?', '\r'] <+: cmdArgs then some .query
  else if cmdArgs.head? = some '=' ∨
      ((∃ c ∈ cmdArgs.head?, IsDigit c) ∧ cmdArgs[1]? = some '\r') then some .setup
  else if cmdArgs.head? = some '\r' then some .exec
  else none

/-- What `at_cmd_process` calls. -/
def processCall (cmd : AtCmd) (cmdArgs : List Char) : Option AtCall :=
  (branchOf cmdArgs).bind (AtCmd.function cmd cmdArgs)

/-- A line for which `o` was called. -/
structure Answers (cfg : AtServerConfig) (s : AtServer) (o : Option AtCall) (s' : AtServer) :
    Prop where
  served : s'.served = s.served ++ [o]
  echoMode : s'.echoMode = echoAfter cfg s.served o s.echoMode
  curCmdName : s'.curCmdName = s.curCmdName

theorem Answers.refuse (cfg : AtServerConfig) (s : AtServer) (result : AtResult) :
    Answers cfg s none (Server.refuse s result) := ⟨rfl, rfl, rfl⟩

theorem Answers.call (cfg : AtServerConfig) (s : AtServer) (c : AtCall) :
    Answers cfg s (some c) (Server.call cfg s c) := ⟨rfl, rfl, rfl⟩

theorem atCmdProcess_eq (s : AtServer) (cmd : AtCmd) (cmdArgs : List Char) :
    ∃ s', Server.atCmdProcess cfg s cmd cmdArgs = .ok s' ∧
      Answers cfg s (processCall cmd cmdArgs) s' := by
  have hif : ∀ (b : Bool) (c : AtCall) (result : AtResult),
      ∃ s', (pure (if b then Server.call cfg s c else Server.refuse s result) :
        Except Fault AtServer) = .ok s' ∧ Answers cfg s (if b then some c else none) s' := by
    intro b c result
    cases b with
    | true => exact ⟨_, rfl, .call cfg s c⟩
    | false => exact ⟨_, rfl, .refuse cfg s result⟩
  unfold Server.atCmdProcess processCall branchOf
  split
  · exact hif _ _ _
  split
  · exact hif _ _ _
  split
  · -- the setup function, which has an expression
    rw [Option.bind_some]
    cases hsetup : cmd.setup with
    | false =>
      have hnone : AtCmd.function cmd cmdArgs .setup = none :=
        if_neg fun h => absurd h.1 (by rw [hsetup]; decide)
      rw [hnone]
      exact ⟨_, rfl, .refuse cfg s _⟩
    | true =>
      obtain ⟨expr, hexpr⟩ := Option.isSome_iff_exists.mp (cmd.expr_of_setup hsetup)
      rw [if_pos rfl, atCheckArgs, deref_bind hexpr]
      by_cases hfit : ArgsFit cmdArgs expr
      · have hsome : AtCmd.function cmd cmdArgs .setup = some ⟨cmd, .setup, cmdArgs⟩ :=
          if_pos ⟨hsetup, by rw [hexpr]; exact hfit⟩
        rw [hsome, decide_eq_true hfit]
        exact ⟨_, rfl, .call cfg s _⟩
      · have hnone : AtCmd.function cmd cmdArgs .setup = none :=
          if_neg fun h => hfit (by have := h.2; rwa [hexpr] at this)
        rw [hnone, decide_eq_false hfit]
        exact ⟨_, rfl, .refuse cfg s _⟩
  split
  · exact hif _ _ _
  · exact ⟨_, rfl, .refuse cfg s _⟩

/-- What the code calls for a line whose name fits. -/
def lineCall (cfg : AtServerConfig) (line : List Char) : Option AtCall :=
  (atFindCmd cfg.cmdTable (nameOf line)).bind fun cmd => processCall cmd (restOf line)

/-- The branch says what the text behind the name begins like, whatever comes then. -/
theorem branchOf_eq_some {tail : List Char} {form : AtForm} :
    branchOf tail = some form ↔ BeginsLike form tail := by
  constructor
  · intro h
    unfold branchOf at h
    split at h
    · next hpre =>
      cases h
      obtain ⟨more, rfl⟩ := hpre
      exact .test more
    next htest =>
    split at h
    · next hpre =>
      cases h
      obtain ⟨more, rfl⟩ := hpre
      exact .query more
    cases tail with
    | nil => simp at h
    | cons d more =>
      split at h
      · next hsetup =>
        cases h
        rcases hsetup with heq | ⟨⟨c, hc, hd⟩, hcr⟩
        · cases Option.some_inj.mp heq
          exact .args fun hpre => htest (List.cons_prefix_cons.mpr ⟨rfl, hpre⟩)
        · cases Option.some_inj.mp hc
          rw [List.getElem?_cons_succ, ← List.head?_eq_getElem?] at hcr
          obtain ⟨more, rfl⟩ := List.head?_eq_some_iff.mp hcr
          exact .digit hd more
      split at h
      · next heq =>
        cases h
        cases Option.some_inj.mp heq
        exact .exec more
      · cases h
  · intro h
    cases h with
    | test | query => rfl
    | args htest =>
      rw [branchOf, if_neg, if_neg (by simp), if_pos (.inl rfl)]
      exact fun hpre => htest (List.cons_prefix_cons.mp hpre).2
    | digit hd more =>
      have hne : ∀ {c : Char} {cs : List Char}, ¬ IsDigit c → ¬ c :: cs <+: _ :: '\r' :: more :=
        fun hc hpre => hc ((List.cons_prefix_cons.mp hpre).1 ▸ hd)
      rw [branchOf, if_neg (hne (by decide)), if_neg (hne (by decide)),
        if_pos (.inr ⟨⟨_, rfl, hd⟩, rfl⟩)]
    | exec more =>
      rw [branchOf, if_neg (by simp), if_neg (by simp), if_neg (by simp [IsDigit]),
        if_pos List.head?_cons]

/-- The first CR of a text is at one place. -/
theorem eq_of_append_cr {pre pre' post post' : List Char} (hpre : '\r' ∉ pre) (hpre' : '\r' ∉ pre')
    (h : pre ++ '\r' :: post = pre' ++ '\r' :: post') : pre = pre' := by
  have hcut : ∀ {pre : List Char} (post : List Char), '\r' ∉ pre →
      (pre ++ '\r' :: post).takeWhile (fun c => c ≠ '\r') = pre := by
    intro pre post hcr
    have hall : ∀ c ∈ pre, decide (c ≠ '\r') = true := by
      rintro c hc
      exact decide_eq_true fun heq => hcr (heq ▸ hc)
    rw [List.takeWhile_append_of_pos hall, List.takeWhile_cons_of_neg (by simp), List.append_nil]
  rw [← hcut post hpre, h, hcut post' hpre']

/-- Where the first CR ends the line, it is a suffix that the text begins like. -/
theorem beginsLike_iff {suffix behind : List Char} {form : AtForm} (hcr : '\r' ∉ suffix) :
    BeginsLike form (suffix ++ '\r' :: behind) ↔ AtSuffix form suffix := by
  constructor
  · generalize htail : suffix ++ '\r' :: behind = tail
    intro h
    cases h with
    | test more => exact @eq_of_append_cr _ ['=', '?'] _ _ hcr (by decide) htail ▸ .test
    | query more => exact @eq_of_append_cr _ ['?'] _ _ hcr (by decide) htail ▸ .query
    | @args more hno =>
      cases suffix with
      | nil => exact absurd (List.cons.inj htail).1 (by decide)
      | cons c args =>
        obtain ⟨rfl, rfl⟩ := List.cons.inj htail
        refine .args (fun hmem => hcr (List.mem_cons_of_mem _ hmem)) ?_
        rintro rfl
        exact hno ⟨behind, rfl⟩
    | @digit d hd more =>
      have hd' : '\r' ∉ [d] := fun hmem => hd.ne_cr (List.mem_singleton.mp hmem).symm
      exact @eq_of_append_cr _ [d] _ _ hcr hd' htail ▸ .digit hd
    | exec more => exact @eq_of_append_cr _ [] _ _ hcr (by decide) htail ▸ .exec
  · intro h
    cases h with
    | test => exact .test behind
    | query => exact .query behind
    | args hargs htest =>
      refine .args ?_
      rintro ⟨more, heq⟩
      exact htest (@eq_of_append_cr _ ['?'] _ _ hargs (by decide) heq.symm)
    | digit hd => exact .digit hd behind
    | exec => exact .exec behind

theorem lineCall_of_whole {line : List Char} (h : Whole cfg.endMark line) :
    lineCall cfg line = refCall cfg line := by
  obtain ⟨suffix, hcr, hrest⟩ := h.restOf_eq
  have hform : branchOf (restOf line) = grammarForm cfg.endMark line := by
    rw [grammarForm, hrest, if_pos (List.suffix_append _ _), List.length_append,
      Nat.add_sub_cancel, List.take_left]
    ext form
    rw [branchOf_eq_some, beginsLike_iff hcr, suffixForm_eq_some]
  rw [lineCall, refCall, ← hform, Option.bind_comm]
  rfl

/-- **The call is the one of the grammar** unless the line is stray. -/
theorem lineCall_eq_iff (line : List Char) :
    lineCall cfg line = refCall cfg line ↔ ¬ Stray cfg line := by
  by_cases hwhole : Whole cfg.endMark line
  · exact ⟨fun _ h => h.1 hwhole, fun _ => lineCall_of_whole hwhole⟩
  have hnone : refCall cfg line = none := by
    rw [Option.eq_none_iff_forall_not_mem]
    intro call hcall
    obtain ⟨name, form, suffix, cmd, hline, -⟩ := refCall_eq_some.mp hcall
    exact hwhole hline.whole
  -- nothing is to be called: what is called is called for what the line begins like
  rw [hnone, ← not_iff_not, not_not, ← ne_eq, Option.ne_none_iff_exists']
  constructor
  · rintro ⟨call, hcall⟩
    obtain ⟨cmd, hcmd, hcall⟩ := Option.bind_eq_some_iff.mp hcall
    obtain ⟨form, hform, hcall⟩ := Option.bind_eq_some_iff.mp hcall
    refine ⟨hwhole, form, branchOf_eq_some.mp hform, cmd, hcmd, ?_⟩
    rw [hcall]
    rfl
  · rintro ⟨-, form, hform, cmd, hcmd, hfun⟩
    obtain ⟨call, hcall⟩ := Option.isSome_iff_exists.mp hfun
    refine ⟨call, ?_⟩
    rw [lineCall, hcmd, Option.bind_some, processCall, branchOf_eq_some.mpr hform,
      Option.bind_some, hcall]

/-- **A line whose name fits.** -/
theorem line_eq (hbuf : s.recvBuffer = text.rightpad atServerRecvBuffLen '\x00')
    (hlt : text.length < atServerRecvBuffLen) (hnul : '\x00' ∉ text)
    (hname : s.curCmdName.length = atCmdNameLen)
    (hfit : restOf text ≠ [] → (nameOf text).length < atCmdNameLen) :
    ∃ s', Server.line cfg s = .ok s' ∧
      s'.recvBuffer = List.replicate atServerRecvBuffLen '\x00' ∧ s'.curRecvLen = 0 ∧
      s'.curCmdName.length = atCmdNameLen ∧
      s'.served = s.served ++ [lineCall cfg text] ∧
      s'.echoMode = echoAfter cfg s.served (lineCall cfg text) s.echoMode := by
  have hstring : Buffer.string s.recvBuffer 0 = some text := by
    rw [hbuf, Buffer.string_rightpad (Nat.zero_le _) hlt hnul, List.drop_zero]
  obtain ⟨hnone, hsome, -⟩ := atCmdGetName_eq hname hstring hnul
  unfold Server.line
  by_cases hrest : restOf text = []
  · -- no name
    have hcall : lineCall cfg text = none := by
      rw [lineCall, hrest, Option.bind_eq_none_iff]
      intro cmd _
      simp [processCall, branchOf]
    rw [hnone hrest, hcall]
    exact ⟨_, rfl, rfl, rfl, hname, rfl, rfl⟩
  · obtain ⟨cmdName, hget, hlen, hcmd⟩ := hsome hrest (hfit hrest)
    rw [hget]
    change ∃ s', (Server.command cfg s cmdName >>= fun s => pure (Server.clear s)) = .ok s' ∧ _
    rw [Server.command]
    dsimp only
    rw [deref_bind hcmd, lineCall]
    cases hfind : atFindCmd cfg.cmdTable (nameOf text) with
    | none => exact ⟨_, rfl, rfl, rfl, hlen, rfl, rfl⟩
    | some cmd =>
      have hargs : Buffer.string s.recvBuffer (nameOf text).length = some (restOf text) := by
        have hdrop : text.drop (nameOf text).length = restOf text := by
          calc text.drop (nameOf text).length
              = (nameOf text ++ restOf text).drop (nameOf text).length := by rw [nameOf_restOf]
            _ = restOf text := List.drop_left
        have hle : (nameOf text).length ≤ text.length := (List.takeWhile_prefix _).length_le
        rw [hbuf, Buffer.string_rightpad hle hlt hnul, hdrop]
      dsimp only
      rw [deref_bind hargs]
      obtain ⟨s', hprocess, hans⟩ := @atCmdProcess_eq cfg { s with curCmdName := cmdName } cmd
        (restOf text)
      rw [hprocess]
      have hcur : (Server.clear s').curCmdName = cmdName := hans.curCmdName
      exact ⟨_, rfl, rfl, rfl, hcur ▸ hlen, hans.served, hans.echoMode⟩

theorem line_overflow (hbuf : s.recvBuffer = text.rightpad atServerRecvBuffLen '\x00')
    (hlt : text.length < atServerRecvBuffLen) (hnul : '\x00' ∉ text)
    (hname : s.curCmdName.length = atCmdNameLen) (hrest : restOf text ≠ [])
    (hlong : ¬ (nameOf text).length < atCmdNameLen) :
    Server.line cfg s = .error .badPointer := by
  have hstring : Buffer.string s.recvBuffer 0 = some text := by
    rw [hbuf, Buffer.string_rightpad (Nat.zero_le _) hlt hnul, List.drop_zero]
  obtain ⟨-, -, herr⟩ := atCmdGetName_eq hname hstring hnul
  rw [Server.line, herr hrest hlong]
  rfl

/-- **The server holds the line**, and has served what the reference has. -/
structure Keeps (cfg : AtServerConfig) (s : AtServer) (r : AtLineRef) : Prop where
  recvBuffer : s.recvBuffer = r.text.rightpad atServerRecvBuffLen '\x00'
  curRecvLen : s.curRecvLen = r.text.length
  length_le : r.text.length ≤ atServerRecvBuffLen
  curCmdName : s.curCmdName.length = atCmdNameLen
  echoMode : s.echoMode = r.echoMode
  served : s.served = r.served
  open_ : ¬ cfg.endMark.chars <:+: r.text

/-- The echo, and the backspace in it. -/
theorem echo_eq (h : Keeps cfg s r) :
    (Erases r ch → ∃ s', Server.echo s ch = .ok (s', true) ∧ Keeps cfg s' (refChar cfg r ch)) ∧
    (¬ Erases r ch → ∃ s', Server.echo s ch = .ok (s', false) ∧ Keeps cfg s' r) := by
  have hecho := h.echoMode
  constructor
  · intro her
    have hcr : ¬ (ch = '\r' ∨ (ch = '\n' ∧ s.lastCh ≠ '\r')) := by
      rcases her.2 with rfl | rfl <;> simp [backspaceKey, delectKey]
    have hlf : ch ≠ '\n' := by
      rcases her.2 with rfl | rfl <;> simp [backspaceKey, delectKey]
    rw [Server.echo, if_pos (hecho.trans her.1), if_neg hcr, if_neg hlf, if_pos her.2, refChar,
      if_pos her]
    have hopen : ¬ cfg.endMark.chars <:+: r.text.dropLast := fun hmark =>
      h.open_ (hmark.trans (List.dropLast_prefix _).isInfix)
    rcases List.eq_nil_or_concat r.text with hnil | ⟨text, c, htext⟩
    · have hzero : ¬ s.curRecvLen ≠ 0 := by rw [h.curRecvLen, hnil]; simp
      have hdrop : r.text.dropLast = r.text := by rw [hnil]; rfl
      rw [if_neg hzero, hdrop]
      exact ⟨s, rfl, h⟩
    · have hlen : r.text.length = text.length + 1 := by rw [htext]; simp
      have hle := h.length_le
      have hpos : s.curRecvLen ≠ 0 := by rw [h.curRecvLen, hlen]; omega
      have hstore : Buffer.store s.recvBuffer ((s.curRecvLen - 1 : Nat) : Int) '\x00' =
          some (text.rightpad atServerRecvBuffLen '\x00') := by
        rw [h.recvBuffer, h.curRecvLen, hlen, htext, Nat.add_sub_cancel, List.concat_eq_append,
          Buffer.set_rightpad rfl, Buffer.rightpad_nul (by omega)]
      have hdrop : r.text.dropLast = text := by rw [htext]; simp
      rw [if_pos hpos]
      dsimp only
      rw [deref_bind hstore, hdrop]
      rw [hdrop] at hopen
      exact ⟨_, rfl, { h with
        recvBuffer := rfl, curRecvLen := by rw [h.curRecvLen, hlen]; rfl
        length_le := by show text.length ≤ _; omega
        open_ := hopen }⟩
  · intro her
    rw [Server.echo]
    by_cases hon : s.echoMode = true
    · rw [if_pos hon]
      split
      · exact ⟨_, rfl, { h with }⟩
      split
      · exact ⟨_, rfl, h⟩
      · rw [if_neg fun herase => her ⟨hecho ▸ hon, herase⟩]
        exact ⟨_, rfl, { h with }⟩
    · rw [if_neg hon]
      exact ⟨_, rfl, h⟩

/-- The end mark comes with its last character. -/
theorem infix_concat_iff {mark : List Char} :
    mark <:+: text ++ [ch] ↔ mark <:+: text ∨ mark <:+ text ++ [ch] := by
  constructor
  · rintro ⟨pre, post, heq⟩
    rcases List.eq_nil_or_concat post with rfl | ⟨post, c, rfl⟩
    · exact .inr ⟨pre, by rw [← heq, List.append_nil]⟩
    · rw [List.concat_eq_append, ← List.append_assoc] at heq
      exact .inl ⟨pre, post, (List.append_inj' heq rfl).1⟩
  · rintro (h | h)
    · exact h.trans (List.prefix_append _ _).isInfix
    · exact h.isInfix

theorem endMark_not_infix_nil (m : AtEndMark) : ¬ m.chars <:+: [] := by
  intro h
  cases m <;> exact absurd (List.infix_nil.mp h) (List.cons_ne_nil _ _)

theorem takeWhile_of_nul (h : '\x00' ∈ text ++ [ch]) :
    (text ++ [ch]).takeWhile (fun c => c ≠ '\x00') <+: text := by
  refine (List.prefix_concat_iff.mp (List.takeWhile_prefix _)).resolve_left fun heq => ?_
  rw [← heq] at h
  simpa using List.mem_takeWhile_imp h

/-- A character is stored behind the echo. -/
theorem char_store (h : Keeps cfg s r) (her : ¬ Erases r ch) : ∃ s₁, Keeps cfg s₁ r ∧
    Server.char cfg s ch = (do
      let recvBuffer ← deref (Buffer.store s₁.recvBuffer s₁.curRecvLen ch)
      let s := { s₁ with recvBuffer := recvBuffer, curRecvLen := s₁.curRecvLen + 1, lastCh := ch }
      let text ← deref (Buffer.string recvBuffer 0)
      if cfg.endMark.chars <:+: text then Server.line cfg s else return s) := by
  obtain ⟨s₁, hecho, h₁⟩ := (@echo_eq cfg s r ch h).2 her
  refine ⟨s₁, h₁, ?_⟩
  rw [Server.char, hecho]
  rfl

/-- A character that leaves no room. -/
theorem char_full (h : Keeps cfg s r) (her : ¬ Erases r ch) (hroom : ¬ Room (r.text ++ [ch])) :
    Server.char cfg s ch = .error .badPointer := by
  obtain ⟨s₁, h₁, hstart⟩ := char_store h her
  rw [hstart, h₁.recvBuffer, h₁.curRecvLen]
  rcases Nat.lt_or_ge r.text.length atServerRecvBuffLen with hlt | hge
  case inr => exact deref_none_bind (store_rightpad_full (le_antisymm h.length_le hge)) _
  have hle : (r.text ++ [ch]).length ≤ atServerRecvBuffLen := by
    rw [List.length_append, List.length_singleton]
    omega
  rw [deref_bind (store_rightpad_concat hlt)]
  exact deref_none_bind (string_rightpad_full hle hroom) _

/-- **A character behind the echo.** -/
theorem char_append (h : Keeps cfg s r) (her : ¬ Erases r ch) :
    (TameChar cfg r ch → ∃ s', Server.char cfg s ch = .ok s' ∧ Keeps cfg s' (refChar cfg r ch)) ∧
    (∀ s', Server.char cfg s ch = .ok s' → s'.served = (refChar cfg r ch).served →
      TameChar cfg r ch) := by
  by_cases hroom : Room (r.text ++ [ch])
  case neg =>
    rw [char_full h her hroom]
    exact ⟨fun htame => absurd (htame her).1 hroom, nofun⟩
  obtain ⟨s₁, h₁, hstart⟩ := char_store h her
  rw [hstart, h₁.recvBuffer, h₁.curRecvLen]
  have hlen : (r.text ++ [ch]).length = r.text.length + 1 := by simp
  have hle : (r.text ++ [ch]).length ≤ atServerRecvBuffLen :=
    hroom.elim Nat.le_of_lt fun hr => hr.1.le
  rw [deref_bind (store_rightpad_concat (by omega))]
  dsimp only
  rw [deref_bind (string_rightpad_room hroom)]
  by_cases hmark : cfg.endMark.chars <:+ r.text ++ [ch]
  · have href : (refChar cfg r ch).served = r.served ++ [refCall cfg (r.text ++ [ch])] := by
      rw [refChar, if_neg her, if_pos hmark]
    by_cases hnul : '\x00' ∈ r.text ++ [ch]
    · -- the line ends, but the server does not see it
      have hopen : ¬ cfg.endMark.chars <:+: (r.text ++ [ch]).takeWhile fun c => c ≠ '\x00' :=
        fun hin => h.open_ (hin.trans (takeWhile_of_nul hnul).isInfix)
      rw [if_neg hopen, href]
      refine ⟨fun htame => absurd hnul ((htame her).2 hmark).nul, ?_⟩
      rintro s' hs' hserved
      cases hs'
      rw [← h₁.served] at hserved
      exact absurd hserved (by simp)
    rw [takeWhile_of_not_nul hnul, if_pos hmark.isInfix]
    have hlt' : (r.text ++ [ch]).length < atServerRecvBuffLen :=
      hroom.resolve_right fun hr => hnul hr.2
    by_cases hfit : restOf (r.text ++ [ch]) ≠ [] → (nameOf (r.text ++ [ch])).length < atCmdNameLen
    · obtain ⟨s', hline, hbuf, hlen', hname, hserved, hmode⟩ := @line_eq cfg
        { s₁ with
          recvBuffer := (r.text ++ [ch]).rightpad atServerRecvBuffLen '\x00'
          curRecvLen := r.text.length + 1, lastCh := ch } _ rfl hlt' hnul h₁.curCmdName hfit
      rw [hline]
      constructor
      · intro htame
        have hcall := (lineCall_eq_iff _).mpr ((htame her).2 hmark).cr
        refine ⟨s', rfl, ?_⟩
        rw [refChar, if_neg her, if_pos hmark]
        refine { recvBuffer := hbuf, curRecvLen := hlen', length_le := Nat.zero_le _
                 curCmdName := hname, echoMode := ?_, served := ?_, open_ := ?_ }
        · rw [hmode, hcall, h₁.served, h₁.echoMode]
        · rw [hserved, hcall, h₁.served]
        · exact endMark_not_infix_nil cfg.endMark
      · intro s₂ hs₂ hcall _
        cases hs₂
        refine ⟨hroom, fun _ => ⟨hnul, hfit, (lineCall_eq_iff _).mp ?_⟩⟩
        rw [href, hserved, h₁.served] at hcall
        exact List.singleton_inj.mp (List.append_cancel_left hcall)
    · -- the name does not fit
      rw [Classical.not_imp] at hfit
      have hover := @line_overflow cfg { s₁ with
          recvBuffer := (r.text ++ [ch]).rightpad atServerRecvBuffLen '\x00'
          curRecvLen := r.text.length + 1, lastCh := ch } _ rfl hlt' hnul h₁.curCmdName
        hfit.1 hfit.2
      rw [hover]
      exact ⟨fun htame => absurd (((htame her).2 hmark).name hfit.1) hfit.2, nofun⟩
  · -- the line goes on
    have hopen : ¬ cfg.endMark.chars <:+: r.text ++ [ch] := fun hin =>
      (infix_concat_iff.mp hin).elim h.open_ hmark
    have hseen : ¬ cfg.endMark.chars <:+: (r.text ++ [ch]).takeWhile fun c => c ≠ '\x00' :=
      fun hin => hopen (hin.trans (List.takeWhile_prefix _).isInfix)
    rw [if_neg hseen]
    refine ⟨fun _ => ⟨_, rfl, ?_⟩, fun _ _ _ _ => ⟨hroom, fun hm => absurd hm hmark⟩⟩
    rw [refChar, if_neg her, if_neg hmark]
    exact { h₁ with
      recvBuffer := rfl, curRecvLen := hlen.symm, length_le := hle, open_ := hopen }

/-- **A character.** -/
theorem char_iff (h : Keeps cfg s r) :
    (TameChar cfg r ch → ∃ s', Server.char cfg s ch = .ok s' ∧ Keeps cfg s' (refChar cfg r ch)) ∧
    (∀ s', Server.char cfg s ch = .ok s' → s'.served = (refChar cfg r ch).served →
      TameChar cfg r ch) := by
  by_cases her : Erases r ch
  · obtain ⟨s', hecho, hkeeps⟩ := (@echo_eq cfg s r ch h).1 her
    refine ⟨fun _ => ⟨s', ?_, hkeeps⟩, fun _ _ _ hno => absurd her hno⟩
    rw [Server.char, hecho]
    rfl
  · exact char_append h her

end Server

-- --------
-- Streams
-- --------

/-- The server and the reference have both taken the stream, and served the same. -/
def Agrees (cfg : AtServerConfig) (s : AtServer) (r : AtLineRef) (bs : List Char) : Prop :=
  ∃ s', serverParser cfg s bs = .ok s' ∧ s'.served = (refRun cfg r bs).served

theorem serverStart_keeps (cfg : AtServerConfig) (echoMode : Bool) (lastCh : Char) :
    Keeps cfg (serverStart echoMode lastCh) ⟨[], echoMode, []⟩ where
  recvBuffer := rfl
  curRecvLen := rfl
  length_le := Nat.zero_le _
  curCmdName := List.length_replicate
  echoMode := rfl
  served := rfl
  open_ := endMark_not_infix_nil cfg.endMark

theorem agrees_iff {cfg : AtServerConfig} (bs : List Char) : ∀ {s : AtServer} {r : AtLineRef},
    Keeps cfg s r → ((∀ p, p <+: bs → Agrees cfg s r p) ↔ Tame cfg r bs) := by
  induction bs with
  | nil =>
    intro s r h
    refine ⟨fun _ => trivial, fun _ p hp => ?_⟩
    rw [List.prefix_nil.mp hp]
    exact ⟨s, rfl, h.served⟩
  | cons ch bs ih =>
    intro s r h
    obtain ⟨hgood, hbad⟩ := @char_iff cfg s r ch h
    by_cases hesc : ch = escKey
    · refine ⟨fun _ => .inl hesc, fun _ p hp => ?_⟩
      rcases List.prefix_cons_iff.mp hp with rfl | ⟨p, rfl, -⟩
      · exact ⟨s, rfl, h.served⟩
      · exact ⟨s, by rw [serverParser, if_pos hesc], by rw [refRun, if_pos hesc]; exact h.served⟩
    · have hstep : ∀ s' p, Server.char cfg s ch = .ok s' →
          (Agrees cfg s r (ch :: p) ↔ Agrees cfg s' (refChar cfg r ch) p) := by
        intro s' p hs'
        unfold Agrees
        rw [serverParser, if_neg hesc, refRun, if_neg hesc, hs']
        rfl
      constructor
      · intro hall
        -- the first character on its own
        have htame : TameChar cfg r ch := by
          obtain ⟨s', hs', hserved⟩ := hall [ch] ⟨bs, rfl⟩
          rw [serverParser, if_neg hesc] at hs'
          obtain ⟨s₁, hchar, hs₁⟩ := except_bind_ok hs'
          cases hs₁
          rw [refRun, if_neg hesc] at hserved
          exact hbad _ hchar hserved
        obtain ⟨s', hs', hkeeps⟩ := hgood htame
        exact .inr ⟨htame, (ih hkeeps).mp fun p hp =>
          (hstep s' p hs').mp (hall (ch :: p) (List.cons_prefix_cons.mpr ⟨rfl, hp⟩))⟩
      · rintro (rfl | ⟨htame, hrest⟩) p hp
        · exact absurd rfl hesc
        obtain ⟨s', hs', hkeeps⟩ := hgood htame
        rcases List.prefix_cons_iff.mp hp with rfl | ⟨p, rfl, hp'⟩
        · exact ⟨s, rfl, h.served⟩
        · exact (hstep s' p hs').mpr ((ih hkeeps).mpr hrest p hp')

/-- **`server_parser`.** At every moment the server has left no buffer and has called, line by line,
what the grammar says: exactly when the stream is tame. -/
theorem server_parser_serves_iff (cfg : AtServerConfig) (echoMode : Bool) (lastCh : Char)
    (bs : List Char) :
    (∀ p, p <+: bs → ∃ s, serverParser cfg (serverStart echoMode lastCh) p = .ok s ∧
        s.served = (refRun cfg ⟨[], echoMode, []⟩ p).served) ↔
      Tame cfg ⟨[], echoMode, []⟩ bs := by
  exact agrees_iff bs (serverStart_keeps cfg echoMode lastCh)

/-- A server without commands. -/
def bareServer : AtServerConfig := ⟨[], .crlf, fun _ => (.null, true)⟩

/-- Letters without an end mark fill the buffer until no NUL is left. -/
theorem fills_up {s : AtServer} (k : Nat) : ∀ n, n + k = 255 →
    Keeps bareServer s ⟨List.replicate n 'A', false, []⟩ →
    serverParser bareServer s (List.replicate (k + 1) 'A') = .error .badPointer := by
  have her (n : Nat) : ¬ Erases ⟨List.replicate n 'A', false, []⟩ 'A' := fun h => nomatch h.1
  have hnext (n : Nat) : List.replicate n 'A' ++ ['A'] = List.replicate (n + 1) 'A' :=
    List.replicate_succ'.symm
  induction k generalizing s with
  | zero =>
    intro n hn h
    have hfull : ¬ Room (List.replicate n 'A' ++ ['A']) := by
      rw [hnext, Room, List.length_replicate]
      rintro (hlt | ⟨-, hnul⟩)
      · change n + 1 < 256 at hlt
        omega
      · exact absurd (List.eq_of_mem_replicate hnul) (by decide)
    rw [List.replicate_one, serverParser, if_neg (by decide), char_full h (her n) hfull]
    rfl
  | succ k ih =>
    intro n hn h
    have hmark : ¬ bareServer.endMark.chars <:+ List.replicate n 'A' ++ ['A'] := fun hsuf => by
      rw [hnext] at hsuf
      exact absurd (List.eq_of_mem_replicate (hsuf.subset List.mem_cons_self)) (by decide)
    obtain ⟨s', hchar, hkeeps⟩ := (char_append h (her n)).1 fun _ =>
      ⟨Or.inl (by rw [hnext, List.length_replicate]; change n + 1 < 256; omega),
        fun hsuf => absurd hsuf hmark⟩
    rw [refChar, if_neg (her n), if_neg hmark] at hkeeps
    dsimp only at hkeeps
    rw [hnext] at hkeeps
    rw [List.replicate_succ, serverParser, if_neg (by decide), hchar]
    exact ih (n + 1) (by omega) hkeeps

/-- `ATZ` with an exec function. -/
def resetCmd : AtCmd := ⟨['A', 'T', 'Z'], none, false, false, false, true, by decide⟩

/-- A name of 16 characters runs over `cur_cmd_name`, a line of 256 over `recv_buffer`; a line with
text behind its first CR calls the function of the command that it begins with. -/
theorem server_parser_overruns :
    serverParser bareServer (serverStart false '\x00') "ABCDEFGHIJKLMNOP\r\n".toList
      = .error .badPointer ∧
    serverParser bareServer (serverStart false '\x00') (List.replicate 256 'A')
      = .error .badPointer ∧
    (let cfg := { bareServer with cmdTable := [resetCmd] }
     (serverParser cfg (serverStart false '\x00') "ATZ\rATZ\r\n".toList).map (·.served)
        = .ok [some ⟨resetCmd, .exec, []⟩] ∧
      (refRun cfg ⟨[], false, []⟩ "ATZ\rATZ\r\n".toList).served = [none]) :=
  ⟨by decide +kernel, fills_up 255 0 rfl (serverStart_keeps _ _ _), by decide +kernel,
    by decide +kernel⟩

end At

end RTThread
