import RTThread.Lib.CString
import RTThread.Lib.LineEditor
import RTThread.Rtdef

/-!
# The line editor of the shell (`components/finsh/shell.c`)

`finsh_thread_entry` reads bytes from the console, edits the buffer `line` and
hands a finished line to `msh_exec`. What it prints is left out, and the
completion of a name (`msh_auto_complete`) is a parameter. The accesses to `line`
and to the history are checked.
-/

namespace RTThread.Finsh

/-- `FINSH_CMD_SIZE` and `FINSH_HISTORY_LINES`. -/
structure ShellCfg where
  cmdSize : Nat
  historyLines : Nat
  lines_pos : 0 < historyLines
  size_pos : 0 < cmdSize

/-- `enum input_stat`. -/
inductive InputStat
  | waitNormal
  | waitSpecKey
  | waitFuncKey
deriving DecidableEq

/-- `struct finsh_shell`, and the lines given to `msh_exec`. -/
structure Shell where
  stat : InputStat
  currentHistory : Nat
  historyCount : Nat
  cmdHistory : List (List Char)
  line : List Char
  linePosition : Nat
  lineCurpos : Nat
  executed : List (List Char)

section Code

variable (cfg : ShellCfg) (complete : List Char → Except Fault (List Char))

/-- The shell when it starts. -/
def Shell.start : Shell where
  stat := .waitNormal
  currentHistory := 0
  historyCount := 0
  cmdHistory := List.replicate cfg.historyLines (List.replicate cfg.cmdSize '\x00')
  line := List.replicate (cfg.cmdSize + 1) '\x00'
  linePosition := 0
  lineCurpos := 0
  executed := []

/-- The line is the history command that is selected. -/
def copyHistory (s : Shell) : Except Fault Shell := do
  let row ← deref s.cmdHistory[s.currentHistory]?
  let line ← deref (Buffer.write s.line 0 row)
  let text ← deref (Buffer.string line 0)
  return { s with line, linePosition := text.length, lineCurpos := text.length }

def upKey (s : Shell) : Except Fault Shell :=
  if 0 < s.currentHistory then copyHistory { s with currentHistory := s.currentHistory - 1 }
  else .ok { s with currentHistory := 0 }

def downKey (s : Shell) : Except Fault Shell :=
  if s.currentHistory + 1 < s.historyCount then
    copyHistory { s with currentHistory := s.currentHistory + 1 }
  else if s.historyCount ≠ 0 then copyHistory { s with currentHistory := s.historyCount - 1 }
  else .ok s

def leftKey (s : Shell) : Shell :=
  if s.lineCurpos ≠ 0 then { s with lineCurpos := s.lineCurpos - 1 } else s

def rightKey (s : Shell) : Shell :=
  if s.lineCurpos < s.linePosition then { s with lineCurpos := s.lineCurpos + 1 } else s

/-- The tab key. -/
def tabKey (s : Shell) : Except Fault Shell := do
  let line ← complete s.line
  let text ← deref (Buffer.string line 0)
  return { s with line, linePosition := text.length, lineCurpos := text.length }

/-- The backspace key. -/
def backspace (s : Shell) : Except Fault Shell :=
  if s.lineCurpos = 0 then .ok s
  else do
    let position := s.linePosition - 1
    let curpos := s.lineCurpos - 1
    if position > curpos then
      let tail ← deref (Buffer.read s.line (curpos + 1) (position - curpos))
      let line ← deref (Buffer.write s.line curpos tail)
      let line ← deref (Buffer.store line position '\x00')
      return { s with line, linePosition := position, lineCurpos := curpos }
    else
      let line ← deref (Buffer.store s.line position '\x00')
      return { s with line, linePosition := position, lineCurpos := curpos }

/-- `move history`: every row but the last becomes the one behind it. -/
def moveHistory : List (List Char) → List (List Char)
  | _ :: row :: rows => row :: moveHistory (row :: rows)
  | rows => rows

/-- A row is cleared, and `line_position` bytes of the line are copied to it. -/
def historyRow (s : Shell) : Except Fault (List Char) := do
  let text ← deref (Buffer.read s.line 0 s.linePosition)
  deref (Buffer.write (List.replicate cfg.cmdSize '\x00') 0 text)

/-- `rt_memcpy(&shell->cmd_history[index][0], ..)`. -/
def setRow (rows : List (List Char)) (index : Nat) (row : List Char) :
    Except Fault (List (List Char)) :=
  deref (Buffer.store rows index row)

/-- `shell_push_history`. -/
def shellPushHistory (s : Shell) : Except Fault Shell := do
  let s ← (if s.linePosition ≠ 0 then do
    let line ← deref (Buffer.read s.line 0 cfg.cmdSize)
    if s.historyCount ≥ cfg.historyLines then
      let last ← deref s.cmdHistory[cfg.historyLines - 1]?
      -- if current cmd is same as last cmd, don't push
      if last ≠ line then
        let row ← historyRow cfg s
        let cmdHistory ← setRow (moveHistory s.cmdHistory) (cfg.historyLines - 1) row
        return { s with cmdHistory, historyCount := cfg.historyLines }
      else return s
    else
      let same ← (if s.historyCount = 0 then return false
        else do
          let last ← deref s.cmdHistory[s.historyCount - 1]?
          return last = line)
      if same then return s
      else
        let row ← historyRow cfg s
        let cmdHistory ← setRow s.cmdHistory s.historyCount row
        return { s with cmdHistory, currentHistory := s.historyCount
                        historyCount := s.historyCount + 1 }
    else return s)
  return { s with currentHistory := s.historyCount }

/-- The end of a line. -/
def endOfLine (s : Shell) : Except Fault Shell := do
  let s ← shellPushHistory cfg s
  let command ← deref (Buffer.read s.line 0 s.linePosition)
  return { s with
    executed := s.executed ++ [command]
    line := List.replicate (cfg.cmdSize + 1) '\x00'
    linePosition := 0
    lineCurpos := 0 }

/-- A character of the line. -/
def normalChar (s : Shell) (ch : Char) : Except Fault Shell := do
  -- it's a large line, discard it
  let position := if s.linePosition ≥ cfg.cmdSize then 0 else s.linePosition
  let line ← (if s.lineCurpos < position then do
      let tail ← deref (Buffer.read s.line s.lineCurpos (position - s.lineCurpos))
      let line ← deref (Buffer.write s.line (s.lineCurpos + 1) tail)
      deref (Buffer.store line s.lineCurpos ch)
    else deref (Buffer.store s.line position ch))
  if position + 1 ≥ cfg.cmdSize then return { s with line, linePosition := 0, lineCurpos := 0 }
  else return { s with line, linePosition := position + 1, lineCurpos := s.lineCurpos + 1 }

/-- The loop behind the control keys. -/
def plainKey (s : Shell) (ch : Char) : Except Fault Shell :=
  if ch = '\x00' ∨ ch = '\xff' then .ok s
  else if ch = '\t' then tabKey complete s
  else if ch = '\x7f' ∨ ch = '\x08' then backspace s
  else if ch = '\r' ∨ ch = '\n' then endOfLine cfg s
  else normalChar cfg s ch

/-- The body of the loop of `finsh_thread_entry`. -/
def shellKey (s : Shell) (ch : Char) : Except Fault Shell :=
  if ch = '\x1b' then .ok { s with stat := .waitSpecKey }
  else
    match s.stat with
    | .waitSpecKey =>
      if ch = '[' then .ok { s with stat := .waitFuncKey }
      else plainKey cfg complete { s with stat := .waitNormal } ch
    | .waitFuncKey =>
      let s := { s with stat := .waitNormal }
      if ch = 'A' then upKey s
      else if ch = 'B' then downKey s
      else if ch = 'D' then .ok (leftKey s)
      else if ch = 'C' then .ok (rightKey s)
      else plainKey cfg complete s ch
    | .waitNormal => plainKey cfg complete s ch

/-- `finsh_thread_entry` on the bytes it receives. -/
def finshThreadEntry : Shell → List Char → Except Fault Shell
  | s, [] => .ok s
  | s, ch :: input => do
    let s ← shellKey cfg complete s ch
    finshThreadEntry s input

end Code

-- --------
-- What the user has in mind
-- --------

/-- The key a byte is that stands alone, if it is one. -/
def keyOf (ch : Char) : Option (EditKey Char) :=
  if ch = '\x00' ∨ ch = '\xff' ∨ ch = '\t' then none
  else if ch = '\x7f' ∨ ch = '\x08' then some .erase
  else if ch = '\r' ∨ ch = '\n' then some .enter
  else some (.char ch)

/-- The key a byte ends, if it ends one, and how the next one is read. -/
def decode (stat : InputStat) (ch : Char) : InputStat × Option (EditKey Char) :=
  if ch = '\x1b' then (.waitSpecKey, none)
  else
    match stat with
    | .waitSpecKey => if ch = '[' then (.waitFuncKey, none) else (.waitNormal, keyOf ch)
    | .waitFuncKey =>
      (.waitNormal,
        if ch = 'A' then some .up
        else if ch = 'B' then some .down
        else if ch = 'D' then some .left
        else if ch = 'C' then some .right
        else keyOf ch)
    | .waitNormal => (.waitNormal, keyOf ch)

/-- The keys of an input. -/
def keys : InputStat → List Char → List (EditKey Char)
  | _, [] => []
  | stat, ch :: input => (decode stat ch).2.toList ++ keys (decode stat ch).1 input

/-- No key makes the line as long as the buffer. -/
def Roomy (cfg : ShellCfg) : LineEditor Char → List (EditKey Char) → Prop
  | _, [] => True
  | e, k :: ks =>
    (e.press cfg.historyLines k).text.length < cfg.cmdSize ∧
      Roomy cfg (e.press cfg.historyLines k) ks

end RTThread.Finsh
