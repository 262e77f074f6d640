import RTThread.Lib.CString
import Mathlib.Data.List.Infix
import Mathlib.Tactic.Linarith

/-!
# The AT client (`components/net/at/src/at_client.c`)

`at_recv_readline` and the loop of `client_parser`, taken byte by byte, and `at_obj_exec_cmd` as the
wait for the parser's answer. A line is delimited by the parser: it ends with a newline, with the
end sign, or as soon as what the line buffer holds of it is a URC. `lines` cuts a stream into such
lines whatever their length.

A response object is right (`Delivers`) exactly when every line of the call fitted and held no NUL
(`at_obj_exec_cmd_delivers`): a line too long for the line buffer is dropped without a trace, and the
`AT_RESP_BUFF_FULL` of one too long for the response buffer is overwritten by the line that ends
the response.
-/

namespace RTThread

/-- A URC object; its function is called with the line and does not come back here. -/
structure AtUrc where
  cmdPrefix : List Char
  cmdSuffix : List Char

/-- What a client is set up with; the tables of `urc_table` one behind the other. -/
structure AtClientConfig where
  endSign : Char
  recvBufsz : Nat
  urcTable : List AtUrc

/-- `enum at_resp_status`. -/
inductive AtRespStatus
  | ok
  | error
  | timeout
  | buffFull
deriving DecidableEq

/-- `struct at_response`. -/
structure AtResponse where
  bufSize : Nat
  buf : List Char
  length_buf : buf.length = bufSize
  bufLen : Nat
  lineNum : Nat
  lineCounts : Nat

/-- The line that `at_recv_readline` is reading. -/
structure AtLine where
  buf : List Char := []
  lastCh : Char := '\x00'
  isFull : Bool := false

/-- The rest of a client: the response object asked for, the status, and the object whose answer
has been announced by `resp_notice`. -/
structure AtState where
  resp : Option AtResponse := none
  respStatus : AtRespStatus := .ok
  answered : Option AtResponse := none

structure AtClient where
  line : AtLine := {}
  state : AtState := {}

namespace At

/-- `AT_RESP_END_OK`, `AT_RESP_END_ERROR` and `AT_RESP_END_FAIL`. -/
def respEndOk : List Char := ['O', 'K']
def respEndError : List Char := ['E', 'R', 'R', 'O', 'R']
def respEndFail : List Char := ['F', 'A', 'I', 'L']

/-- `get_urc_obj(client)` for what is in the line buffer. -/
def getUrcObj (c : AtClientConfig) (buffer : List Char) : Option AtUrc :=
  c.urcTable.find? fun urc =>
    urc.cmdPrefix.length + urc.cmdSuffix.length ≤ buffer.length ∧
      urc.cmdPrefix <+: buffer ∧ urc.cmdSuffix <:+ buffer

/-- One character in the loop of `at_recv_readline`: the line read on, or what the function returns,
none for `-RT_EFULL`. -/
def atReadlineChar (c : AtClientConfig) (s : AtLine) (ch : Char) :
    AtLine × Option (Option (List Char)) :=
  let s := if s.buf.length < c.recvBufsz then { s with buf := s.buf ++ [ch] }
    else { s with isFull := true }
  if (ch = '\n' ∧ s.lastCh = '\r') ∨ (c.endSign ≠ '\x00' ∧ ch = c.endSign) ∨
      (getUrcObj c s.buf).isSome then
    ({}, some (if s.isFull then none else some s.buf))
  else ({ s with lastCh := ch }, none)

/-- A copy of a line behind those in the response buffer. -/
def AtResponse.append (resp : AtResponse) (line : List Char)
    (h : resp.bufLen + line.length < resp.bufSize) : AtResponse :=
  { resp with
    buf := resp.buf.take resp.bufLen ++ line ++ resp.buf.drop (resp.bufLen + line.length)
    length_buf := by
      have := resp.length_buf
      simp only [List.length_append, List.length_take, List.length_drop]
      omega
    bufLen := resp.bufLen + line.length
    lineCounts := resp.lineCounts + 1 }

/-- The checks of a line in `client_parser`: the status it ends the response with. -/
def respEnd (c : AtClientConfig) (resp : AtResponse) (endCh : Char) (line : List Char) :
    Option AtRespStatus :=
  if c.endSign ≠ '\x00' ∧ endCh = c.endSign ∧ resp.lineNum = 0 then some .ok
  else if respEndOk <+: line ∧ resp.lineNum = 0 then some .ok
  else if respEndError <:+: (line.takeWhile fun c => c ≠ '\x00') ∨ respEndFail <+: line then
    some .error
  else if resp.lineCounts = resp.lineNum ∧ resp.lineNum ≠ 0 then some .ok
  else none

/-- A line of a response in `client_parser`. -/
def respLine (c : AtClientConfig) (s : AtState) (resp : AtResponse) (line : List Char) : AtState :=
  let endCh := line.getLastD '\x00'
  let line := line.dropLast ++ ['\x00']
  let (resp, status) := if h : resp.bufLen + line.length < resp.bufSize then
      (AtResponse.append resp line h, s.respStatus)
    else (resp, .buffFull)
  match respEnd c resp endCh line with
  | some status => { resp := none, respStatus := status, answered := some resp }
  | none => { s with resp := some resp, respStatus := status }

/-- A round of `client_parser` with the line that has been read. -/
def parserLine (c : AtClientConfig) (s : AtState) (line : List Char) : AtState :=
  if line.length = 0 then s
  else
    match getUrcObj c line with
    | some _ => s
    | none =>
      match s.resp with
      | some resp => respLine c s resp line
      | none => s

/-- A character for the parser. -/
def parserChar (c : AtClientConfig) (cl : AtClient) (ch : Char) : AtClient :=
  match atReadlineChar c cl.line ch with
  | (line, some (some text)) => ⟨line, parserLine c cl.state text⟩
  | (line, _) => ⟨line, cl.state⟩

/-- What `at_obj_exec_cmd` returns: `RT_EOK` with the response object, `-RT_ERROR` or
`-RT_ETIMEOUT`. -/
inductive AtExecResult
  | ok (resp : AtResponse)
  | error
  | timeout

/-- The wait of `at_obj_exec_cmd` while these characters come. -/
def atWait (c : AtClientConfig) : AtClient → List Char → AtExecResult
  | _, [] => .timeout
  | cl, ch :: bs =>
    let cl := parserChar c cl ch
    match cl.state.answered with
    | some resp => if cl.state.respStatus = .ok then .ok resp else .error
    | none => atWait c cl bs

/-- `at_obj_exec_cmd(client, resp, ...)`; the command is sent before the first character comes. -/
def atObjExecCmd (c : AtClientConfig) (cl : AtClient) (resp : AtResponse) (bs : List Char) :
    AtExecResult :=
  atWait c { cl with state :=
    { resp := some { resp with bufLen := 0, lineCounts := 0 }, respStatus := .ok } } bs

/-- The walk of `at_resp_get_line` over `n` strings. -/
def respLinePos (buf : List Char) : Nat → Nat → Option Nat
  | 0, pos => some pos
  | n + 1, pos => do
    let line ← Buffer.string buf pos
    respLinePos buf n (pos + (line.length + 1))

/-- `at_resp_get_line(resp, resp_line)`: where the line begins in the buffer. -/
def atRespGetLine (resp : AtResponse) (respLine : Nat) : Option Nat :=
  if respLine > resp.lineCounts ∨ respLine = 0 then none
  else respLinePos resp.buf (respLine - 1) 0

-- --------
-- The lines of a stream
-- --------

/-- The character `ch` ends the line of which `text` has come. -/
def EndsLine (c : AtClientConfig) (text : List Char) (ch : Char) : Prop :=
  (ch = '\n' ∧ text.getLastD '\x00' = '\r') ∨ (c.endSign ≠ '\x00' ∧ ch = c.endSign) ∨
    (getUrcObj c ((text ++ [ch]).take c.recvBufsz)).isSome

instance (c : AtClientConfig) (text : List Char) (ch : Char) : Decidable (EndsLine c text ch) :=
  inferInstanceAs (Decidable (_ ∨ _))

/-- **The lines** of a stream of which `text` has come already, and what has come of the last. -/
def lines (c : AtClientConfig) : List Char → List Char → List (List Char) × List Char
  | text, [] => ([], text)
  | text, ch :: bs =>
    if EndsLine c text ch then ((text ++ [ch]) :: (lines c [] bs).1, (lines c [] bs).2)
    else lines c (text ++ [ch]) bs

/-- The line is a URC. -/
def IsUrc (c : AtClientConfig) (line : List Char) : Prop := (getUrcObj c line).isSome

instance (c : AtClientConfig) (line : List Char) : Decidable (IsUrc c line) :=
  inferInstanceAs (Decidable (_ = true))

/-- The lines for a response. -/
def responses (c : AtClientConfig) (ls : List (List Char)) : List (List Char) :=
  ls.filter fun l => ¬ IsUrc c l

section Lines

variable {c : AtClientConfig} {s : AtLine} {text line : List Char} {ch : Char} {cl : AtClient}
  {bs : List Char}

/-- The line buffer holds what fits of the line. -/
structure Reads (c : AtClientConfig) (s : AtLine) (text : List Char) : Prop where
  buf : s.buf = text.take c.recvBufsz
  isFull : s.isFull = decide (c.recvBufsz < text.length)
  lastCh : s.lastCh = text.getLastD '\x00'

theorem Reads.start : Reads c {} [] where
  buf := List.take_nil.symm
  isFull := by simp
  lastCh := rfl

/-- **One character**: the line goes on, or ends with its text unless that did not fit. -/
theorem atReadlineChar_eq (h : Reads c s text) :
    (EndsLine c text ch → atReadlineChar c s ch =
      ({}, some (if c.recvBufsz < (text ++ [ch]).length then none else some (text ++ [ch])))) ∧
    (¬ EndsLine c text ch →
      ∃ s', atReadlineChar c s ch = (s', none) ∧ Reads c s' (text ++ [ch])) := by
  -- what the buffer holds with the character
  obtain ⟨s', hs', hbuf, hfull, hlast⟩ : ∃ s', s' = (if s.buf.length < c.recvBufsz then
      { s with buf := s.buf ++ [ch] } else { s with isFull := true }) ∧
      s'.buf = (text ++ [ch]).take c.recvBufsz ∧
      s'.isFull = decide (c.recvBufsz < (text ++ [ch]).length) ∧
      s'.lastCh = text.getLastD '\x00' := by
    refine ⟨_, rfl, ?_⟩
    have hlen : s.buf.length = min c.recvBufsz text.length := by rw [h.buf, List.length_take]
    by_cases hroom : s.buf.length < c.recvBufsz
    · rw [if_pos hroom]
      refine ⟨?_, ?_, h.lastCh⟩
      · rw [h.buf, List.take_of_length_le (by omega), List.take_of_length_le (by simp; omega)]
      · rw [h.isFull, List.length_append, List.length_singleton, decide_eq_decide]
        omega
    · rw [if_neg hroom]
      refine ⟨?_, ?_, h.lastCh⟩
      · rw [h.buf, List.take_append_of_le_length (by omega)]
      · rw [List.length_append, List.length_singleton, eq_comm, decide_eq_true_eq]
        omega
  unfold atReadlineChar
  rw [← hs']
  dsimp only
  rw [hlast, hbuf, hfull]
  constructor
  · intro hends
    unfold EndsLine at hends
    rw [if_pos hends]
    by_cases hlong : c.recvBufsz < (text ++ [ch]).length
    · rw [if_pos hlong, if_pos (decide_eq_true hlong)]
    · rw [if_neg hlong, if_neg (by simpa using hlong), List.take_of_length_le (by omega)]
  · intro hends
    unfold EndsLine at hends
    rw [if_neg hends]
    exact ⟨_, rfl, rfl, rfl, by simp⟩

/-- A line as the parser takes it: one that is too long for the line buffer is dropped. -/
def parserText (c : AtClientConfig) (s : AtState) (line : List Char) : AtState :=
  if c.recvBufsz < line.length then s else parserLine c s line

/-- One character more in a stream. -/
theorem lines_snoc (text bs : List Char) (ch : Char) : lines c text (bs ++ [ch]) =
    if EndsLine c (lines c text bs).2 ch then
      ((lines c text bs).1 ++ [(lines c text bs).2 ++ [ch]], [])
    else ((lines c text bs).1, (lines c text bs).2 ++ [ch]) := by
  induction bs generalizing text with
  | nil =>
    show lines c text [ch] =
      if EndsLine c text ch then ([text ++ [ch]], []) else ([], text ++ [ch])
    rfl
  | cons b bs ih =>
    rw [List.cons_append, lines, lines]
    by_cases hends : EndsLine c text b
    · rw [if_pos hends, if_pos hends, ih]
      split <;> rfl
    · rw [if_neg hends, if_neg hends, ih]

/-- **The parser takes a stream line by line.** -/
theorem foldl_parserChar (h : Reads c cl.line text) (bs : List Char) :
    Reads c (bs.foldl (parserChar c) cl).line (lines c text bs).2 ∧
      (bs.foldl (parserChar c) cl).state = (lines c text bs).1.foldl (parserText c) cl.state := by
  induction bs using List.reverseRecOn with
  | nil => exact ⟨h, rfl⟩
  | append_singleton bs ch ih =>
    obtain ⟨hreads, hstate⟩ := ih
    rw [List.foldl_append, List.foldl_cons, List.foldl_nil, lines_snoc]
    obtain ⟨hyes, hno⟩ := @atReadlineChar_eq c _ _ ch hreads
    by_cases hends : EndsLine c (lines c text bs).2 ch
    · rw [if_pos hends, List.foldl_append, List.foldl_cons, List.foldl_nil, ← hstate, parserText,
        parserChar, hyes hends]
      by_cases hlong : c.recvBufsz < ((lines c text bs).2 ++ [ch]).length
      · rw [if_pos hlong, if_pos hlong]
        exact ⟨Reads.start, rfl⟩
      · rw [if_neg hlong, if_neg hlong]
        exact ⟨Reads.start, rfl⟩
    · rw [if_neg hends, parserChar]
      obtain ⟨s', heq, hreads'⟩ := hno hends
      rw [heq]
      exact ⟨hreads', hstate⟩

end Lines

-- --------
-- The response
-- --------

/-- The lines of a response as they are stored. -/
def storedLines (ls : List (List Char)) : List Char := ls.flatMap fun l => l.dropLast ++ ['\x00']

/-- All lines fitted. -/
structure Fits (c : AtClientConfig) (bufSize : Nat) (ls : List (List Char)) : Prop where
  line : ∀ l ∈ ls, l.length ≤ c.recvBufsz
  response : ((responses c ls).map List.length).sum < bufSize

/-- No line of the response holds a NUL. -/
def NoNul (c : AtClientConfig) (ls : List (List Char)) : Prop :=
  ∀ l ∈ responses c ls, '\x00' ∉ l.dropLast

/-- The last line ends a response. -/
def Ended (c : AtClientConfig) (lineNum : Nat) (ls : List (List Char)) : Prop :=
  if lineNum = 0 then ∃ l ∈ ls.getLast?, (c.endSign ≠ '\x00' ∧ l.getLast? = some c.endSign) ∨
    respEndOk <+: l
  else (responses c ls).length = lineNum

/-- **The response object is right**: it holds the lines of the call one behind the other, and each
is the string that `at_resp_get_line` finds. -/
structure Delivers (c : AtClientConfig) (resp : AtResponse) (ls : List (List Char)) : Prop where
  ended : Ended c resp.lineNum ls
  lineCounts : resp.lineCounts = (responses c ls).length
  bufLen : resp.bufLen ≤ resp.bufSize
  line : ∀ i, (hi : i < (responses c ls).length) → ∃ pos, atRespGetLine resp (i + 1) = some pos ∧
    Buffer.string resp.buf pos = some (responses c ls)[i].dropLast

section Response

variable {c : AtClientConfig} {size num : Nat} {resp : AtResponse} {s : AtState}
  {l : List Char} {stored ls : List (List Char)}

/-- The object with the lines `stored`. -/
structure Stored (size num : Nat) (stored : List (List Char)) (resp : AtResponse) :
    Prop where
  bufSize : resp.bufSize = size
  lineNum : resp.lineNum = num
  lineCounts : resp.lineCounts = stored.length
  bufLen : resp.bufLen = (storedLines stored).length
  bound : resp.bufLen ≤ size
  buf : storedLines stored <+: resp.buf

theorem storedLines_snoc : storedLines (ls ++ [l]) = storedLines ls ++ (l.dropLast ++ ['\x00']) := by
  rw [storedLines, List.flatMap_append, List.flatMap_singleton, storedLines]

/-- A line more. -/
theorem Stored.append (h : Stored size num stored resp)
    (hfit : resp.bufLen + (l.dropLast ++ ['\x00']).length < resp.bufSize) :
    Stored size num (stored ++ [l]) (AtResponse.append resp _ hfit) where
  bufSize := h.bufSize
  lineNum := h.lineNum
  lineCounts := by
    rw [List.length_append, List.length_singleton, ← h.lineCounts]
    rfl
  bufLen := by
    rw [storedLines_snoc, List.length_append, ← h.bufLen]
    rfl
  bound := by
    have hb : resp.bufLen + (l.dropLast ++ ['\x00']).length < size := h.bufSize ▸ hfit
    exact Nat.le_of_lt hb
  buf := by
    have htake : resp.buf.take resp.bufLen = storedLines stored := by
      rw [h.bufLen]
      exact (List.prefix_iff_eq_take.mp h.buf).symm
    rw [storedLines_snoc]
    show _ <+: resp.buf.take resp.bufLen ++ _ ++ _
    rw [htake]
    exact List.prefix_append _ _

/-- What the parser makes of a line of the response that fits. -/
theorem respLine_eq (h : Stored size num stored resp) (hne : l ≠ [])
    (hfit : resp.bufLen + l.length < size) :
    ∃ resp', Stored size num (stored ++ [l]) resp' ∧ respLine c s resp l =
      match respEnd c resp' (l.getLastD '\x00') (l.dropLast ++ ['\x00']) with
      | some status => { resp := none, respStatus := status, answered := some resp' }
      | none => { s with resp := some resp' } := by
  have hlen : (l.dropLast ++ ['\x00']).length = l.length := by
    have := List.length_pos_iff.mpr hne
    rw [List.length_append, List.length_dropLast, List.length_singleton]
    omega
  have hfit' : resp.bufLen + (l.dropLast ++ ['\x00']).length < resp.bufSize := by
    rw [hlen, h.bufSize]
    exact hfit
  refine ⟨_, h.append hfit', ?_⟩
  unfold respLine
  dsimp only
  rw [dif_pos hfit']

theorem parserText_answered (hresp : s.resp = none) : parserText c s l = s := by
  unfold parserText parserLine
  split
  · rfl
  · split
    · rfl
    · rw [hresp]
      split <;> rfl

theorem foldl_answered (hresp : s.resp = none) (ls : List (List Char)) :
    ls.foldl (parserText c) s = s := by
  induction ls with
  | nil => rfl
  | cons l ls ih => rw [List.foldl_cons, parserText_answered hresp, ih]

theorem parserText_urc (hurc : IsUrc c l) : parserText c s l = s := by
  unfold parserText parserLine
  obtain ⟨urc, hurc⟩ := Option.isSome_iff_exists.mp hurc
  rw [hurc]
  split
  · rfl
  · split <;> rfl

theorem parserText_resp (hresp : s.resp = some resp) (hurc : ¬ IsUrc c l) (hne : l ≠ [])
    (hle : l.length ≤ c.recvBufsz) : parserText c s l = respLine c s resp l := by
  have hnone : getUrcObj c l = none := Option.not_isSome_iff_eq_none.mp hurc
  rw [parserText, if_neg (by omega), parserLine,
    if_neg (Nat.pos_iff_ne_zero.mp (List.length_pos_iff.mpr hne)), hnone, hresp]

/-- **While no line ends the response**, the lines are stored one behind the other. -/
theorem foldl_stored (ls : List (List Char)) : ∀ (stored : List (List Char)) (s : AtState)
    (resp : AtResponse), s.resp = some resp → Stored size num stored resp →
    (∀ l ∈ ls, l ≠ [] ∧ l.length ≤ c.recvBufsz) →
    resp.bufLen + ((responses c ls).map List.length).sum < size →
    (ls.foldl (parserText c) s).answered = none →
    ∃ resp', (ls.foldl (parserText c) s).resp = some resp' ∧
      Stored size num (stored ++ responses c ls) resp' ∧
      resp'.bufLen = resp.bufLen + ((responses c ls).map List.length).sum := by
  induction ls with
  | nil =>
    intro stored s resp hresp hstored _ _ _
    exact ⟨resp, hresp, by rw [responses, List.filter_nil, List.append_nil]; exact hstored, rfl⟩
  | cons l ls ih =>
    intro stored s resp hresp hstored hlines hfit hans
    obtain ⟨hne, hle⟩ := hlines l List.mem_cons_self
    have hrest := fun l hl => hlines l (List.mem_cons_of_mem _ hl)
    rw [List.foldl_cons] at hans ⊢
    by_cases hurc : IsUrc c l
    · rw [parserText_urc hurc] at hans ⊢
      have heq : responses c (l :: ls) = responses c ls :=
        List.filter_cons_of_neg (by simpa using hurc)
      rw [heq] at hfit ⊢
      exact ih stored s resp hresp hstored hrest hfit hans
    · have heq : responses c (l :: ls) = l :: responses c ls :=
        List.filter_cons_of_pos (by simpa using hurc)
      rw [heq, List.map_cons, List.sum_cons] at hfit ⊢
      obtain ⟨resp', hstored', hline⟩ := @respLine_eq c size num resp s l stored hstored hne
        (by omega)
      have hlen : resp'.bufLen = resp.bufLen + l.length := by
        have hpos := List.length_pos_iff.mpr hne
        rw [hstored'.bufLen, storedLines_snoc, List.length_append, ← hstored.bufLen,
          List.length_append, List.length_dropLast, List.length_singleton]
        omega
      rw [parserText_resp hresp hurc hne hle, hline] at hans ⊢
      cases hend : respEnd c resp' (l.getLastD '\x00') (l.dropLast ++ ['\x00']) with
      | some status =>
        rw [hend, foldl_answered rfl] at hans
        cases hans
      | none =>
        rw [hend] at hans
        obtain ⟨resp₂, hresp₂, hstored₂, hlen₂⟩ := ih (stored ++ [l]) _ resp' rfl hstored' hrest
          (by omega) hans
        rw [List.append_assoc, List.singleton_append] at hstored₂
        exact ⟨resp₂, hresp₂, hstored₂, by omega⟩

/-- **The walk over the stored lines** comes to each of them. -/
theorem respLinePos_stored {junk : List Char} (stored : List (List Char))
    (hnul : ∀ l ∈ stored, '\x00' ∉ l.dropLast) : ∀ (pre : List Char) (i : Nat)
    (hi : i < stored.length), ∃ pos,
      respLinePos (pre ++ (storedLines stored ++ junk)) i pre.length = some pos ∧
      Buffer.string (pre ++ (storedLines stored ++ junk)) pos = some stored[i].dropLast := by
  induction stored with
  | nil => exact fun _ _ hi => nomatch hi
  | cons l stored ih =>
    intro pre i hi
    have hbuf : pre ++ (storedLines (l :: stored) ++ junk) =
        pre ++ (l.dropLast ++ '\x00' :: (storedLines stored ++ junk)) := by
      simp [storedLines]
    have hhead := @Buffer.string_append pre.length pre l.dropLast (storedLines stored ++ junk) rfl
      (hnul l List.mem_cons_self)
    rw [hbuf]
    cases i with
    | zero => exact ⟨pre.length, rfl, hhead⟩
    | succ i =>
      obtain ⟨pos, hpos, hstring⟩ := ih (fun l hl => hnul l (List.mem_cons_of_mem _ hl))
        (pre ++ (l.dropLast ++ ['\x00'])) i (Nat.lt_of_succ_lt_succ hi)
      have hassoc : pre ++ (l.dropLast ++ ['\x00']) ++ (storedLines stored ++ junk) =
          pre ++ (l.dropLast ++ '\x00' :: (storedLines stored ++ junk)) := by
        simp
      rw [hassoc, List.length_append, List.length_append, List.length_singleton] at hpos
      rw [hassoc] at hstring
      refine ⟨pos, ?_, hstring⟩
      rw [respLinePos, hhead]
      exact hpos

end Response

-- --------
-- A call
-- --------

section Call

variable {c : AtClientConfig} {cl : AtClient} {resp r : AtResponse} {bs : List Char}

theorem lines_ne (text : List Char) (bs : List Char) : ∀ l ∈ (lines c text bs).1, l ≠ [] := by
  induction bs using List.reverseRecOn with
  | nil => exact fun l hl => nomatch hl
  | append_singleton bs ch ih =>
    intro l hl
    rw [lines_snoc] at hl
    by_cases hends : EndsLine c (lines c text bs).2 ch
    · rw [if_pos hends] at hl
      rcases List.mem_append.mp hl with hl | hl
      · exact ih l hl
      · rw [List.mem_singleton.mp hl]
        exact List.append_ne_nil_of_right_ne_nil _ (List.cons_ne_nil _ _)
    · rw [if_neg hends] at hl
      exact ih l hl

/-- **The wait is over with one character**: none before it gave the answer. -/
theorem atWait_ok : ∀ (bs : List Char) (cl : AtClient), cl.state.answered = none →
    atWait c cl bs = .ok r → ∃ used ch rest, bs = used ++ ch :: rest ∧
      atWait c cl used = .timeout ∧ (used.foldl (parserChar c) cl).state.answered = none ∧
      (parserChar c (used.foldl (parserChar c) cl) ch).state.answered = some r ∧
      (parserChar c (used.foldl (parserChar c) cl) ch).state.respStatus = .ok
  | [], _, _, h => nomatch h
  | ch :: bs, cl, hno, h => by
    rw [atWait] at h
    cases hans : (parserChar c cl ch).state.answered with
    | some r' =>
      rw [hans] at h
      dsimp only at h
      by_cases hstatus : (parserChar c cl ch).state.respStatus = .ok
      · rw [if_pos hstatus] at h
        cases h
        exact ⟨[], ch, bs, rfl, rfl, hno, hans, hstatus⟩
      · rw [if_neg hstatus] at h
        cases h
    | none =>
      rw [hans] at h
      obtain ⟨used, ch', rest, rfl, htime, hno', hans', hstatus⟩ := atWait_ok bs _ hans h
      refine ⟨ch :: used, ch', rest, rfl, ?_, hno', hans', hstatus⟩
      rw [atWait, hans]
      exact htime

/-- The end of a response that is `RT_EOK`. -/
theorem ended_of_respEnd {stored ls : List (List Char)} {size num : Nat} {l : List Char}
    (hresp : Stored size num stored r) (hstored : stored = responses c ls)
    (hlast : ls.getLast? = some l) (hne : l ≠ []) (hend : respEnd c r (l.getLastD '\x00') (l.dropLast ++ ['\x00']) = some .ok) :
    Ended c num ls := by
  have hnum := hresp.lineNum
  have hcounts := hresp.lineCounts
  have hlastCh : l.getLast? = some (l.getLastD '\x00') := by
    rw [List.getLast?_eq_some_getLast hne, List.getLastD_eq_getLast?,
      List.getLast?_eq_some_getLast hne, Option.getD_some]
  unfold Ended
  unfold respEnd at hend
  split at hend
  · -- the end sign
    rename_i hsign
    rw [if_pos (hnum ▸ hsign.2.2)]
    exact ⟨l, hlast, .inl ⟨hsign.1, hsign.2.1 ▸ hlastCh⟩⟩
  split at hend
  · -- "OK"; the NUL that stands for the last character is not part of it
    rename_i hok
    rw [if_pos (hnum ▸ hok.2)]
    refine ⟨l, hlast, .inr ?_⟩
    rcases List.prefix_concat_iff.mp hok.1 with heq | hpre
    · have h := congrArg List.getLast? heq
      rw [List.getLast?_concat] at h
      exact absurd h (by decide)
    · exact hpre.trans (List.dropLast_prefix l)
  split at hend
  · cases hend
  split at hend
  · -- the line asked for
    rename_i hline
    rw [if_neg (hnum ▸ hline.2), ← hstored, ← hcounts, hline.1, hnum]
  · cases hend

/-- **The line that answers**: when all lines fitted, they are stored, and the last ends the
response. -/
theorem stored_of_answer {s : AtState} {resp₀ : AtResponse} {ls : List (List Char)} {l : List Char}
    {size num : Nat} (hresp : s.resp = some resp₀) (hstored : Stored size num [] resp₀)
    (hlines : ∀ l' ∈ ls ++ [l], l' ≠ []) (hfit : Fits c size (ls ++ [l]))
    (hno : (ls.foldl (parserText c) s).answered = none)
    (hans : (parserText c (ls.foldl (parserText c) s) l).answered = some r)
    (hok : (parserText c (ls.foldl (parserText c) s) l).respStatus = .ok) :
    Stored size num (responses c (ls ++ [l])) r ∧ Ended c num (ls ++ [l]) := by
  have hzero : resp₀.bufLen = 0 := hstored.bufLen
  have hne : l ≠ [] := hlines l (List.mem_append_right _ List.mem_cons_self)
  have hle : l.length ≤ c.recvBufsz := hfit.line l (List.mem_append_right _ List.mem_cons_self)
  -- a URC answers nothing
  have hurc : ¬ IsUrc c l := by
    intro hurc
    rw [parserText_urc hurc, hno] at hans
    cases hans
  have heq : responses c (ls ++ [l]) = responses c ls ++ [l] := by
    rw [responses, List.filter_append]
    exact congrArg _ (List.filter_cons_of_pos (by simpa using hurc))
  have hsum := hfit.response
  rw [heq, List.map_append, List.sum_append, List.map_singleton, List.sum_singleton] at hsum
  obtain ⟨resp', hresp', hstored', hlen⟩ := foldl_stored ls [] s resp₀ hresp hstored
    (fun l' hl' => ⟨hlines l' (List.mem_append_left _ hl'),
      hfit.line l' (List.mem_append_left _ hl')⟩) (by omega) hno
  rw [List.nil_append] at hstored'
  obtain ⟨resp₂, hstored₂, hline⟩ := @respLine_eq c size num resp' (ls.foldl (parserText c) s) l _
    hstored' hne (by omega)
  rw [parserText_resp hresp' hurc hne hle, hline] at hans hok
  cases hend : respEnd c resp₂ (l.getLastD '\x00') (l.dropLast ++ ['\x00']) with
  | none =>
    rw [hend] at hans
    dsimp only at hans
    rw [hno] at hans
    cases hans
  | some status =>
    rw [hend] at hans hok
    cases hans
    cases hok
    rw [heq]
    exact ⟨hstored₂, ended_of_respEnd hstored₂ heq.symm List.getLast?_concat hne hend⟩

/-- The strings of the response are the lines. -/
theorem Stored.delivers {stored ls : List (List Char)} {size num : Nat}
    (h : Stored size num stored r) (hstored : stored = responses c ls) (hended : Ended c num ls)
    (hnul : NoNul c ls) : Delivers c r ls where
  ended := h.lineNum ▸ hended
  lineCounts := hstored ▸ h.lineCounts
  bufLen := h.bufSize ▸ h.bound
  line := by
    subst hstored
    intro i hi
    obtain ⟨junk, hjunk⟩ := h.buf
    obtain ⟨pos, hpos, hstring⟩ := @respLinePos_stored junk _ hnul [] i hi
    rw [List.nil_append, hjunk] at hpos hstring
    have hcounts := h.lineCounts
    refine ⟨pos, ?_, hstring⟩
    rw [atRespGetLine, if_neg (by omega), Nat.add_sub_cancel]
    exact hpos

/-- A string holds no NUL. -/
theorem Delivers.noNul {ls : List (List Char)} (h : Delivers c r ls) : NoNul c ls := by
  intro l hl hmem
  obtain ⟨i, hi, rfl⟩ := List.mem_iff_getElem.mp hl
  obtain ⟨pos, -, hstring⟩ := h.line i hi
  unfold Buffer.string at hstring
  split at hstring
  · have heq := Option.some.inj hstring
    rw [← heq] at hmem
    have := List.mem_takeWhile_imp hmem
    simp at this
  · cases hstring

/-- **`RT_EOK` from `at_obj_exec_cmd`.** What the call took ends with a line, and the response object
is right, with every line having fitted, exactly when every line fitted and none held a NUL. -/
theorem at_obj_exec_cmd_delivers (c : AtClientConfig) (pre bs : List Char) (state : AtState)
    (resp r : AtResponse)
    (h : atObjExecCmd c ⟨(pre.foldl (parserChar c) {}).line, state⟩ resp bs = .ok r) :
    ∃ used ch rest, bs = used ++ ch :: rest ∧
      atObjExecCmd c ⟨(pre.foldl (parserChar c) {}).line, state⟩ resp used = .timeout ∧
      EndsLine c (lines c (lines c [] pre).2 used).2 ch ∧
      ∀ ls, ls = (lines c (lines c [] pre).2 (used ++ [ch])).1 →
        (Delivers c r ls ∧ Fits c resp.bufSize ls ↔ Fits c resp.bufSize ls ∧ NoNul c ls) := by
  -- the client when the command has been sent
  obtain ⟨cl, hcl⟩ : ∃ cl : AtClient, cl = ⟨(pre.foldl (parserChar c) {}).line,
      { resp := some { resp with bufLen := 0, lineCounts := 0 }, respStatus := .ok }⟩ := ⟨_, rfl⟩
  have hexec : ∀ bs, atObjExecCmd c ⟨(pre.foldl (parserChar c) {}).line, state⟩ resp bs =
      atWait c cl bs := fun _ => hcl ▸ rfl
  rw [hexec] at h
  simp only [hexec]
  obtain ⟨used, ch, rest, rfl, htime, hno, hans, hstatus⟩ := atWait_ok bs cl (hcl ▸ rfl) h
  have hreads := (@foldl_parserChar c [] {} Reads.start pre).1
  obtain ⟨hreads', hstate⟩ := @foldl_parserChar c _ cl (by rw [hcl]; exact hreads) used
  obtain ⟨hyes, hgo⟩ := @atReadlineChar_eq c _ _ ch hreads'
  -- the character ends a line, since the parser does nothing on others
  have hends : EndsLine c (lines c (lines c [] pre).2 used).2 ch := by
    by_contra hmore
    obtain ⟨s', heq, -⟩ := hgo hmore
    rw [parserChar, heq] at hans
    rw [hno] at hans
    cases hans
  refine ⟨used, ch, rest, rfl, htime, hends, ?_⟩
  rintro ls rfl
  rw [lines_snoc, if_pos hends]
  generalize hls : (lines c (lines c [] pre).2 used).1 = ls at hstate
  generalize hl : (lines c (lines c [] pre).2 used).2 ++ [ch] = l
  refine ⟨fun ⟨hdel, hfit⟩ => ⟨hfit, hdel.noNul⟩, fun ⟨hfit, hnul⟩ => ⟨?_, hfit⟩⟩
  have hlines : ∀ l' ∈ ls ++ [l], l' ≠ [] := by
    intro l' hl'
    rcases List.mem_append.mp hl' with hl' | hl'
    · exact lines_ne _ _ l' (hls ▸ hl')
    · rw [List.mem_singleton.mp hl', ← hl]
      exact List.append_ne_nil_of_right_ne_nil _ (List.cons_ne_nil _ _)
  -- the character has the parser take the line
  have htake : (parserChar c (used.foldl (parserChar c) cl) ch).state =
      parserText c (ls.foldl (parserText c) cl.state) l := by
    have hle : l.length ≤ c.recvBufsz := hfit.line l (List.mem_append_right _ List.mem_cons_self)
    rw [parserChar, hyes hends, hl, if_neg (by omega), parserText, if_neg (by omega), ← hstate]
  rw [htake] at hans hstatus
  rw [hstate] at hno
  have hempty : Stored resp.bufSize resp.lineNum [] { resp with bufLen := 0, lineCounts := 0 } :=
    { bufSize := rfl, lineNum := rfl, lineCounts := rfl, bufLen := rfl, bound := Nat.zero_le _
      buf := List.nil_prefix }
  obtain ⟨hstored, hended⟩ := stored_of_answer (hcl ▸ rfl) hempty hlines hfit hno hans hstatus
  exact hstored.delivers rfl hended hnul

/-- A client without URCs and an end sign. -/
def atPlain (recvBufsz : Nat) : AtClientConfig := ⟨'\x00', recvBufsz, []⟩

/-- A response object of `at_create_resp(n, 0, ...)`. -/
def atEmpty (n : Nat) : AtResponse :=
  { bufSize := n, buf := List.replicate n '\x00', length_buf := List.length_replicate, bufLen := 0
    lineNum := 0, lineCounts := 0 }

theorem at_obj_exec_cmd_delivers_ready : ∃ r,
    atObjExecCmd (atPlain 8) {} (atEmpty 16) "RDY\r\nOK\r\n".toList = .ok r ∧
      ∃ used ch rest, "RDY\r\nOK\r\n".toList = used ++ ch :: rest ∧
        atObjExecCmd (atPlain 8) {} (atEmpty 16) used = .timeout ∧
        EndsLine (atPlain 8) (lines (atPlain 8) [] used).2 ch ∧
        ∀ ls, ls = (lines (atPlain 8) [] (used ++ [ch])).1 →
          (Delivers (atPlain 8) r ls ∧ Fits (atPlain 8) 16 ls ↔
            Fits (atPlain 8) 16 ls ∧ NoNul (atPlain 8) ls) := by
  obtain ⟨r, hr⟩ : ∃ r,
      atObjExecCmd (atPlain 8) {} (atEmpty 16) "RDY\r\nOK\r\n".toList = .ok r := ⟨_, rfl⟩
  exact ⟨r, hr, at_obj_exec_cmd_delivers (atPlain 8) [] _ {} (atEmpty 16) r hr⟩

/-- A line that is too long for the response buffer is missing, and the call says `RT_EOK`. -/
theorem at_obj_exec_cmd_drops : ∃ r,
    atObjExecCmd (atPlain 8) {} (atEmpty 6) "READY\r\nOK\r\n".toList = .ok r ∧
      lines (atPlain 8) [] "READY\r\nOK\r\n".toList =
        (["READY\r\n".toList, "OK\r\n".toList], []) ∧
      ¬ Fits (atPlain 8) 6 ["READY\r\n".toList, "OK\r\n".toList] ∧
      ¬ Delivers (atPlain 8) r ["READY\r\n".toList, "OK\r\n".toList] := by
  refine ⟨_, rfl, by decide +kernel, fun h => ?_, fun h => ?_⟩
  · exact absurd h.response (by decide +kernel)
  · exact absurd h.lineCounts (by decide +kernel)

end Call

end At

end RTThread
