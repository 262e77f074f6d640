import RTThread.Finsh.Shell

/-!
# The shell replays the keys

As long as no line gets as long as the buffer the bytes behind the text are NULs,
so that the editor in the buffer is the one the user has in mind: `Shows` relates
the two, and every key keeps it.

## Main results

* `shell_replays` : the shell executes the lines of the editor, and its buffer
  holds the text of the editor with the cursor where it is.
-/

namespace RTThread.Finsh

open LineEditor

/-- The shell shows the editor. -/
structure Shows (cfg : ShellCfg) (s : Shell) (e : LineEditor Char) : Prop where
  line : s.line = e.text.rightpad (cfg.cmdSize + 1) '\x00'
  position : s.linePosition = e.text.length
  curpos : s.lineCurpos = e.back.length
  count : s.historyCount = e.history.length
  selected : s.currentHistory = e.selected
  rows : ∃ rest, s.cmdHistory =
    e.history.map (fun l => l.rightpad cfg.cmdSize '\x00') ++ rest
  size : s.cmdHistory.length = cfg.historyLines
  rowSize : ∀ row ∈ s.cmdHistory, row.length = cfg.cmdSize
  short : e.text.length < cfg.cmdSize
  text : '\x00' ∉ e.text
  old : ∀ l ∈ e.history, l.length < cfg.cmdSize ∧ '\x00' ∉ l
  within : e.selected ≤ e.history.length
  executed : s.executed = e.entered

section Keys

variable {cfg : ShellCfg} {s : Shell} {e : LineEditor Char} 
  {complete : List Char → Except Fault (List Char)}

theorem Shows.stat (h : Shows cfg s e) (stat : InputStat) : Shows cfg { s with stat } e :=
  ⟨h.line, h.position, h.curpos, h.count, h.selected, h.rows, h.size, h.rowSize, h.short, h.text,
    h.old, h.within, h.executed⟩

theorem Shows.start (cfg : ShellCfg) : Shows cfg (Shell.start cfg) LineEditor.empty := by
  refine ⟨rfl, rfl, rfl, rfl, rfl, ⟨_, rfl⟩, List.length_replicate, ?_, cfg.size_pos,
    List.not_mem_nil, by simp [empty], Nat.le_refl _, rfl⟩
  intro row hrow
  rw [(List.mem_replicate.mp hrow).2, List.length_replicate]

/-- The row of a line that can be called back. -/
theorem Shows.row (h : Shows cfg s e) {i : Nat} (hi : i < e.history.length) :
    s.cmdHistory[i]? = some ((e.history.getD i []).rightpad cfg.cmdSize '\x00') := by
  obtain ⟨rest, hrows⟩ := h.rows
  rw [hrows, List.getElem?_append_left (by simpa using hi), List.getElem?_map,
    List.getElem?_eq_getElem hi, List.getD_eq_getElem _ _ hi]
  rfl

/-- **A line is called back.** -/
theorem Shows.copyHistory (h : Shows cfg s e) {i : Nat} (hi : i < e.history.length) :
    ∃ s', copyHistory { s with currentHistory := i } = .ok s' ∧ Shows cfg s' (e.callBack i) ∧
      s'.stat = s.stat := by
  obtain ⟨hlt, hnul⟩ := h.old (e.history.getD i []) (by
    rw [List.getD_eq_getElem _ _ hi]
    exact List.getElem_mem hi)
  have hwrite : Buffer.write s.line 0 ((e.history.getD i []).rightpad cfg.cmdSize '\x00') =
      some ((e.history.getD i []).rightpad (cfg.cmdSize + 1) '\x00') := by
    have hlen : (e.text.rightpad cfg.cmdSize '\x00').length = cfg.cmdSize :=
      Buffer.length_rightpad (Nat.le_of_lt h.short)
    rw [h.line, Buffer.rightpad_succ (Nat.le_of_lt h.short),
      Buffer.rightpad_succ (Nat.le_of_lt hlt)]
    have hsame := Buffer.length_rightpad (Nat.le_of_lt hlt)
    exact @Buffer.write_append _ [] _ _ 0 _ rfl (hsame.trans hlen.symm)
  have hstring := Buffer.string_rightpad (Nat.zero_le _) (Nat.lt_succ_of_lt hlt) hnul
  rw [List.drop_zero] at hstring
  have hlength := congrArg List.length (text_callBack e i)
  refine ⟨{ s with
    currentHistory := i
    line := (e.history.getD i []).rightpad (cfg.cmdSize + 1) '\x00'
    linePosition := (e.history.getD i []).length
    lineCurpos := (e.history.getD i []).length }, ?_, ⟨?_, hlength.symm, ?_, h.count, rfl, h.rows,
    h.size, h.rowSize, ?_, ?_, h.old, ?_, h.executed⟩, rfl⟩
  · rw [Finsh.copyHistory, deref_bind (h.row hi)]
    dsimp only
    rw [deref_bind hwrite, deref_bind hstring]
    rfl
  · rw [text_callBack]
  · simp [callBack]
  · rw [text_callBack]
    exact hlt
  · rw [text_callBack]
    exact hnul
  · exact Nat.le_of_lt hi

theorem Shows.upKey (h : Shows cfg s e) : ∃ s', upKey s = .ok s' ∧
    Shows cfg s' (e.press cfg.historyLines .up) ∧ s'.stat = s.stat := by
  have hsel := h.selected
  have hwithin := h.within
  rw [Finsh.upKey, press, hsel]
  split_ifs with hpos
  · exact h.copyHistory (by omega)
  · have hzero : s.currentHistory = 0 := by omega
    refine ⟨s, ?_, h, rfl⟩
    rw [← hzero]

theorem Shows.downKey (h : Shows cfg s e) : ∃ s', downKey s = .ok s' ∧
    Shows cfg s' (e.press cfg.historyLines .down) ∧ s'.stat = s.stat := by
  have hsel := h.selected
  have hcount := h.count
  rw [Finsh.downKey, press, ← hsel, ← hcount]
  split_ifs with hnext hnone hsome hsome
  · exact h.copyHistory (by omega)
  · exact h.copyHistory (by omega)
  · omega
  · omega
  · exact ⟨s, rfl, h, rfl⟩

theorem Shows.leftKey (h : Shows cfg s e) :
    Shows cfg (leftKey s) (e.press cfg.historyLines .left) ∧ (leftKey s).stat = s.stat := by
  have hcur := h.curpos
  rw [Finsh.leftKey, press]
  cases hb : e.back with
  | nil =>
    rw [hb] at hcur
    rw [if_neg (by simpa using hcur)]
    exact ⟨h, rfl⟩
  | cons c back =>
    rw [hb] at hcur
    have htext : ({ e with back, front := c :: e.front } : LineEditor Char).text = e.text := by
      simp [LineEditor.text, hb]
    rw [if_pos (by simp [hcur])]
    refine ⟨⟨?_, ?_, ?_, h.count, h.selected, h.rows, h.size, h.rowSize, ?_, ?_, h.old, h.within,
      h.executed⟩, rfl⟩
    · rw [htext]
      exact h.line
    · rw [htext]
      exact h.position
    · simp [hcur]
    · rw [htext]
      exact h.short
    · rw [htext]
      exact h.text

theorem Shows.rightKey (h : Shows cfg s e) :
    Shows cfg (rightKey s) (e.press cfg.historyLines .right) ∧ (rightKey s).stat = s.stat := by
  have hpos := h.position
  rw [length_text, ← h.curpos] at hpos
  rw [Finsh.rightKey, press]
  cases hf : e.front with
  | nil =>
    rw [hf, List.length_nil] at hpos
    rw [if_neg (by omega)]
    exact ⟨h, rfl⟩
  | cons c front =>
    rw [hf, List.length_cons] at hpos
    have htext : ({ e with back := c :: e.back, front } : LineEditor Char).text = e.text := by
      simp [LineEditor.text, hf]
    rw [if_pos (by omega)]
    refine ⟨⟨?_, ?_, ?_, h.count, h.selected, h.rows, h.size, h.rowSize, ?_, ?_, h.old, h.within,
      h.executed⟩, rfl⟩
    · rw [htext]
      exact h.line
    · rw [htext]
      exact h.position
    · simp [h.curpos]
    · rw [htext]
      exact h.short
    · rw [htext]
      exact h.text

theorem Shows.backspace (h : Shows cfg s e) : ∃ s', backspace s = .ok s' ∧
    Shows cfg s' (e.press cfg.historyLines .erase) ∧ s'.stat = s.stat := by
  have hcur := h.curpos
  have hpos := h.position
  rw [length_text] at hpos
  rw [Finsh.backspace, press]
  cases hb : e.back with
  | nil =>
    rw [hb, List.length_nil] at hcur
    rw [if_pos hcur]
    refine ⟨s, rfl, ?_, rfl⟩
    have hsame : ({ e with back := ([] : List Char).tail } : LineEditor Char) = e := by
      rw [List.tail_nil, ← hb]
    rw [hsame]
    exact h
  | cons c back =>
    rw [hb, List.length_cons] at hcur hpos
    have htext : e.text = back.reverse ++ c :: e.front := by simp [LineEditor.text, hb]
    have htext' : ({ e with back } : LineEditor Char).text = back.reverse ++ e.front := rfl
    have hshort := h.short
    have hnul := h.text
    have hlen : (back.reverse ++ e.front).length + 1 = e.text.length := by
      simp [htext]
      omega
    -- the characters behind the cursor move up, and the last cell is cleared
    have hedit : ∃ s', Finsh.backspace s = .ok s' ∧ s' = { s with
        line := (back.reverse ++ e.front).rightpad (cfg.cmdSize + 1) '\x00'
        linePosition := s.linePosition - 1
        lineCurpos := s.lineCurpos - 1 } := by
      have hremove := @Buffer.remove_rightpad (cfg.cmdSize + 1) back.reverse e.front c
        ((s.linePosition - 1 : Nat) : Int) (by omega) (by simp; omega)
      rw [List.length_reverse, ← htext, ← h.line] at hremove
      rw [Finsh.backspace, if_neg (by omega)]
      dsimp only
      rw [show s.lineCurpos - 1 = back.length by omega]
      by_cases hgt : s.linePosition - 1 > back.length
      · have hread : Buffer.read s.line (back.length + 1) (s.linePosition - 1 - back.length) =
            some e.front := by
          have hsplit : e.text = (back.reverse ++ [c]) ++ e.front := by simp [htext]
          rw [h.line, hsplit]
          exact Buffer.read_rightpad (by simp) (by omega)
        obtain ⟨line, hwrite, hstore⟩ := Option.bind_eq_some_iff.mp hremove
        rw [if_pos hgt, deref_bind hread, deref_bind hwrite, deref_bind hstore]
        exact ⟨_, rfl, rfl⟩
      · have hfront : e.front = [] := List.eq_nil_of_length_eq_zero (by omega)
        rw [hfront] at hremove ⊢
        have hsame : Buffer.write s.line back.length [] = some s.line := by
          have hle : back.length ≤ s.line.length := by
            rw [h.line, Buffer.length_rightpad (by omega)]
            rw [htext] at hshort
            simp at hshort
            omega
          simp [Buffer.write, hle]
        rw [hsame, Option.bind_some] at hremove
        rw [if_neg hgt, deref_bind hremove]
        exact ⟨_, rfl, rfl⟩
    obtain ⟨s', hs', rfl⟩ := hedit
    rw [Finsh.backspace] at hs'
    refine ⟨_, hs', ⟨rfl, ?_, ?_, h.count, h.selected, h.rows, h.size, h.rowSize, ?_, ?_, h.old,
      h.within, h.executed⟩, rfl⟩
    · show s.linePosition - 1 = (back.reverse ++ e.front).length
      rw [h.position]
      omega
    · show s.lineCurpos - 1 = back.length
      omega
    · show (back.reverse ++ e.front).length < cfg.cmdSize
      omega
    · intro hmem
      rw [htext] at hnul
      have hmem : '\x00' ∈ back.reverse ++ e.front := hmem
      simp at hmem hnul
      tauto

theorem Shows.normalChar (h : Shows cfg s e) {c : Char} (hc : c ≠ '\x00')
    (hroom : e.text.length + 1 < cfg.cmdSize) : ∃ s', normalChar cfg s c = .ok s' ∧
      Shows cfg s' (e.press cfg.historyLines (.char c)) ∧ s'.stat = s.stat := by
  have hcur := h.curpos
  have hpos := h.position
  have hlen := length_text e
  have htext : (e.press cfg.historyLines (.char c)).text = e.back.reverse ++ c :: e.front := by
    simp [press, LineEditor.text]
  have hstore : ∃ line, (if s.lineCurpos < s.linePosition then do
        let tail ← deref (Buffer.read s.line s.lineCurpos (s.linePosition - s.lineCurpos))
        let line ← deref (Buffer.write s.line (s.lineCurpos + 1) tail)
        deref (Buffer.store line s.lineCurpos c)
      else deref (Buffer.store s.line s.linePosition c)) = .ok line ∧
      line = (e.back.reverse ++ c :: e.front).rightpad (cfg.cmdSize + 1) '\x00' := by
    cases hf : e.front with
    | nil =>
      rw [hf, List.length_nil] at hlen
      have htail : e.text = e.back.reverse := by simp [LineEditor.text, hf]
      have hstore : Buffer.store s.line s.linePosition c =
          some ((e.back.reverse ++ [c]).rightpad (cfg.cmdSize + 1) '\x00') := by
        rw [h.line, htail, ← Buffer.rightpad_nul (by simp; omega)]
        exact Buffer.set_rightpad (by rw [hpos, htail])
      rw [if_neg (by omega), hstore]
      exact ⟨_, rfl, rfl⟩
    | cons d front =>
      rw [hf, List.length_cons] at hlen
      have htail : e.text = e.back.reverse ++ d :: front := by simp [LineEditor.text, hf]
      have hread : Buffer.read s.line s.lineCurpos (s.linePosition - s.lineCurpos) =
          some (d :: front) := by
        rw [h.line, htail]
        exact Buffer.read_rightpad (by rw [hcur, List.length_reverse]) (by simp; omega)
      have hinsert := @Buffer.insert_rightpad (cfg.cmdSize + 1) e.back.reverse front c d
        (s.lineCurpos : Int) (by rw [← htail]; omega) (by simp [hcur])
      rw [← htail, ← h.line, List.length_reverse, ← hcur] at hinsert
      obtain ⟨line, hwrite, hset⟩ := Option.bind_eq_some_iff.mp hinsert
      rw [if_pos (by omega), deref_bind hread, deref_bind hwrite, hset]
      exact ⟨_, rfl, rfl⟩
  obtain ⟨line, hline, rfl⟩ := hstore
  have hplace : (if s.linePosition ≥ cfg.cmdSize then 0 else s.linePosition) = s.linePosition :=
    if_neg (by omega)
  rw [Finsh.normalChar, hplace, hline]
  show ∃ s', (if s.linePosition + 1 ≥ cfg.cmdSize then _ else _) = _ ∧ _
  rw [if_neg (by omega)]
  refine ⟨_, rfl, ⟨?_, ?_, ?_, h.count, h.selected, h.rows, h.size, h.rowSize, ?_, ?_, h.old,
    h.within, h.executed⟩, rfl⟩
  · rw [htext]
  · rw [htext]
    simp
    omega
  · simp [press, hcur]
  · rw [htext]
    simp
    omega
  · have hnul := h.text
    rw [htext]
    simp [LineEditor.text] at hnul ⊢
    tauto

-- --------
-- The history
-- --------

theorem moveHistory_eq (row : List Char) (rows : List (List Char)) :
    ∃ last, moveHistory (row :: rows) = rows ++ [last] := by
  induction rows generalizing row with
  | nil => exact ⟨row, rfl⟩
  | cons r rows ih =>
    obtain ⟨last, hlast⟩ := ih r
    exact ⟨last, congrArg (List.cons r) hlast⟩

/-- The oldest row goes, and the new one is the last. -/
theorem setRow_moveHistory {row first : List Char} {rows : List (List Char)} {n : Nat}
    (hn : n = rows.length) :
    setRow (moveHistory (first :: rows)) n row = .ok (rows ++ [row]) := by
  obtain ⟨last, hlast⟩ := moveHistory_eq first rows
  rw [setRow, hlast, Buffer.store_append (by rw [hn])]
  rfl

theorem Shows.read (h : Shows cfg s e) :
    Buffer.read s.line 0 cfg.cmdSize = some (e.text.rightpad cfg.cmdSize '\x00') := by
  have hlen := Buffer.length_rightpad (Nat.le_of_lt h.short)
  rw [h.line, Buffer.rightpad_succ (Nat.le_of_lt h.short)]
  have hread := @Buffer.read_append _ [] (e.text.rightpad cfg.cmdSize '\x00') ['\x00']
    cfg.cmdSize 0 rfl hlen.symm
  exact hread

theorem Shows.command (h : Shows cfg s e) : Buffer.read s.line 0 s.linePosition = some e.text := by
  rw [h.line, h.position, List.rightpad]
  exact @Buffer.read_append _ [] e.text (List.replicate _ '\x00') e.text.length 0 rfl rfl

theorem Shows.historyRow (h : Shows cfg s e) :
    historyRow cfg s = .ok (e.text.rightpad cfg.cmdSize '\x00') := by
  have hwrite := @Buffer.write_rightpad 0 cfg.cmdSize [] [] e.text (List.nil_prefix) rfl
    (Nat.le_of_lt h.short)
  have hzero : ([] ++ [] : List Char).rightpad cfg.cmdSize '\x00' =
      List.replicate cfg.cmdSize '\x00' := by simp [List.rightpad]
  rw [hzero, List.nil_append] at hwrite
  rw [Finsh.historyRow, deref_bind h.command, hwrite]
  rfl

/-- The rows once a line was entered. -/
theorem Shows.remembered (h : Shows cfg s e) (rows : List (List Char))
    (hrows : ∃ rest, rows = (remember cfg.historyLines e.history e.text).map
      (fun l => l.rightpad cfg.cmdSize '\x00') ++ rest)
    (hsize : rows.length = cfg.historyLines) (hrow : ∀ row ∈ rows, row.length = cfg.cmdSize) :
    Shows cfg { s with
      cmdHistory := rows
      historyCount := (remember cfg.historyLines e.history e.text).length
      currentHistory := (remember cfg.historyLines e.history e.text).length }
      { e with
        history := remember cfg.historyLines e.history e.text
        selected := (remember cfg.historyLines e.history e.text).length } := by
  refine ⟨h.line, h.position, h.curpos, rfl, rfl, hrows, hsize, hrow, h.short, h.text, ?_,
    Nat.le_refl _, h.executed⟩
  intro l hl
  rcases mem_remember hl with hl | rfl
  · exact h.old l hl
  · exact ⟨h.short, h.text⟩

/-- The last row is the text if and only if the last line is. -/
theorem Shows.last (h : Shows cfg s e) {n : Nat} (hn : n + 1 = e.history.length) :
    ∃ last, s.cmdHistory[n]? = some last ∧
      (last = e.text.rightpad cfg.cmdSize '\x00' ↔ e.history.getLast? = some e.text) := by
  have hlt : n < e.history.length := by omega
  refine ⟨_, h.row hlt, ?_⟩
  have hlast : e.history.getLast? = some (e.history.getD n []) := by
    rw [List.getLast?_eq_getElem?, ← hn, Nat.add_sub_cancel, List.getElem?_eq_getElem hlt,
      List.getD_eq_getElem _ _ hlt]
  obtain ⟨hshort, hnul⟩ := h.old _ (List.mem_of_getLast? hlast)
  rw [hlast]
  constructor
  · intro heq
    rw [Buffer.rightpad_inj hnul h.text hshort h.short heq]
  · intro heq
    rw [Option.some.inj heq]

/-- **A line enters the history.** -/
theorem Shows.shellPushHistory (h : Shows cfg s e) : ∃ s', shellPushHistory cfg s = .ok s' ∧
    Shows cfg s'
      { e with
        history := remember cfg.historyLines e.history e.text
        selected := (remember cfg.historyLines e.history e.text).length } ∧
      s'.stat = s.stat := by
  have hpos := h.position
  have hcount := h.count
  obtain ⟨rest, hrest⟩ := h.rows
  have hsize := h.size
  have hlength : e.history.length + rest.length = cfg.historyLines := by
    rw [← hsize, hrest, List.length_append, List.length_map]
  have hkeep : ∀ hsame : remember cfg.historyLines e.history e.text = e.history,
      Shows cfg { s with currentHistory := s.historyCount }
        { e with
          history := remember cfg.historyLines e.history e.text
          selected := (remember cfg.historyLines e.history e.text).length } := by
    intro hsame
    have hrem := h.remembered s.cmdHistory (by rw [hsame]; exact ⟨rest, hrest⟩) hsize
      h.rowSize
    rw [hsame, ← hcount] at hrem
    rw [hsame, ← hcount]
    exact hrem
  rw [Finsh.shellPushHistory]
  by_cases htext : e.text = []
  · have hzero : ¬ s.linePosition ≠ 0 := by rw [hpos, htext]; simp
    rw [if_neg hzero]
    exact ⟨_, rfl, hkeep (by simp [remember, htext]), rfl⟩
  have hne : s.linePosition ≠ 0 := by
    rw [hpos]
    exact fun hzero => htext (List.eq_nil_of_length_eq_zero hzero)
  rw [if_pos hne, deref_bind h.read]
  by_cases hfull : s.historyCount ≥ cfg.historyLines
  · -- the history is full
    have hzero : rest.length = 0 := by omega
    have hrestnil : rest = [] := List.eq_nil_of_length_eq_zero hzero
    have hlines := cfg.lines_pos
    obtain ⟨last, hrow, hlast⟩ := h.last (n := cfg.historyLines - 1) (by omega)
    rw [if_pos hfull, deref_bind hrow]
    by_cases hsame : last = e.text.rightpad cfg.cmdSize '\x00'
    · rw [if_neg (not_not.mpr hsame)]
      exact ⟨_, rfl, hkeep (by simp [remember, hlast.mp hsame]), rfl⟩
    · have hrem : remember cfg.historyLines e.history e.text = e.history.tail ++ [e.text] := by
        rw [remember, if_neg (by rw [← hlast]; tauto), if_pos (by omega)]
      cases hhist : e.history with
      | nil =>
        rw [hhist, List.length_nil] at hcount
        omega
      | cons first old =>
        rw [hrestnil, List.append_nil, hhist, List.map_cons] at hrest
        rw [hhist, List.length_cons] at hlength
        rw [hhist, List.tail_cons] at hrem
        have hset := @setRow_moveHistory (e.text.rightpad cfg.cmdSize '\x00')
          (first.rightpad cfg.cmdSize '\x00') (old.map fun l => l.rightpad cfg.cmdSize '\x00')
          (cfg.historyLines - 1) (by simp; omega)
        rw [← hrest] at hset
        rw [if_pos hsame, h.historyRow]
        show ∃ s', (setRow (moveHistory s.cmdHistory) (cfg.historyLines - 1) _ >>= _) >>= _ = _ ∧ _
        rw [hset]
        have hlen : (remember cfg.historyLines e.history e.text).length = cfg.historyLines := by
          rw [hhist, hrem, List.length_append, List.length_singleton]
          omega
        have hnew := h.remembered ((old.map fun l => l.rightpad cfg.cmdSize '\x00') ++
          [e.text.rightpad cfg.cmdSize '\x00']) ⟨[], by rw [hhist, hrem]; simp⟩
          (by simp; omega) (fun row hmem => ?_)
        · rw [hlen] at hnew
          refine ⟨_, rfl, ?_, rfl⟩
          rw [← hhist, hlen]
          exact hnew
        · rcases List.mem_append.mp hmem with hmem | hmem
          · apply h.rowSize
            rw [hrest]
            exact List.mem_cons_of_mem _ hmem
          · rw [List.mem_singleton.mp hmem, Buffer.length_rightpad (Nat.le_of_lt h.short)]
  · -- there is a free row
    rw [if_neg hfull]
    obtain ⟨row, rest, rfl⟩ : ∃ row rest', rest = row :: rest' :=
      List.exists_cons_of_length_pos (by omega)
    have hcompare : (if s.historyCount = 0 then return false
        else do
          let last ← deref s.cmdHistory[s.historyCount - 1]?
          return last = e.text.rightpad cfg.cmdSize '\x00' : Except Fault Bool) =
        .ok (decide (e.history.getLast? = some e.text)) := by
      by_cases hzero : s.historyCount = 0
      · have hnil : e.history = [] := List.eq_nil_of_length_eq_zero (by omega)
        rw [if_pos hzero, hnil]
        rfl
      · obtain ⟨last, hrow, hlast⟩ := h.last (n := s.historyCount - 1) (by omega)
        rw [if_neg hzero, deref_bind hrow]
        exact congrArg Except.ok (decide_eq_decide.mpr hlast)
    rw [hcompare]
    show ∃ s', (if decide (e.history.getLast? = some e.text) = true then _ else _) >>= _ = _ ∧ _
    by_cases hsame : e.history.getLast? = some e.text
    · rw [if_pos (decide_eq_true hsame)]
      exact ⟨_, rfl, hkeep (by simp [remember, hsame]), rfl⟩
    · have hrem : remember cfg.historyLines e.history e.text = e.history ++ [e.text] := by
        rw [remember, if_neg (by tauto), if_neg (by omega)]
      have hset : setRow s.cmdHistory s.historyCount (e.text.rightpad cfg.cmdSize '\x00') =
          .ok (e.history.map (fun l => l.rightpad cfg.cmdSize '\x00') ++
            e.text.rightpad cfg.cmdSize '\x00' :: rest) := by
        rw [setRow, hrest, Buffer.store_append (by simp [hcount])]
        rfl
      rw [if_neg (by simpa using hsame), h.historyRow]
      show ∃ s', (setRow s.cmdHistory s.historyCount _ >>= _) >>= _ = _ ∧ _
      rw [hset]
      have hlen : (remember cfg.historyLines e.history e.text).length = s.historyCount + 1 := by
        rw [hrem, List.length_append, List.length_singleton, hcount]
      have hnew := h.remembered (e.history.map (fun l => l.rightpad cfg.cmdSize '\x00') ++
          e.text.rightpad cfg.cmdSize '\x00' :: rest) ⟨rest, by rw [hrem]; simp⟩
        (by simpa using hlength) (fun r hmem => ?_)
      · rw [hlen] at hnew
        refine ⟨_, rfl, ?_, rfl⟩
        rw [hlen]
        exact hnew
      · have hold : r ∈ s.cmdHistory → r.length = cfg.cmdSize := h.rowSize r
        rw [hrest] at hold
        simp only [List.mem_append, List.mem_cons] at hmem hold
        rcases hmem with hmem | rfl | hmem
        · exact hold (Or.inl hmem)
        · exact Buffer.length_rightpad (Nat.le_of_lt h.short)
        · exact hold (Or.inr (Or.inr hmem))

/-- **The end of a line.** -/
theorem Shows.endOfLine (h : Shows cfg s e) : ∃ s', endOfLine cfg s = .ok s' ∧
    Shows cfg s' (e.press cfg.historyLines .enter) ∧ s'.stat = s.stat := by
  obtain ⟨s₁, hs₁, h₁, hstat⟩ := h.shellPushHistory
  have hcommand := h₁.command
  rw [Finsh.endOfLine, hs₁]
  show ∃ s', (deref _ >>= _) = _ ∧ _
  rw [deref_bind hcommand]
  refine ⟨_, rfl, ⟨rfl, rfl, rfl, h₁.count, h₁.selected, h₁.rows, h₁.size, h₁.rowSize, cfg.size_pos,
    List.not_mem_nil, h₁.old, Nat.le_refl _, ?_⟩, hstat⟩
  exact congrArg (· ++ [e.text]) h₁.executed

-- --------
-- The bytes and the keys
-- --------

/-- What the key does, if there is one. -/
def pressed (limit : Nat) (e : LineEditor Char) : Option (EditKey Char) → LineEditor Char
  | none => e
  | some k => e.press limit k

variable (complete)

theorem Shows.plainKey (h : Shows cfg s e) {ch : Char} (htab : ch ≠ '\t')
    (hroom : ∀ k ∈ keyOf ch, (e.press cfg.historyLines k).text.length < cfg.cmdSize) :
    ∃ s', plainKey cfg complete s ch = .ok s' ∧
      Shows cfg s' (pressed cfg.historyLines e (keyOf ch)) ∧ s'.stat = s.stat := by
  rw [Finsh.plainKey]
  unfold keyOf at hroom ⊢
  by_cases hnone : ch = '\x00' ∨ ch = '\xff'
  · have hall : ch = '\x00' ∨ ch = '\xff' ∨ ch = '\t' := by tauto
    rw [if_pos hnone, if_pos hall]
    exact ⟨s, rfl, h, rfl⟩
  have hall : ¬ (ch = '\x00' ∨ ch = '\xff' ∨ ch = '\t') := by tauto
  rw [if_neg hall] at hroom ⊢
  rw [if_neg hnone, if_neg htab]
  by_cases herase : ch = '\x7f' ∨ ch = '\x08'
  · rw [if_pos herase, if_pos herase]
    exact h.backspace
  rw [if_neg herase] at hroom ⊢
  rw [if_neg herase]
  by_cases henter : ch = '\r' ∨ ch = '\n'
  · rw [if_pos henter, if_pos henter]
    exact h.endOfLine
  rw [if_neg henter] at hroom ⊢
  rw [if_neg henter]
  have hlen := hroom _ rfl
  have hgrow : (e.press cfg.historyLines (.char ch)).text.length = e.text.length + 1 := by
    simp [press, LineEditor.text]
    omega
  exact h.normalChar (fun hzero => hnone (Or.inl hzero)) (by omega)

/-- **A byte.** -/
theorem Shows.shellKey (h : Shows cfg s e) {ch : Char} (htab : ch ≠ '\t')
    (hroom : ∀ k ∈ (decode s.stat ch).2, (e.press cfg.historyLines k).text.length < cfg.cmdSize) :
    ∃ s', shellKey cfg complete s ch = .ok s' ∧
      Shows cfg s' (pressed cfg.historyLines e (decode s.stat ch).2) ∧
      s'.stat = (decode s.stat ch).1 := by
  rw [Finsh.shellKey]
  unfold decode at hroom ⊢
  by_cases hesc : ch = '\x1b'
  · rw [if_pos hesc, if_pos hesc]
    exact ⟨_, rfl, h.stat _, rfl⟩
  rw [if_neg hesc] at hroom ⊢
  rw [if_neg hesc]
  cases hstat : s.stat with
  | waitNormal =>
    rw [hstat] at hroom
    obtain ⟨s', hs', hshows, hsame⟩ := h.plainKey complete htab hroom
    exact ⟨s', hs', hshows, hsame.trans hstat⟩
  | waitSpecKey =>
    rw [hstat] at hroom
    dsimp only at hroom ⊢
    by_cases hfunc : ch = '['
    · rw [if_pos hfunc, if_pos hfunc]
      exact ⟨_, rfl, h.stat _, rfl⟩
    · rw [if_neg hfunc] at hroom ⊢
      rw [if_neg hfunc]
      exact (h.stat .waitNormal).plainKey complete htab hroom
  | waitFuncKey =>
    rw [hstat] at hroom
    dsimp only at hroom ⊢
    have hnormal := h.stat .waitNormal
    by_cases hup : ch = 'A'
    · rw [if_pos hup, if_pos hup]
      exact hnormal.upKey
    rw [if_neg hup] at hroom ⊢
    rw [if_neg hup]
    by_cases hdown : ch = 'B'
    · rw [if_pos hdown, if_pos hdown]
      exact hnormal.downKey
    rw [if_neg hdown] at hroom ⊢
    rw [if_neg hdown]
    by_cases hleft : ch = 'D'
    · rw [if_pos hleft, if_pos hleft]
      exact ⟨_, rfl, hnormal.leftKey⟩
    rw [if_neg hleft] at hroom ⊢
    rw [if_neg hleft]
    by_cases hright : ch = 'C'
    · rw [if_pos hright, if_pos hright]
      exact ⟨_, rfl, hnormal.rightKey⟩
    rw [if_neg hright] at hroom ⊢
    rw [if_neg hright]
    exact hnormal.plainKey complete htab hroom

/-- **A whole input**, key by key. -/
theorem Shows.run (h : Shows cfg s e) {input : List Char} (htab : '\t' ∉ input)
    (hroom : Roomy cfg e (keys s.stat input)) :
    ∃ s', finshThreadEntry cfg complete s input = .ok s' ∧
      Shows cfg s' ((keys s.stat input).foldl (press cfg.historyLines) e) := by
  induction input generalizing s e with
  | nil => exact ⟨s, rfl, h⟩
  | cons ch input ih =>
    rw [List.mem_cons, not_or] at htab
    rw [keys] at hroom ⊢
    have hsplit : (∀ k ∈ (decode s.stat ch).2,
          (e.press cfg.historyLines k).text.length < cfg.cmdSize) ∧
        Roomy cfg (pressed cfg.historyLines e (decode s.stat ch).2)
          (keys (decode s.stat ch).1 input) := by
      cases hk : (decode s.stat ch).2 with
      | none =>
        rw [hk] at hroom
        exact ⟨by simp, hroom⟩
      | some k =>
        rw [hk] at hroom
        refine ⟨fun k' hk' => ?_, hroom.2⟩
        rw [← Option.some.inj hk']
        exact hroom.1
    obtain ⟨s₁, hs₁, h₁, hstat⟩ := h.shellKey complete (Ne.symm htab.1) hsplit.1
    rw [← hstat] at hsplit
    obtain ⟨s', hs', hshows⟩ := ih h₁ htab.2 hsplit.2
    refine ⟨s', ?_, ?_⟩
    · rw [finshThreadEntry, hs₁]
      exact hs'
    · rw [← hstat]
      cases hk : (decode s.stat ch).2 with
      | none =>
        rw [hk] at hshows
        exact hshows
      | some k =>
        rw [hk] at hshows
        exact hshows

end Keys

/-- **The shell replays the keys.** For every input without a tab key in which no line gets as
long as the buffer, no access leaves the line or the history, the lines given to `msh_exec` are
those entered in the editor, and the buffer holds the text of the editor, ended by a NUL, with the
cursor in it. -/
theorem shell_replays (cfg : ShellCfg) (complete : List Char → Except Fault (List Char))
    (input : List Char) (htab : '\t' ∉ input)
    (hroom : Roomy cfg LineEditor.empty (keys .waitNormal input)) :
    ∃ s, finshThreadEntry cfg complete (Shell.start cfg) input = .ok s ∧
      s.executed = ((keys .waitNormal input).foldl (press cfg.historyLines) empty).entered ∧
      s.line = ((keys .waitNormal input).foldl (press cfg.historyLines) empty).text.rightpad
        (cfg.cmdSize + 1) '\x00' ∧
      s.linePosition = ((keys .waitNormal input).foldl (press cfg.historyLines) empty).text.length ∧
      s.linePosition < cfg.cmdSize ∧ s.lineCurpos ≤ s.linePosition := by
  obtain ⟨s, hs, h⟩ := (Shows.start cfg).run complete htab hroom
  have hlen := length_text ((keys .waitNormal input).foldl (press cfg.historyLines) empty)
  have hpos := h.position
  have hcur := h.curpos
  have hshort := h.short
  have hstat : (Shell.start cfg).stat = .waitNormal := rfl
  rw [hstat] at hpos hcur hshort
  exact ⟨s, hs, h.executed, h.line, hpos, by omega, by omega⟩

/-- `ab`, left, `c`, enter, then the line is called back, its last character is erased, enter. -/
theorem shell_replays_run : ∃ s, finshThreadEntry ⟨8, 2, by decide, by decide⟩ .ok
    (Shell.start ⟨8, 2, by decide, by decide⟩)
    ['a', 'b', '\x1b', '[', 'D', 'c', '\r', '\x1b', '[', 'A', '\x7f', '\r'] = .ok s ∧
    s.executed = [['a', 'c', 'b'], ['a', 'c']] := by
  obtain ⟨s, hs, hexec, -⟩ := shell_replays ⟨8, 2, by decide, by decide⟩ .ok
    ['a', 'b', '\x1b', '[', 'D', 'c', '\r', '\x1b', '[', 'A', '\x7f', '\r'] (by decide)
    (by
      simp [keys, decode, keyOf, Roomy, press, LineEditor.text, LineEditor.empty, callBack, remember])
  exact ⟨s, hs, hexec⟩

end RTThread.Finsh
