import Mathlib.Data.List.Basic
import Mathlib.Tactic.Common

/-!
# Line editors

What a user of a line editor has in mind: a text with a cursor, and the lines
entered so far, of which the last `limit` different ones can be called back. The
text is kept in two parts, the one behind the cursor and, reversed, the one in
front of it.
-/

/-- The state of an editor: the two parts of the text, the lines that can be called back, the
oldest first, which of them is looked at, and all lines entered. -/
structure LineEditor (α : Type*) where
  back : List α
  front : List α
  history : List (List α)
  selected : Nat
  entered : List (List α)

/-- The keys. -/
inductive EditKey (α : Type*)
  | up
  | down
  | left
  | right
  | erase
  | enter
  | char (c : α)

namespace LineEditor

variable {α : Type*}

def empty : LineEditor α := ⟨[], [], [], 0, []⟩

/-- The text in front of the cursor and behind it. -/
def text (e : LineEditor α) : List α := e.back.reverse ++ e.front

/-- The line that was called back, with the cursor behind it. -/
def callBack (e : LineEditor α) (i : Nat) : LineEditor α :=
  { e with back := (e.history.getD i []).reverse, front := [], selected := i }

/-- The lines that can be called back once the text is entered: an empty line and one that
repeats the last one are not kept. -/
def remember [DecidableEq α] (limit : Nat) (history : List (List α)) (text : List α) :
    List (List α) :=
  if text = [] ∨ history.getLast? = some text then history
  else if limit ≤ history.length then history.tail ++ [text]
  else history ++ [text]

/-- What a key does. -/
def press [DecidableEq α] (limit : Nat) (e : LineEditor α) : EditKey α → LineEditor α
  | .up => if 0 < e.selected then e.callBack (e.selected - 1) else e
  | .down =>
    if e.selected + 1 < e.history.length then e.callBack (e.selected + 1)
    else if 0 < e.history.length then e.callBack (e.history.length - 1)
    else e
  | .left =>
    match e.back with
    | [] => e
    | c :: back => { e with back, front := c :: e.front }
  | .right =>
    match e.front with
    | [] => e
    | c :: front => { e with back := c :: e.back, front }
  | .erase => { e with back := e.back.tail }
  | .enter =>
    let history := remember limit e.history e.text
    ⟨[], [], history, history.length, e.entered ++ [e.text]⟩
  | .char c => { e with back := c :: e.back }

variable {e : LineEditor α} {limit : Nat} {c : α} {history : List (List α)} {line : List α}

@[simp] theorem text_callBack (e : LineEditor α) (i : Nat) :
    (e.callBack i).text = e.history.getD i [] := by
  simp [text, callBack]

theorem length_text (e : LineEditor α) : e.text.length = e.back.length + e.front.length := by
  simp [text]

theorem mem_remember [DecidableEq α] {l : List α} (h : l ∈ remember limit history line) :
    l ∈ history ∨ l = line := by
  unfold remember at h
  split_ifs at h
  · exact Or.inl h
  · rcases List.mem_append.mp h with h | h
    · exact Or.inl (List.mem_of_mem_tail h)
    · exact Or.inr (List.mem_singleton.mp h)
  · rcases List.mem_append.mp h with h | h
    · exact Or.inl h
    · exact Or.inr (List.mem_singleton.mp h)

end LineEditor
