import BlitzDoc.Markup.Construct

/-!
# Pieces of a text

A text is cut into pieces from left to right, one character at a time: plain characters, words
behind a marker, brackets with or without data, and tags in angle brackets. A piece that is still
open at the end of the text ends there. `Piece.meaning` says what a piece stands for.

The main statement is `length_lt_of_mem_pieces`: what stands inside brackets is shorter than the
text around it.
-/

namespace BlitzDoc.Markup

/-- The two markers of words. -/
inductive WordKind where
  | highlight
  | reference
deriving DecidableEq, Repr

namespace WordKind

def marker : WordKind → Char
  | highlight => '@'
  | reference => '#'

def construct : WordKind → String → Construct
  | highlight => .highlight
  | reference => .reference

end WordKind

/-- A piece of a text. -/
inductive Piece where
  | char (c : Char)
  | word (kind : WordKind) (word : String)
  /-- `[raw]` or `[raw](data)` -/
  | bracket (raw : String) (data : Option String)
  /-- `<raw>` -/
  | angle (raw : String)
deriving DecidableEq, Repr

/-! ## The scanner -/

/-- The piece that is being read. -/
inductive State where
  | text
  | word (kind : WordKind) (buf : String)
  /-- Inside brackets; `depth` counts the inner ones. -/
  | bracket (depth : Nat) (buf : String)
  /-- Behind the closing bracket, where data may follow. -/
  | closed (tag : String)
  | data (tag : String) (depth : Nat) (buf : String)
  | angle (buf : String)
deriving DecidableEq, Repr

/-- The character ends a marked word. -/
def isWordEnd (c : Char) : Bool :=
  c == ' ' || c == '.' || c == ',' || c == '\n' || c == '\r' || c == '\t' || c == ')' || c == ']'

/-- The outcome of a character: the new state, the pieces that ended, and whether the character is
handed back because it belongs to what follows. -/
structure Taken where
  state : State
  pieces : List Piece := []
  handedBack : Bool := false

/-- Offers a character to the piece that is being read. -/
def State.take : State → Char → Taken
  | .text, c =>
    if c = '@' then { state := .word .highlight "" }
    else if c = '#' then { state := .word .reference "" }
    else if c = '[' then { state := .bracket 0 "" }
    else if c = '<' then { state := .angle "" }
    else { state := .text, pieces := [.char c] }
  | .word kind buf, c =>
    if isWordEnd c then { state := .text, pieces := [.word kind buf], handedBack := true }
    else { state := .word kind (buf.push c) }
  | .bracket depth buf, c =>
    if c = ']' then
      match depth with
      | 0 => { state := .closed buf }
      | depth + 1 => { state := .bracket depth (buf.push c) }
    else if c = '[' then { state := .bracket (depth + 1) (buf.push c) }
    else { state := .bracket depth (buf.push c) }
  | .closed tag, c =>
    if c = '(' then { state := .data tag 0 "" }
    else { state := .text, pieces := [.bracket tag none], handedBack := true }
  | .data tag depth buf, c =>
    if c = ')' then
      match depth with
      | 0 => { state := .text, pieces := [.bracket tag (some buf)] }
      | depth + 1 => { state := .data tag depth (buf.push c) }
    else if c = '(' then { state := .data tag (depth + 1) (buf.push c) }
    else { state := .data tag depth (buf.push c) }
  | .angle buf, c =>
    -- `a <= b` and `x < y` are text
    if buf.isEmpty && !(c.isAlpha || c = '/') then
      { state := .text, pieces := [.char '<'], handedBack := true }
    else if c = '>' then { state := .text, pieces := [.angle buf] }
    else { state := .angle (buf.push c) }

/-- Takes a character; one that is handed back is offered again. -/
def State.push (s : State) (c : Char) : State × List Piece :=
  let first := s.take c
  if first.handedBack then
    let second := first.state.take c
    (second.state, first.pieces ++ second.pieces)
  else (first.state, first.pieces)

/-- The piece that the end of the text cuts off. -/
def State.flush : State → List Piece
  | .text => []
  | .word kind buf => [.word kind buf]
  | .bracket _ buf => [.bracket buf none]
  | .closed tag => [.bracket tag none]
  | .data tag _ buf => [.bracket tag (some buf)]
  | .angle buf => if buf.isEmpty then [.char '<'] else [.angle buf]

/-- The pieces of a text that follows what was read so far. -/
def piecesFrom : State → List Char → List Piece
  | s, [] => s.flush
  | s, c :: cs => (s.push c).2 ++ piecesFrom (s.push c).1 cs

/-- The character breaks lines. -/
def isBreak (c : Char) : Bool :=
  c == '\n' || c == '\r'

/-- The pieces of a text, whose line breaks are dropped beforehand if `strip`. -/
def pieces (strip : Bool) (text : String) : List Piece :=
  piecesFrom .text (if strip then text.toList.filter fun c => !isBreak c else text.toList)

/-! ## What pieces stand for -/

/-- What a piece stands for. -/
inductive Meaning where
  | literal (s : String)
  | construct (c : Construct)
  /-- A table, as the text inside the brackets. -/
  | table (raw : String)
deriving DecidableEq, Repr

/-- Text in brackets with this character is a table. -/
def isTableMark (c : Char) : Bool :=
  c == '|' || isBreak c

/-- Brackets around a blank, as they were written. -/
def emptyBrackets (data : Option String) : String :=
  match data with
  | some d => "[](" ++ d ++ ")"
  | none => "[]"

namespace Piece

/-- What a piece stands for. -/
def meaning : Piece → Meaning
  | char c => .literal (String.singleton c)
  | word kind w => if w.isEmpty then .literal (String.singleton kind.marker) else .construct (kind.construct w)
  | bracket raw data =>
    let tag := Text.trim raw
    if tag.isEmpty then .literal (emptyBrackets data)
    else if isLineBreak tag then .literal ""
    else
      match data with
      | some d => .construct (promote tag d)
      | none => if raw.toList.any isTableMark then .table raw else .construct (.html tag none)
  | angle raw =>
    let inner := Text.trim raw
    if isLineBreak inner then .literal "" else .construct (angleTag inner)

end Piece

/-! ## Pieces are shorter than their text -/

/-- How many characters of the text the state accounts for, at least. -/
def State.held : State → Nat
  | .text => 0
  | .word _ _ => 0
  | .bracket _ buf => buf.length + 1
  | .closed tag => tag.length + 1
  | .data tag _ _ => tag.length + 1
  | .angle _ => 0

theorem held_take_le (s : State) (c : Char) : (s.take c).state.held ≤ s.held + 1 := by
  cases s <;> simp only [State.take] <;> (repeat' split) <;>
    simp [State.held, String.length_push]

theorem state_take_of_handedBack {s : State} {c : Char} :
    (s.take c).handedBack = true → (s.take c).state = .text := by
  cases s <;> simp only [State.take] <;> (repeat' split) <;> simp

/-- A bracket that ends was held before. -/
theorem length_lt_held_of_mem_take {s : State} {c : Char} {raw : String} {data : Option String}
    (h : .bracket raw data ∈ (s.take c).pieces) : raw.length < s.held := by
  cases s <;> simp only [State.take] at h <;> (repeat' split at h) <;>
    simp_all [State.held]

theorem held_push_le (s : State) (c : Char) : (s.push c).1.held ≤ s.held + 1 := by
  unfold State.push
  by_cases hb : (s.take c).handedBack = true
  · have ht := state_take_of_handedBack hb
    simp only [hb, if_true, ht]
    have := held_take_le .text c
    simp [State.held] at this ⊢
    omega
  · simpa [hb] using held_take_le s c

theorem length_lt_held_of_mem_push {s : State} {c : Char} {raw : String} {data : Option String}
    (h : .bracket raw data ∈ (s.push c).2) : raw.length < s.held := by
  unfold State.push at h
  by_cases hb : (s.take c).handedBack = true
  · have ht := state_take_of_handedBack hb
    simp only [hb, if_true, ht, List.mem_append] at h
    rcases h with h | h
    · exact length_lt_held_of_mem_take h
    · have := length_lt_held_of_mem_take h
      simp [State.held] at this
  · simp only [hb] at h
    exact length_lt_held_of_mem_take h

theorem length_lt_held_of_mem_flush {s : State} {raw : String} {data : Option String}
    (h : .bracket raw data ∈ s.flush) : raw.length < s.held := by
  cases s <;> simp only [State.flush] at h <;> (repeat' split at h) <;> simp_all [State.held]

theorem length_lt_of_mem_piecesFrom {cs : List Char} {s : State} {raw : String}
    {data : Option String} (h : .bracket raw data ∈ piecesFrom s cs) :
    raw.length < s.held + cs.length := by
  induction cs generalizing s with
  | nil => simpa using length_lt_held_of_mem_flush h
  | cons c cs ih =>
    simp only [piecesFrom, List.mem_append] at h
    simp only [List.length_cons]
    rcases h with h | h
    · have := length_lt_held_of_mem_push h
      omega
    · have := ih h
      have := held_push_le s c
      omega

/-- What stands inside brackets is shorter than the text around them. -/
theorem length_lt_of_mem_pieces {strip : Bool} {text raw : String} {data : Option String}
    (h : .bracket raw data ∈ pieces strip text) : raw.length < text.length := by
  have := length_lt_of_mem_piecesFrom h
  have hle : (if strip then text.toList.filter (fun c => !isBreak c) else text.toList).length
      ≤ text.length := by
    rw [← String.length_toList]
    split
    · exact List.length_filter_le _ _
    · exact Nat.le_refl _
  simp only [State.held] at this
  omega

/-- Only brackets without data are tables. -/
theorem eq_bracket_of_meaning_eq_table {p : Piece} {raw : String} (h : p.meaning = .table raw) :
    p = .bracket raw none := by
  cases p <;> simp only [Piece.meaning] at h <;> (repeat' split at h) <;> simp_all

end BlitzDoc.Markup
