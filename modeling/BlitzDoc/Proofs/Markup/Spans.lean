import BlitzDoc.Markup.Format
import BlitzDoc.Proofs.Text.Lines

/-!
# Markup by spans

The scanner takes a text one character at a time. Here the dialect is told by the spans of its
constructs: `front` reads what stands at the front of a text, up to where it ends, says what takes
its place, and leaves the text behind it; `formatSpans` does so again and again. The main statement
is `format_eq_formatSpans`: scanning and reading by spans are the same program, for every renderer.
A renderer runs in a monad of its own, so the same program means the same text and the same calls in
the same order.

Both go through a text from the left, so the proof follows the scanner: for each state that it can be
in, what it makes of the rest of the text is what the span says (`piecesFrom_word`,
`piecesFrom_bracket`, `piecesFrom_data`, `piecesFrom_angle`). The depth that the scanner counts is
the number of delimiters that were opened and not closed (`enclosedFrom`).
-/

namespace BlitzDoc.Markup

/-! ## Spans -/

/-- At place `n` stands a closing delimiter, and before it as many were closed as were opened. -/
def closesAt (opening closing : Char) (cs : List Char) (n : Nat) : Bool :=
  cs[n]? == some closing && (cs.take n).count opening == (cs.take n).count closing

/-- A text that begins behind an opening delimiter, up to the one that closes it, and the text behind
that. Without one it goes on to the end. -/
def enclosed (opening closing : Char) (cs : List Char) : List Char × List Char :=
  match (List.range cs.length).find? (closesAt opening closing cs) with
  | some n => (cs.take n, cs.drop (n + 1))
  | none => (cs, [])

/-- A text that begins behind an opening bracket: its tag, the data that may follow in parentheses, and
the text behind them. -/
def bracketSpan (cs : List Char) : List Char × Option (List Char) × List Char :=
  let (tag, rest) := enclosed '[' ']' cs
  if rest.head? = some '(' then
    let (data, behind) := enclosed '(' ')' rest.tail
    (tag, some data, behind)
  else (tag, none, rest)

/-- What takes the place of a marker with a word. -/
def wordMeaning (marker : Char) (word : List Char) : Meaning :=
  if word = [] then .literal (String.singleton marker)
  else if marker = '@' then .construct (.highlight (String.ofList word))
  else .construct (.reference (String.ofList word))

/-- What takes the place of brackets. -/
def bracketMeaning (raw : List Char) (data : Option (List Char)) : Meaning :=
  let tag := Text.trim (String.ofList raw)
  if tag = "" then
    .literal (data.elim "[]" fun d => "[](" ++ String.ofList d ++ ")")
  else if isLineBreak tag then .literal ""
  else
    match data with
    | some d => .construct (promote tag (String.ofList d))
    | none =>
      if '|' ∈ raw ∨ '\n' ∈ raw ∨ '\r' ∈ raw then .table (String.ofList raw)
      else .construct (.html tag none)

/-- What takes the place of angle brackets. -/
def angleMeaning (raw : List Char) : Meaning :=
  let tag := Text.trim (String.ofList raw)
  if isLineBreak tag then .literal ""
  else
    let name := tag.toList.takeWhile fun c => !Text.isBlank c
    let rest := Text.trim (String.ofList (tag.toList.dropWhile fun c => !Text.isBlank c))
    .construct (.html (String.ofList name) (if rest = "" then none else some rest))

/-- A tag in angle brackets begins with a letter or a slash. -/
def startsTag (cs : List Char) : Bool :=
  cs.head?.any fun c => c.isAlpha || c == '/'

/-- What takes the place of the construct at the front of a text, and the text behind it. -/
def front (c : Char) (cs : List Char) : Meaning × List Char :=
  if c = '@' ∨ c = '#' then
    (wordMeaning c (cs.takeWhile fun d => !isWordEnd d), cs.dropWhile fun d => !isWordEnd d)
  else if c = '[' then
    (bracketMeaning (bracketSpan cs).1 (bracketSpan cs).2.1, (bracketSpan cs).2.2)
  else if c = '<' ∧ startsTag cs = true then
    (angleMeaning (cs.takeWhile (· != '>')), (cs.dropWhile (· != '>')).tail)
  else (.literal (String.singleton c), cs)

theorem length_enclosed (opening closing : Char) (cs : List Char) :
    (enclosed opening closing cs).1.length + (enclosed opening closing cs).2.length ≤ cs.length := by
  unfold enclosed
  split
  · simp only [List.length_take, List.length_drop]
    omega
  · simp

theorem length_bracketSpan (cs : List Char) :
    (bracketSpan cs).1.length + (bracketSpan cs).2.2.length ≤ cs.length := by
  have htag := length_enclosed '[' ']' cs
  have hdata := length_enclosed '(' ')' (enclosed '[' ']' cs).2.tail
  rw [List.length_tail] at hdata
  unfold bracketSpan
  by_cases hparen : (enclosed '[' ']' cs).2.head? = some '('
  · simp only [hparen, if_true]
    omega
  · simpa only [hparen, if_false] using htag

theorem length_front_le (c : Char) (cs : List Char) : (front c cs).2.length ≤ cs.length := by
  have hdrop (p : Char → Bool) := Text.length_dropWhile_le p cs
  have hbracket := length_bracketSpan cs
  unfold front
  split
  · exact hdrop _
  split
  · simp only
    omega
  split
  · have := hdrop (· != '>')
    rw [List.length_tail]
    omega
  · exact Nat.le_refl _

theorem eq_of_bracketMeaning_eq_table {raw : List Char} {data : Option (List Char)} {text : String}
    (h : bracketMeaning raw data = .table text) : text = String.ofList raw := by
  unfold bracketMeaning at h
  simp only at h
  (repeat' split at h) <;> simp_all

theorem length_le_of_front_eq_table {c : Char} {cs : List Char} {raw : String}
    (h : (front c cs).1 = .table raw) : raw.length ≤ cs.length := by
  have hbracket := length_bracketSpan cs
  unfold front at h
  split at h
  · simp only [wordMeaning] at h
    (repeat' split at h) <;> cases h
  split at h
  · simp only at h
    rw [eq_of_bracketMeaning_eq_table h, String.length_ofList]
    omega
  split at h
  · simp only [angleMeaning] at h
    split at h <;> cases h
  · cases h

variable {m : Type → Type} [Monad m]

/-- Formats a text: what stands at its front is replaced, and then the text behind it is formatted. -/
def formatSpans (render : Construct → m String) : List Char → m String
  | [] => pure ""
  | c :: cs => do
    let here ← match hm : (front c cs).1 with
      | .literal s => pure s
      | .construct k => render k
      | .table raw => do
        let cells ← (rawCells raw).attach.mapM fun ⟨cell, hc⟩ => do
          have := Nat.le_trans (length_le_of_mem_rawCells hc) (length_le_of_front_eq_table hm)
          return { cell with text := ← formatSpans render cell.text.toList }
        render (.table (Table.ofCells cells))
    let behind ← formatSpans render (front c cs).2
    return here ++ behind
termination_by cs => cs.length
decreasing_by
  · have := length_front_le c cs
    simp only [List.length_cons]
    omega
  · simp only [String.length_toList, List.length_cons]
    omega

/-! ## The end of a span, by depth -/

/-- The depth behind a character. -/
def depthBehind (opening closing : Char) (depth : Nat) (c : Char) : Nat :=
  if c = opening then depth + 1 else if c = closing then depth - 1 else depth

/-- As `closesAt`, where `depth` delimiters more are open. -/
def closesFrom (opening closing : Char) (depth : Nat) (cs : List Char) (n : Nat) : Bool :=
  cs[n]? == some closing && depth + (cs.take n).count opening == (cs.take n).count closing

/-- As `enclosed`, where `depth` delimiters more are open. -/
def enclosedFrom (opening closing : Char) (depth : Nat) (cs : List Char) : List Char × List Char :=
  match (List.range cs.length).find? (closesFrom opening closing depth cs) with
  | some n => (cs.take n, cs.drop (n + 1))
  | none => (cs, [])

section
variable {opening closing : Char} (hne : opening ≠ closing)

theorem enclosedFrom_zero (cs : List Char) :
    enclosedFrom opening closing 0 cs = enclosed opening closing cs := by
  have hcloses : closesFrom opening closing 0 cs = closesAt opening closing cs := by
    funext n
    rw [closesFrom, closesAt, Nat.zero_add]
  rw [enclosedFrom, hcloses, enclosed]

theorem enclosedFrom_close (cs : List Char) :
    enclosedFrom opening closing 0 (closing :: cs) = ([], cs) := by
  simp [enclosedFrom, closesFrom, List.range_succ_eq_map]

include hne in
theorem closesFrom_succ {depth : Nat} {c : Char} (hc : c = closing → depth ≠ 0) (cs : List Char)
    (n : Nat) : closesFrom opening closing depth (c :: cs) (n + 1) =
      closesFrom opening closing (depthBehind opening closing depth c) cs n := by
  simp only [closesFrom, List.getElem?_cons_succ, List.take_succ_cons, List.count_cons]
  congr 1
  rw [Bool.eq_iff_iff]
  simp only [beq_iff_eq, depthBehind]
  by_cases hopen : c = opening
  · subst hopen
    simp only [if_true, hne, if_false]
    omega
  · by_cases hclose : c = closing
    · have hdepth := hc hclose
      simp only [hclose, if_false, if_true, hne.symm]
      omega
    · simp [hopen, hclose]

include hne in
theorem enclosedFrom_cons {depth : Nat} {c : Char} (hc : c = closing → depth ≠ 0) (cs : List Char) :
    enclosedFrom opening closing depth (c :: cs) =
      (c :: (enclosedFrom opening closing (depthBehind opening closing depth c) cs).1,
        (enclosedFrom opening closing (depthBehind opening closing depth c) cs).2) := by
  have hzero : closesFrom opening closing depth (c :: cs) 0 = false := by
    by_cases hclose : c = closing
    · simpa [closesFrom, hclose] using hc hclose
    · simp [closesFrom, hclose]
  have hsucc : closesFrom opening closing depth (c :: cs) ∘ Nat.succ =
      closesFrom opening closing (depthBehind opening closing depth c) cs :=
    funext fun n => closesFrom_succ hne hc cs n
  unfold enclosedFrom
  rw [List.length_cons, List.range_succ_eq_map, List.find?_cons, hzero, List.find?_map, hsucc]
  simp only
  cases (List.range cs.length).find?
    (closesFrom opening closing (depthBehind opening closing depth c) cs) <;> rfl

end

/-! ## The scanner from each of its states -/

/-- Plain text hands nothing back. -/
theorem handedBack_text (c : Char) : (State.text.take c).handedBack = false := by
  simp only [State.take]
  (repeat' split) <;> rfl

/-- A character that is handed back is read again as text. -/
theorem piecesFrom_of_handedBack {s : State} {c : Char} (h : (s.take c).handedBack = true)
    (cs : List Char) : piecesFrom s (c :: cs) = (s.take c).pieces ++ piecesFrom .text (c :: cs) := by
  have hstate := state_take_of_handedBack h
  simp only [piecesFrom, State.push, h, hstate, handedBack_text, if_true, List.append_assoc]
  simp

theorem piecesFrom_of_kept {s : State} {c : Char} (h : (s.take c).handedBack = false)
    (cs : List Char) :
    piecesFrom s (c :: cs) = (s.take c).pieces ++ piecesFrom (s.take c).state cs := by
  simp [piecesFrom, State.push, h]

theorem push_append (s : String) (c : Char) (cs : List Char) :
    s.push c ++ String.ofList cs = s ++ String.ofList (c :: cs) := by
  rw [← String.toList_inj]
  simp

theorem piecesFrom_word (kind : WordKind) (buf : String) (cs : List Char) :
    piecesFrom (.word kind buf) cs =
      .word kind (buf ++ String.ofList (cs.takeWhile fun c => !isWordEnd c)) ::
        piecesFrom .text (cs.dropWhile fun c => !isWordEnd c) := by
  induction cs generalizing buf with
  | nil => simp [piecesFrom, State.flush]
  | cons c cs ih =>
    by_cases hc : isWordEnd c = true
    · rw [piecesFrom_of_handedBack (by simp [State.take, hc])]
      simp [State.take, hc]
    · rw [piecesFrom_of_kept (by simp [State.take, hc])]
      simp [State.take, hc, ih, push_append]

theorem piecesFrom_angle {buf : String} (hbuf : buf ≠ "") (cs : List Char) :
    piecesFrom (.angle buf) cs =
      .angle (buf ++ String.ofList (cs.takeWhile (· != '>'))) ::
        piecesFrom .text (cs.dropWhile (· != '>')).tail := by
  have hempty (s : String) (h : s ≠ "") : s.isEmpty = false := by
    rw [Bool.eq_false_iff, ne_eq, String.isEmpty_iff]
    exact h
  induction cs generalizing buf with
  | nil => simp [piecesFrom, State.flush, hempty buf hbuf]
  | cons c cs ih =>
    have hpush : buf.push c ≠ "" := by
      intro h
      have hlist := congrArg String.toList h
      simp at hlist
    by_cases hc : c = '>'
    · rw [piecesFrom_of_kept (by simp [State.take, hempty buf hbuf, hc])]
      simp [State.take, hempty buf hbuf, hc]
    · rw [piecesFrom_of_kept (by simp [State.take, hempty buf hbuf, hc])]
      simp [State.take, hempty buf hbuf, hc, ih hpush, push_append]

/-- **A span with delimiters.** `inside` are the states of the scanner within it, and `behind` is what
it makes of a text behind it. -/
theorem piecesFrom_enclosed {opening closing : Char} (hne : opening ≠ closing)
    (inside : Nat → String → State) (behind : String → List Char → List Piece)
    (hend : ∀ depth buf, (inside depth buf).flush = behind buf [])
    (hclose : ∀ buf cs, piecesFrom (inside 0 buf) (closing :: cs) = behind buf cs)
    (hkeep : ∀ depth buf c, (c = closing → depth ≠ 0) →
      (inside depth buf).take c =
        { state := inside (depthBehind opening closing depth c) (buf.push c) })
    (depth : Nat) (buf : String) (cs : List Char) :
    piecesFrom (inside depth buf) cs =
      behind (buf ++ String.ofList (enclosedFrom opening closing depth cs).1)
        (enclosedFrom opening closing depth cs).2 := by
  induction cs generalizing depth buf with
  | nil => simp [piecesFrom, hend, enclosedFrom]
  | cons c cs ih =>
    by_cases hc : c = closing ∧ depth = 0
    · obtain ⟨rfl, rfl⟩ := hc
      rw [hclose, enclosedFrom_close]
      simp
    · have hopen : c = closing → depth ≠ 0 := fun h hzero => hc ⟨h, hzero⟩
      have htake := hkeep depth buf c hopen
      rw [piecesFrom_of_kept (by rw [htake]), htake, enclosedFrom_cons hne hopen, List.nil_append, ih,
        push_append]

theorem piecesFrom_bracket (depth : Nat) (buf : String) (cs : List Char) :
    piecesFrom (.bracket depth buf) cs =
      piecesFrom (.closed (buf ++ String.ofList (enclosedFrom '[' ']' depth cs).1))
        (enclosedFrom '[' ']' depth cs).2 := by
  refine piecesFrom_enclosed (by decide) State.bracket (fun tag => piecesFrom (.closed tag)) ?_ ?_ ?_
    depth buf cs
  · intro depth buf
    rfl
  · intro buf cs
    rw [piecesFrom_of_kept (by simp [State.take])]
    simp [State.take]
  · intro depth buf c hc
    by_cases hclose : c = ']'
    · cases depth with
      | zero => exact absurd rfl (hc hclose)
      | succ depth => simp [State.take, depthBehind, hclose]
    · by_cases hopen : c = '[' <;> simp [State.take, depthBehind, hclose, hopen]

theorem piecesFrom_data (tag : String) (depth : Nat) (buf : String) (cs : List Char) :
    piecesFrom (.data tag depth buf) cs =
      .bracket tag (some (buf ++ String.ofList (enclosedFrom '(' ')' depth cs).1)) ::
        piecesFrom .text (enclosedFrom '(' ')' depth cs).2 := by
  refine piecesFrom_enclosed (by decide) (State.data tag)
    (fun data rest => .bracket tag (some data) :: piecesFrom .text rest) ?_ ?_ ?_ depth buf cs
  · intro depth buf
    rfl
  · intro buf cs
    rw [piecesFrom_of_kept (by simp [State.take])]
    simp [State.take]
  · intro depth buf c hc
    by_cases hclose : c = ')'
    · cases depth with
      | zero => exact absurd rfl (hc hclose)
      | succ depth => simp [State.take, depthBehind, hclose]
    · by_cases hopen : c = '(' <;> simp [State.take, depthBehind, hclose, hopen]

theorem piecesFrom_closed_data (tag : String) {cs : List Char} (h : cs.head? = some '(') :
    piecesFrom (.closed tag) cs = piecesFrom (.data tag 0 "") cs.tail := by
  obtain ⟨rest, rfl⟩ := List.head?_eq_some_iff.1 h
  rw [piecesFrom_of_kept (by simp [State.take])]
  simp [State.take]

theorem piecesFrom_closed {tag : String} {cs : List Char} (h : cs.head? ≠ some '(') :
    piecesFrom (.closed tag) cs = .bracket tag none :: piecesFrom .text cs := by
  cases cs with
  | nil => rfl
  | cons c cs =>
    have hc : c ≠ '(' := by simpa using h
    rw [piecesFrom_of_handedBack (by simp [State.take, hc])]
    simp [State.take, hc]

/-! ## The front of a text -/

theorem meaning_word (kind : WordKind) (word : List Char) :
    (Piece.word kind (String.ofList word)).meaning = wordMeaning kind.marker word := by
  have hempty : (String.ofList word).isEmpty = true ↔ word = [] := by
    rw [String.isEmpty_iff, ← String.toList_inj]
    simp
  unfold Piece.meaning wordMeaning
  by_cases hword : word = []
  · simp [hword]
  · have hne : (String.ofList word).isEmpty = false := by simpa [hempty] using hword
    cases kind <;> simp [hne, hword, WordKind.construct, WordKind.marker]

theorem meaning_bracket (raw : List Char) (data : Option (List Char)) :
    (Piece.bracket (String.ofList raw) (data.map String.ofList)).meaning = bracketMeaning raw data := by
  have htable : (raw.any isTableMark = true) ↔ '|' ∈ raw ∨ '\n' ∈ raw ∨ '\r' ∈ raw := by
    simp only [List.any_eq_true, isTableMark, isBreak, Bool.or_eq_true, beq_iff_eq]
    constructor
    · rintro ⟨c, hc, rfl | rfl | rfl⟩ <;> simp [hc]
    · rintro (h | h | h) <;> exact ⟨_, h, by simp⟩
  unfold Piece.meaning bracketMeaning
  simp only [String.isEmpty_iff, String.toList_ofList, htable]
  cases data <;> rfl

theorem angleTag_eq (tag : String) :
    angleTag tag = .html (String.ofList (tag.toList.takeWhile fun c => !Text.isBlank c))
      (Text.nonEmpty? (Text.trim (String.ofList (tag.toList.dropWhile fun c => !Text.isBlank c)))) := by
  unfold angleTag
  rw [Text.splitOnce?_eq]
  cases hdrop : tag.toList.dropWhile fun c => !Text.isBlank c with
  | nil =>
    have hall := List.takeWhile_append_dropWhile (p := fun c => !Text.isBlank c) (l := tag.toList)
    rw [hdrop, List.append_nil] at hall
    rw [hall, String.ofList_toList]
    rfl
  | cons c rest =>
    -- the blank that ends the name is trimmed away
    have hblank : Text.isBlank c = true := by
      have hhead := List.head?_dropWhile_not (fun c => !Text.isBlank c) tag.toList
      simpa [hdrop] using hhead
    have htrim : Text.trim (String.ofList (c :: rest)) = Text.trim (String.ofList rest) := by
      simp [Text.trim, Text.dropBlanks, hblank]
    rw [htrim]

theorem meaning_angle (raw : List Char) :
    (Piece.angle (String.ofList raw)).meaning = angleMeaning raw := by
  simp only [Piece.meaning, angleMeaning, angleTag_eq, Text.nonEmpty?, String.isEmpty_iff]

/-- The first piece of a text stands for what is read at its front, and the scanner goes on behind
it. -/
def AgreesAt (c : Char) (cs : List Char) : Prop :=
  ∃ p, piecesFrom .text (c :: cs) = p :: piecesFrom .text (front c cs).2 ∧
    p.meaning = (front c cs).1

theorem AgreesAt.intro {c : Char} {cs : List Char} (p : Piece) (rest : List Char)
    (hpieces : piecesFrom .text (c :: cs) = p :: piecesFrom .text rest)
    (hfront : front c cs = (p.meaning, rest)) : AgreesAt c cs := by
  refine ⟨p, ?_, ?_⟩
  · rw [hfront, hpieces]
  · rw [hfront]

theorem agreesAt_marker (kind : WordKind) (cs : List Char) : AgreesAt kind.marker cs := by
  have htake : State.text.take kind.marker = { state := .word kind "" } := by
    cases kind <;> simp [State.take, WordKind.marker]
  refine .intro (.word kind (String.ofList (cs.takeWhile fun c => !isWordEnd c)))
    (cs.dropWhile fun c => !isWordEnd c) ?_ ?_
  · rw [piecesFrom_of_kept (by rw [htake]), htake, List.nil_append, piecesFrom_word,
      String.empty_append]
  · rw [meaning_word]
    cases kind <;> simp [front, WordKind.marker]

theorem agreesAt_bracket (cs : List Char) : AgreesAt '[' cs := by
  have htake : State.text.take '[' = { state := .bracket 0 "" } := by simp [State.take]
  have hread : piecesFrom .text ('[' :: cs) =
      piecesFrom (.closed (String.ofList (enclosed '[' ']' cs).1)) (enclosed '[' ']' cs).2 := by
    rw [piecesFrom_of_kept (by rw [htake]), htake, List.nil_append, piecesFrom_bracket,
      enclosedFrom_zero, String.empty_append]
  have hfront : front '[' cs =
      (bracketMeaning (bracketSpan cs).1 (bracketSpan cs).2.1, (bracketSpan cs).2.2) := by
    simp [front]
  refine .intro (.bracket (String.ofList (bracketSpan cs).1) ((bracketSpan cs).2.1.map String.ofList))
    (bracketSpan cs).2.2 ?_ ?_
  · rw [hread]
    unfold bracketSpan
    by_cases hparen : (enclosed '[' ']' cs).2.head? = some '('
    · rw [piecesFrom_closed_data _ hparen, piecesFrom_data, enclosedFrom_zero, String.empty_append]
      simp only [hparen, if_true, Option.map_some]
    · rw [piecesFrom_closed hparen]
      simp only [hparen, if_false, Option.map_none]
  · rw [hfront, meaning_bracket]

theorem agreesAt_tag {cs : List Char} (h : startsTag cs = true) : AgreesAt '<' cs := by
  have htake : State.text.take '<' = { state := .angle "" } := by simp [State.take]
  have hread : piecesFrom .text ('<' :: cs) = piecesFrom (.angle "") cs := by
    rw [piecesFrom_of_kept (by rw [htake]), htake, List.nil_append]
  refine .intro (.angle (String.ofList (cs.takeWhile (· != '>')))) (cs.dropWhile (· != '>')).tail ?_ ?_
  · rw [hread]
    cases cs with
    | nil => simp [startsTag] at h
    | cons c cs =>
      -- the first character is kept, and from then on the tag is not empty
      have hstart : c.isAlpha = true ∨ c = '/' := by simpa [startsTag] using h
      have hc : c ≠ '>' := by
        rintro rfl
        revert hstart
        decide
      have hkeep : (State.angle "").take c = { state := .angle ("".push c) } := by
        rcases hstart with hstart | hstart <;> simp [State.take, hstart, hc]
      have hne : "".push c ≠ "" := by
        intro hempty
        have hlist := congrArg String.toList hempty
        simp at hlist
      rw [piecesFrom_of_kept (by rw [hkeep]), hkeep, List.nil_append, piecesFrom_angle hne, push_append,
        String.empty_append]
      simp [hc]
  · rw [meaning_angle]
    simp [front, h]

/-- Any other character is a piece of its own, and so is an angle bracket that opens no tag. -/
theorem agreesAt_plain {c : Char} {cs : List Char} (hmarker : c ≠ '@' ∧ c ≠ '#') (hbracket : c ≠ '[')
    (hangle : c = '<' → startsTag cs = false) : AgreesAt c cs := by
  refine .intro (.char c) cs ?_ ?_
  · by_cases hc : c = '<'
    · have hstart := hangle hc
      have htake : State.text.take '<' = { state := .angle "" } := by simp [State.take]
      rw [hc, piecesFrom_of_kept (by rw [htake]), htake, List.nil_append]
      cases cs with
      | nil => rfl
      | cons d cs =>
        have hback : (State.angle "").take d =
            { state := .text, pieces := [.char '<'], handedBack := true } := by
          obtain ⟨halpha, hslash⟩ : d.isAlpha = false ∧ d ≠ '/' := by simpa [startsTag] using hstart
          simp [State.take, halpha, hslash]
        rw [piecesFrom_of_handedBack (by rw [hback]), hback]
        rfl
    · have htake : State.text.take c = { state := .text, pieces := [.char c] } := by
        simp [State.take, hmarker, hbracket, hc]
      rw [piecesFrom_of_kept (by rw [htake]), htake]
      rfl
  · by_cases hc : c = '<'
    · simp [front, hc, hangle hc, Piece.meaning]
    · simp [front, hmarker, hbracket, hc, Piece.meaning]

theorem agreesAt (c : Char) (cs : List Char) : AgreesAt c cs := by
  by_cases hat : c = '@'
  · exact hat ▸ agreesAt_marker .highlight cs
  by_cases hhash : c = '#'
  · exact hhash ▸ agreesAt_marker .reference cs
  by_cases hbracket : c = '['
  · exact hbracket ▸ agreesAt_bracket cs
  by_cases htag : c = '<' ∧ startsTag cs = true
  · exact htag.1 ▸ agreesAt_tag htag.2
  · exact agreesAt_plain ⟨hat, hhash⟩ hbracket fun hc => by simpa [hc] using htag

/-! ## Whole texts -/

/-- Renders what takes the place of a construct, with `formatCell` for the cells of a table. -/
def replaceBy (formatCell : String → m String) (render : Construct → m String) : Meaning → m String
  | .literal s => pure s
  | .construct k => render k
  | .table raw => do
    let cells ← (rawCells raw).mapM fun cell => do
      return { cell with text := ← formatCell cell.text }
    render (.table (Table.ofCells cells))

section
variable [LawfulMonad m]

/-- A traversal depends on what is done with the members alone. -/
theorem mapM_congr {α β : Type} {f g : α → m β} {xs : List α} (h : ∀ x ∈ xs, f x = g x) :
    xs.mapM f = xs.mapM g := by
  induction xs with
  | nil => rfl
  | cons x xs ih =>
    rw [List.forall_mem_cons] at h
    rw [List.mapM_cons, List.mapM_cons, h.1, ih h.2]

theorem replaceBy_congr {f g : String → m String} (render : Construct → m String) {k : Meaning}
    (h : ∀ raw, k = .table raw → ∀ cell ∈ rawCells raw, f cell.text = g cell.text) :
    replaceBy f render k = replaceBy g render k := by
  cases k with
  | literal s => rfl
  | construct k => rfl
  | table raw =>
    simp only [replaceBy]
    rw [mapM_congr fun cell hcell => by rw [h raw rfl cell hcell]]

theorem renderPiece_eq (render : Construct → m String) (strip : Bool) (p : Piece) :
    renderPiece render strip p = replaceBy (format render strip) render p.meaning := by
  unfold renderPiece parseTable
  cases p.meaning <;> simp [replaceBy]

theorem formatSpans_cons (render : Construct → m String) (c : Char) (cs : List Char) :
    formatSpans render (c :: cs) = do
      let here ← replaceBy (fun text => formatSpans render text.toList) render (front c cs).1
      let behind ← formatSpans render (front c cs).2
      return here ++ behind := by
  rw [formatSpans]
  simp only [bind_pure_comp, List.mapM_subtype, List.unattach_attach]
  split <;> simp_all [replaceBy]

/-- Renders pieces one after the other. -/
def renderPieces (render : Construct → m String) (ps : List Piece) : m String := do
  let parts ← ps.mapM (renderPiece render false)
  return String.join parts

theorem format_eq_renderPieces (render : Construct → m String) (text : String) :
    format render false text = renderPieces render (piecesFrom .text text.toList) :=
  format_eq render false text

theorem renderPieces_cons (render : Construct → m String) (p : Piece) (ps : List Piece) :
    renderPieces render (p :: ps) = do
      let here ← renderPiece render false p
      let behind ← renderPieces render ps
      return here ++ behind := by
  simp [renderPieces]

/-- Pieces are rendered as the spans of their text are. The induction is on the length of the text: the
text behind a construct is shorter, and so are the cells of a table. -/
theorem renderPieces_eq (render : Construct → m String) (n : Nat) (cs : List Char)
    (hn : cs.length = n) : renderPieces render (piecesFrom .text cs) = formatSpans render cs := by
  induction n using Nat.strong_induction_on generalizing cs with
  | _ n ih =>
    cases cs with
    | nil => simp [renderPieces, piecesFrom, State.flush, formatSpans]
    | cons c cs =>
      simp only [List.length_cons] at hn
      obtain ⟨p, hpieces, hmeaning⟩ := agreesAt c cs
      have hshort := length_front_le c cs
      have hbehind := ih (front c cs).2.length (by omega) (front c cs).2 rfl
      have hcells : ∀ raw, (front c cs).1 = .table raw → ∀ cell ∈ rawCells raw,
          format render false cell.text = formatSpans render cell.text.toList := by
        intro raw hraw cell hcell
        have hlength := Nat.le_trans (length_le_of_mem_rawCells hcell) (length_le_of_front_eq_table hraw)
        rw [format_eq]
        exact ih cell.text.length (by omega) cell.text.toList String.length_toList
      rw [hpieces, renderPieces_cons, hbehind, formatSpans_cons, renderPiece_eq, hmeaning,
        replaceBy_congr (g := fun text => formatSpans render text.toList) render hcells]

/-- **Scanning a text is reading it by spans**: for every renderer, the two are the same program. -/
theorem format_eq_formatSpans (render : Construct → m String) (text : String) :
    format render false text = formatSpans render text.toList := by
  rw [format_eq]
  exact renderPieces_eq render text.toList.length text.toList rfl

end

/-- A renderer that keeps a list of what it was handed. -/
def keepCalls (c : Construct) : StateM (List Construct) String := do
  modify (· ++ [c])
  return "*"

/-- Text that looks like a tag, nested delimiters, a table with a word in it, and an open bracket. -/
theorem keepCalls_sample :
    format keepCalls false "a<=b @x.[ i ](d(e)f)[]()[#r|br]<br /><b z >[q[" =
      formatSpans keepCalls "a<=b @x.[ i ](d(e)f)[]()[#r|br]<br /><b z >[q[".toList ∧
    ((format keepCalls false "a<=b @x.[ i ](d(e)f)[]()[#r|br]<br /><b z >[q[").run []).run =
      ("a<=b *.*[]()***", [.highlight "x", .italic "d(e)f", .reference "r",
        .table { cells := [["*"], ["br"]], width := 2, height := 1 }, .html "b" (some "z"),
        .html "q[" none]) := by
  have h := format_eq_formatSpans keepCalls "a<=b @x.[ i ](d(e)f)[]()[#r|br]<br /><b z >[q["
  refine ⟨h, ?_⟩
  rw [h]
  decide +kernel

end BlitzDoc.Markup
