import BlitzDoc.Proofs.Source.Turn
import BlitzDoc.Proofs.Text.Balanced

/-!
# Blanks around lines

How far a line is indented and what blanks follow it does not matter to a scan, whatever it stands in:
`line_trimmed` says so of one line in any state, and `scan_of_trimmed_lines` of sources.

Keywords are looked for at the start of a line, so the work is at its other end. A keyword ends where
a blank or a comment starts, and what is found of a line is found of it with such an end added
(`after?_append`). These lemmas take any end that holds no code; blanks are the case that is needed
here.
-/

namespace BlitzDoc.Source

namespace Line

open Text (isBlank dropBlanks dropBlanksEnd)

/-! ## Ends without code -/

/-- The character ends every word: a blank, a dot or the mark of a comment. -/
def isStop (c : Char) : Bool :=
  isBlank c || c == '.' || c == '\''

/-- The text holds no code: it is blank, up to a comment if there is one. -/
def isVoid (cs : List Char) : Bool :=
  match dropBlanks cs with
  | [] => true
  | c :: _ => c == '\''

theorem isWordChar_of_isStop {c : Char} (hc : isStop c = true) : Text.isWordChar c = false := by
  simp only [isStop, Bool.or_eq_true, beq_iff_eq] at hc
  rcases hc with (hblank | rfl) | rfl
  · exact Text.forall_isBlank (P := fun c => Text.isWordChar c = false) (by decide +kernel) hblank
  · decide
  · decide

/-- No form of a letter ends a word. -/
theorem sameLetter_of_isStop {k c : Char} (hk : k.isLower = true) (hc : isStop c = true) :
    sameLetter k c = false := by
  have hstop : c.toLower.isLower = false ∧ c ≠ 'ſ' ∧ c ≠ '\u212a' := by
    simp only [isStop, Bool.or_eq_true, beq_iff_eq] at hc
    rcases hc with (hblank | rfl) | rfl
    · exact Text.forall_isBlank
        (P := fun c => c.toLower.isLower = false ∧ c ≠ 'ſ' ∧ c ≠ '\u212a') (by decide) hblank
    · decide
    · decide
  have hlower : c.toLower ≠ k := by
    rintro rfl
    rw [hstop.1] at hk
    cases hk
  simp [sameLetter, hlower, hstop]

theorem isVoid_of_blanks {bs : List Char} (hbs : ∀ c ∈ bs, isBlank c = true) : isVoid bs = true := by
  have hdrop : dropBlanks bs = [] := List.dropWhile_eq_nil_iff.2 hbs
  rw [isVoid, hdrop]

/-- The end starts at a stop, and so does what stands behind its blanks. -/
theorem isStop_of_isVoid {y : List Char} (hy : isVoid y = true) :
    (∀ c ∈ y.head?, isStop c = true) ∧ ∀ c ∈ (dropBlanks y).head?, isStop c = true := by
  have hbehind : ∀ c ∈ (dropBlanks y).head?, isStop c = true := by
    unfold isVoid at hy
    split at hy
    · simp [*]
    · rename_i c rest hdrop
      intro d hd
      rw [hdrop, List.head?_cons, Option.mem_some_iff] at hd
      rw [isStop, ← hd, hy, Bool.or_true]
  refine ⟨?_, hbehind⟩
  cases y with
  | nil => simp
  | cons c y =>
    intro d hd
    obtain rfl : c = d := by simpa using hd
    by_cases hc : isBlank c = true
    · rw [isStop, hc, Bool.true_or, Bool.true_or]
    · refine hbehind c ?_
      rw [dropBlanks, List.dropWhile_cons_of_neg hc]
      rfl

/-! ## Keywords before an end -/

/-- The keyword has letters, all of them small. -/
def isKeyword (word : String) : Bool :=
  !word.toList.isEmpty && word.toList.all Char.isLower

section
variable {y : List Char}

theorem afterKeyword?_append {ks : List Char} (hks : ks.all Char.isLower = true)
    (hy : ∀ c ∈ y.head?, isStop c = true) (x : List Char) :
    afterKeyword? ks (x ++ y) = (afterKeyword? ks x).map (· ++ y) := by
  induction ks generalizing x with
  | nil => rfl
  | cons k ks ih =>
    rw [List.all_cons, Bool.and_eq_true] at hks
    cases x with
    | nil =>
      cases y with
      | nil => rfl
      | cons c y =>
        have hc : sameLetter k c = false := sameLetter_of_isStop hks.1 (hy c rfl)
        simp [afterKeyword?, hc]
    | cons c x =>
      rw [List.cons_append, afterKeyword?, afterKeyword?]
      split
      · exact ih hks.2 x
      · rfl

theorem atBoundary_append (hy : ∀ c ∈ y.head?, isStop c = true) (x : List Char) :
    atBoundary (x ++ y) = atBoundary x := by
  cases x with
  | nil =>
    cases y with
    | nil => rfl
    | cons c y => simp [atBoundary, isWordChar_of_isStop (hy c rfl)]
  | cons c x => rfl

theorem filter_atBoundary_append (hy : ∀ c ∈ y.head?, isStop c = true) (found : Option (List Char)) :
    (found.map (· ++ y)).filter atBoundary = (found.filter atBoundary).map (· ++ y) := by
  cases found with
  | none => rfl
  | some rest =>
    simp only [Option.map_some, Option.filter_some, atBoundary_append hy]
    split <;> rfl

variable (hy : isVoid y = true)
include hy

/-- **What follows a keyword** is followed by the end of the line. -/
theorem after?_append {word : String} (hword : isKeyword word = true) (x : List Char) :
    after? word (x ++ y) = (after? word x).map (· ++ y) := by
  rw [isKeyword, Bool.and_eq_true] at hword
  obtain ⟨hfront, hbehind⟩ := isStop_of_isVoid hy
  unfold after?
  rw [dropBlanks, List.dropWhile_append]
  split
  · -- the keyword would have to stand in the end itself
    rename_i hempty
    have hnone : afterKeyword? word.toList [] = none := by
      cases hletters : word.toList with
      | nil => simp [hletters] at hword
      | cons k ks => rfl
    have hend := afterKeyword?_append hword.2 hbehind []
    rw [List.nil_append, hnone] at hend
    rw [dropBlanks, List.isEmpty_iff.1 hempty, hnone]
    exact hend
  · exact afterKeyword?_append hword.2 hfront _

theorem afterRem?_append (x : List Char) : afterRem? (x ++ y) = (afterRem? x).map (· ++ y) := by
  rw [afterRem?, after?_append hy (by decide), filter_atBoundary_append (isStop_of_isVoid hy).1,
    afterRem?]

theorem isEnd_append {word : String} (hword : isKeyword word = true) (x : List Char) :
    isEnd word (x ++ y) = isEnd word x := by
  unfold isEnd
  rw [after?_append hy (by decide)]
  cases after? "end" x with
  | none => rfl
  | some rest =>
    rw [Option.map_some, Option.bind_some, Option.bind_some, after?_append hy hword]
    cases after? word rest with
    | none => rfl
    | some rest => exact atBoundary_append (isStop_of_isVoid hy).1 rest

end

/-! ## Keywords behind blanks -/

theorem after?_dropBlanks (word : String) (l : List Char) : after? word (dropBlanks l) = after? word l := by
  simp only [after?, dropBlanks, List.dropWhile_idempotent]

theorem afterRem?_dropBlanks (l : List Char) : afterRem? (dropBlanks l) = afterRem? l := by
  rw [afterRem?, after?_dropBlanks, afterRem?]

theorem isEnd_dropBlanks (word : String) (l : List Char) : isEnd word (dropBlanks l) = isEnd word l := by
  rw [isEnd, after?_dropBlanks, isEnd]

end Line

namespace State

open Text (isBlank dropBlanks dropBlanksEnd)

/-! ## Lines -/

theorem line_dropBlanks (s : State) (n : Nat) (l : List Char) : s.line n (dropBlanks l) = s.line n l := by
  have htwice : dropBlanks (dropBlanks l) = dropBlanks l := List.dropWhile_idempotent isBlank l
  unfold line blockLine Line.isEndRem
  rw [Line.afterRem?_dropBlanks, htwice]
  simp only [Line.isEnd_dropBlanks]

theorem line_append_blanks (s : State) (n : Nat) (l : List Char) {bs : List Char}
    (hbs : ∀ c ∈ bs, isBlank c = true) : s.line n (l ++ bs) = s.line n l := by
  have hvoid := Line.isVoid_of_blanks hbs
  have htext := Text.trimmed_append_blanks l hbs
  unfold line
  split
  · unfold blockLine Line.isEndRem
    rw [Line.isEnd_append hvoid (by decide), htext]
  · rw [Line.afterRem?_append hvoid]
    cases Line.afterRem? l with
    | none => rw [Option.map_none, htext]
    | some rest => simp only [Option.map_some, Text.trimmed_append_blanks rest hbs]

/-- **Blanks at the ends of a line do not matter.** -/
theorem line_trimmed (s : State) (n : Nat) (l : List Char) :
    s.line n (dropBlanksEnd (dropBlanks l)) = s.line n l := by
  obtain ⟨bs, hbs, hl⟩ := Text.exists_blanks_end (dropBlanks l)
  calc s.line n (dropBlanksEnd (dropBlanks l))
    _ = s.line n (dropBlanksEnd (dropBlanks l) ++ bs) := (line_append_blanks s n _ hbs).symm
    _ = s.line n (dropBlanks l) := by rw [hl]
    _ = s.line n l := line_dropBlanks s n l

theorem lines_trimmed (s : State) (n : Nat) (ls : List (List Char)) :
    s.lines n (ls.map fun l => dropBlanksEnd (dropBlanks l)) = s.lines n ls := by
  induction ls generalizing s n with
  | nil => rfl
  | cons l ls ih => rw [List.map_cons, lines, lines, line_trimmed, ih]

end State

/-! ## Sources -/

/-- The lines of a source without the blanks around them. -/
def trimmedLines (source : String) : List (List Char) :=
  (Text.lines source.toList).map fun l => Text.dropBlanksEnd (Text.dropBlanks l)

/-- **Indentation does not matter.** Sources whose lines are the same but for blanks around them are
scanned alike: they have the same entries, links, targets and events. -/
theorem scan_of_trimmed_lines {source source' : String} (h : trimmedLines source = trimmedLines source')
    (file : Path) (options : Options) : scan source file options = scan source' file options := by
  have hlast (t : String) :
      lastState t file options = State.lines { file, options } 1 (trimmedLines t) :=
    (State.lines_trimmed { file, options } 1 (Text.lines t.toList)).symm
  rw [scan_eq, scan_eq, hlast, hlast, h]

/-- A declaration over two lines, an unknown tag and a stray end, with and without blanks. -/
theorem scan_indentedSource :
    let plain := "Rem\nbbdoc: Adds\nnote: 1\nEnd Rem\nMethod Add( ..\nv:Int )\nEnd Type\n"
    let indented := "\tRem \r\n bbdoc: Adds\n\u00a0note: 1\t\nEnd Rem\n Method Add( ..\t\n\t v:Int )\n"
      ++ "\tEnd Type \u3000"
    trimmedLines indented = trimmedLines plain ∧
      scan indented ⟨"f.bmx"⟩ {} = scan plain ⟨"f.bmx"⟩ {} ∧
      (scan plain ⟨"f.bmx"⟩ {}).analysis.docs.map (·.declaration.raw) = ["Method Add( v:Int )"] ∧
      (scan plain ⟨"f.bmx"⟩ {}).log = [.unknownTag ⟨"f.bmx"⟩ 3 "note", .endWithoutAggregate ⟨"f.bmx"⟩ 7] := by
  intro plain indented
  have hlines : trimmedLines indented = trimmedLines plain := by decide +kernel
  exact ⟨hlines, scan_of_trimmed_lines hlines _ _, by decide +kernel, by decide +kernel⟩

end BlitzDoc.Source
