import BlitzDoc.Proofs.Imports.Closure

/-!
# Links in another order

The lines of a source that import or include files can change places. Where such lines stand together
in code, a scan finds the same targets in any order of them (`Moved.targets_perm`), and so projects
whose files differ in the order of their links alone have the same graph (`sameGraph_of_reordered`).

A line of links takes a documentation text that waits, and otherwise adds its names and moves nothing that
later lines are read by (`line_link`). What must not stand in between is a line that goes on: two dots
behind a link carry the text that it took over to the next line, which is then no link any more.
-/

namespace BlitzDoc.Source

open State (Alike)

/-! ## Lines of links -/

/-- The code of a line. -/
def codeIn (l : List Char) : List Char :=
  Line.stripComment (Text.dropBlanksEnd (Text.dropBlanks l))

/-- The line is read as an import or an include, wherever the scan stands in code, and does not go on. -/
structure IsLink (l : List Char) : Prop where
  noBlock : Line.afterRem? l = none
  noAggregate : Line.opensAggregate (codeIn l) = false ∧ Line.closesAggregate (codeIn l) = false
  noModule : Line.moduleName? (codeIn l) = none
  names : (Line.importValue? (codeIn l)).isSome = true ∨ (Line.includeValue? (codeIn l)).isSome = true
  ends : Text.stripEnd? ['.', '.'] (codeIn l) = none

instance (l : List Char) : Decidable (IsLink l) :=
  decidable_of_iff (Line.afterRem? l = none ∧
      (Line.opensAggregate (codeIn l) = false ∧ Line.closesAggregate (codeIn l) = false) ∧
      Line.moduleName? (codeIn l) = none ∧
      ((Line.importValue? (codeIn l)).isSome = true ∨ (Line.includeValue? (codeIn l)).isSome = true) ∧
      Text.stripEnd? ['.', '.'] (codeIn l) = none)
    ⟨fun ⟨h₁, h₂, h₃, h₄, h₅⟩ => ⟨h₁, h₂, h₃, h₄, h₅⟩,
      fun h => ⟨h.noBlock, h.noAggregate, h.noModule, h.names, h.ends⟩⟩

/-- The files that a line of links names, where links are noted. -/
def namesIn (options : Options) (l : List Char) : List String :=
  if options.isModuleEntry || options.followImports then
    ((Line.importValue? (codeIn l)).or (Line.includeValue? (codeIn l))).elim [] Line.quoted
  else []

namespace State

/-- The scan stands in code: no comment is open, and no declaration goes on. -/
def InCode (s : State) : Prop :=
  s.blocks = [] ∧ s.unfinished = none

instance (s : State) : Decidable s.InCode :=
  inferInstanceAs (Decidable (_ ∧ _))

theorem importLine_eq (s : State) (value : List Char) : ∃ result, s.importLine value =
    { s with targets := s.targets ++ (Line.quoted value).map s.file.linked, result } := by
  unfold importLine
  cases hq : Line.quoted value with
  | nil =>
    simp only [List.map_nil, List.append_nil]
    exact ⟨_, rfl⟩
  | cons name names => exact ⟨_, rfl⟩

/-- The structure of a line of links is its names. -/
theorem structureLine_link (s : State) (n : Nat) (entry : Option Nat) {l : List Char} (h : IsLink l) :
    ∃ result, s.structureLine n (codeIn l) entry =
      { s with targets := s.targets ++ (namesIn s.options l).map s.file.linked, result } := by
  have hnames := h.names
  have hoptions : (s.options.isModuleEntry || s.options.followImports) = s.recordsLinks := rfl
  simp only [structureLine, h.noAggregate.1, h.noAggregate.2, h.noModule, Bool.false_eq_true, if_false,
    namesIn, hoptions]
  cases hrecords : s.recordsLinks with
  | true =>
    cases himport : Line.importValue? (codeIn l) with
    | some value => exact importLine_eq s value
    | none =>
      cases hinclude : Line.includeValue? (codeIn l) with
      | some value => exact ⟨_, rfl⟩
      | none => simp [himport, hinclude] at hnames
  | false =>
    refine ⟨s.result, ?_⟩
    simp only [Bool.false_eq_true, if_false, List.map_nil, List.append_nil]
    split
    · rfl
    · split <;> rfl

/-- **A line of links** adds its names and takes the documentation text that waits. -/
theorem line_link {s : State} (hcode : s.InCode) (n : Nat) {l : List Char} (h : IsLink l) :
    ∃ result log, s.line n l =
      { s with
        pending := none
        targets := s.targets ++ (namesIn s.options l).map s.file.linked
        result
        log } := by
  obtain ⟨hblocks, hunfinished⟩ := hcode
  have hcode : (codeIn l).isEmpty = false := by
    rw [Bool.eq_false_iff]
    intro hempty
    have hnames := h.names
    rw [List.isEmpty_iff.1 hempty] at hnames
    revert hnames
    decide
  have htext : (Text.dropBlanksEnd (Text.dropBlanks l)).isEmpty = false := by
    rw [Bool.eq_false_iff]
    intro hempty
    rw [codeIn, List.isEmpty_iff.1 hempty] at hcode
    cases hcode
  have hline : s.line n l = s.codeLine n (codeIn l) := by
    simp only [line, hblocks, h.noBlock, htext, Bool.false_eq_true, if_false]
    rw [codeIn] at hcode
    rw [hcode]
    rfl
  rw [hline]
  cases hpending : s.pending with
  | none =>
    obtain ⟨result, hstructure⟩ := structureLine_link s n none h
    refine ⟨result, s.log, ?_⟩
    rw [codeLine_of_none n _ hunfinished hpending, hstructure, ← hpending]
  | some doc =>
    rw [codeLine_of_pending n _ hunfinished hpending, declarationLine, h.ends]
    obtain ⟨result, hstructure⟩ := structureLine_link
      ({ s with pending := none }.bind doc n (codeIn l)) n (some s.result.docs.length) h
    exact ⟨result, _, hstructure⟩

/-- **Lines of links** add their names, one line after the other. -/
theorem lines_links {s : State} (hcode : s.InCode) {ls : List (List Char)} (hls : ∀ l ∈ ls, IsLink l)
    (n : Nat) : ∃ result log, s.lines n ls =
      { s with
        pending := if ls.isEmpty then s.pending else none
        targets := s.targets ++ (ls.flatMap (namesIn s.options)).map s.file.linked
        result
        log } := by
  induction ls generalizing s n with
  | nil => exact ⟨s.result, s.log, by simp [lines]⟩
  | cons l ls ih =>
    obtain ⟨hl, hls⟩ := List.forall_mem_cons.1 hls
    obtain ⟨result, log, hline⟩ := line_link hcode n hl
    obtain ⟨result', log', hlines⟩ := ih (s := s.line n l) (by rw [hline]; exact hcode) hls (n + 1)
    refine ⟨result', log', ?_⟩
    rw [lines, hlines, hline]
    simp

end State

/-! ## Sources -/

/-- Lines of links that stand together in code are in another order. -/
def Moved (options : Options) (source source' : String) : Prop :=
  ∃ front links links' back : List (List Char),
    Text.lines source.toList = front ++ links ++ back ∧
      Text.lines source'.toList = front ++ links' ++ back ∧ links.Perm links' ∧
      (∀ l ∈ links, IsLink l) ∧ (State.lines { file := ⟨""⟩, options } 1 front).InCode

/-- The sources differ in the order of lines of links alone. -/
def Reordered (options : Options) : String → String → Prop :=
  Relation.ReflTransGen (Moved options)

section
variable {options : Options} {source source' : String}

/-- **Links that change places name the same files.** -/
theorem Moved.targets_perm (h : Moved options source source') (file : Path) :
    (scan source file options).targets.Perm (scan source' file options).targets := by
  obtain ⟨front, links, links', back, hlines, hlines', hperm, hlinks, hfront⟩ := h
  have hcode : (State.lines { file, options } 1 front).InCode := by
    have hstart : Alike [] [] { file := ⟨""⟩, options } { file, options } :=
      ⟨_, _, _, _, _, [], rfl, rfl, rfl⟩
    obtain ⟨_, _, _, _, _, _, halike, -, -⟩ := State.alike_lines hstart front 1
    rw [halike]
    exact hfront
  simp only [scan_eq, State.finish_targets, lastState, hlines, hlines', State.lines_append,
    List.length_append, hperm.length_eq]
  have hfile := State.lines_file { file, options } 1 front
  generalize State.lines { file, options } 1 front = s at hcode hfile ⊢
  obtain ⟨result, log, hs⟩ := State.lines_links hcode hlinks (1 + front.length)
  obtain ⟨result', log', hs'⟩ := State.lines_links hcode (fun l hl => hlinks l (hperm.mem_iff.2 hl))
    (1 + front.length)
  have hempty : links'.isEmpty = links.isEmpty := by
    rw [Bool.eq_iff_iff, List.isEmpty_iff_length_eq_zero, List.isEmpty_iff_length_eq_zero,
      hperm.length_eq]
  rw [hempty] at hs'
  -- behind the links the two runs stand at the same point
  have halike : Alike (s.lines (1 + front.length) links).targets
      (s.lines (1 + front.length) links').targets (s.lines (1 + front.length) links)
      (s.lines (1 + front.length) links') := by
    rw [hs, hs']
    exact ⟨_, _, _, _, _, [], rfl, by simp, by simp⟩
  obtain ⟨file', _, targets, _, _, names, hend, htargets, htargets'⟩ :=
    State.alike_lines halike back (1 + (front.length + links'.length))
  have hsame : file' = file := by
    have h := State.lines_file (s.lines (1 + front.length) links')
      (1 + (front.length + links'.length)) back
    rw [hend, State.lines_file, hfile] at h
    exact h
  rw [hend, htargets, htargets', hsame, State.lines_file, State.lines_file, hfile, hs, hs']
  exact (((hperm.flatMap_right _).map _).append_left _).append_right _

theorem Reordered.targets_perm (h : Reordered options source source') (file : Path) :
    (scan source file options).targets.Perm (scan source' file options).targets := by
  induction h with
  | refl => exact .refl _
  | tail _ hmoved ih => exact ih.trans (hmoved.targets_perm file)

end

/-- Two imports, the first of them documented, in either order. -/
example : Reordered {}
    "Rem\nbbdoc: A\nEnd Rem\nImport \"a.bmx\"\nInclude \"b.bmx\" ' last\nFunction A()"
    "Rem\nbbdoc: A\nEnd Rem\nInclude \"b.bmx\" ' last\nImport \"a.bmx\"\nFunction A()" :=
  .single ⟨["Rem".toList, "bbdoc: A".toList, "End Rem".toList],
    ["Import \"a.bmx\"".toList, "Include \"b.bmx\" ' last".toList],
    ["Include \"b.bmx\" ' last".toList, "Import \"a.bmx\"".toList], ["Function A()".toList],
    by decide +kernel, by decide +kernel, .swap _ _ _, by decide +kernel, by decide +kernel⟩

end BlitzDoc.Source

namespace BlitzDoc.Imports

open Source (Options Reordered)

/-! ## Graphs -/

/-- **The order of links makes no difference to the graph of files.** Where the root and all files that
can be read differ in the order of their links alone, every file names the same files. -/
theorem sameGraph_of_reordered {t t' : FileTree} {options : Options} {source source' : String}
    (hroot : Reordered options source source')
    (hfiles : ∀ q, Option.Rel (Reordered { options with isModuleEntry := false })
      (t.read q).toOption (t'.read q).toOption) (file : Path) :
    SameGraph t t' options source source' file := by
  have hread : ∀ q, (∃ e e', t.read q = .error e ∧ t'.read q = .error e') ∨
      ∃ text text', t.read q = .ok text ∧ t'.read q = .ok text' ∧
        Reordered { options with isModuleEntry := false } text text' := by
    intro q
    have hq := hfiles q
    cases htext : t.read q with
    | error e =>
      cases htext' : t'.read q with
      | error e' => exact .inl ⟨e, e', rfl, rfl⟩
      | ok text' => rw [htext, htext'] at hq; cases hq
    | ok text =>
      cases htext' : t'.read q with
      | error e' => rw [htext, htext'] at hq; cases hq
      | ok text' =>
        rw [htext, htext'] at hq
        cases hq with
        | some hsame => exact .inr ⟨text, text', rfl, rfl, hsame⟩
  constructor
  · intro f q
    unfold linksAt
    split
    · exact (hroot.targets_perm file).mem_iff.symm
    · rcases hread f with ⟨e, e', he, he'⟩ | ⟨text, text', htext, htext', hsame⟩
      · simp only [he, he']
      · simp only [htext, htext']
        exact (hsame.targets_perm f).mem_iff.symm
  · intro q
    rcases hread q with ⟨e, e', he, he'⟩ | ⟨text, text', htext, htext', -⟩
    · simp [he, he']
    · simp [htext, htext']

end BlitzDoc.Imports
