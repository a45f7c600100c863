import BlitzDoc.Proofs.CommandIndex.Entries

/-!
# The index line by line

Nothing is carried over from one line of the index to the next, and of the entries with one key the
first is kept. So an index that is put together from two texts has the entries of the first, and those
of the second whose keys are new (`parse_newline`). Carriage returns are passed over, and every entry is
that of a line (`keyed_line`) and found under its own key, which is its name in lower case.
-/

namespace BlitzDoc

/-- A text does not vanish in lower case. -/
theorem Text.lower_ne_empty {s : String} (h : s ≠ "") : lower s ≠ "" := by
  cases hs : s.toList with
  | nil => exact absurd (String.toList_eq_nil_iff.1 hs) h
  | cons c cs =>
    rw [lower, hs, lowerAfter]
    split
    · simp
    · unfold lowerChar
      split <;> simp

namespace CommandIndex

/-! ## Lines -/

theorem lines_newline (a b : String) : lines (a ++ "\n" ++ b) = lines a ++ lines b := by
  have htext : (a ++ "\n" ++ b).toList = a.toList ++ '\n' :: b.toList := by simp
  rw [lines, htext, linesFrom_newline]
  rfl

/-- The text without its carriage returns. -/
def withoutReturns (text : String) : String :=
  String.ofList (text.toList.filter (· != '\r'))

theorem linesFrom_filter (s : State) (cs : List Char) :
    linesFrom s (cs.filter (· != '\r')) = linesFrom s cs := by
  induction cs generalizing s with
  | nil => rfl
  | cons c cs ih =>
    by_cases hreturn : c = '\r'
    · have hstep : s.step '\r' = s := by simp [State.step]
      rw [hreturn, List.filter_cons_of_neg (by simp), ih, linesFrom, if_neg (by decide), hstep]
    · rw [List.filter_cons_of_pos (by simpa using hreturn), linesFrom, linesFrom]
      split <;> rw [ih]

theorem lines_withoutReturns (text : String) : lines (withoutReturns text) = lines text := by
  rw [lines, withoutReturns, String.toList_ofList, linesFrom_filter]
  rfl

/-! ## The first entry of each key -/

theorem find?_insert (acc : List HelpEntry × List Event) (e : HelpEntry) (key : String) :
    find? (insert acc e).1 key = (find? acc.1 key).or (find? [e] key) := by
  unfold insert
  split
  · rename_i htaken
    by_cases hkey : e.searchKey = key
    · obtain ⟨first, hfirst⟩ := Option.isSome_iff_exists.1 htaken
      rw [← hkey, hfirst, Option.some_or]
    · have hother : find? [e] key = none := by simp [find?, hkey]
      rw [hother, Option.or_none]
  · simp only [find?, List.find?_append]

/-- **The first entry of a key is kept.** -/
theorem find?_foldl_insert (es : List HelpEntry) (acc : List HelpEntry × List Event) (key : String) :
    find? (es.foldl insert acc).1 key = (find? acc.1 key).or (find? es key) := by
  induction es generalizing acc with
  | nil => simp [find?]
  | cons e es ih =>
    have hcons : find? (e :: es) key = (find? [e] key).or (find? es key) := by
      simp only [find?, ← List.find?_append, List.singleton_append]
    rw [List.foldl_cons, ih, find?_insert, hcons, Option.or_assoc]

theorem find?_parse (text key : String) :
    find? (parse text).1 key = find? ((lines text).filterMap id) key := by
  rw [parse, find?_foldl_insert]
  rfl

/-- Every entry is found under its own key and has the property. -/
structure Keyed (P : HelpEntry → Prop) (entries : List HelpEntry) : Prop where
  found : ∀ e ∈ entries, find? entries e.searchKey = some e
  holds : ∀ e ∈ entries, P e

section
variable {P : HelpEntry → Prop} {acc : List HelpEntry × List Event}

theorem keyed_insert (h : Keyed P acc.1) {e : HelpEntry} (he : P e) : Keyed P (insert acc e).1 := by
  have hmem : ∀ x ∈ (insert acc e).1, x ∈ acc.1 ∨ x = e ∧ find? acc.1 e.searchKey = none := by
    intro x hx
    unfold insert at hx
    split at hx
    · exact Or.inl hx
    · rename_i hfree
      rcases List.mem_append.1 hx with hx | hx
      · exact Or.inl hx
      · exact Or.inr ⟨List.mem_singleton.1 hx, by simpa using hfree⟩
  refine ⟨fun x hx => ?_, fun x hx => ?_⟩
  · rw [find?_insert]
    rcases hmem x hx with hx | ⟨rfl, hfree⟩
    · rw [h.found x hx, Option.some_or]
    · rw [hfree, Option.none_or]
      simp [find?]
  · rcases hmem x hx with hx | ⟨rfl, -⟩
    · exact h.holds x hx
    · exact he

theorem keyed_foldl_insert (es : List HelpEntry) (hes : ∀ e ∈ es, P e) (h : Keyed P acc.1) :
    Keyed P (es.foldl insert acc).1 := by
  induction es generalizing acc with
  | nil => exact h
  | cons e es ih =>
    simp only [List.forall_mem_cons] at hes
    exact ih hes.2 (keyed_insert h hes.1)

end

/-! ## Names -/

/-- A base is written behind a name, so something of the name is left in front of it. -/
theorem splitExtends_ne_empty {name : String} (htrimmed : Text.IsTrimmed name.toList) (hne : name ≠ "") :
    (splitExtends name).1 ≠ "" := by
  cases hname : name.toList with
  | nil => exact absurd (String.toList_eq_nil_iff.1 hname) hne
  | cons c cs =>
    have hc : Text.isBlank c = false := Text.isBlank_of_dropBlanks (hname ▸ htrimmed.1)
    have hspace : ' ' ∉ [c] := by
      intro hmem
      rw [← List.mem_singleton.1 hmem] at hc
      exact absurd hc (by decide)
    have hcut := cutAt?_of_no_space hspace cs
    rw [List.singleton_append, ← hname] at hcut
    unfold splitExtends
    simp only [hcut]
    cases Text.cutAt? (fun rest => " extends ".toList.isPrefixOf (rest.map Char.toLower)) cs with
    | none => exact hne
    | some cut =>
      -- the part in front of the base starts with the first character of the name
      intro hempty
      simp only [Option.map_some] at hempty
      have hall := Text.isEmpty_trim (String.ofList ([c] ++ cut.1))
      rw [hempty, String.toList_ofList] at hall
      simp [hc] at hall

/-- **What an entry has** of the line that it was read from. -/
theorem finish_spec {s : State} {e : HelpEntry} (h : s.finish = some e) :
    Text.trim s.name ≠ "" ∧ e.name = (splitExtends (Text.trim s.name)).1 ∧
      e.searchKey = Text.lower e.name ∧ e.returns = TypeName.expand s.returns ∧
      (e.args = (s.params.map Signature.State.finishArg).filter fun a => !a.name.isEmpty) ∧
      e.template = template e.name e.kind e.args e.default := by
  by_cases hempty : Text.trim s.name = ""
  · simp [State.finish, hempty] at h
  · cases hsplit : splitExtends (Text.trim s.name) with
    | mk name base =>
      simp only [State.finish, String.isEmpty_iff, hempty, if_false, hsplit, Option.some.injEq] at h
      subst h
      exact ⟨hempty, rfl, rfl, rfl, rfl, rfl⟩

/-- The entry has a name, and its key is the name in lower case. -/
def IsNamed (e : HelpEntry) : Prop :=
  e.searchKey = Text.lower e.name ∧ e.name ≠ ""

theorem isNamed_of_finish {s : State} {e : HelpEntry} (h : s.finish = some e) : IsNamed e := by
  obtain ⟨hne, hname, hkey, -⟩ := finish_spec h
  have htrimmed : Text.IsTrimmed (Text.trim s.name).toList := by
    rw [Text.trim, String.toList_ofList]
    exact Text.isTrimmed_trimmed s.name.toList
  exact ⟨hkey, hname ▸ splitExtends_ne_empty htrimmed hne⟩

/-- An entry is that of a line, also of one whose beginning was read before. -/
theorem exists_line_of_mem_linesFrom {front cs : List Char} (hfront : '\n' ∉ front) {e : HelpEntry}
    (h : some e ∈ linesFrom (State.steps {} front) cs) :
    ∃ line, '\n' ∉ line ∧ (State.steps {} line).finish = some e := by
  induction cs generalizing front with
  | nil => exact ⟨front, hfront, (List.mem_singleton.1 h).symm⟩
  | cons c cs ih =>
    rw [linesFrom] at h
    split at h
    · rcases List.mem_cons.1 h with h | h
      · exact ⟨front, hfront, h.symm⟩
      · exact ih List.not_mem_nil h
    · rename_i hc
      have hnext : '\n' ∉ front ++ [c] := by
        have hne : '\n' ≠ c := fun e => hc e.symm
        simp [hfront, hne]
      refine ih hnext ?_
      rwa [State.steps_append]

/-- Every entry of an index is that of a line. -/
theorem keyed_line (text : String) :
    Keyed (fun e => ∃ line, '\n' ∉ line ∧ (State.steps {} line).finish = some e) (parse text).1 := by
  refine keyed_foldl_insert _ (fun e he => ?_) ⟨by simp, by simp⟩
  have hmem : some e ∈ linesFrom {} text.toList := by simpa [lines] using he
  exact exists_line_of_mem_linesFrom List.not_mem_nil hmem

theorem keyed_finish (text : String) :
    Keyed (fun e => ∃ s : State, s.finish = some e) (parse text).1 := by
  refine ⟨(keyed_line text).found, fun e he => ?_⟩
  obtain ⟨line, -, hline⟩ := (keyed_line text).holds e he
  exact ⟨_, hline⟩

theorem keyed_parse (text : String) : Keyed IsNamed (parse text).1 := by
  refine ⟨(keyed_finish text).found, fun e he => ?_⟩
  obtain ⟨s, hs⟩ := (keyed_finish text).holds e he
  exact isNamed_of_finish hs

/-! ## The whole index -/

/-- **The index is read line by line, and the first entry of a key is kept.** An index `a` with the
lines of `b` below it has under each key what `a` has, or else what `b` has. It does not matter what
state `a` ends in, nor where carriage returns stand. Every entry is found under its own key, the lower
case of its name, and neither is empty. -/
theorem parse_newline (a b : String) :
    (∀ key, find? (parse (a ++ "\n" ++ b)).1 key =
        (find? (parse a).1 key).or (find? (parse b).1 key)) ∧
      parse (withoutReturns a) = parse a ∧
      ∀ e ∈ (parse a).1, find? (parse a).1 e.searchKey = some e ∧
        e.searchKey = Text.lower e.name ∧ e.name ≠ "" ∧ e.searchKey ≠ "" := by
  refine ⟨fun key => ?_, ?_, fun e he => ?_⟩
  · rw [find?_parse, find?_parse, find?_parse, lines_newline, List.filterMap_append]
    exact List.find?_append
  · rw [parse, lines_withoutReturns, parse]
  · obtain ⟨hkey, hname⟩ := (keyed_parse a).holds e he
    exact ⟨(keyed_parse a).found e he, hkey, hname, hkey ▸ Text.lower_ne_empty hname⟩

/-- The first text ends inside of a string, and both have a command `abs`. -/
example :
    let a := "Abs%( n% )|first|\r\nNote$=\"open"
    let b := "ABS|second|\nTList extends TObject|list|"
    (parse (a ++ "\n" ++ b)).1.map (fun e => (e.searchKey, e.description)) =
        [("abs", "first"), ("note", ""), ("tlist", "list")] ∧
      (parse (a ++ "\n" ++ b)).2 = [.duplicateCommand "ABS"] := by
  decide +kernel

end CommandIndex

end BlitzDoc
