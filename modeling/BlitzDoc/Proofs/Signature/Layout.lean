import BlitzDoc.Proofs.Signature.Params

/-!
# Reading a signature in its uniform layout

`Declaration.layout` writes a declaration as a signature. When the declaration is `Printable` (its
names are names, its types are spelled out, its types and defaults are balanced texts) the signature
is read back as the declaration that it came from, and nothing about it is odd: `read_layout`.

A signature is read part by part: `steps_label` takes the keyword, `steps_declName` the name. An
argument list is one of the lists that `steps_params` speaks of (`exists_params`), and a variable goes
on with its type and its value (`steps_returns`, `steps_value`).
-/

namespace BlitzDoc

open Text (IsName IsTrimmed IsPlain isBalanced depthAfter unquoted balanced_cases)

/-- The kind has a type and a value instead of an argument list. -/
def Kind.isVariable : Kind → Bool
  | const | global | localVar | field => true
  | _ => false

theorem TypeName.expand_append_blanks (xs : List Char) {bs : List Char}
    (hbs : ∀ c ∈ bs, Text.isBlank c = true) :
    expand (String.ofList (xs ++ bs)) = expand (String.ofList xs) := by
  rw [expand, expand, Text.trim_append_blanks xs hbs]

namespace Signature

/-! ## Declarations that can be read back -/

/-- The text can stand behind an equals sign. -/
structure IsValue (v : String) : Prop where
  ne_empty : v ≠ ""
  trimmed : IsTrimmed v.toList
  balanced : isBalanced endsDefault 0 false v.toList = true

instance (v : String) : Decidable (IsValue v) :=
  decidable_of_iff (v ≠ "" ∧ IsTrimmed v.toList ∧ isBalanced endsDefault 0 false v.toList = true)
    ⟨fun h => ⟨h.1, h.2.1, h.2.2⟩, fun h => ⟨h.1, h.2, h.3⟩⟩

/-- The argument can be read back from its layout. -/
structure PrintableArg (a : Argument) : Prop where
  name : IsName a.name.toList
  type_ne_empty : a.type ≠ ""
  spelledOut : TypeName.expand a.type = a.type
  noString : '"' ∉ a.type.toList
  balanced : isBalanced endsType 0 false a.type.toList = true
  default : ∀ d ∈ a.default, IsValue d

instance (a : Argument) : Decidable (PrintableArg a) :=
  decidable_of_iff (IsName a.name.toList ∧ a.type ≠ "" ∧ TypeName.expand a.type = a.type ∧
      '"' ∉ a.type.toList ∧ isBalanced endsType 0 false a.type.toList = true ∧
      ∀ d ∈ a.default, IsValue d)
    ⟨fun h => ⟨h.1, h.2.1, h.2.2.1, h.2.2.2.1, h.2.2.2.2.1, h.2.2.2.2.2⟩,
      fun h => ⟨h.1, h.2, h.3, h.4, h.5, h.6⟩⟩

/-- The characters that end the type of a variable or do not belong to it. -/
def returnsMarks : List Char :=
  ['(', '=', ',', '\'', '"']

/-- The declaration can be read back from its layout. -/
structure Printable (d : Declaration) : Prop where
  known : d.kind ≠ .unknown
  name : IsName d.name.toList
  args : d.kind.isCallable = true → ∀ a ∈ d.args, PrintableArg a
  noArgs : d.kind.isCallable = false → d.args = []
  returns : d.kind.isVariable = true →
    TypeName.expand d.returns = d.returns ∧ ∀ c ∈ d.returns.toList, c ∉ returnsMarks
  default : d.kind.isVariable = true → ∀ v ∈ d.default, IsValue v

instance (d : Declaration) : Decidable (Printable d) :=
  decidable_of_iff (d.kind ≠ .unknown ∧ IsName d.name.toList ∧
      (d.kind.isCallable = true → ∀ a ∈ d.args, PrintableArg a) ∧
      (d.kind.isCallable = false → d.args = []) ∧
      (d.kind.isVariable = true →
        TypeName.expand d.returns = d.returns ∧ ∀ c ∈ d.returns.toList, c ∉ returnsMarks) ∧
      (d.kind.isVariable = true → ∀ v ∈ d.default, IsValue v))
    ⟨fun h => ⟨h.1, h.2.1, h.2.2.1, h.2.2.2.1, h.2.2.2.2.1, h.2.2.2.2.2⟩,
      fun h => ⟨h.1, h.2, h.3, h.4, h.5, h.6⟩⟩

/-! ## What is made of the collected texts -/

theorem finishValue_of_isValue {v : String} (h : IsValue v) :
    State.finishValue (some (String.ofList (Text.dropBlanks (' ' :: v.toList)))) = some v := by
  have hdrop : Text.dropBlanks (' ' :: v.toList) = v.toList := h.trimmed.1
  rw [hdrop, String.ofList_toList, State.finishValue, Option.bind_some, Text.trim_of_isTrimmed h.trimmed,
    Text.nonEmpty?_of_ne h.ne_empty]

theorem finishType_append_blanks {t : String} (hne : t ≠ "") (hspelled : TypeName.expand t = t)
    (bs : List Char) (hbs : ∀ c ∈ bs, Text.isBlank c = true) :
    State.finishType (String.ofList (t.toList ++ bs)) = t := by
  rw [State.finishType, TypeName.expand_append_blanks _ hbs, String.ofList_toList, hspelled,
    Text.nonEmpty?_of_ne hne, Option.getD_some]

/-! ## Arguments as parameters -/

/-- An argument in its layout is a parameter as it is written, here behind blanks. -/
theorem exists_param {a : Argument} (ha : PrintableArg a) {gap : List Char}
    (hgap : ∀ c ∈ gap, isGap c = true) :
    ∃ p : Param, p.print = gap ++ a.render.toList ∧ State.finishArg p.collected = a := by
  obtain ⟨name, type, default⟩ := a
  have hblank : ∀ c ∈ gap ++ [], isGap c = true := by simpa using hgap
  have hname : Text.trim name = name := Text.trim_of_isTrimmed ha.name.isTrimmed
  cases default with
  | none =>
    refine ⟨{ before := gap, name := name.toList
              spelling := .typed { text := type.toList, balanced := ha.balanced }
              blank := hblank, isName := ha.name }, ?_, ?_⟩
    · simp [Param.print, Param.printDefault, Spelling.print, Argument.render]
    · have htype : State.finishType type = type := by
        simpa using finishType_append_blanks ha.type_ne_empty ha.spelledOut [] (by simp)
      simp [Param.collected, Spelling.collected, Text.unquoted_of_not_mem ha.noString,
        State.finishArg, htype, hname, State.finishValue]
  | some d =>
    have hd : IsValue d := ha.default d rfl
    have hspace : isBalanced endsType 0 false [' '] = true := by decide
    have hvalue : isBalanced endsDefault 0 false (' ' :: d.toList) = true := by
      simpa [isBalanced, depthAfter, endsDefault] using hd.balanced
    refine ⟨{ before := gap, name := name.toList
              spelling := .typed
                { text := type.toList ++ [' '], balanced := Text.isBalanced_append ha.balanced hspace }
              default := some { text := ' ' :: d.toList, balanced := hvalue }
              blank := hblank, isName := ha.name }, ?_, ?_⟩
    · simp [Param.print, Param.printDefault, Spelling.print, Argument.render]
    · have hquote : '"' ∉ type.toList ++ [' '] := by simpa using ha.noString
      have htype : State.finishType (type ++ " ") = type := by
        simpa using finishType_append_blanks ha.type_ne_empty ha.spelledOut [' '] (by decide)
      simp [Param.collected, Spelling.collected, Text.unquoted_of_not_mem hquote, State.finishArg,
        htype, hname, finishValue_of_isValue hd]

/-- The arguments of a signature in its layout, behind blanks, are a parameter list. -/
theorem exists_params_of_ne {as : List Argument} (has : ∀ a ∈ as, PrintableArg a) (hne : as ≠ [])
    (gap : List Char) (hgap : ∀ c ∈ gap, isGap c = true) :
    ∃ ps : List Param,
      printParams ps = gap ++ [',', ' '].intercalate (as.map fun a => a.render.toList) ∧
        ps.map (fun p => State.finishArg p.collected) = as := by
  induction as generalizing gap with
  | nil => exact absurd rfl hne
  | cons a as ih =>
    obtain ⟨p, hprint, hfinish⟩ := exists_param (has a List.mem_cons_self) hgap
    cases as with
    | nil => exact ⟨[p], by simp [printParams, hprint], by simp [hfinish]⟩
    | cons b as =>
      obtain ⟨ps, hprints, hfinishes⟩ :=
        ih (fun c hc => has c (List.mem_cons_of_mem _ hc)) (by simp) [' '] (by decide)
      cases ps with
      | nil => simp at hfinishes
      | cons q qs =>
        refine ⟨p :: q :: qs, ?_, by rw [List.map_cons, hfinish, hfinishes]⟩
        rw [State.printParams_cons, hprints, hprint]
        simp

theorem exists_params {as : List Argument} (has : ∀ a ∈ as, PrintableArg a) :
    ∃ ps : List Param, printParams ps = (", ".intercalate (as.map Argument.render)).toList ∧
      ps.map (fun p => State.finishArg p.collected) = as := by
  by_cases hne : as = []
  · exact ⟨[], by simp [hne, printParams], by simp [hne]⟩
  · obtain ⟨ps, hprint, hfinish⟩ := exists_params_of_ne has hne [] (by simp)
    refine ⟨ps, ?_, hfinish⟩
    rw [hprint, String.toList_intercalate, List.map_map]
    rfl

namespace State

/-! ## The head of a signature -/

/-- The reader behind the keyword. -/
def keyed (k : Kind) : State :=
  { part := .name, keyword := k.word, kind := k }

/-- The reader behind the name. -/
def named (k : Kind) (name : String) : State :=
  { keyed k with name }

theorem steps_label {k : Kind} (hk : k ≠ .unknown) :
    State.steps {} (k.label ++ " ").toList = keyed k := by
  revert hk
  cases k <;> decide

theorem stepName_plain {s : State} (hended : s.nameEnded = false) {c : Char} (hc : IsPlain c) :
    s.stepName c = { s with name := s.name.push c } := by
  obtain ⟨h1, -, h2, -, -, -, h3, h4, h5, -, -, -, -, h6, h7⟩ := not_mark hc
  simp [stepName, h1, h2, h3, h4, h5, h6, h7, hended, shorthand?_of_isPlain hc]

/-- The name of a declaration is collected. -/
theorem steps_declName (k : Kind) {cs : List Char} (hcs : IsName cs) :
    (keyed k).steps cs = named k (String.ofList cs) := by
  have hplain : ∀ c ∈ cs, IsPlain c := fun c hc => Text.isPlain_of_isNameChar (hcs.2 c hc)
  have hgrow : ∀ name, (named k name).steps cs = named k (name ++ String.ofList cs) := by
    intro name
    rw [← foldl_push]
    clear hcs
    induction cs generalizing name with
    | nil => rfl
    | cons c cs ih =>
      have hc := hplain c List.mem_cons_self
      have hstep : (named k name).step c = named k (name.push c) := by
        have hpart : (named k name).part = .name := rfl
        rw [step_plain (not_mark hc).2.1 rfl, hpart]
        exact stepName_plain rfl hc
      rw [steps_cons, hstep, ih fun d hd => hplain d (List.mem_cons_of_mem _ hd), List.foldl_cons]
  have hstart : keyed k = named k "" := rfl
  rw [hstart, hgrow, String.empty_append]

theorem steps_head {k : Kind} (hk : k ≠ .unknown) {name : String} (hname : IsName name.toList)
    (rest : List Char) :
    State.steps {} ((k.label ++ " ").toList ++ (name.toList ++ rest)) = (named k name).steps rest := by
  rw [steps_append, steps_label hk, steps_append, steps_declName k hname, String.ofList_toList]

/-! ## Variables -/

/-- The type behind a name is collected. -/
theorem steps_returns {s : State} (hpart : s.part = .returns) (hstring : s.inString = false)
    {cs : List Char} (hcs : ∀ c ∈ cs, c ∉ returnsMarks) :
    s.steps cs = { s with returns := s.returns ++ String.ofList cs } := by
  rw [← foldl_push]
  induction cs generalizing s with
  | nil => rfl
  | cons c cs ih =>
    have hc := hcs c List.mem_cons_self
    simp only [returnsMarks, List.mem_cons, List.not_mem_nil, or_false, not_or] at hc
    obtain ⟨hopen, hequals, hcomma, hcomment, hquote⟩ := hc
    have hstep : s.step c = { s with returns := s.returns.push c } := by
      rw [step_plain hquote hstring]
      simp only [hpart, stepReturns, hopen, hequals, hcomma, hcomment, if_false]
    rw [steps_cons, hstep]
    exact ih hpart hstring fun d hd => hcs d (List.mem_cons_of_mem _ hd)

/-- The reader in the value of a variable. -/
def valued (s : State) (v : String) (nest : Nat := 0) (quoted : Bool := false) : State :=
  { s with part := .value, value := some v, nest, inString := quoted }

theorem stepValue_valued (s : State) (v : String) {nest : Nat} {c : Char} (hcomment : c ≠ '\'')
    (hdelim : nest = 0 → c ≠ ')' ∧ endsDefault c = false) :
    (s.valued v nest).stepValue c = s.valued (pushUnlessLeading v c) (depthAfter nest c) := by
  have htrack : (s.valued v nest).trackNest c = s.valued v (depthAfter nest c) := trackNest_eq _ _
  by_cases hzero : nest = 0
  · obtain ⟨hparen, hends⟩ := hdelim hzero
    simp only [endsDefault, beq_eq_false_iff_ne] at hends
    simp only [stepValue, hcomment, hparen, hends, htrack]
    simp [valued]
  · have hnest : (s.valued v nest).nest ≠ 0 := hzero
    simp only [stepValue, hcomment, hnest, htrack]
    simp [valued]

/-- **A value** is collected up to its end, from its first character that is no blank. -/
theorem steps_value (s : State) (v : String) {nest : Nat} {quoted : Bool}
    (hv : quoted = true → v ≠ "") {cs : List Char}
    (h : isBalanced endsDefault nest quoted cs = true) :
    (s.valued v nest quoted).steps cs = s.valued (cs.foldl pushUnlessLeading v) := by
  induction cs generalizing v nest quoted with
  | nil =>
    obtain ⟨rfl, rfl⟩ := Text.balanced_end h
    rfl
  | cons c cs ih =>
    rcases balanced_cases h with ⟨rfl, hrest⟩ | ⟨hquote, rfl, hrest⟩ | ⟨hquote, rfl, hcomment, hdelim, hrest⟩
    · have hstep : (s.valued v nest quoted).step '"' = s.valued (v.push '"') nest (!quoted) := rfl
      rw [steps_cons, hstep, ih _ (fun _ => push_ne_empty _ _) hrest, List.foldl_cons,
        pushUnlessLeading_quote]
    · have hstep : (s.valued v nest true).step c = s.valued (v.push c) nest true := by
        simp [step, hquote, pushLiteral, valued]
      rw [steps_cons, hstep, ih _ (fun _ => push_ne_empty _ _) hrest, List.foldl_cons,
        pushUnlessLeading_of_ne (hv rfl)]
    · have hstep : (s.valued v nest).step c = s.valued (pushUnlessLeading v c) (depthAfter nest c) := by
        have hpart : (s.valued v nest).part = .value := rfl
        rw [step_plain hquote rfl, hpart]
        exact stepValue_valued s v hcomment hdelim
      rw [steps_cons, hstep, ih _ (by simp) hrest, List.foldl_cons]

theorem step_openValue {s : State} (hpart : s.part = .name ∨ s.part = .returns)
    (hstring : s.inString = false) : s.step '=' = s.valued "" := by
  rw [step_plain (by decide) hstring]
  rcases hpart with hpart | hpart <;>
    simp [hpart, stepName, stepReturns, openValue, valued, hstring]

/-! ## What has been read in the end -/

/-- The reader holds what makes up the declaration, and nothing was odd. -/
structure Holds (s : State) (d : Declaration) : Prop where
  named : s.part ≠ .type
  kind : s.kind = d.kind
  name : s.name = d.name
  args : s.args.map finishArg = d.args
  returns : d.kind.isVariable = true → TypeName.expand s.returns = d.returns
  value : d.kind.isVariable = true → finishValue s.value = d.default
  issues : s.allIssues = []

theorem holds_callable {d : Declaration} (h : Printable d) (hk : d.kind.isCallable = true) :
    Holds ((named d.kind d.name).steps
      ('(' :: ((", ".intercalate (d.args.map Argument.render)).toList ++ [')']))) d := by
  obtain ⟨ps, hprint, hfinish⟩ := exists_params (h.args hk)
  have hopen : (named d.kind d.name).step '(' =
      { named d.kind d.name with inArgs := true }.between [] := rfl
  obtain ⟨i, hread⟩ := steps_params { named d.kind d.name with inArgs := true } [] ps
  have hvariable : d.kind.isVariable = true → False := by
    revert hk
    cases d.kind <;> decide
  rw [steps_cons, hopen, ← hprint, hread]
  refine ⟨by simp [closed], rfl, rfl, ?_, fun hv => (hvariable hv).elim,
    fun hv => (hvariable hv).elim, rfl⟩
  simp only [closed, List.nil_append, List.map_map]
  exact hfinish

/-- The type of a variable behind its colon, if it has one. -/
def printReturns (returns : String) : List Char :=
  if returns.isEmpty then [] else ':' :: returns.toList

/-- The value of a variable behind its equals sign, if it has one. -/
def printValue (value : Option String) : List Char :=
  value.elim [] fun v => ' ' :: '=' :: ' ' :: v.toList

/-- The reader stands behind the name or the type of a variable, where a value may follow. -/
structure Heads (s : State) (d : Declaration) : Prop where
  part : s.part = .name ∨ s.part = .returns
  kind : s.kind = d.kind
  name : s.name = d.name
  args : s.args = []
  returns : TypeName.expand s.returns = d.returns
  value : s.value = none
  outside : s.inString = false ∧ s.inArgs = false
  issues : s.issues = []

theorem heads_returns {d : Declaration} (hspelled : TypeName.expand d.returns = d.returns)
    (hmarks : ∀ c ∈ d.returns.toList, c ∉ returnsMarks) :
    Heads ((named d.kind d.name).steps (printReturns d.returns)) d := by
  by_cases hempty : d.returns = ""
  · rw [hempty] at hspelled
    have hnothing : printReturns d.returns = [] := by simp [printReturns, hempty]
    rw [hnothing, steps_nil]
    exact ⟨.inl rfl, rfl, rfl, rfl, hspelled.trans hempty.symm, rfl, ⟨rfl, rfl⟩, rfl⟩
  · have hisEmpty : d.returns.isEmpty = false := by
      rw [Bool.eq_false_iff, ne_eq, String.isEmpty_iff]
      exact hempty
    have hcolon : (named d.kind d.name).step ':' = { named d.kind d.name with part := .returns } := rfl
    simp only [printReturns, hisEmpty, Bool.false_eq_true, if_false, steps_cons, hcolon]
    rw [steps_returns rfl rfl hmarks, String.ofList_toList]
    have hreturns : TypeName.expand ("" ++ d.returns) = d.returns := by
      rw [String.empty_append]
      exact hspelled
    exact ⟨.inr rfl, rfl, rfl, rfl, hreturns, rfl, ⟨rfl, rfl⟩, rfl⟩

/-- A space behind the name or the type says nothing. -/
theorem heads_space {s : State} {d : Declaration} (h : Heads s d) : Heads (s.step ' ') d := by
  have hstep := step_plain (s := s) (c := ' ') (by decide) h.outside.1
  rcases h.part with hpart | hpart
  · have hs : s.step ' ' = s.stepName ' ' := by rw [hstep, hpart]
    rw [hs]
    exact ⟨.inl hpart, h.kind, h.name, h.args, h.returns, h.value, h.outside, h.issues⟩
  · have hs : s.step ' ' = s.stepReturns ' ' := by rw [hstep, hpart]
    have hblank : TypeName.expand (s.returns.push ' ') = d.returns := by
      have hspace : ∀ c ∈ [' '], Text.isBlank c = true := by decide
      have hexpand := TypeName.expand_append_blanks s.returns.toList hspace
      rw [String.ofList_append, String.ofList_toList] at hexpand
      exact hexpand.trans h.returns
    rw [hs]
    exact ⟨.inr hpart, h.kind, h.name, h.args, hblank, h.value, h.outside, h.issues⟩

theorem holds_variable {d : Declaration} (h : Printable d) (hk : d.kind.isVariable = true) :
    Holds ((named d.kind d.name).steps (printReturns d.returns ++ printValue d.default)) d := by
  obtain ⟨hspelled, hmarks⟩ := h.returns hk
  have hargs : d.args = [] := by
    apply h.noArgs
    revert hk
    cases d.kind <;> decide
  have htyped := heads_returns hspelled hmarks
  rw [steps_append]
  generalize (named d.kind d.name).steps (printReturns d.returns) = s at htyped
  have hissues : s.allIssues = [] := by
    simp [allIssues, htyped.issues, htyped.outside.1, htyped.outside.2]
  cases hdefault : d.default with
  | none =>
    have hpart : s.part ≠ .type := by
      rcases htyped.part with hpart | hpart <;> simp [hpart]
    refine ⟨hpart, htyped.kind, htyped.name, by simp [htyped.args, hargs, printValue, steps_nil],
      fun _ => htyped.returns, fun _ => ?_, hissues⟩
    simp [printValue, steps_nil, htyped.value, finishValue, hdefault]
  | some v =>
    have hv := h.default hk v hdefault
    have hbalanced : isBalanced endsDefault 0 false (' ' :: v.toList) = true := by
      simpa [isBalanced, depthAfter, endsDefault] using hv.balanced
    have hspaced := heads_space htyped
    have hissues : (s.step ' ').issues = [] ∧ (s.step ' ').inArgs = false :=
      ⟨hspaced.issues, hspaced.outside.2⟩
    simp only [printValue, Option.elim_some]
    rw [steps_cons, steps_cons, step_openValue hspaced.part hspaced.outside.1,
      steps_value _ _ (by simp) hbalanced, foldl_pushUnlessLeading]
    refine ⟨by simp [valued], hspaced.kind, hspaced.name, by simp [valued, hspaced.args, hargs],
      fun _ => hspaced.returns, fun _ => ?_, by simp [allIssues, valued, hissues.1, hissues.2]⟩
    rw [hdefault]
    exact finishValue_of_isValue hv

theorem holds_bare {d : Declaration} (h : Printable d) (hcallable : d.kind.isCallable = false)
    (hvariable : d.kind.isVariable = false) : Holds (named d.kind d.name) d :=
  ⟨by simp [named, keyed], rfl, rfl, (h.noArgs hcallable).symm, fun hk => by simp [hvariable] at hk,
    fun hk => by simp [hvariable] at hk, rfl⟩

end State

/-! ## Reading a layout -/

theorem layout_head {d : Declaration} (hk : d.kind ≠ .unknown) :
    (if d.kind.label.isEmpty then d.name else d.kind.label ++ " " ++ d.name) =
      d.kind.label ++ " " ++ d.name := by
  have hlabel : d.kind.label.isEmpty = false := by
    revert hk
    cases d.kind <;> decide
  simp [hlabel]

/-- The layout of a declaration is its head and what the kind of it asks for. -/
theorem exists_layout {d : Declaration} (h : Printable d) :
    ∃ rest, d.layout.toList = (d.kind.label ++ " ").toList ++ (d.name.toList ++ rest) ∧
      State.Holds ((State.named d.kind d.name).steps rest) d := by
  unfold Declaration.layout
  rw [layout_head h.known]
  by_cases hcallable : d.kind.isCallable = true
  · refine ⟨_, ?_, State.holds_callable h hcallable⟩
    simp [hcallable]
  · have hcallable : d.kind.isCallable = false := by simpa using hcallable
    have hargs := h.noArgs hcallable
    by_cases hvariable : d.kind.isVariable = true
    · refine ⟨_, ?_, State.holds_variable h hvariable⟩
      have hplain : (!d.kind.isAggregate && d.kind != .keyword) = true := by
        revert hvariable
        cases d.kind <;> decide
      simp only [hcallable, hargs, hplain, State.printReturns, State.printValue]
      cases d.default <;> by_cases hempty : d.returns = "" <;> simp [hempty]
    · have hvariable : d.kind.isVariable = false := by simpa using hvariable
      refine ⟨[], ?_, State.holds_bare h hcallable hvariable⟩
      have hplain : (!d.kind.isAggregate && d.kind != .keyword) = false := by
        have hknown := h.known
        revert hcallable hvariable hknown
        cases d.kind <;> decide
      simp [hcallable, hargs, hplain]

/-- **Reading the layout of a declaration** gives its kind, its name and its arguments, the type and
the value of a variable too, and finds nothing odd. -/
theorem read_layout (d : Declaration) (h : Printable d) (file : Path) (line : Nat) :
    (read d.layout file line).1.kind = d.kind ∧
      (read d.layout file line).1.name = d.name ∧
      (read d.layout file line).1.args = d.args ∧
      (d.kind.isVariable = true → (read d.layout file line).1.returns = d.returns ∧
        (read d.layout file line).1.default = d.default) ∧
      (read d.layout file line).2 = [] := by
  obtain ⟨rest, hlayout, hholds⟩ := exists_layout h
  rw [← State.steps_head h.known h.name rest, ← hlayout] at hholds
  have hnamed : ((State.steps {} d.layout.toList).part != .type) = true := by
    simpa using hholds.named
  have hname : Text.trim d.name = d.name := Text.trim_of_isTrimmed h.name.isTrimmed
  refine ⟨?_, ?_, hholds.args, fun hk => ⟨hholds.returns hk, hholds.value hk⟩, hholds.issues⟩
  · simp only [read, State.finish, hnamed, if_true]
    exact hholds.kind
  · simp only [read, State.finish, hnamed, if_true, hholds.name]
    exact hname

/-- A function with a function among its parameters, and a string that holds delimiters. -/
def sortFunction : Declaration :=
  { kind := .function, name := "Sort"
    args := [
      { name := "items", type := "TList" },
      { name := "compare", type := "Int( a:Object, b:Object=Null )", default := some "Cmp(1, 2)" },
      { name := "note", type := "String[]", default := some "\"),'\" + \"(\"" }] }

/-- A field with a type of several words and a value. -/
def bufferField : Declaration :=
  { kind := .field, name := "_buf", returns := "Byte Ptr", default := some "Alloc(8, \",\")" }

theorem read_layout_sort :
    sortFunction.layout = "Function Sort(items:TList, compare:Int( a:Object, b:Object=Null ) = "
      ++ "Cmp(1, 2), note:String[] = \"),'\" + \"(\")" ∧
    (read sortFunction.layout ⟨"sort.bmx"⟩ 1).1.args = sortFunction.args ∧
    (read sortFunction.layout ⟨"sort.bmx"⟩ 1).2 = [] ∧
    bufferField.layout = "Field _buf:Byte Ptr = Alloc(8, \",\")" ∧
    (read bufferField.layout ⟨"sort.bmx"⟩ 2).1.returns = "Byte Ptr" ∧
    (read bufferField.layout ⟨"sort.bmx"⟩ 2).1.default = some "Alloc(8, \",\")" := by
  obtain ⟨-, -, hargs, -, hissues⟩ :=
    read_layout sortFunction (by decide +kernel) ⟨"sort.bmx"⟩ 1
  obtain ⟨-, -, -, hvariable, -⟩ := read_layout bufferField (by decide +kernel) ⟨"sort.bmx"⟩ 2
  exact ⟨by decide +kernel, hargs, hissues, by decide +kernel, (hvariable rfl).1, (hvariable rfl).2⟩

end Signature

end BlitzDoc
