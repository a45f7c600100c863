import BlitzDoc.Proofs.Signature.Segments

/-!
# The books of the reader

Beside the texts that it collects, the reader of a signature keeps books: a place among the arguments,
a count of open parentheses, whether the argument list is open. A text that is not there would take no
character, a count would not go below zero, and neither would be noted. It never comes to that:
whatever is read, the books agree with the part that is being read.

`Consistent` says what the books hold in each part. Each small change of the reader keeps it, so every
character does (`Consistent.step`) and every run (`Consistent.steps`). Then the characters of a text
find the text that they belong to (`step_text`), a closing parenthesis that is counted has an open one
(`step_paren`), and the list is open from the parenthesis that opens it to the one that closes it
(`steps_part_mem_argParts`). All of it together is `bookkeeping`.
-/

namespace BlitzDoc.Signature

/-! ## The parts -/

/-- The parts in front of a list or a value. -/
def headParts : List Part :=
  [.type, .name, .returns]

/-- The parts that collect a text with parentheses of its own. -/
def textParts : List Part :=
  [.value, .argReturn, .argDefault]

/-- The character ends the text of the part when it stands outside of its parentheses. -/
def isDelimiter (part : Part) (c : Char) : Bool :=
  c == ')' || if part = .argReturn then endsType c else endsDefault c

/-- What is no delimiter is none of the marks that the parts look for. -/
theorem not_mark_of_not_delimiter {part : Part} {n : Nat} {c : Char}
    (h : ¬(n = 0 ∧ isDelimiter part c = true)) :
    ¬(c = ',' ∧ n = 0) ∧ ¬(c = ')' ∧ n = 0) ∧ (part = .argReturn → ¬(c = '=' ∧ n = 0)) := by
  refine ⟨?_, ?_, ?_⟩
  · rintro ⟨rfl, hn⟩
    exact h ⟨hn, by cases part <;> rfl⟩
  · rintro ⟨rfl, hn⟩
    exact h ⟨hn, rfl⟩
  · rintro rfl ⟨rfl, hn⟩
    exact h ⟨hn, rfl⟩

namespace State

theorem not_mem_of_mem_headParts : ∀ part ∈ headParts, part ∉ argParts ∧ part ∉ textParts := by
  decide

theorem not_mem_of_mem_textParts : ∀ part ∈ textParts, part ∉ Part.arg :: headParts := by
  decide

/-- The text of the part: the value, or the type or the default of the argument that is being read. -/
def text? (s : State) : Option String :=
  match s.part with
  | .value => s.value
  | .argReturn => s.currentArg?.map Argument.type
  | .argDefault => s.currentArg?.bind Argument.default
  | _ => none

/-- The books agree with the part that is being read. -/
structure Consistent (s : State) : Prop where
  /-- Only an argument list has arguments. -/
  args : s.part ∈ headParts → s.args = []
  /-- No argument stands behind the place. -/
  length_args : s.part ∈ argParts → s.args.length ≤ s.argIndex + 1
  /-- The text that is being collected is there, and with it the argument that it belongs to. -/
  text : s.part ∈ textParts → s.text?.isSome
  nest : s.part ∈ .arg :: headParts → s.nest = 0
  inArgs : s.inArgs = true ↔ s.part ∈ argParts
  /-- That the list is not closed is noted at the end only. -/
  issues : .unbalancedParentheses ∉ s.issues

section
variable {s t : State}

/-! ## The part and its text -/

@[simp] theorem note_part (i : Issue) : (s.note i).part = s.part := rfl

@[simp] theorem modifyArg_part (f : Argument → Argument) : (s.modifyArg f).part = s.part := rfl

@[simp] theorem trackNest_part (c : Char) : (s.trackNest c).part = s.part := by
  rw [trackNest_eq]

@[simp] theorem startArg_part : s.startArg.part = s.part := by
  unfold startArg
  split_ifs <;> rfl

@[simp] theorem pushLiteral_part (c : Char) : (s.pushLiteral c).part = s.part := by
  unfold pushLiteral
  split <;> rfl

theorem currentArg?_modifyArg (f : Argument → Argument) :
    (s.modifyArg f).currentArg? = s.currentArg?.map f := by
  simp [currentArg?, modifyArg, List.getElem?_modify_eq]

theorem text?_trackNest (c : Char) : (s.trackNest c).text? = s.text? := by
  rw [trackNest_eq]
  rfl

theorem text?_mapValue (hpart : s.part = .value) (f : String → String) :
    { s with value := s.value.map f }.text? = s.text?.map f := by
  simp only [text?, hpart]

theorem text?_pushArgType (hpart : s.part = .argReturn) (c : Char) :
    (s.pushArgType c).text? = s.text?.map (·.push c) := by
  simp only [text?, pushArgType, modifyArg_part, hpart, currentArg?_modifyArg, Option.map_map]
  rfl

theorem text?_mapDefault (hpart : s.part = .argDefault) (f : String → String) :
    (s.modifyArg fun a => { a with default := a.default.map f }).text? = s.text?.map f := by
  simp only [text?, modifyArg_part, hpart, currentArg?_modifyArg]
  cases s.currentArg? <;> rfl

theorem isSome_text?_modifyArg {f : Argument → Argument}
    (hf : ∀ a, a.default.isSome → (f a).default.isSome) (h : s.text?.isSome) :
    (s.modifyArg f).text?.isSome := by
  have hvalue : (s.modifyArg f).value = s.value := rfl
  unfold text? at h ⊢
  rw [modifyArg_part, hvalue, currentArg?_modifyArg]
  cases hpart : s.part <;> cases hcurrent : s.currentArg? <;> simp_all

/-! ## Small changes -/

namespace Consistent

theorem ite {p : Prop} [Decidable p] (hs : p → Consistent s) (ht : ¬p → Consistent t) :
    Consistent (if p then s else t) :=
  iteInduction hs ht

theorem note (h : Consistent s) {i : Issue} (hi : i ≠ .unbalancedParentheses) : Consistent (s.note i) where
  args := h.args
  length_args := h.length_args
  text := h.text
  nest := h.nest
  inArgs := h.inArgs
  issues := by simpa [State.note] using ⟨h.issues, hi.symm⟩

theorem inString (h : Consistent s) (quoted : Bool) : Consistent { s with inString := quoted } :=
  ⟨h.args, h.length_args, h.text, h.nest, h.inArgs, h.issues⟩

/-- A turn from one part of the head to another. -/
theorem head (h : Consistent s) (hs : s.part ∈ headParts) (ht : t.part ∈ headParts)
    (hargs : t.args = s.args) (hnest : t.nest = s.nest) (hinArgs : t.inArgs = s.inArgs)
    (hissues : t.issues = s.issues) : Consistent t where
  args _ := hargs.trans (h.args hs)
  length_args hpart := absurd hpart (not_mem_of_mem_headParts _ ht).1
  text hpart := absurd hpart (not_mem_of_mem_headParts _ ht).2
  nest _ := hnest.trans (h.nest (List.mem_cons_of_mem _ hs))
  inArgs := by
    rw [hinArgs, h.inArgs]
    simp [not_mem_of_mem_headParts _ hs, not_mem_of_mem_headParts _ ht]
  issues := hissues ▸ h.issues

/-- The books in front of an argument or in its name. -/
theorem atArg (hpart : s.part = .arg) (hlength : s.args.length ≤ s.argIndex + 1) (hnest : s.nest = 0)
    (hinArgs : s.inArgs = true) (hissues : .unbalancedParentheses ∉ s.issues) : Consistent s where
  args := by simp [hpart, headParts]
  length_args _ := hlength
  text := by simp [hpart, textParts]
  nest _ := hnest
  inArgs := by simp [hpart, hinArgs, argParts]
  issues := hissues

theorem openArgs (h : Consistent s) (hs : s.part ∈ headParts) : Consistent s.openArgs :=
  .atArg rfl (by simp [State.openArgs, h.args hs]) rfl rfl h.issues

theorem openValue (h : Consistent s) (hs : s.part ∈ headParts) : Consistent s.openValue where
  args := by simp [State.openValue, headParts]
  length_args := by simp [State.openValue, argParts]
  text _ := rfl
  nest _ := rfl
  inArgs := by
    have hclosed := h.inArgs.not.2 (not_mem_of_mem_headParts _ hs).1
    simp [State.openValue, argParts, hclosed]
  issues := h.issues

theorem stop (h : Consistent s) : Consistent s.stop where
  args := by simp [State.stop, headParts]
  length_args := by simp [State.stop, argParts]
  text := by simp [State.stop, textParts]
  nest := by simp [State.stop, headParts]
  inArgs := by
    -- a value leaves the flag alone, which is not set in a value
    have hvalue : s.part = .value → s.inArgs = false := by
      intro hpart
      simpa [hpart, argParts] using h.inArgs
    simpa [State.stop, argParts] using hvalue
  issues := h.issues

theorem nextArg (h : Consistent s) (hlist : s.part ∈ argParts) (hnest : s.nest = 0) :
    Consistent s.nextArg :=
  .atArg rfl (Nat.le_succ_of_le (h.length_args hlist)) hnest (h.inArgs.2 hlist) h.issues

/-- The argument that is being read changes, but does not lose its default. -/
theorem modifyArg (h : Consistent s) {f : Argument → Argument}
    (hf : ∀ a, a.default.isSome → (f a).default.isSome) : Consistent (s.modifyArg f) where
  args hpart := by simp [State.modifyArg, h.args hpart]
  length_args hpart := by simpa [State.modifyArg] using h.length_args hpart
  text hpart := isSome_text?_modifyArg hf (h.text hpart)
  nest := h.nest
  inArgs := h.inArgs
  issues := h.issues

theorem mapValue (h : Consistent s) (hpart : s.part = .value) (f : String → String) :
    Consistent { s with value := s.value.map f } where
  args := h.args
  length_args := h.length_args
  text hmem := by simpa [text?_mapValue hpart] using h.text hmem
  nest := h.nest
  inArgs := h.inArgs
  issues := h.issues

/-- The type or the default of the argument is read next. -/
theorem enter (h : Consistent s) (hlist : s.part ∈ argParts) {part : Part} (nest : Nat)
    (hpart : part = .argReturn ∨ part = .argDefault) (htext : { s with part }.text?.isSome) :
    Consistent { s with part, nest } where
  args := by rcases hpart with rfl | rfl <;> simp [headParts]
  length_args _ := h.length_args hlist
  text _ := htext
  nest := by rcases hpart with rfl | rfl <;> simp [headParts]
  inArgs := by
    have hopen := h.inArgs.2 hlist
    rcases hpart with rfl | rfl <;> simpa [argParts] using hopen
  issues := h.issues

theorem openDefault (h : Consistent s) (hlist : s.part ∈ argParts) (hcurrent : s.currentArg?.isSome) :
    Consistent s.openDefault := by
  refine (h.modifyArg fun _ _ => rfl).enter hlist s.nest (.inr rfl) ?_
  show ((s.modifyArg _).currentArg?.bind Argument.default).isSome
  rw [currentArg?_modifyArg]
  cases hcase : s.currentArg? <;> simp_all

theorem trackNest (h : Consistent s) (hpart : s.part ∈ textParts) (c : Char) :
    Consistent (s.trackNest c) := by
  rw [trackNest_eq]
  exact ⟨h.args, h.length_args, h.text, fun hmem => absurd hmem (not_mem_of_mem_textParts _ hpart),
    h.inArgs, h.issues⟩

/-- Where the place ran ahead of the list, it comes back to its end, so that at most one argument
more is in the list than in front of the place. -/
theorem startArg (h : Consistent s) (hpart : s.part = .arg) : Consistent s.startArg := by
  have hnest : s.nest = 0 := h.nest (by simp [hpart])
  have hinArgs : s.inArgs = true := h.inArgs.2 (by simp [hpart, argParts])
  have hissues := (h.note (i := .emptyArgument) (by decide)).issues
  unfold State.startArg
  refine .ite (fun hle => ?_) fun _ => h
  by_cases hahead : s.args.length < s.argIndex
  · rw [if_pos hahead]
    exact .atArg hpart (by simp [State.note]) hnest hinArgs hissues
  · rw [if_neg hahead]
    exact .atArg hpart (by simpa using hle) hnest hinArgs h.issues

/-! ## One character, by part -/

theorem stepType (h : Consistent s) (hpart : s.part = .type) (c : Char) : Consistent (s.stepType c) := by
  have hhead : s.part ∈ headParts := by simp [hpart, headParts]
  refine .ite (fun _ => .ite (fun _ => h) fun _ => ?_) fun _ => .ite (fun _ => h) fun _ => ?_
  · exact h.head hhead (by simp [headParts]) rfl rfl rfl rfl
  · exact h.head hhead hhead rfl rfl rfl rfl

theorem stepName (h : Consistent s) (hpart : s.part = .name) (c : Char) : Consistent (s.stepName c) := by
  have hhead : s.part ∈ headParts := by simp [hpart, headParts]
  have hreturns : Part.returns ∈ headParts := by simp [headParts]
  exact .ite (fun _ => h) fun _ =>
    .ite (fun _ => h.head hhead hhead rfl rfl rfl rfl) fun _ =>
    .ite (fun _ => h.head hhead hreturns rfl rfl rfl rfl) fun _ =>
    .ite (fun _ => h.openArgs hhead) fun _ =>
    .ite (fun _ => h.openValue hhead) fun _ =>
    .ite (fun _ => h.stop) fun _ =>
    .ite (fun _ => h.head hhead hreturns rfl rfl rfl rfl) fun _ =>
    h.head hhead hhead rfl rfl rfl rfl

theorem stepReturns (h : Consistent s) (hpart : s.part = .returns) (c : Char) :
    Consistent (s.stepReturns c) := by
  have hhead : s.part ∈ headParts := by simp [hpart, headParts]
  exact .ite (fun _ => h) fun _ =>
    .ite (fun _ => h.openArgs hhead) fun _ =>
    .ite (fun _ => h.openValue hhead) fun _ =>
    .ite (fun _ => h.stop) fun _ =>
    h.head hhead hhead rfl rfl rfl rfl

theorem stepValue (h : Consistent s) (hpart : s.part = .value) (c : Char) :
    Consistent (s.stepValue c) := by
  have htext : s.part ∈ textParts := by simp [hpart, textParts]
  exact .ite (fun _ => h) fun _ =>
    .ite (fun _ => h.stop) fun _ =>
    .ite (fun _ => h.note (by decide)) fun _ =>
    (h.trackNest htext c).mapValue ((trackNest_part c).trans hpart) _

theorem stepArg (h : Consistent s) (hpart : s.part = .arg) (c : Char) : Consistent (s.stepArg c) := by
  have hlist : s.part ∈ argParts := by simp [hpart, argParts]
  have hnest : s.nest = 0 := h.nest (by simp [hpart])
  have htype : Consistent (s.pushArgType c) := h.modifyArg fun _ hdefault => hdefault
  refine .ite (fun _ => h) fun _ =>
    .ite (fun _ => h.nextArg hlist hnest) fun _ =>
    .ite (fun _ => h.stop) fun _ =>
    .ite (fun _ => .ite (fun hcurrent => ?_) fun _ => h.note (by decide)) fun _ =>
    .ite (fun _ => .ite (fun hcurrent => h.openDefault hlist hcurrent) fun _ => h.note (by decide)) fun _ =>
    .ite (fun _ => .ite (fun hcurrent => ?_) fun _ => h.note (by decide)) fun _ =>
    .ite (fun _ => .ite (fun _ => htype) fun _ => h.note (by decide)) fun _ =>
    .ite (fun _ => htype) fun _ => (h.startArg hpart).modifyArg fun _ hdefault => hdefault
  · refine h.enter hlist s.nest (.inl rfl) ?_
    show (s.currentArg?.map Argument.type).isSome
    simpa using hcurrent
  · refine htype.enter hlist 1 (.inl rfl) ?_
    show ((s.modifyArg _).currentArg?.map Argument.type).isSome
    rw [currentArg?_modifyArg]
    simpa using hcurrent

theorem stepArgReturn (h : Consistent s) (hpart : s.part = .argReturn) (c : Char) :
    Consistent (s.stepArgReturn c) := by
  have hlist : s.part ∈ argParts := by simp [hpart, argParts]
  have htext : s.part ∈ textParts := by simp [hpart, textParts]
  have hcurrent : s.currentArg?.isSome := by simpa [text?, hpart] using h.text htext
  refine .ite (fun _ => h) fun _ =>
    .ite (fun hcomma => ?_) fun _ =>
    .ite (fun _ => h.stop) fun _ =>
    .ite (fun _ => h.openDefault hlist hcurrent) fun _ =>
    (h.trackNest htext c).modifyArg fun _ hdefault => hdefault
  simp only [Bool.and_eq_true, decide_eq_true_eq] at hcomma
  exact h.nextArg hlist hcomma.2

theorem stepArgDefault (h : Consistent s) (hpart : s.part = .argDefault) (c : Char) :
    Consistent (s.stepArgDefault c) := by
  have hlist : s.part ∈ argParts := by simp [hpart, argParts]
  have htext : s.part ∈ textParts := by simp [hpart, textParts]
  refine .ite (fun _ => h) fun _ =>
    .ite (fun hcomma => ?_) fun _ =>
    .ite (fun _ => h.stop) fun _ => (h.trackNest htext c).modifyArg (by simp)
  simp only [Bool.and_eq_true, decide_eq_true_eq] at hcomma
  exact h.nextArg hlist hcomma.2

theorem pushLiteral (h : Consistent s) (c : Char) : Consistent (s.pushLiteral c) := by
  unfold State.pushLiteral
  split
  · rename_i hpart
    exact h.mapValue hpart _
  · exact h.modifyArg (by simp)
  · exact h

/-! ## Runs -/

/-- **Every character** keeps the books in agreement. -/
theorem step (h : Consistent s) (c : Char) : Consistent (s.step c) := by
  refine .ite (fun _ => h) fun _ => .ite (fun _ => (h.inString _).pushLiteral c) fun _ =>
    .ite (fun _ => h.pushLiteral c) fun _ => ?_
  cases hpart : s.part with
  | type => exact h.stepType hpart c
  | name => exact h.stepName hpart c
  | returns => exact h.stepReturns hpart c
  | value => exact h.stepValue hpart c
  | arg => exact h.stepArg hpart c
  | argReturn => exact h.stepArgReturn hpart c
  | argDefault => exact h.stepArgDefault hpart c
  | done => exact h

theorem steps (h : Consistent s) (cs : List Char) : Consistent (s.steps cs) := by
  induction cs generalizing s with
  | nil => exact h
  | cons c cs ih => exact ih (h.step c)

/-- The books of a reader that has read nothing. -/
theorem start : Consistent {} where
  args _ := rfl
  length_args := by decide
  text := by decide
  nest _ := rfl
  inArgs := by decide
  issues := by decide

end Consistent

/-! ## What is collected -/

/-- An argument that is started is in the list. -/
theorem argIndex_startArg_lt (s : State) : s.startArg.argIndex < s.startArg.args.length := by
  by_cases hle : s.args.length ≤ s.argIndex
  · obtain ⟨issues, hstart⟩ := startArg_of_le hle
    simp [hstart]
  · rw [startArg, if_neg hle]
    omega

/-- The character belongs to the text of its part: it stands outside of strings, which begin and end
with their quotes, it is no delimiter outside of parentheses, and neither the quote that is left out
everywhere nor a blank in front of a value or a default. -/
structure Takes (s : State) (c : Char) : Prop where
  part : s.part ∈ textParts
  outside : s.inString = false ∧ c ≠ '"'
  quote : c ≠ '\''
  delimiter : ¬(s.nest = 0 ∧ isDelimiter s.part c = true)
  leading : ¬(s.part ≠ .argReturn ∧ s.text? = some "" ∧ Text.isBlank c = true)

theorem pushUnlessLeading_of_not {text : String} {c : Char} (h : ¬(text = "" ∧ Text.isBlank c = true)) :
    pushUnlessLeading text c = text.push c := by
  unfold pushUnlessLeading
  rw [if_neg (by simpa using h)]

/-- **A character of a text** is added to the text. -/
theorem step_text (h : Consistent s) {c : Char} (hc : s.Takes c) :
    ∃ text, s.text? = some text ∧ (s.step c).text? = some (text.push c) ∧ (s.step c).part = s.part := by
  obtain ⟨text, htext⟩ := Option.isSome_iff_exists.1 (h.text hc.part)
  refine ⟨text, htext, ?_⟩
  obtain ⟨hmem, ⟨hstring, hstart⟩, hquote, hdelimiter, hleading⟩ := hc
  obtain ⟨hcomma, hparen, hequals⟩ := not_mark_of_not_delimiter hdelimiter
  have hpush : s.part ≠ .argReturn → pushUnlessLeading text c = text.push c := by
    intro hpart
    exact pushUnlessLeading_of_not (by simpa [hpart, htext] using hleading)
  have hcounted : (s.trackNest c).text? = some text := (text?_trackNest c).trans htext
  rw [step_plain hstart hstring]
  simp only [textParts, List.mem_cons, List.not_mem_nil, or_false] at hmem
  rcases hmem with hpart | hpart | hpart
  · have hstep : s.stepValue c = { s.trackNest c with
        value := (s.trackNest c).value.map (pushUnlessLeading · c) } := by
      simp [stepValue, hquote, hcomma, hparen]
    simp only [hpart, hstep]
    rw [text?_mapValue (by simpa using hpart), hcounted]
    simp [hpush, hpart]
  · have hstep : s.stepArgReturn c = (s.trackNest c).pushArgType c := by
      simp [stepArgReturn, hquote, hcomma, hparen, hequals hpart]
    simp only [hpart, hstep]
    rw [text?_pushArgType (by simpa using hpart), hcounted]
    simp [pushArgType, hpart]
  · have hstep : s.stepArgDefault c = (s.trackNest c).modifyArg fun a =>
        { a with default := a.default.map (pushUnlessLeading · c) } := by
      simp [stepArgDefault, hquote, hcomma, hparen]
    simp only [hpart, hstep]
    rw [text?_mapDefault (by simpa using hpart), hcounted]
    simp [hpush, hpart]

/-- **A closing parenthesis** takes one off the open ones. Where none is open it is not counted: it
ends the list, or in a value it is noted. -/
theorem step_paren (hpart : s.part ∈ textParts) (hstring : s.inString = false) :
    s.nest = (s.step ')').nest + 1 ∨
      s.nest = 0 ∧ (s.step ')' = s.stop ∨ s.step ')' = s.note .strayParenInValue) := by
  rw [step_plain (by decide) hstring]
  simp only [textParts, List.mem_cons, List.not_mem_nil, or_false] at hpart
  rcases Nat.eq_zero_or_pos s.nest with hnest | hnest
  · refine .inr ⟨hnest, ?_⟩
    rcases hpart with hpart | hpart | hpart <;>
      simp [hpart, hnest, stepValue, stepArgReturn, stepArgDefault]
  · left
    have htrack : (s.trackNest ')').nest + 1 = s.nest := by
      simp [trackNest]
      omega
    rcases hpart with hpart | hpart | hpart <;>
      simp [hpart, hnest.ne', stepValue, stepArgReturn, stepArgDefault, pushArgType, modifyArg, htrack]

/-! ## Open and closed lists -/

/-- The character opens the argument list. -/
def Opens (s : State) (c : Char) : Prop :=
  c = '(' ∧ s.inString = false ∧ s.part ∈ [Part.name, .returns]

/-- The character closes the argument list. -/
def Closes (s : State) (c : Char) : Prop :=
  c = ')' ∧ s.inString = false ∧ s.part ∈ argParts ∧ s.nest = 0

/-- One of the characters is such an event when its turn comes. -/
def Happens (event : State → Char → Prop) : State → List Char → Prop
  | _, [] => False
  | s, c :: cs => event s c ∨ Happens event (s.step c) cs

theorem stepType_part (hpart : s.part = .type) (c : Char) : (s.stepType c).part ∉ argParts := by
  unfold stepType
  split_ifs <;> simp [hpart, argParts]

theorem stepName_part (hpart : s.part = .name) (c : Char) :
    (s.stepName c).part ∈ argParts ↔ c = '(' := by
  unfold stepName
  split_ifs with _ hblank <;> simp_all [openArgs, openValue, stop, argParts]
  rcases hblank with rfl | rfl <;> decide

theorem stepReturns_part (hpart : s.part = .returns) (c : Char) :
    (s.stepReturns c).part ∈ argParts ↔ c = '(' := by
  unfold stepReturns
  split_ifs <;> simp_all [openArgs, openValue, stop, argParts]

theorem stepValue_part (hpart : s.part = .value) (c : Char) : (s.stepValue c).part ∉ argParts := by
  unfold stepValue
  split_ifs <;> simp [hpart, stop, argParts]

theorem stepArg_part (hpart : s.part = .arg) (c : Char) : (s.stepArg c).part ∈ argParts ↔ c ≠ ')' := by
  simp only [stepArg]
  split_ifs with hskipped <;> simp_all [nextArg, stop, openDefault, pushArgType, argParts]
  rcases hskipped with (rfl | rfl) | rfl <;> decide

theorem stepArgReturn_part (hpart : s.part = .argReturn) (c : Char) :
    (s.stepArgReturn c).part ∈ argParts ↔ ¬(c = ')' ∧ s.nest = 0) := by
  unfold stepArgReturn
  split_ifs <;> simp_all [nextArg, stop, openDefault, pushArgType, argParts]

theorem stepArgDefault_part (hpart : s.part = .argDefault) (c : Char) :
    (s.stepArgDefault c).part ∈ argParts ↔ ¬(c = ')' ∧ s.nest = 0) := by
  unfold stepArgDefault
  split_ifs <;> simp_all [nextArg, stop, argParts]

/-- Nothing but the two parentheses leads into an argument list or out of it. -/
theorem step_part_mem_argParts (h : Consistent s) (c : Char) :
    (s.step c).part ∈ argParts ↔ s.Opens c ∨ s.part ∈ argParts ∧ ¬s.Closes c := by
  by_cases hdone : s.part = .done
  · simp [step_done hdone, hdone, Opens, argParts]
  by_cases hliteral : c = '"' ∨ s.inString = true
  · obtain ⟨quoted, hstep⟩ := step_literal hdone hliteral
    rw [hstep, pushLiteral_part]
    rcases hliteral with rfl | hstring
    · simp [Opens, Closes]
    · simp [Opens, Closes, hstring]
  · simp only [not_or, Bool.not_eq_true] at hliteral
    obtain ⟨hquote, hstring⟩ := hliteral
    rw [step_plain hquote hstring]
    simp only [Opens, Closes, hstring]
    cases hpart : s.part with
    | type => simpa [argParts] using stepType_part hpart c
    | name => simpa [argParts] using stepName_part hpart c
    | returns => simpa [argParts] using stepReturns_part hpart c
    | value => simpa [argParts] using stepValue_part hpart c
    | arg => simpa [argParts, h.nest (by simp [hpart])] using stepArg_part hpart c
    | argReturn => simpa [argParts] using stepArgReturn_part hpart c
    | argDefault => simpa [argParts] using stepArgDefault_part hpart c
    | done => exact absurd hpart hdone

theorem step_part_of_closes {c : Char} (hc : s.Closes c) : (s.step c).part = .done := by
  obtain ⟨rfl, hstring, hmem, hnest⟩ := hc
  rw [step_plain (by decide) hstring]
  simp only [argParts, List.mem_cons, List.not_mem_nil, or_false] at hmem
  rcases hmem with hpart | hpart | hpart <;>
    simp [hpart, hnest, stepArg, stepArgReturn, stepArgDefault, stop]

/-- **The list is open** exactly if it was opened and not closed. -/
theorem steps_part_mem_argParts (h : Consistent s) (cs : List Char) :
    (s.steps cs).part ∈ argParts ↔ (s.part ∈ argParts ∨ Happens Opens s cs) ∧ ¬Happens Closes s cs := by
  induction cs generalizing s with
  | nil => simp [steps_nil, Happens]
  | cons c cs ih =>
    rw [steps_cons]
    simp only [Happens]
    by_cases hcloses : s.Closes c
    · -- behind a closed list no other one opens
      have hdone := step_part_of_closes hcloses
      simp [steps_done hdone, hdone, hcloses, argParts]
    · have hstep := step_part_mem_argParts h c
      rw [ih (h.step c), hstep]
      tauto

/-- The missing parenthesis is noted exactly if the list is open at the end. -/
theorem unbalanced_mem_allIssues (h : Consistent s) :
    .unbalancedParentheses ∈ s.allIssues ↔ s.part ∈ argParts := by
  rw [← h.inArgs]
  cases hopen : s.inArgs <;> simp [allIssues, hopen, h.issues]

/-- What the reader relies on without looking. -/
structure Reliable (s : State) : Prop where
  consistent : Consistent s
  /-- An argument that starts is in the list. -/
  started : s.startArg.argIndex < s.startArg.args.length
  /-- Each character of a text is added to the text. -/
  added : ∀ c, s.Takes c →
    ∃ text, s.text? = some text ∧ (s.step c).text? = some (text.push c) ∧ (s.step c).part = s.part
  /-- A closing parenthesis is counted against an open one only. -/
  counted : s.part ∈ textParts → s.inString = false → s.nest = (s.step ')').nest + 1 ∨
    s.nest = 0 ∧ (s.step ')' = s.stop ∨ s.step ')' = s.note .strayParenInValue)
  /-- What has ended stays as it is. -/
  ended : ∀ c, (s.step c).part = .done → ∀ more, (s.step c).steps more = s.step c

theorem Consistent.reliable (h : Consistent s) : Reliable s where
  consistent := h
  started := argIndex_startArg_lt s
  added _ hc := step_text h hc
  counted := step_paren
  ended _ hdone more := steps_done hdone more

/-- **The books of the reader** can be relied on whatever it has read, and at the end a missing
parenthesis is noted exactly if a list was opened and not closed. -/
theorem bookkeeping (cs : List Char) :
    Reliable (State.steps {} cs) ∧
      (.unbalancedParentheses ∈ (State.steps {} cs).allIssues ↔
        Happens Opens {} cs ∧ ¬Happens Closes {} cs) := by
  have h : Consistent (State.steps {} cs) := Consistent.start.steps cs
  have hopen : (State.steps {} cs).part ∈ argParts ↔
      ((State.part {}) ∈ argParts ∨ Happens Opens {} cs) ∧ ¬Happens Closes {} cs :=
    steps_part_mem_argParts .start cs
  refine ⟨h.reliable, ?_⟩
  rw [unbalanced_mem_allIssues h, hopen]
  simp [argParts]

end

end State

end BlitzDoc.Signature
