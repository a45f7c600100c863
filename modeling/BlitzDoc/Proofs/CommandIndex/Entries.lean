import BlitzDoc.Proofs.CommandIndex.Params
import BlitzDoc.Proofs.Signature.Spellings
import BlitzDoc.Proofs.Text.Search

/-!
# Lines of the command index

A line that was printed from a command is read back as the entry of that command, and as nothing else:
`parse_line`. A command is a class with a base, a function with parameters, a variable with a type or
a value, or a plain word (`Form`); behind it stand a description and a page.

The same marks mean different things in different parts of a line, and a part is only reached if every
mark before it was taken for what it is. So the line is read part by part: names, types and values each
up to the mark that ends them (`steps_slot`, `steps_value`), then the texts behind the first pipe
(`steps_printTexts`). What `Command.Printable` asks is that no mark inside a part ends it early. In the
end what was collected is the command again (`Collects`, `collects_signature`, `finish_of_collects`).
-/

namespace BlitzDoc.CommandIndex

open Signature (Gap isGap isGap_cases endsDefault foldl_pushUnlessLeading)
open Text (IsName IsTrimmed IsPlain isNested)

/-! ## Commands -/

/-- The blanks around a part of a parameter. -/
structure Margins where
  before : Gap := .none
  behind : Gap := .none

def Margins.around (m : Margins) (text : String) : List Char :=
  m.before.text ++ (text.toList ++ m.behind.text)

/-- A parameter, `name:type` or `name:type=default`. -/
structure Slot where
  argument : Argument
  name : Margins := {}
  type : Margins := {}
  default : Margins := {}

def Slot.print (p : Slot) : List Char :=
  p.name.around p.argument.name ++ ':' :: (p.type.around p.argument.type ++
    p.argument.default.elim [] fun d => '=' :: p.default.around d)

/-- What stands behind the name of a command. -/
inductive Form where
  | extending (base : String)
  | call (returns : Option String) (params : List Slot)
  | typed (returns : String) (value : Option String)
  | valued (value : String)
  | bare

/-- The word between a class and its base. -/
def baseWord : List Char :=
  " extends ".toList

namespace Form

def print : Form → List Char
  | extending base => baseWord ++ base.toList
  | call returns params =>
    returns.elim [] (fun r => ':' :: r.toList) ++
      '(' :: ([','].intercalate (params.map Slot.print) ++ [')'])
  | typed returns value => ':' :: returns.toList ++ value.elim [] fun v => '=' :: v.toList
  | valued value => '=' :: value.toList
  | bare => []

def base : Form → Option String
  | extending base => some base
  | _ => none

def returns : Form → String
  | call returns _ => returns.getD ""
  | typed returns _ => returns
  | _ => ""

def value : Form → Option String
  | typed _ value => value
  | valued value => some value
  | _ => none

def args : Form → List Argument
  | call _ params => params.map Slot.argument
  | _ => []

def kind : Form → CompletionKind
  | extending _ => .classType
  | call _ _ => .function
  | typed _ _ | valued _ => .value
  | bare => .keyword

end Form

/-- A command of the index. -/
structure Command where
  name : String
  form : Form
  description : String
  docs : String
  /-- The anchor on the page. -/
  anchor : Option String := none

namespace Command

/-- The texts behind the first pipe. -/
def printTexts (c : Command) : List Char :=
  c.description.toList ++ '|' :: (c.docs.toList ++ c.anchor.elim [] fun a => '#' :: a.toList)

/-- The line of a command. -/
def print (c : Command) : List Char :=
  (c.name.toList ++ c.form.print) ++ '|' :: c.printTexts

/-- The entry of a command. -/
def entry (c : Command) : HelpEntry :=
  { name := c.name
    searchKey := Text.lower c.name
    returns := c.form.returns
    default := c.form.value
    args := c.form.args
    base := c.form.base
    description := c.description
    docsPath := docsPath? c.docs
    anchor := c.anchor
    template := template c.name c.form.kind c.form.args c.form.value
    kind := c.form.kind }

end Command

/-! ## Commands that can be read back -/

/-- The text closes its strings, when it starts inside one if `quoted`, and pipes stand only in
strings. -/
def isSealed : (quoted : Bool) → List Char → Bool
  | quoted, [] => !quoted
  | quoted, c :: cs =>
    if c = '"' then isSealed (!quoted) cs else (quoted || c != '|') && isSealed quoted cs

/-- The text can be the type of a parameter. -/
structure IsParamType (t : String) : Prop where
  ne_empty : t ≠ ""
  spelledOut : TypeName.expand t = t
  unmarked : ∀ c ∈ t.toList, c ≠ '"' ∧ c ≠ '='
  /-- Parentheses are closed, and commas stand only in them. -/
  nested : isNested (fun _ => false) endsDefault 0 false t.toList = true

/-- The text can be the default of a parameter. -/
structure IsParamDefault (d : String) : Prop where
  ne_empty : d ≠ ""
  trimmed : IsTrimmed d.toList
  /-- Strings and parentheses are closed, and commas stand only in them. -/
  nested : isNested (fun _ => false) endsDefault 0 false d.toList = true

/-- The argument can be a parameter of a command. -/
structure IsParam (a : Argument) : Prop where
  name : IsName a.name.toList
  type : IsParamType a.type
  default : ∀ d ∈ a.default, IsParamDefault d

/-- The text can be the type of a command. -/
structure IsReturnType (t : String) : Prop where
  ne_empty : t ≠ ""
  spelledOut : TypeName.expand t = t
  unmarked : ∀ c ∈ t.toList, c ∉ ['=', '(', '|']

/-- The text can be the value of a variable. -/
structure IsSealedValue (v : String) : Prop where
  ne_empty : v ≠ ""
  trimmed : IsTrimmed v.toList
  sealed : isSealed false v.toList = true

def Form.Printable : Form → Prop
  | extending base => IsName base.toList
  | call returns params => (∀ r ∈ returns, IsReturnType r) ∧ ∀ p ∈ params, IsParam p.argument
  | typed returns value => IsReturnType returns ∧ ∀ v ∈ value, IsSealedValue v
  | valued value => IsSealedValue value
  | bare => True

structure Command.Printable (c : Command) : Prop where
  name : IsName c.name.toList
  form : c.form.Printable
  description : IsTrimmed c.description.toList ∧ '|' ∉ c.description.toList
  docs : IsTrimmed c.docs.toList ∧ '#' ∉ c.docs.toList
  anchor : ∀ a ∈ c.anchor, IsTrimmed a.toList ∧ a ≠ ""
  oneLine : ∀ x ∈ c.print, x ≠ '\n' ∧ x ≠ '\r'

instance (t : String) : Decidable (IsParamType t) :=
  decidable_of_iff (t ≠ "" ∧ TypeName.expand t = t ∧ (∀ c ∈ t.toList, c ≠ '"' ∧ c ≠ '=') ∧
      isNested (fun _ => false) endsDefault 0 false t.toList = true)
    ⟨fun h => ⟨h.1, h.2.1, h.2.2.1, h.2.2.2⟩, fun h => ⟨h.1, h.2, h.3, h.4⟩⟩

instance (d : String) : Decidable (IsParamDefault d) :=
  decidable_of_iff (d ≠ "" ∧ IsTrimmed d.toList ∧
      isNested (fun _ => false) endsDefault 0 false d.toList = true)
    ⟨fun h => ⟨h.1, h.2.1, h.2.2⟩, fun h => ⟨h.1, h.2, h.3⟩⟩

instance (a : Argument) : Decidable (IsParam a) :=
  decidable_of_iff (IsName a.name.toList ∧ IsParamType a.type ∧ ∀ d ∈ a.default, IsParamDefault d)
    ⟨fun h => ⟨h.1, h.2.1, h.2.2⟩, fun h => ⟨h.1, h.2, h.3⟩⟩

instance (t : String) : Decidable (IsReturnType t) :=
  decidable_of_iff (t ≠ "" ∧ TypeName.expand t = t ∧ ∀ c ∈ t.toList, c ∉ ['=', '(', '|'])
    ⟨fun h => ⟨h.1, h.2.1, h.2.2⟩, fun h => ⟨h.1, h.2, h.3⟩⟩

instance (v : String) : Decidable (IsSealedValue v) :=
  decidable_of_iff (v ≠ "" ∧ IsTrimmed v.toList ∧ isSealed false v.toList = true)
    ⟨fun h => ⟨h.1, h.2.1, h.2.2⟩, fun h => ⟨h.1, h.2, h.3⟩⟩

instance : (f : Form) → Decidable f.Printable
  | .extending base => inferInstanceAs (Decidable (IsName base.toList))
  | .call returns params =>
    inferInstanceAs (Decidable ((∀ r ∈ returns, IsReturnType r) ∧ ∀ p ∈ params, IsParam p.argument))
  | .typed returns value =>
    inferInstanceAs (Decidable (IsReturnType returns ∧ ∀ v ∈ value, IsSealedValue v))
  | .valued value => inferInstanceAs (Decidable (IsSealedValue value))
  | .bare => inferInstanceAs (Decidable True)

instance (c : Command) : Decidable c.Printable :=
  decidable_of_iff (IsName c.name.toList ∧ c.form.Printable ∧
      (IsTrimmed c.description.toList ∧ '|' ∉ c.description.toList) ∧
      (IsTrimmed c.docs.toList ∧ '#' ∉ c.docs.toList) ∧
      (∀ a ∈ c.anchor, IsTrimmed a.toList ∧ a ≠ "") ∧ ∀ x ∈ c.print, x ≠ '\n' ∧ x ≠ '\r')
    ⟨fun h => ⟨h.1, h.2.1, h.2.2.1, h.2.2.2.1, h.2.2.2.2.1, h.2.2.2.2.2⟩,
      fun h => ⟨h.1, h.2, h.3, h.4, h.5, h.6⟩⟩

/-! ## Blanks around a part -/

namespace Margins

variable (m : Margins)

theorem trim_around (text : String) : Text.trim (String.ofList (m.around text)) = Text.trim text := by
  rw [around, Text.trim_blanks_append m.before.isBlank, Text.trim_append_blanks _ m.behind.isBlank,
    String.ofList_toList]

theorem mem_around {c : Char} {text : String} (h : c ∈ m.around text) :
    isGap c = true ∨ c ∈ text.toList := by
  simp only [around, List.mem_append] at h
  rcases h with h | h | h
  · exact .inl (m.before.blank c h)
  · exact .inr h
  · exact .inl (m.behind.blank c h)

theorem nested_gap (g : Gap) : isNested (fun _ => false) endsDefault 0 false g.text = true := by
  refine Text.isNested_of_neutral fun c hc => ?_
  rcases isGap_cases (g.blank c hc) with rfl | rfl <;> decide

/-- Blanks open and close nothing. -/
theorem nested_around {text : String}
    (h : isNested (fun _ => false) endsDefault 0 false text.toList = true) :
    isNested (fun _ => false) endsDefault 0 false (m.around text) = true :=
  Text.isNested_append (nested_gap m.before) (Text.isNested_append h (nested_gap m.behind))

end Margins

/-! ## Parameters -/

namespace Slot

/-- What is collected of a parameter. -/
def collected (p : Slot) : Argument :=
  { name := p.argument.name
    type := String.ofList (p.type.around p.argument.type)
    default := p.argument.default.map fun d => String.ofList (Text.dropBlanks (p.default.around d)) }

/-- The collected texts are the parameter again. -/
theorem finishArg_collected {p : Slot} (h : IsParam p.argument) :
    Signature.State.finishArg p.collected = p.argument := by
  have hname : Text.trim p.argument.name = p.argument.name := Text.trim_of_isTrimmed h.name.isTrimmed
  have htype : Signature.State.finishType p.collected.type = p.argument.type := by
    have hexpand : TypeName.expand p.collected.type = p.argument.type := by
      rw [collected, TypeName.expand, p.type.trim_around]
      exact h.type.spelledOut
    rw [Signature.State.finishType, hexpand, Text.nonEmpty?_of_ne h.type.ne_empty, Option.getD_some]
  have hdefault : Signature.State.finishValue p.collected.default = p.argument.default := by
    cases hd : p.argument.default with
    | none => simp [collected, hd, Signature.State.finishValue]
    | some d =>
      have hvalue := h.default d hd
      simp only [collected, hd, Option.map_some, Signature.State.finishValue, Option.bind_some,
        Text.trim_dropBlanks, Margins.trim_around, Text.trim_of_isTrimmed hvalue.trimmed]
      exact Text.nonEmpty?_of_ne hvalue.ne_empty
  rw [Signature.State.finishArg, htype, hdefault]
  exact congrArg (fun name => ({ p.argument with name } : Argument)) hname

end Slot

namespace State

/-- **A parameter** is collected as one argument. -/
theorem steps_slot (s : State) (done : List Argument) {p : Slot} (h : IsParam p.argument)
    (hreturn : ∀ c ∈ p.print, c ≠ '\r') :
    ∃ part, (s.inside done {} .name).steps p.print = s.inside done p.collected part := by
  have hplain : ∀ c ∈ p.argument.name.toList, IsPlain c := fun c hc =>
    Text.isPlain_of_isNameChar (h.name.2 c hc)
  have hname : (s.inside done {} .name).steps (p.name.around p.argument.name) =
      s.inside done { name := p.argument.name } .name := by
    rw [Margins.around, steps_append, steps_gap s done _ p.name.before.blank, steps_append,
      steps_name s done _ hplain, steps_gap s done _ p.name.behind.blank, String.ofList_toList,
      String.empty_append]
  have htype : ∀ c ∈ p.type.around p.argument.type, c ≠ '\r' ∧ c ≠ '"' ∧ c ≠ '=' := by
    intro c hc
    refine ⟨hreturn c (by simp [Slot.print, hc]), ?_⟩
    rcases p.type.mem_around hc with hgap | hmem
    · rcases isGap_cases hgap with rfl | rfl <;> decide
    · exact h.type.unmarked c hmem
  -- all of the type is read as such, and behind it no parenthesis is open
  have hnested := p.type.nested_around h.type.nested
  rw [← List.append_nil (p.type.around p.argument.type)] at hnested
  obtain ⟨nest, hsteps, hend⟩ :=
    steps_type rfl s done { name := p.argument.name } htype hnested
  obtain ⟨rfl, -⟩ := Text.nested_end hend
  rw [Slot.print, steps_append, hname, steps_cons, step_colon, steps_append, hsteps,
    String.empty_append]
  cases hdefault : p.argument.default with
  | none =>
    refine ⟨.type, ?_⟩
    simp only [Slot.collected, hdefault]
    rfl
  | some d =>
    have htext : ∀ c ∈ p.default.around d, c ≠ '\r' := fun c hc =>
      hreturn c (by simp [Slot.print, hdefault, hc])
    refine ⟨.default, ?_⟩
    rw [Option.elim_some, steps_cons, step_equals s done _ (by decide),
      steps_default rfl s done _ "" htext (p.default.nested_around (h.default d hdefault).nested),
      foldl_pushUnlessLeading]
    simp only [Slot.collected, hdefault, Option.map_some]

/-! ## Types and values of a command -/

/-- As `steps_collect`, for a text of which nothing was read yet. -/
theorem steps_text (put : String → State) {marks : List Char}
    (hput : ∀ text c, c ∉ marks → (put text).step c = put (text.push c)) {text : String}
    (htext : ∀ c ∈ text.toList, c ∉ marks) : (put "").steps text.toList = put text := by
  rw [steps_collect put hput "" htext, String.empty_append, String.ofList_toList]

/-- The type behind a name is collected. -/
theorem steps_returns {s : State} (hstring : s.inString = false) {text : String}
    (htext : ∀ c ∈ text.toList, c ∉ ['\r', '=', '(', '|']) :
    State.steps { s with part := .returns, returns := "" } text.toList =
      { s with part := .returns, returns := text } := by
  refine steps_text (fun returns => { s with part := .returns, returns }) (fun returns c hc => ?_) htext
  simp only [List.mem_cons, List.not_mem_nil, or_false, not_or] at hc
  simp [step, keepsLiterals, hstring, hc]

/-- The reader within the value of a variable. -/
def inValue (s : State) (value : String) (quoted : Bool := false) : State :=
  { s with part := .default, default := some value, inString := quoted }

/-- **A value is collected up to its end**, from its first character that is no blank. -/
theorem steps_value (s : State) (value : String) {quoted : Bool} {cs : List Char}
    (hcs : ∀ c ∈ cs, c ≠ '\r') (h : isSealed quoted cs = true) :
    (s.inValue value quoted).steps cs =
      s.inValue (cs.foldl Signature.State.pushUnlessLeading value) := by
  induction cs generalizing value quoted with
  | nil =>
    obtain rfl : quoted = false := by simpa [isSealed] using h
    rfl
  | cons c cs ih =>
    have hreturn := hcs c List.mem_cons_self
    have htail : ∀ c ∈ cs, c ≠ '\r' := fun c hc => hcs c (List.mem_cons_of_mem _ hc)
    rw [steps_cons, List.foldl_cons]
    by_cases hquote : c = '"'
    · have hrest : isSealed (!quoted) cs = true := by simpa [isSealed, hquote] using h
      have hstep : (s.inValue value quoted).step c =
          s.inValue (Signature.State.pushUnlessLeading value c) (!quoted) := by
        subst hquote
        rfl
      rw [hstep, ih _ htail hrest]
    · simp only [isSealed, hquote, if_false, Bool.and_eq_true, Bool.or_eq_true, bne_iff_ne] at h
      have hstep : (s.inValue value quoted).step c =
          s.inValue (Signature.State.pushUnlessLeading value c) quoted := by
        cases quoted with
        | true => simp [step, inValue, pushLiteral, hreturn, hquote]
        | false =>
          have hpipe : c ≠ '|' := h.1.resolve_left (by decide)
          simp [step, inValue, pushLiteral, hreturn, hquote, hpipe]
      rw [hstep, ih _ htail h.2]

/-! ## Texts behind the signature -/

section
variable {s : State} (hstring : s.inString = false) {text : String} (hreturn : '\r' ∉ text.toList)
include hstring hreturn

theorem steps_description (hpipe : '|' ∉ text.toList) :
    State.steps { s with part := .description, description := "" } text.toList =
      { s with part := .description, description := text } := by
  have htext : ∀ c ∈ text.toList, c ∉ ['\r', '|'] := by grind
  refine steps_text (fun description => { s with part := .description, description })
    (fun description c hc => ?_) htext
  simp only [List.mem_cons, List.not_mem_nil, or_false, not_or] at hc
  simp [step, keepsLiterals, hstring, hc]

theorem steps_docs (hhash : '#' ∉ text.toList) :
    State.steps { s with part := .docs, docs := "" } text.toList =
      { s with part := .docs, docs := text } := by
  have htext : ∀ c ∈ text.toList, c ∉ ['\r', '#'] := by grind
  refine steps_text (fun docs => { s with part := .docs, docs }) (fun docs c hc => ?_) htext
  simp only [List.mem_cons, List.not_mem_nil, or_false, not_or] at hc
  simp [step, keepsLiterals, hstring, hc]

theorem steps_anchor :
    State.steps { s with part := .anchor, anchor := "" } text.toList =
      { s with part := .anchor, anchor := text } := by
  have htext : ∀ c ∈ text.toList, c ∉ ['\r'] := by grind
  refine steps_text (fun anchor => { s with part := .anchor, anchor }) (fun anchor c hc => ?_) htext
  simp only [List.mem_cons, List.not_mem_nil, or_false] at hc
  simp [step, keepsLiterals, hstring, hc]

end

/-- The reader in front of the texts of a line. -/
def beforeTexts (s : State) : State :=
  { s with part := .description, description := "", docs := "", anchor := "" }

/-- The reader behind the texts of a command. -/
def withTexts (s : State) (c : Command) : State :=
  { s with
    part := c.anchor.elim .docs fun _ => .anchor
    description := c.description, docs := c.docs, anchor := c.anchor.getD "" }

/-- **The texts behind the first pipe** are collected each for itself. -/
theorem steps_printTexts {s : State} (hstring : s.inString = false) {c : Command}
    (hdescription : '|' ∉ c.description.toList) (hdocs : '#' ∉ c.docs.toList)
    (hreturn : '\r' ∉ c.printTexts) : s.beforeTexts.steps c.printTexts = s.withTexts c := by
  simp only [Command.printTexts, List.mem_append, List.mem_cons, not_or] at hreturn
  obtain ⟨hreturn₁, -, hreturn₂, hreturn₃⟩ := hreturn
  -- the reader behind the description, and behind the page
  let t : State := { s with description := c.description, docs := "", anchor := "" }
  let u : State := { t with docs := c.docs }
  have hpipe : State.step { t with part := .description } '|' = { t with part := .docs } := by
    simp [step, keepsLiterals, hstring, t]
  have hhash : State.step { u with part := .docs } '#' = { u with part := .anchor } := by
    simp [step, keepsLiterals, hstring, t, u]
  have hfirst : s.beforeTexts.steps c.description.toList = { t with part := .description } :=
    steps_description (s := s.beforeTexts) hstring hreturn₁ hdescription
  have hsecond : State.steps { t with part := .docs } c.docs.toList = { u with part := .docs } :=
    steps_docs (s := t) hstring hreturn₂ hdocs
  rw [Command.printTexts, steps_append, hfirst, steps_cons, hpipe, steps_append, hsecond, withTexts]
  cases hanchor : c.anchor with
  | none => rfl
  | some anchor =>
    simp only [hanchor, Option.elim_some, List.mem_cons, not_or] at hreturn₃
    have hthird : State.steps { u with part := .anchor } anchor.toList =
        { u with part := .anchor, anchor } :=
      steps_anchor (s := u) hstring hreturn₃.2
    rw [Option.elim_some, steps_cons, hhash, hthird]
    rfl

end State

/-! ## Names and bases -/

theorem eq_space_of_toLower {c : Char} (h : c.toLower = ' ') : c = ' ' := by
  unfold Char.toLower at h
  split at h
  · rename_i hupper
    have hlow : 65 ≤ c.toNat := UInt32.le_iff_toNat_le.1 hupper.1
    have hhigh : c.toNat ≤ 90 := UInt32.le_iff_toNat_le.1 hupper.2
    have hval := congrArg (fun d : Char => d.val.toNat) h
    simp only [UInt32.toNat_add] at hval
    have hsum : (c.toNat + 32) % 4294967296 = 32 := hval
    omega
  · exact h

/-- The word in front of a base starts with a space, so it does not start where there is none. -/
theorem cutAt?_of_no_space {name : List Char} (hname : ' ' ∉ name) (rest : List Char) :
    Text.cutAt? (fun rest => " extends ".toList.isPrefixOf (rest.map Char.toLower)) (name ++ rest) =
      (Text.cutAt? (fun rest => " extends ".toList.isPrefixOf (rest.map Char.toLower)) rest).map
        fun cut => (name ++ cut.1, cut.2) := by
  refine Text.cutAt?_append (Text.avoids_of_forall fun c hc cs => ?_) rest
  have hword : " extends ".toList = ' ' :: "extends ".toList := by decide
  rw [Bool.eq_false_iff]
  intro h
  rw [hword, List.map_cons, List.isPrefixOf_cons_cons, Bool.and_eq_true, beq_iff_eq] at h
  rw [eq_space_of_toLower h.1.symm] at hc
  exact hname hc

theorem space_not_mem_of_isName {name : List Char} (h : IsName name) : ' ' ∉ name :=
  fun hmem => (Text.isPlain_of_isNameChar (h.2 ' ' hmem)).ne (by decide) rfl

theorem ne_empty_of_isName {name : String} (h : IsName name.toList) : name ≠ "" := by
  rintro rfl
  exact h.1 rfl

theorem splitExtends_name {name : String} (h : IsName name.toList) :
    splitExtends name = (name, none) := by
  have hcut := cutAt?_of_no_space (space_not_mem_of_isName h) []
  rw [List.append_nil] at hcut
  simp only [splitExtends, hcut]
  rfl

theorem splitExtends_base {name base : String} (hname : IsName name.toList)
    (hbase : IsName base.toList) :
    splitExtends (String.ofList (name.toList ++ (baseWord ++ base.toList))) = (name, some base) := by
  have hcut := cutAt?_of_no_space (space_not_mem_of_isName hname) (baseWord ++ base.toList)
  have hhere : Text.cutAt? (fun rest => " extends ".toList.isPrefixOf (rest.map Char.toLower))
      (baseWord ++ base.toList) = some ([], baseWord ++ base.toList) := rfl
  have hdrop : (baseWord ++ base.toList).drop " extends ".toList.length = base.toList := rfl
  rw [hhere] at hcut
  simp only [splitExtends, String.toList_ofList, hcut, Option.map_some, List.append_nil, hdrop,
    String.ofList_toList, Text.trim_of_isTrimmed hname.isTrimmed,
    Text.trim_of_isTrimmed hbase.isTrimmed, Text.nonEmpty?_of_ne (ne_empty_of_isName hbase)]

/-! ## What was read of a signature -/

/-- What was collected of a signature is that of the command. -/
structure Collects (s : State) (c : Command) : Prop where
  name : Text.trim s.name ≠ ""
  split : splitExtends (Text.trim s.name) = (c.name, c.form.base)
  returns : TypeName.expand s.returns = c.form.returns
  value : Signature.State.finishValue s.default = c.form.value
  args : ((s.params.map Signature.State.finishArg).filter fun a => !a.name.isEmpty) = c.form.args
  called : s.hadParams = decide (c.form.kind = .function)
  outside : s.inString = false
  pipe : s.step '|' = s.beforeTexts

/-- The kind of an entry follows from what it has. -/
theorem kind_eq {f : Form} (h : f.Printable) :
    (if f.base.isSome then CompletionKind.classType
      else if decide (f.kind = .function) then .function
      else if !f.returns.isEmpty || f.value.isSome then .value
      else .keyword) = f.kind := by
  cases f with
  | typed returns value =>
    have hreturns : returns.isEmpty = false := by
      rw [Bool.eq_false_iff, ne_eq, String.isEmpty_iff]
      exact h.1.ne_empty
    simp [Form.base, Form.kind, Form.returns, hreturns]
  | _ => rfl

/-- **The end of a line.** -/
theorem finish_of_collects {s : State} {c : Command} (h : Collects s c) (hc : c.Printable) :
    (s.withTexts c).finish = some c.entry := by
  have hname : (Text.trim (s.withTexts c).name).isEmpty = false := by
    rw [Bool.eq_false_iff, ne_eq, String.isEmpty_iff]
    exact h.name
  have hanchor : Text.nonEmpty? (Text.trim (c.anchor.getD "")) = c.anchor := by
    cases hanchor : c.anchor with
    | none => rfl
    | some a =>
      obtain ⟨htrimmed, hne⟩ := hc.anchor a hanchor
      rw [Option.getD_some, Text.trim_of_isTrimmed htrimmed, Text.nonEmpty?_of_ne hne]
  simp only [State.finish, hname]
  simp only [State.withTexts, h.split, h.returns, h.value, h.args, h.called, kind_eq hc.form, hanchor,
    Text.trim_of_isTrimmed hc.description.1, Text.trim_of_isTrimmed hc.docs.1]
  rfl

/-! ## Signatures -/

namespace State

/-- The name of a command and its type, if it has one, are collected. -/
theorem steps_typedName {name : String} (hname : IsName name.toList) {returns : Option String}
    (hreturns : ∀ r ∈ returns, IsReturnType r ∧ '\r' ∉ r.toList) :
    State.steps {} (name.toList ++ returns.elim [] fun r => ':' :: r.toList) =
      { part := returns.elim .name fun _ => .returns, name, returns := returns.getD "" } := by
  rw [steps_append, steps_lineName hname, String.ofList_toList]
  cases returns with
  | none => rfl
  | some r =>
    obtain ⟨htype, hreturn⟩ := hreturns r rfl
    have htext : ∀ c ∈ r.toList, c ∉ ['\r', '=', '(', '|'] := by
      have hmarks := htype.unmarked
      grind
    exact steps_returns (s := { name }) rfl htext

/-- A value behind its equals sign is collected as it is. -/
theorem steps_sealed (s : State) {v : String} (h : IsSealedValue v) (hreturn : '\r' ∉ v.toList) :
    (s.inValue "").steps v.toList = s.inValue v := by
  have htext : ∀ c ∈ v.toList, c ≠ '\r' := fun c hc e => hreturn (e ▸ hc)
  rw [steps_value s "" htext h.sealed, foldl_pushUnlessLeading, h.trimmed.1, String.ofList_toList]

/-- **A signature without parameters**, with a type or a value or both or none. -/
theorem steps_variable {name : String} (hname : IsName name.toList) (returns value : Option String)
    (hreturns : ∀ r ∈ returns, IsReturnType r ∧ '\r' ∉ r.toList)
    (hvalue : ∀ v ∈ value, IsSealedValue v ∧ '\r' ∉ v.toList) :
    ∃ part ∈ [Part.name, .returns, .default],
      State.steps {} (name.toList ++ returns.elim [] (fun r => ':' :: r.toList) ++
        value.elim [] fun v => '=' :: v.toList) =
          { part, name, returns := returns.getD "", default := value } := by
  rw [steps_append, steps_typedName hname hreturns]
  cases value with
  | none =>
    refine ⟨_, ?_, rfl⟩
    cases returns <;> simp
  | some v =>
    obtain ⟨hv, hreturn⟩ := hvalue v rfl
    have hequals : State.step
        { part := returns.elim .name fun _ => .returns, name, returns := returns.getD "" } '=' =
          State.inValue { name, returns := returns.getD "" } "" := by
      cases returns <;> rfl
    refine ⟨.default, by simp, ?_⟩
    rw [Option.elim_some, steps_cons, hequals, steps_sealed _ hv hreturn]
    rfl

/-- **A signature with parameters.** -/
theorem steps_call {name : String} (hname : IsName name.toList) {returns : Option String}
    (hreturns : ∀ r ∈ returns, IsReturnType r ∧ '\r' ∉ r.toList) {params : List Slot}
    (hparams : ∀ p ∈ params, IsParam p.argument ∧ ∀ c ∈ p.print, c ≠ '\r') :
    State.steps {} (name.toList ++ returns.elim [] (fun r => ':' :: r.toList) ++
        '(' :: ([','].intercalate (params.map Slot.print) ++ [')'])) =
      { part := .tail, name, returns := returns.getD "", hadParams := true
        params := if params.isEmpty then [{}] else params.map Slot.collected } := by
  let base : State := { name, returns := returns.getD "", hadParams := true }
  have hopen : State.step
      { part := returns.elim .name fun _ => .returns, name, returns := returns.getD "" } '(' =
        base.inside [] {} .name := by
    cases returns <;> rfl
  have hlist := steps_list base [] Slot.print Slot.collected fun p hp done =>
    steps_slot base done (hparams p hp).1 (hparams p hp).2
  rw [steps_append, steps_typedName hname hreturns, steps_cons, hopen, hlist]
  rfl

end State

/-! ## Signatures of commands -/

/-- A name alone has no base. -/
theorem split_name {name : String} (h : IsName name.toList) :
    Text.trim name ≠ "" ∧ splitExtends (Text.trim name) = (name, none) := by
  rw [Text.trim_of_isTrimmed h.isTrimmed]
  exact ⟨ne_empty_of_isName h, splitExtends_name h⟩

theorem expand_empty : TypeName.expand "" = "" := by
  decide

theorem expand_getD {returns : Option String} (h : ∀ r ∈ returns, IsReturnType r) :
    TypeName.expand (returns.getD "") = returns.getD "" := by
  cases returns with
  | none => exact expand_empty
  | some r => exact (h r rfl).spelledOut

theorem finishValue_of_sealed {value : Option String} (h : ∀ v ∈ value, IsSealedValue v) :
    Signature.State.finishValue value = value := by
  cases value with
  | none => rfl
  | some v =>
    have hv := h v rfl
    rw [Signature.State.finishValue, Option.bind_some, Text.trim_of_isTrimmed hv.trimmed,
      Text.nonEmpty?_of_ne hv.ne_empty]

section
variable {c : Command} (hc : c.Printable)
include hc

theorem return_not_mem : '\r' ∉ c.form.print ∧ '\r' ∉ c.printTexts := by
  constructor <;> exact fun hmem => (hc.oneLine '\r' (by simp [Command.print, hmem])).2 rfl

/-- A class is read with its base. -/
theorem collects_base {base : String} (hform : c.form = .extending base) :
    Collects (State.steps {} (c.name.toList ++ c.form.print)) c := by
  have hname := hc.name
  have hbase : IsName base.toList := by
    have hprintable := hc.form
    rwa [hform] at hprintable
  have hplain : ∀ x ∈ c.name.toList ++ (baseWord ++ base.toList), x ∉ State.nameMarks := by
    intro x hx
    simp only [List.mem_append] at hx
    rcases hx with hx | hx | hx
    · exact State.not_nameMarks (Text.isPlain_of_isNameChar (hname.2 x hx))
    · revert x
      decide
    · exact State.not_nameMarks (Text.isPlain_of_isNameChar (hbase.2 x hx))
  have htrimmed : IsTrimmed (c.name.toList ++ (baseWord ++ base.toList)) := by
    refine ⟨Text.dropBlanks_append hname.isTrimmed.1 hname.1 _, ?_⟩
    rw [← List.append_assoc]
    exact Text.dropBlanksEnd_append hbase.isTrimmed.2 hbase.1 _
  have htrim := Text.trim_ofList htrimmed
  rw [hform, Form.print, State.steps_heading hplain]
  refine ⟨?_, ?_, ?_, ?_, ?_, ?_, rfl, rfl⟩ <;> simp only [hform]
  · rw [htrim]
    simp [ne_empty_of_isName hname]
  · rw [htrim]
    exact splitExtends_base hname hbase
  · exact expand_empty
  · rfl
  · rfl
  · rfl

/-- A function is read with its parameters. -/
theorem collects_call {returns : Option String} {params : List Slot}
    (hform : c.form = .call returns params) :
    Collects (State.steps {} (c.name.toList ++ c.form.print)) c := by
  have hreturn := (return_not_mem hc).1
  obtain ⟨hreturns, hparams⟩ : (∀ r ∈ returns, IsReturnType r) ∧ ∀ p ∈ params, IsParam p.argument := by
    have hprintable := hc.form
    rwa [hform] at hprintable
  have hread : ∀ p ∈ params, Signature.State.finishArg p.collected = p.argument := fun p hp =>
    p.finishArg_collected (hparams p hp)
  -- a list without parameters leaves one without a name, which is dropped
  have hargs := filter_finishArg Slot.collected fun p hp => by
    rw [hread p hp]
    exact ne_empty_of_isName (hparams p hp).name
  rw [List.map_congr_left hread] at hargs
  obtain ⟨hne, hsplit⟩ := split_name hc.name
  simp only [hform, Form.print, List.mem_append, List.mem_cons, not_or] at hreturn
  rw [hform, Form.print, ← List.append_assoc, State.steps_call hc.name]
  · refine ⟨hne, ?_, ?_, ?_, ?_, ?_, rfl, rfl⟩ <;> rw [hform]
    · exact hsplit
    · exact expand_getD hreturns
    · rfl
    · exact hargs
    · rfl
  · intro r hr
    refine ⟨hreturns r hr, fun hmem => hreturn.1 ?_⟩
    obtain rfl : returns = some r := hr
    simp [hmem]
  · intro p hp
    refine ⟨hparams p hp, ?_⟩
    rintro x hx rfl
    exact hreturn.2.2.1 (Text.mem_intercalate (List.mem_map_of_mem hp) hx)

/-- A variable is read with its type and its value, and a plain word with neither. -/
theorem collects_variable (returns value : Option String)
    (hprint : c.form.print =
      returns.elim [] (fun r => ':' :: r.toList) ++ value.elim [] fun v => '=' :: v.toList)
    (hreturns : ∀ r ∈ returns, IsReturnType r) (hvalue : ∀ v ∈ value, IsSealedValue v)
    (hform : c.form.base = none ∧ c.form.returns = returns.getD "" ∧ c.form.value = value ∧
      c.form.args = [] ∧ c.form.kind ≠ .function) :
    Collects (State.steps {} (c.name.toList ++ c.form.print)) c := by
  have hreturn := (return_not_mem hc).1
  obtain ⟨hbase, hreturned, hvalued, hargs, hkind⟩ := hform
  obtain ⟨hne, hsplit⟩ := split_name hc.name
  rw [hprint, List.mem_append, not_or] at hreturn
  obtain ⟨part, hpart, hsteps⟩ := State.steps_variable hc.name returns value
    (fun r hr => ⟨hreturns r hr, fun hmem => hreturn.1 (by simp [Option.mem_def.1 hr, hmem])⟩)
    (fun v hv => ⟨hvalue v hv, fun hmem => hreturn.2 (by simp [Option.mem_def.1 hv, hmem])⟩)
  rw [hprint, ← List.append_assoc, hsteps]
  refine ⟨hne, ?_, ?_, ?_, ?_, ?_, rfl, ?_⟩
  · rw [hbase]
    exact hsplit
  · rw [hreturned]
    exact expand_getD hreturns
  · rw [hvalued]
    exact finishValue_of_sealed hvalue
  · rw [hargs]
    rfl
  · simp [hkind]
  · -- a pipe ends the name, the type and the value alike
    simp only [List.mem_cons, List.not_mem_nil, or_false] at hpart
    rcases hpart with rfl | rfl | rfl <;> rfl

/-- **The signature of a command** is read as that of the command. -/
theorem collects_signature : Collects (State.steps {} (c.name.toList ++ c.form.print)) c := by
  have hprintable := hc.form
  cases hform : c.form with
  | extending base => exact hform ▸ collects_base hc hform
  | call returns params => exact hform ▸ collects_call hc hform
  | typed returns value =>
    rw [hform] at hprintable
    rw [← hform]
    refine collects_variable hc (some returns) value (by rw [hform]; rfl) ?_ hprintable.2 ?_
    · rintro r ⟨⟩
      exact hprintable.1
    · simp [hform, Form.base, Form.returns, Form.value, Form.args, Form.kind]
  | valued value =>
    rw [hform] at hprintable
    rw [← hform]
    refine collects_variable hc none (some value) (by rw [hform]; rfl) (by simp) ?_ ?_
    · rintro v ⟨⟩
      exact hprintable
    · simp [hform, Form.base, Form.returns, Form.value, Form.args, Form.kind]
  | bare =>
    rw [← hform]
    refine collects_variable hc none none (by rw [hform]; rfl) (by simp) (by simp) ?_
    simp [hform, Form.base, Form.returns, Form.value, Form.args, Form.kind]

end

/-! ## Whole lines -/

/-- The line of a command is read as its entry. -/
theorem finish_print {c : Command} (hc : c.Printable) :
    (State.steps {} c.print).finish = some c.entry := by
  have hcollects := collects_signature hc
  rw [Command.print, State.steps_append, State.steps_cons, hcollects.pipe,
    State.steps_printTexts hcollects.outside hc.description.2 hc.docs.2 (return_not_mem hc).2]
  exact finish_of_collects hcollects hc

/-- **Reading a line undoes printing it**, whether or not a line feed ends it. -/
theorem parse_line (c : Command) (hc : c.Printable) :
    parse (String.ofList c.print) = ([c.entry], []) ∧
      parse (String.ofList c.print ++ "\n") = ([c.entry], []) := by
  have hline : '\n' ∉ c.print := fun hmem => (hc.oneLine '\n' hmem).1 rfl
  have hone : lines (String.ofList c.print) = [some c.entry] := by
    rw [lines, String.toList_ofList, linesFrom_of_not_mem hline, finish_print hc]
  have hended : lines (String.ofList c.print ++ "\n") = [some c.entry, none] := by
    have htext : (String.ofList c.print ++ "\n").toList = c.print ++ '\n' :: [] := by simp
    have hempty : linesFrom {} [] = [none] := by decide +kernel
    rw [lines, htext, linesFrom_append hline, finish_print hc, hempty]
  constructor
  · rw [parse, hone]
    rfl
  · rw [parse, hended]
    rfl

/-- A function with marks in its types, its defaults and its texts. -/
def sampleCommand : Command where
  name := "Sort"
  form := .call (some "Object[]")
    [{ argument := { name := "compare", type := "Int(a:Object, b:Object)", default := some "Cmp" } },
      { argument := { name := "note", type := "String", default := some "\"a,|\" + Max(1, 2)" }
        name := { before := .space }
        default := { before := .space, behind := .space } }]
  description := "Sorts a list: \"fast\" (stable)"
  docs := "/mod/brl.mod/list.mod/doc/commands.html"
  anchor := some "Sort#2"

theorem parse_sampleCommand :
    String.ofList sampleCommand.print =
      "Sort:Object[](compare:Int(a:Object, b:Object)=Cmp, note:String= \"a,|\" + Max(1, 2) )" ++
        "|Sorts a list: \"fast\" (stable)|/mod/brl.mod/list.mod/doc/commands.html#Sort#2" ∧
    sampleCommand.Printable ∧
    parse (String.ofList sampleCommand.print ++ "\n") = ([sampleCommand.entry], []) ∧
    sampleCommand.entry.searchKey = "sort" ∧
    sampleCommand.entry.docsPath = some "brl.mod/list.mod" := by
  have hprintable : sampleCommand.Printable := by decide +kernel
  exact ⟨by decide +kernel, hprintable, (parse_line sampleCommand hprintable).2, by decide +kernel,
    by decide +kernel⟩

end BlitzDoc.CommandIndex
