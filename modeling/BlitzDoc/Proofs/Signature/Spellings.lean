import BlitzDoc.Proofs.Signature.Layout
import Mathlib.Tactic.Choose

/-!
# Spellings of a callable

A function or method can be written in many ways: with any capitals in its keyword and in the names of
builtin types, with blanks around the marks, with a tag or a name for a type, without the type `Int`
of an argument, and with any text behind its argument list. A `WrittenCallable` is one of these
spellings and `WrittenCallable.declaration` is what it declares. The main statement is
`read_spellings`: spellings of one declaration are all read as that declaration.

Types come first: a type is spelled out alike from its name and from its tag
(`WrittenType.expand_body`). A parameter in one of these spellings is one of those that `steps_params`
speaks of (`WrittenParam.exists_param`), and `steps_written` reads the head in front of the list.
-/

namespace BlitzDoc.Signature

open Text (IsName IsTrimmed isBalanced depthAfter unquoted)

/-! ## Types -/

/-- A builtin type that has a tag. -/
inductive Builtin where
  | int
  | long
  | float
  | double
  | string
deriving DecidableEq, Repr

namespace Builtin

def name : Builtin → String
  | int => "Int"
  | long => "Long"
  | float => "Float"
  | double => "Double"
  | string => "String"

/-- The tag of the type. -/
def mark : Builtin → List Char
  | int => ['%']
  | long => ['%', '%']
  | float => ['#']
  | double => ['!']
  | string => ['$']

end Builtin

/-- A builtin type, or an array of it with as many pairs of brackets. -/
structure ArrayType where
  base : Builtin
  dims : Nat := 0
deriving DecidableEq, Repr

/-- The type in its uniform spelling. -/
def ArrayType.text (t : ArrayType) : String :=
  t.base.name ++ String.ofList (brackets t.dims)

/-! ## Spellings -/

/-- Blanks between two parts of a signature. -/
structure Gap where
  text : List Char := []
  blank : ∀ c ∈ text, isGap c = true := by decide

def Gap.none : Gap :=
  ⟨[], isGap_of_mem_nil⟩

def Gap.space : Gap :=
  { text := [' '] }

/-- A word in any mix of capitals. -/
structure AnyCase (word : String) where
  text : List Char
  same : text.map Char.toLower = word.toList.map Char.toLower := by decide

/-- A type behind a name. -/
inductive WrittenType where
  /-- By its name, behind a colon. -/
  | named (t : ArrayType) (letters : AnyCase t.base.name) (before after behind : Gap)
  /-- By its tag, directly behind the name. -/
  | tagged (t : ArrayType) (behind : Gap)

namespace WrittenType

def type : WrittenType → ArrayType
  | named t .. => t
  | tagged t _ => t

def print : WrittenType → List Char
  | named t letters before after behind =>
    before.text ++ ':' :: (after.text ++ (letters.text ++ brackets t.dims) ++ behind.text)
  | tagged t behind => t.base.mark ++ brackets t.dims ++ behind.text

end WrittenType

/-- A type behind a name, or nothing but blanks. -/
inductive WrittenType? where
  | none (behind : Gap)
  | some (w : WrittenType)

namespace WrittenType?

def print : WrittenType? → List Char
  | none behind => behind.text
  | some w => w.print

/-- The type that was written, or the type that nothing stands for. -/
def text (absent : String) : WrittenType? → String
  | none _ => absent
  | some w => w.type.text

end WrittenType?

/-- A default, with the blanks around it. -/
structure WrittenDefault where
  before : Gap := {}
  value : String
  behind : Gap := {}
  isValue : IsValue value := by decide +kernel

def WrittenDefault.print (d : WrittenDefault) : List Char :=
  '=' :: (d.before.text ++ d.value.toList ++ d.behind.text)

/-- A parameter. Where nothing is written for its type, it is an `Int`. -/
structure WrittenParam where
  before : Gap := {}
  name : String
  type : WrittenType?
  default : Option WrittenDefault := none
  isName : IsName name.toList := by decide +kernel

namespace WrittenParam

def print (p : WrittenParam) : List Char :=
  p.before.text ++ (p.name.toList ++ (p.type.print ++ p.default.elim [] WrittenDefault.print))

def argument (p : WrittenParam) : Argument :=
  { name := p.name, type := p.type.text "Int", default := p.default.map WrittenDefault.value }

end WrittenParam

/-- A function or a method. -/
structure WrittenCallable where
  before : Gap := {}
  kind : Kind
  keyword : AnyCase kind.word
  between : Gap := { text := [' '] }
  name : String
  returns : WrittenType?
  /-- The blanks behind the opening parenthesis. -/
  inner : Gap := {}
  params : List WrittenParam
  callable : kind.isCallable = true := by decide
  separated : between.text ≠ [] := by decide
  isName : IsName name.toList := by decide +kernel

namespace WrittenCallable

/-- The signature up to the parenthesis that closes its argument list. -/
def print (w : WrittenCallable) : List Char :=
  w.before.text ++ (w.keyword.text ++ (w.between.text ++ (w.name.toList ++ (w.returns.print ++
    '(' :: (w.inner.text ++ ([','].intercalate (w.params.map WrittenParam.print) ++ [')']))))))

/-- What the signature declares. -/
def declaration (w : WrittenCallable) : Declaration :=
  let d : Declaration :=
    { kind := w.kind, name := w.name, returns := w.returns.text ""
      args := w.params.map WrittenParam.argument }
  { d with pretty := d.layout }

end WrittenCallable

/-! ## Letters and blanks -/

theorem Gap.isBlank (g : Gap) : ∀ c ∈ g.text, Text.isBlank c = true := by
  intro c hc
  rcases isGap_cases (g.blank c hc) with rfl | rfl <;> decide

/-- A word of small letters can be written with letters alone. -/
theorem isNameChar_of_toLower {c : Char} (h : c.toLower ∈ "abcdefghijklmnopqrstuvwxyz".toList) :
    TypeName.isNameChar c = true := by
  unfold Char.toLower at h
  split at h
  · rename_i hupper
    have hcapitals : ∀ k ∈ List.range 26, TypeName.isNameChar (Char.ofNat (65 + k)) = true := by
      decide
    have hlow : 65 ≤ c.toNat := UInt32.le_iff_toNat_le.1 hupper.1
    have hhigh : c.toNat ≤ 90 := UInt32.le_iff_toNat_le.1 hupper.2
    have hc := hcapitals (c.toNat - 65) (by simp; omega)
    rwa [Nat.add_sub_cancel' hlow, Char.ofNat_toNat] at hc
  · have hsmall : ∀ d ∈ "abcdefghijklmnopqrstuvwxyz".toList, TypeName.isNameChar d = true := by
      decide
    exact hsmall c h

namespace AnyCase

variable {word : String} (w : AnyCase word)

theorem lowerAscii_eq : Text.lowerAscii (String.ofList w.text) = Text.lowerAscii word := by
  rw [← String.toList_inj]
  simpa [Text.lowerAscii] using w.same

theorem isNameChar (hword : ∀ c ∈ word.toList.map Char.toLower, c ∈ "abcdefghijklmnopqrstuvwxyz".toList) :
    ∀ c ∈ w.text, TypeName.isNameChar c = true := by
  intro c hc
  apply isNameChar_of_toLower
  apply hword
  rw [← w.same]
  exact List.mem_map_of_mem hc

theorem ne_nil (hword : word ≠ "") : w.text ≠ [] := by
  intro hnil
  have hlength := congrArg List.length w.same
  rw [hnil] at hlength
  apply hword
  rw [← String.toList_inj]
  simpa using hlength.symm

end AnyCase

/-! ## Types in both spellings -/

theorem isBlank_of_mem_brackets {c : Char} {n : Nat} (h : c ∈ brackets n) : Text.isBlank c = false := by
  rcases mem_brackets h with rfl | rfl <;> decide

/-- Brackets behind a run of name characters end it. -/
theorem span_append_brackets {cs : List Char} (h : ∀ c ∈ cs, TypeName.isNameChar c = true) (n : Nat) :
    (cs ++ brackets n).takeWhile TypeName.isNameChar = cs ∧
      (cs ++ brackets n).dropWhile TypeName.isNameChar = brackets n := by
  have hopen : TypeName.isNameChar '[' = false := by decide
  rw [List.takeWhile_append_of_pos h, List.dropWhile_append_of_pos h]
  cases n <;> simp [brackets, hopen]

theorem expand_blanks_append {bs : List Char} (hbs : ∀ c ∈ bs, Text.isBlank c = true) (xs : List Char) :
    TypeName.expand (String.ofList (bs ++ xs)) = TypeName.expand (String.ofList xs) := by
  rw [TypeName.expand, TypeName.expand, Text.trim_blanks_append hbs]

theorem expandTrimmed_of_isNameChar {c : Char} (hc : TypeName.isNameChar c = true) (cs : List Char) :
    TypeName.expandTrimmed (c :: cs) = TypeName.expandNamed (c :: cs) := by
  have hplain := Text.isPlain_of_isNameChar hc
  have hopen : c ≠ '(' := hplain.ne (by decide)
  have hpercent : c ≠ '%' := hplain.ne (by decide)
  unfold TypeName.expandTrimmed
  split
  · rename_i h
    exact absurd (List.cons.inj h).1 hopen
  · rename_i h
    exact absurd (List.cons.inj h).1 hpercent
  · rename_i h
    obtain ⟨rfl, rfl⟩ := List.cons.inj h
    rw [State.shorthand?_of_isPlain hplain]
  · rename_i h
    cases h

namespace ArrayType

variable (t : ArrayType)

/-- Capitals do not matter to the name of a builtin type. -/
theorem builtin?_eq (letters : AnyCase t.base.name) :
    TypeName.builtin? letters.text = some t.base.name := by
  rw [TypeName.builtin?, letters.lowerAscii_eq]
  cases t.base <;> decide +kernel

theorem isNameChar_letters (letters : AnyCase t.base.name) :
    ∀ c ∈ letters.text, TypeName.isNameChar c = true := by
  apply letters.isNameChar
  cases t.base <;> decide

/-- A type by its name is spelled out as it is. -/
theorem expand_name (letters : AnyCase t.base.name) :
    TypeName.expand (String.ofList (letters.text ++ brackets t.dims)) = t.text := by
  have hname := t.isNameChar_letters letters
  have htrimmed : IsTrimmed (letters.text ++ brackets t.dims) := by
    apply Text.isTrimmed_of_forall
    intro c hc
    rcases List.mem_append.1 hc with hc | hc
    · exact Text.isBlank_of_isNameChar (hname c hc)
    · exact isBlank_of_mem_brackets hc
  have hhead : TypeName.expandTrimmed (letters.text ++ brackets t.dims) =
      TypeName.expandNamed (letters.text ++ brackets t.dims) := by
    have hne : letters.text ≠ [] := letters.ne_nil (by cases t.base <;> decide)
    cases hletters : letters.text with
    | nil => exact absurd hletters hne
    | cons c cs => exact expandTrimmed_of_isNameChar (hname c (by simp [hletters])) _
  obtain ⟨htake, hdrop⟩ := span_append_brackets hname t.dims
  rw [TypeName.expand, Text.trim_ofList htrimmed, String.toList_ofList, hhead, TypeName.expandNamed,
    htake, hdrop, t.builtin?_eq letters]
  simp [text, String.ofList_append]

/-- A type by its tag is spelled out as its name. -/
theorem expand_mark :
    TypeName.expand (String.ofList (t.base.mark ++ brackets t.dims)) = t.text := by
  have htrimmed : IsTrimmed (t.base.mark ++ brackets t.dims) := by
    apply Text.isTrimmed_of_forall
    intro c hc
    rcases List.mem_append.1 hc with hc | hc
    · have hmarks : ∀ c ∈ t.base.mark, Text.isBlank c = false := by cases t.base <;> decide
      exact hmarks c hc
    · exact isBlank_of_mem_brackets hc
  have hdrop : Text.dropBlanks (brackets t.dims) = brackets t.dims :=
    (Text.isTrimmed_of_forall fun c hc => isBlank_of_mem_brackets hc).1
  rw [TypeName.expand, Text.trim_ofList htrimmed, String.toList_ofList, text, ← String.toList_inj]
  obtain ⟨base, dims⟩ := t
  -- one tag must not be taken for the start of the double one
  cases base <;> cases dims <;>
    simp_all [Builtin.mark, Builtin.name, brackets, TypeName.expandTrimmed, TypeName.shorthand?]

theorem text_ne_empty : t.text ≠ "" := by
  have hname : t.base.name ≠ "" := by cases t.base <;> decide
  intro h
  have hlist := congrArg String.toList h
  simp only [text, String.toList_append, String.toList_empty, List.append_eq_nil_iff] at hlist
  exact hname (String.toList_inj.1 hlist.1)

end ArrayType

namespace WrittenType

/-- What stands for the type behind the colon or the name. -/
def body : WrittenType → List Char
  | named t letters _ after behind => after.text ++ (letters.text ++ brackets t.dims) ++ behind.text
  | tagged t behind => t.base.mark ++ brackets t.dims ++ behind.text

/-- **Both spellings of a type** are spelled out alike. -/
theorem expand_body (w : WrittenType) : TypeName.expand (String.ofList w.body) = w.type.text := by
  cases w with
  | named t letters before after behind =>
    rw [body, TypeName.expand_append_blanks _ behind.isBlank, expand_blanks_append after.isBlank]
    exact t.expand_name letters
  | tagged t behind =>
    rw [body, TypeName.expand_append_blanks _ behind.isBlank]
    exact t.expand_mark

/-- The characters that can stand in a type. -/
theorem mem_body {w : WrittenType} {c : Char} (hc : c ∈ w.body) :
    isGap c = true ∨ TypeName.isNameChar c = true ∨ c ∈ ['%', '#', '!', '$', '[', ']'] := by
  have hbrackets : ∀ n, c ∈ brackets n → c ∈ ['%', '#', '!', '$', '[', ']'] := by
    intro n hn
    rcases mem_brackets hn with rfl | rfl <;> decide
  cases w with
  | named t letters before after behind =>
    simp only [body, List.mem_append] at hc
    rcases hc with (hc | hc | hc) | hc
    · exact .inl (after.blank c hc)
    · exact .inr (.inl (t.isNameChar_letters letters c hc))
    · exact .inr (.inr (hbrackets _ hc))
    · exact .inl (behind.blank c hc)
  | tagged t behind =>
    have hmarks : ∀ d ∈ t.base.mark, d ∈ ['%', '#', '!', '$', '[', ']'] := by cases t.base <;> decide
    simp only [body, List.mem_append] at hc
    rcases hc with (hc | hc) | hc
    · exact .inr (.inr (hmarks c hc))
    · exact .inr (.inr (hbrackets _ hc))
    · exact .inl (behind.blank c hc)

/-- None of the marks that end a type stands in it. -/
theorem not_mem_marks {w : WrittenType} {c : Char} (hc : c ∈ w.body) :
    c ∉ ['(', ')', '=', ',', '\'', '"'] := by
  intro hmark
  rcases mem_body hc with h | h | h
  · have hgaps : ∀ d ∈ ['(', ')', '=', ',', '\'', '"'], isGap d = false := by decide
    rw [hgaps c hmark] at h
    cases h
  · have hmarks : ∀ d ∈ ['(', ')', '=', ',', '\'', '"'], d ∈ Text.marks := by decide
    exact (Text.isPlain_of_isNameChar h).2 (hmarks c hmark)
  · have hapart : ∀ d ∈ ['(', ')', '=', ',', '\'', '"'], d ∉ ['%', '#', '!', '$', '[', ']'] := by
      decide
    exact hapart c hmark h

theorem balanced_body (w : WrittenType) : isBalanced endsType 0 false w.body = true := by
  apply Text.isBalanced_of_neutral
  intro c hc
  have hmarks := w.not_mem_marks hc
  simp only [List.mem_cons, List.not_mem_nil, or_false, not_or] at hmarks
  simp [endsType, hmarks]

theorem unquoted_body (w : WrittenType) : unquoted false w.body = w.body := by
  apply Text.unquoted_of_not_mem
  intro hquote
  exact w.not_mem_marks hquote (by decide)

end WrittenType

/-! ## Parameters -/

theorem finishType_of_expand {t : ArrayType} {cs : List Char}
    (h : TypeName.expand (String.ofList cs) = t.text) :
    State.finishType (String.ofList cs) = t.text := by
  rw [State.finishType, h, Text.nonEmpty?_of_ne t.text_ne_empty, Option.getD_some]

/-- What is written for the type of a parameter is blanks and one of the spellings of a type. -/
theorem WrittenType?.exists_spelling (w : WrittenType?) :
    ∃ (gap : Gap) (s : Spelling), gap.text ++ s.print = w.print ∧
      State.finishType (String.ofList s.collected) = w.text "Int" := by
  cases w with
  | none behind =>
    have hint : State.finishType (String.ofList Spelling.none.collected) = "Int" := by decide
    exact ⟨behind, .none, by simp [Spelling.print, print], hint⟩
  | some w =>
    cases w with
    | named t letters before after behind =>
      let w := WrittenType.named t letters before after behind
      refine ⟨before, .typed { text := w.body, balanced := w.balanced_body }, rfl, ?_⟩
      rw [Spelling.collected, w.unquoted_body]
      exact finishType_of_expand w.expand_body
    | tagged t behind =>
      have hmark : t.base.mark ∈ tagMarks := by cases t.base <;> decide
      refine ⟨{}, .tag { mark := t.base.mark, dims := t.dims, gap := behind.text
                         isMark := hmark, blank := behind.blank }, rfl, ?_⟩
      exact finishType_of_expand t.expand_mark

/-- Blanks around a default are not part of it. -/
theorem WrittenDefault.exists_text (d : WrittenDefault) :
    ∃ t : DefaultText, '=' :: t.text = d.print ∧
      State.finishValue (some (String.ofList (Text.dropBlanks t.text))) = some d.value := by
  have hgap : ∀ g : Gap, isBalanced endsDefault 0 false g.text = true := by
    intro g
    apply Text.isBalanced_of_neutral
    intro c hc
    rcases isGap_cases (g.blank c hc) with rfl | rfl <;> decide
  have hbalanced : isBalanced endsDefault 0 false
      (d.before.text ++ d.value.toList ++ d.behind.text) = true :=
    Text.isBalanced_append (Text.isBalanced_append (hgap d.before) d.isValue.balanced) (hgap d.behind)
  refine ⟨{ text := _, balanced := hbalanced }, rfl, ?_⟩
  have hdrop : Text.dropBlanks (d.before.text ++ d.value.toList ++ d.behind.text) =
      d.value.toList ++ d.behind.text := by
    have hne : d.value.toList ≠ [] := by simpa using d.isValue.ne_empty
    have hbefore : d.before.text.dropWhile Text.isBlank = [] :=
      List.dropWhile_eq_nil_iff.2 d.before.isBlank
    rw [List.append_assoc, Text.dropBlanks, List.dropWhile_append, hbefore]
    exact Text.dropBlanks_append d.isValue.trimmed.1 hne d.behind.text
  rw [hdrop, State.finishValue, Option.bind_some, Text.trim_append_blanks _ d.behind.isBlank,
    String.ofList_toList, Text.trim_of_isTrimmed d.isValue.trimmed,
    Text.nonEmpty?_of_ne d.isValue.ne_empty]

/-- **A parameter in any spelling** is a parameter as it is read, and is read as its argument. -/
theorem WrittenParam.exists_param (w : WrittenParam) :
    ∃ p : Param, p.print = w.print ∧ State.finishArg p.collected = w.argument := by
  obtain ⟨gap, s, hprint, htype⟩ := w.type.exists_spelling
  have hblank : ∀ c ∈ w.before.text ++ gap.text, isGap c = true := by
    intro c hc
    rcases List.mem_append.1 hc with hc | hc
    · exact w.before.blank c hc
    · exact gap.blank c hc
  have hname : Text.trim w.name = w.name := Text.trim_of_isTrimmed w.isName.isTrimmed
  cases hdefault : w.default with
  | none =>
    refine ⟨{ before := w.before.text, name := w.name.toList, after := gap.text, spelling := s
              blank := hblank, isName := w.isName }, ?_, ?_⟩
    · simp [Param.print, Param.printDefault, print, ← hprint, hdefault]
    · simp [Param.collected, State.finishArg, argument, htype, hname, hdefault, State.finishValue]
  | some d =>
    obtain ⟨t, hdprint, hvalue⟩ := d.exists_text
    refine ⟨{ before := w.before.text, name := w.name.toList, after := gap.text, spelling := s
              default := some t, blank := hblank, isName := w.isName }, ?_, ?_⟩
    · simp [Param.print, Param.printDefault, print, ← hprint, ← hdprint, hdefault]
    · simp [Param.collected, State.finishArg, argument, htype, hname, hdefault, hvalue]

theorem exists_written (ws : List WrittenParam) :
    ∃ ps : List Param, printParams ps = [','].intercalate (ws.map WrittenParam.print) ∧
      ps.map (fun p => State.finishArg p.collected) = ws.map WrittenParam.argument := by
  choose param hprint hfinish using WrittenParam.exists_param
  exact ⟨ws.map param, by simp [printParams, Function.comp_def, hprint],
    by simp [Function.comp_def, hfinish]⟩

namespace State

/-! ## The head -/

theorem stepName_gap (s : State) {c : Char} (hc : isGap c = true) :
    s.stepName c = { s with nameEnded := !s.name.isEmpty } := by
  rcases isGap_cases hc with rfl | rfl <;> rfl

theorem ne_quote_of_isGap {c : Char} (hc : isGap c = true) : c ≠ '"' := by
  rintro rfl
  revert hc
  decide

/-- Blanks in front of a name say nothing. -/
theorem steps_beforeName {s : State} (hpart : s.part = .name) (hstring : s.inString = false)
    (hname : s.name = "") (hended : s.nameEnded = false) (gap : Gap) : s.steps gap.text = s := by
  obtain ⟨cs, hcs⟩ := gap
  induction cs with
  | nil => rfl
  | cons c cs ih =>
    have hc := hcs c List.mem_cons_self
    have hstep : s.step c = s := by
      rw [step_plain (ne_quote_of_isGap hc) hstring, hpart]
      simp only [stepName_gap s hc, hname]
      obtain ⟨⟩ := s
      simp_all
    rw [steps_cons, hstep]
    exact ih fun d hd => hcs d (List.mem_cons_of_mem _ hd)

/-- Blanks behind a name end it. -/
theorem steps_afterName (k : Kind) (name : String) (gap : Gap) :
    ∃ ended, (named k name).steps gap.text = { named k name with nameEnded := ended } := by
  have hsteps : ∀ (cs : List Char) (ended : Bool), (∀ c ∈ cs, isGap c = true) →
      ∃ ended', State.steps { named k name with nameEnded := ended } cs =
        { named k name with nameEnded := ended' } := by
    intro cs
    induction cs with
    | nil => exact fun ended _ => ⟨ended, rfl⟩
    | cons c cs ih =>
      intro ended hcs
      have hc := hcs c List.mem_cons_self
      have hstep : State.step { named k name with nameEnded := ended } c =
          { named k name with nameEnded := !name.isEmpty } := by
        rw [step_plain (ne_quote_of_isGap hc) rfl]
        exact stepName_gap _ hc
      rw [steps_cons, hstep]
      exact ih _ fun d hd => hcs d (List.mem_cons_of_mem _ hd)
  exact hsteps gap.text false gap.blank

/-- Blanks in front of the keyword say nothing. -/
theorem steps_beforeKeyword (gap : Gap) : State.steps {} gap.text = {} := by
  obtain ⟨cs, hcs⟩ := gap
  induction cs with
  | nil => rfl
  | cons c cs ih =>
    have hc := hcs c List.mem_cons_self
    have hstep : State.step {} c = {} := by
      rcases isGap_cases hc with rfl | rfl <;> decide
    rw [steps_cons, hstep]
    exact ih fun d hd => hcs d (List.mem_cons_of_mem _ hd)

/-- The letters of the keyword are collected in small letters. -/
theorem steps_keyword (keyword : String) {cs : List Char}
    (hcs : ∀ c ∈ cs, TypeName.isNameChar c = true) :
    State.steps { keyword } cs = { keyword := keyword ++ String.ofList (cs.map Char.toLower) } := by
  rw [← foldl_push]
  induction cs generalizing keyword with
  | nil => rfl
  | cons c cs ih =>
    have hplain := Text.isPlain_of_isNameChar (hcs c List.mem_cons_self)
    have hcomment : c ≠ '\'' := hplain.ne (by decide)
    have hstep : State.step { keyword } c = { keyword := keyword.push c.toLower } := by
      rw [step_plain (hplain.ne (by decide)) rfl]
      simp [stepType, hplain.1, hcomment]
    rw [steps_cons, hstep, ih _ fun d hd => hcs d (List.mem_cons_of_mem _ hd), List.map_cons,
      List.foldl_cons]

/-- The keyword of a callable in any mix of capitals, and the blanks behind it. -/
theorem steps_keyed {k : Kind} (hk : k.isCallable = true) (letters : AnyCase k.word) {gap : Gap}
    (hgap : gap.text ≠ []) : State.steps {} (letters.text ++ gap.text) = keyed k := by
  have hletters : ∀ c ∈ letters.text, TypeName.isNameChar c = true := by
    apply letters.isNameChar
    revert hk
    cases k <;> decide
  have hword : "" ++ String.ofList (letters.text.map Char.toLower) = k.word := by
    rw [letters.same, String.empty_append]
    revert hk
    cases k <;> decide
  rw [steps_append, steps_keyword "" hletters, hword]
  obtain ⟨cs, hcs⟩ := gap
  cases cs with
  | nil => exact absurd rfl hgap
  | cons c cs =>
    have hstep : State.step { keyword := k.word } c = keyed k := by
      have hc := hcs c List.mem_cons_self
      revert hk
      rcases isGap_cases hc with rfl | rfl <;> cases k <;> decide
    rw [steps_cons, hstep]
    exact steps_beforeName rfl rfl rfl rfl
      { text := cs, blank := fun d hd => hcs d (List.mem_cons_of_mem _ hd) }

theorem step_tag (k : Kind) {name : String} (hname : name ≠ "") {c : Char}
    (hc : c ∈ ['%', '#', '!', '$']) :
    (named k name).step c = { named k name with part := .returns, returns := "".push c } := by
  have hstarted : name.isEmpty = false := by
    rw [Bool.eq_false_iff, ne_eq, String.isEmpty_iff]
    exact hname
  simp only [List.mem_cons, List.not_mem_nil, or_false] at hc
  rcases hc with rfl | rfl | rfl | rfl <;>
    simp [step, named, keyed, stepName, TypeName.shorthand?, hstarted]

/-- A return type in any spelling is collected behind the name. -/
theorem heads_written (k : Kind) {name : String} (hname : name ≠ "") (w : WrittenType?) :
    Heads ((named k name).steps w.print) { kind := k, name, returns := w.text "" } := by
  have hmarks : ∀ (w : WrittenType), ∀ c ∈ w.body, c ∉ returnsMarks := by
    intro w c hc hmark
    have hsub : ∀ d ∈ returnsMarks, d ∈ ['(', ')', '=', ',', '\'', '"'] := by decide
    exact w.not_mem_marks hc (hsub c hmark)
  cases w with
  | none behind =>
    obtain ⟨ended, hgap⟩ := steps_afterName k name behind
    have hnothing : TypeName.expand "" = "" := by decide
    rw [WrittenType?.print, hgap]
    exact ⟨.inl rfl, rfl, rfl, rfl, hnothing, rfl, ⟨rfl, rfl⟩, rfl⟩
  | some w =>
    cases hw : w with
    | named t letters before after behind =>
      obtain ⟨ended, hgap⟩ := steps_afterName k name before
      have hcolon : State.step { named k name with nameEnded := ended } ':' =
          { named k name with nameEnded := ended, part := .returns } := rfl
      have hprint : WrittenType?.print (.some w) = before.text ++ ':' :: w.body := by rw [hw]; rfl
      have hreturns : TypeName.expand ("" ++ String.ofList w.body) = w.type.text := by
        rw [String.empty_append]
        exact w.expand_body
      rw [← hw, hprint, steps_append, hgap, steps_cons, hcolon, steps_returns rfl rfl (hmarks w)]
      exact ⟨.inr rfl, rfl, rfl, rfl, hreturns, rfl, ⟨rfl, rfl⟩, rfl⟩
    | tagged t behind =>
      obtain ⟨c, cs, hbody, hc⟩ : ∃ c cs, w.body = c :: cs ∧ c ∈ ['%', '#', '!', '$'] := by
        rw [hw, WrittenType.body]
        cases t.base <;> exact ⟨_, _, rfl, by decide⟩
      have hprint : WrittenType?.print (.some w) = w.body := by rw [hw]; rfl
      have hrest : ∀ d ∈ cs, d ∉ returnsMarks := by
        intro d hd
        exact hmarks w d (by simp [hbody, hd])
      have hreturns : TypeName.expand ("".push c ++ String.ofList cs) = w.type.text := by
        rw [← w.expand_body, hbody, String.ofList_cons, String.push_eq_append, String.empty_append]
      rw [← hw, hprint, hbody, steps_cons, step_tag k hname hc, steps_returns rfl rfl hrest]
      exact ⟨.inr rfl, rfl, rfl, rfl, hreturns, rfl, ⟨rfl, rfl⟩, rfl⟩

/-! ## Whole signatures -/

/-- The parenthesis behind a name or a type opens the argument list. -/
theorem Heads.step_open {s : State} {d : Declaration} (h : Heads s d) :
    s.step '(' = State.between { s with inArgs := true } [] := by
  have hstep := step_plain (s := s) (c := '(') (by decide) h.outside.1
  have hargs := h.args
  have hstring := h.outside.1
  rcases h.part with hpart | hpart <;>
    simp [hstep, hpart, stepName, stepReturns, openArgs, between, hargs, hstring]

/-- **A callable in any spelling** is read up to the end of its argument list. -/
theorem steps_written (w : WrittenCallable) (rest : List Char) :
    ∃ (s : State) (ps : List Param) (i : Nat),
      State.steps {} (w.print ++ rest) = s.closed (ps.map Param.collected) i ∧
      Heads s { kind := w.kind, name := w.name, returns := w.returns.text "" } ∧
      ps.map (fun p => finishArg p.collected) = w.params.map WrittenParam.argument := by
  have hname : w.name ≠ "" := by
    have hne := w.isName.1
    simpa using hne
  obtain ⟨ps, hprint, hfinish⟩ := exists_written w.params
  have hhead := heads_written w.kind hname w.returns
  have hnamed : State.steps {} (w.before.text ++ ((w.keyword.text ++ w.between.text) ++ w.name.toList)) =
      named w.kind w.name := by
    rw [steps_append, steps_beforeKeyword, steps_append, steps_keyed w.callable w.keyword w.separated,
      steps_declName w.kind w.isName, String.ofList_toList]
  generalize hs : (named w.kind w.name).steps w.returns.print = s at hhead
  obtain ⟨i, hread⟩ := steps_params { s with inArgs := true } [] ps
  refine ⟨s, ps, i, ?_, hhead, hfinish⟩
  have hwhole : w.print ++ rest =
      (w.before.text ++ ((w.keyword.text ++ w.between.text) ++ w.name.toList)) ++ (w.returns.print ++
        '(' :: (w.inner.text ++ ((printParams ps ++ [')']) ++ rest))) := by
    simp [WrittenCallable.print, hprint]
  rw [hwhole, steps_append, hnamed, steps_append, hs, steps_cons, hhead.step_open, steps_append,
    steps_gap rfl rfl w.inner.blank, steps_append, hread, steps_done rfl]
  rfl

end State

/-- A callable in any spelling is read as what it declares. -/
theorem read_written (w : WrittenCallable) (rest : List Char) (file : Path) (line : Nat) :
    (read (String.ofList (w.print ++ rest)) file line).1 =
      { w.declaration with raw := String.ofList (w.print ++ rest), file, line } := by
  obtain ⟨s, ps, i, hsteps, hhead, hargs⟩ := State.steps_written w rest
  have hname : Text.trim w.name = w.name := Text.trim_of_isTrimmed w.isName.isTrimmed
  have hfinish : (ps.map Param.collected).map State.finishArg = w.params.map WrittenParam.argument := by
    rw [List.map_map]
    exact hargs
  have hnamed : (Part.done != Part.type) = true := rfl
  simp only [read, String.toList_ofList, hsteps, State.finish, State.closed, hnamed, if_true, hhead.kind,
    hhead.name, hname, hhead.returns, hhead.value, hfinish]
  rfl

/-- **Spellings of one callable are read alike**, whatever stands behind their argument lists: with
the same kind, name, return type, arguments, value and layout. The arguments are the parameters, one
for each and in their order. -/
theorem read_spellings (w w' : WrittenCallable) (h : w.declaration = w'.declaration)
    (rest rest' : List Char) (file file' : Path) (line line' : Nat) :
    let d := (read (String.ofList (w.print ++ rest)) file line).1
    let d' := (read (String.ofList (w'.print ++ rest')) file' line').1
    (d.kind = d'.kind ∧ d.name = d'.name ∧ d.returns = d'.returns ∧ d.args = d'.args ∧
      d.default = d'.default ∧ d.pretty = d'.pretty) ∧
    (d.kind = w.kind ∧ d.name = w.name ∧ d.returns = w.returns.text "" ∧ d.default = none ∧
      d.args = w.params.map WrittenParam.argument) := by
  intro d d'
  have hd : d = { w.declaration with raw := String.ofList (w.print ++ rest), file, line } :=
    read_written w rest file line
  have hd' : d' =
      { w.declaration with raw := String.ofList (w'.print ++ rest'), file := file', line := line' } := by
    rw [h]
    exact read_written w' rest' file' line'
  rw [hd, hd']
  exact ⟨⟨rfl, rfl, rfl, rfl, rfl, rfl⟩, rfl, rfl, rfl, rfl, rfl⟩

/-- A function as most would write it. -/
def padFunction : WrittenCallable :=
  { kind := .function
    keyword := { text := "Function".toList }
    name := "Pad"
    returns := .some (.named ⟨.string, 1⟩ { text := "String".toList } {} {} {})
    params := [
      { name := "text", type := .some (.named ⟨.string, 0⟩ { text := "String".toList } {} {} { text := [' '] })
        default := some { before := { text := [' '] }, value := "Join(\",)\", a)" } },
      { before := { text := [' '] }, name := "sizes"
        type := .some (.named ⟨.long, 2⟩ { text := "Long".toList } {} {} {}) },
      { before := { text := [' '] }, name := "width"
        type := .some (.named ⟨.int, 0⟩ { text := "Int".toList } {} {} {}) }] }

/-- The same function with tags, odd capitals and blanks. -/
def padTagged : WrittenCallable :=
  { before := { text := ['\t'] }
    kind := .function
    keyword := { text := "fUNCTION".toList }
    name := "Pad"
    returns := .some (.tagged ⟨.string, 1⟩ { text := [' '] })
    inner := { text := ['\t', ' '] }
    params := [
      { name := "text", type := .some (.tagged ⟨.string, 0⟩ {})
        default := some { value := "Join(\",)\", a)", behind := { text := [' '] } } },
      { name := "sizes", type := .some (.tagged ⟨.long, 2⟩ { text := [' '] }) },
      { before := { text := ['\t'] }, name := "width", type := .none { text := [' '] } }] }

theorem read_spellings_pad :
    padFunction.print = "Function Pad:String[](text:String = Join(\",)\", a), sizes:Long[][], width:Int)".toList ∧
    padTagged.print = "\tfUNCTION Pad$[] (\t text$=Join(\",)\", a) ,sizes%%[][] ,\twidth )".toList ∧
    padFunction.declaration = padTagged.declaration ∧
    (read (String.ofList (padFunction.print ++ [])) ⟨"pad.bmx"⟩ 1).1.args =
      (read (String.ofList (padTagged.print ++ " Abstract ' (odd:Int".toList)) ⟨"pad.bmx"⟩ 2).1.args := by
  have h : padFunction.declaration = padTagged.declaration := by decide +kernel
  refine ⟨by decide +kernel, by decide +kernel, h, ?_⟩
  obtain ⟨⟨-, -, -, hargs, -, -⟩, -⟩ :=
    read_spellings padFunction padTagged h [] " Abstract ' (odd:Int".toList ⟨"pad.bmx"⟩ ⟨"pad.bmx"⟩ 1 2
  exact hargs

end BlitzDoc.Signature
