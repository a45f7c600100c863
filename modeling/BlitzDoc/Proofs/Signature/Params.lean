import BlitzDoc.Proofs.Text.Balanced
import BlitzDoc.Signature

/-!
# Reading a parameter list

A `Param` is one parameter as it is written in a signature: a name, perhaps a type in one of three
spellings, and perhaps a default. `Param.print` writes it down and `Param.collected` is what a reader
collects of it. The main statement is `steps_params`: a reader that takes the parameters of a list,
with commas between them, has collected exactly one argument for each.

The proof goes part by part. `State.between` is the reader in front of a parameter, `State.inside`
the reader within the last argument; every character moves from one such state to the next.
-/

namespace BlitzDoc.Signature

open Text (IsName IsPlain isBalanced depthAfter unquoted balanced_cases)

/-! ## Parameters as they are written -/

/-- The character may stand between the parts of a parameter. -/
def isGap (c : Char) : Bool :=
  c == ' ' || c == '\t'

theorem isGap_of_mem_nil : ∀ c ∈ ([] : List Char), isGap c = true := by
  simp

theorem isGap_cases {c : Char} (h : isGap c = true) : c = ' ' ∨ c = '\t' := by
  simpa [isGap] using h

/-- The character ends a type when it stands outside of its parentheses. -/
def endsType (c : Char) : Bool :=
  c == ',' || c == '='

/-- The character ends a default when it stands outside of its parentheses. -/
def endsDefault (c : Char) : Bool :=
  c == ','

/-- A type spelled out. -/
structure TypeText where
  text : List Char
  balanced : isBalanced endsType 0 false text = true := by decide

/-- A default. -/
structure DefaultText where
  text : List Char
  balanced : isBalanced endsDefault 0 false text = true := by decide

/-- The shorthand tags. -/
def tagMarks : List (List Char) :=
  [['%'], ['%', '%'], ['#'], ['!'], ['$']]

/-- The brackets of an array type. -/
def brackets : Nat → List Char
  | 0 => []
  | n + 1 => '[' :: ']' :: brackets n

theorem mem_brackets {c : Char} {n : Nat} (h : c ∈ brackets n) : c = '[' ∨ c = ']' := by
  induction n with
  | zero => simp [brackets] at h
  | succ n ih =>
    simp only [brackets, List.mem_cons] at h
    rcases h with h | h | h
    · exact .inl h
    · exact .inr h
    · exact ih h

/-- A shorthand tag, for an array with as many dimensions. -/
structure TypeTag where
  mark : List Char
  dims : Nat := 0
  /-- The blanks behind it. -/
  gap : List Char := []
  isMark : mark ∈ tagMarks := by decide
  blank : ∀ c ∈ gap, isGap c = true := by decide

/-- The ways to give the type of a parameter. -/
inductive Spelling where
  | none
  | tag (t : TypeTag)
  /-- A type behind a colon. -/
  | typed (t : TypeText)
  /-- A function, by its own parameter list. -/
  | pointer (t : TypeText) (opens : t.text.head? = some '(')

namespace Spelling

def print : Spelling → List Char
  | none => []
  | tag t => t.mark ++ brackets t.dims ++ t.gap
  | typed t => ':' :: t.text
  | pointer t _ => t.text

/-- The characters that make up the type: neither blanks behind a tag nor strings belong to it. -/
def collected : Spelling → List Char
  | none => []
  | tag t => t.mark ++ brackets t.dims
  | typed t => unquoted false t.text
  | pointer t _ => unquoted false t.text

end Spelling

/-- One parameter. -/
structure Param where
  before : List Char := []
  name : List Char
  after : List Char := []
  spelling : Spelling := .none
  default : Option DefaultText := none
  blank : ∀ c ∈ before ++ after, isGap c = true := by decide
  isName : IsName name := by decide

namespace Param

/-- The default behind its equals sign. -/
def printDefault (p : Param) : List Char :=
  p.default.elim [] fun d => '=' :: d.text

def print (p : Param) : List Char :=
  p.before ++ (p.name ++ (p.after ++ (p.spelling.print ++ p.printDefault)))

/-- What is collected of the parameter. -/
def collected (p : Param) : Argument :=
  { name := String.ofList p.name
    type := String.ofList p.spelling.collected
    default := p.default.map fun d => String.ofList (Text.dropBlanks d.text) }

end Param

/-- Parameters with commas between them. -/
def printParams (ps : List Param) : List Char :=
  [','].intercalate (ps.map Param.print)

/-! ## Collecting characters -/

theorem foldl_push (s : String) (cs : List Char) : cs.foldl String.push s = s ++ String.ofList cs := by
  rw [← String.toList_inj]
  induction cs generalizing s with
  | nil => simp
  | cons c cs ih => simp [ih]

theorem pushUnlessLeading_of_ne {s : String} (h : s ≠ "") (c : Char) :
    State.pushUnlessLeading s c = s.push c := by
  have hs : s.isEmpty = false := by
    rw [Bool.eq_false_iff, ne_eq, String.isEmpty_iff]
    exact h
  simp [State.pushUnlessLeading, hs]

theorem pushUnlessLeading_quote (s : String) : State.pushUnlessLeading s '"' = s.push '"' := by
  have hblank : Text.isBlank '"' = false := by decide
  simp [State.pushUnlessLeading, hblank]

theorem push_ne_empty (s : String) (c : Char) : s.push c ≠ "" := by
  intro h
  have hlist := congrArg String.toList h
  simp [String.toList_push] at hlist

theorem foldl_pushUnlessLeading_of_ne {s : String} (h : s ≠ "") (cs : List Char) :
    cs.foldl State.pushUnlessLeading s = s ++ String.ofList cs := by
  rw [← foldl_push]
  induction cs generalizing s with
  | nil => rfl
  | cons c cs ih =>
    rw [List.foldl_cons, pushUnlessLeading_of_ne h, ih (push_ne_empty s c), List.foldl_cons]

/-- A text that starts with no blank is collected from the first character that is none. -/
theorem foldl_pushUnlessLeading (cs : List Char) :
    cs.foldl State.pushUnlessLeading "" = String.ofList (Text.dropBlanks cs) := by
  induction cs with
  | nil => rfl
  | cons c cs ih =>
    by_cases hc : Text.isBlank c = true
    · have hpush : State.pushUnlessLeading "" c = "" := by simp [State.pushUnlessLeading, hc]
      rw [List.foldl_cons, hpush, ih, Text.dropBlanks, Text.dropBlanks, List.dropWhile_cons, if_pos hc]
    · have hpush : State.pushUnlessLeading "" c = "".push c := by
        simp [State.pushUnlessLeading, hc]
      rw [List.foldl_cons, hpush, foldl_pushUnlessLeading_of_ne (push_ne_empty _ _), Text.dropBlanks,
        List.dropWhile_cons, if_neg hc, ← String.toList_inj]
      simp

namespace State

/-! ## Steps -/

theorem steps_nil (s : State) : s.steps [] = s := rfl

theorem steps_cons (s : State) (c : Char) (cs : List Char) :
    s.steps (c :: cs) = (s.step c).steps cs := rfl

theorem steps_append (s : State) (xs ys : List Char) :
    s.steps (xs ++ ys) = (s.steps xs).steps ys :=
  List.foldl_append

theorem step_done {s : State} (h : s.part = .done) (c : Char) : s.step c = s := by
  simp [step, h]

/-- Behind the end of a signature nothing is read. -/
theorem steps_done {s : State} (h : s.part = .done) (cs : List Char) : s.steps cs = s := by
  induction cs with
  | nil => rfl
  | cons c cs ih => rw [steps_cons, step_done h, ih]

theorem trackNest_eq (s : State) (c : Char) :
    s.trackNest c = { s with nest := depthAfter s.nest c } := by
  unfold trackNest depthAfter
  split
  · rfl
  · split <;> rfl

/-- Outside strings a character goes to the part that is being read. -/
theorem step_plain {s : State} {c : Char} (hquote : c ≠ '"') (hstring : s.inString = false) :
    s.step c =
      match s.part with
      | .type => s.stepType c
      | .name => s.stepName c
      | .returns => s.stepReturns c
      | .value => s.stepValue c
      | .arg => s.stepArg c
      | .argReturn => s.stepArgReturn c
      | .argDefault => s.stepArgDefault c
      | .done => s := by
  unfold step
  cases s.part <;> simp [hquote, hstring]

/-- In a string, and at the quotes around it, a character goes where strings are kept. -/
theorem step_literal {s : State} {c : Char} (hdone : s.part ≠ .done)
    (h : c = '"' ∨ s.inString = true) : ∃ quoted, s.step c = { s with inString := quoted }.pushLiteral c := by
  by_cases hquote : c = '"'
  · exact ⟨!s.inString, by simp [step, hdone, hquote]⟩
  · have hstring : s.inString = true := h.resolve_left hquote
    exact ⟨s.inString, by rw [step, if_neg hdone, if_neg hquote, if_pos hstring]⟩

/-- The reader in front of the next parameter, with the arguments that are done. -/
def between (s : State) (done : List Argument) : State :=
  { s with part := .arg, args := done, argIndex := done.length, nest := 0, inString := false }

/-- The reader within the last argument. -/
def inside (s : State) (done : List Argument) (a : Argument) (part : Part) (nest : Nat := 0)
    (quoted : Bool := false) : State :=
  { s with part, args := done ++ [a], argIndex := done.length, nest, inString := quoted }

/-- Behind some arguments, what is changed are the others. -/
theorem modify_append (done args : List Argument) (i : Nat) (f : Argument → Argument) :
    (done ++ args).modify (done.length + i) f = done ++ args.modify i f := by
  induction done with
  | nil => simp
  | cons b bs ih => simp [Nat.add_right_comm, ih]

section
variable (s : State) (done : List Argument) (a : Argument) (part : Part) (nest : Nat) (quoted : Bool)

theorem modify_last (f : Argument → Argument) :
    (done ++ [a]).modify done.length f = done ++ [f a] :=
  modify_append done [a] 0 f

@[simp] theorem inside_part : (s.inside done a part nest quoted).part = part := rfl

@[simp] theorem inside_nest : (s.inside done a part nest quoted).nest = nest := rfl

@[simp] theorem inside_inString : (s.inside done a part nest quoted).inString = quoted := rfl

@[simp] theorem inside_currentArg? : (s.inside done a part nest quoted).currentArg? = some a := by
  simp [currentArg?, inside]

@[simp] theorem inside_modifyArg (f : Argument → Argument) :
    (s.inside done a part nest quoted).modifyArg f = s.inside done (f a) part nest quoted := by
  simp [modifyArg, inside, modify_last]

@[simp] theorem inside_trackNest (c : Char) : (s.inside done a part nest quoted).trackNest c =
    s.inside done a part (depthAfter nest c) quoted := by
  rw [trackNest_eq]
  rfl

theorem inside_openDefault : (s.inside done a part nest quoted).openDefault =
    s.inside done { a with default := some "" } .argDefault nest quoted := by
  rw [openDefault, inside_modifyArg]
  rfl

end

/-! ## In front of a parameter -/

theorem stepArg_gap (s : State) {c : Char} (hc : isGap c = true) : s.stepArg c = s := by
  rcases isGap_cases hc with rfl | rfl <;> rfl

/-- Blanks between the parts of a parameter change nothing. -/
theorem steps_gap {s : State} (hpart : s.part = .arg) (hstring : s.inString = false) {cs : List Char}
    (hcs : ∀ c ∈ cs, isGap c = true) : s.steps cs = s := by
  induction cs with
  | nil => rfl
  | cons c cs ih =>
    have hc := hcs c List.mem_cons_self
    have hquote : c ≠ '"' := by
      rintro rfl
      revert hc
      decide
    rw [steps_cons, step_plain hquote hstring, hpart]
    simp only [stepArg_gap s hc]
    exact ih fun d hd => hcs d (List.mem_cons_of_mem _ hd)

theorem not_mark {c : Char} (hc : IsPlain c) :
    c ≠ '\'' ∧ c ≠ '"' ∧ c ≠ '(' ∧ c ≠ ')' ∧ c ≠ '[' ∧ c ≠ ']' ∧ c ≠ ',' ∧ c ≠ ':' ∧ c ≠ '=' ∧
      c ≠ '%' ∧ c ≠ '#' ∧ c ≠ '!' ∧ c ≠ '$' ∧ c ≠ ' ' ∧ c ≠ '\t' := by
  refine ⟨?_, ?_, ?_, ?_, ?_, ?_, ?_, ?_, ?_, ?_, ?_, ?_, ?_, ?_, ?_⟩ <;> exact hc.ne (by decide)

theorem shorthand?_of_isPlain {c : Char} (hc : IsPlain c) : TypeName.shorthand? c = none := by
  obtain ⟨-, -, -, -, -, -, -, -, -, hint, hfloat, hdouble, hstring, -, -⟩ := not_mark hc
  unfold TypeName.shorthand?
  split <;> first | contradiction | rfl

/-- A plain character belongs to the name of the argument, which it starts if need be. -/
theorem stepArg_plain (s : State) {c : Char} (hc : IsPlain c) :
    s.stepArg c = s.startArg.modifyArg fun a => { a with name := a.name.push c } := by
  obtain ⟨h1, -, h2, h3, h4, h5, h6, h7, h8, -, -, -, -, h9, h10⟩ := not_mark hc
  simp [stepArg, h1, h2, h3, h4, h5, h6, h7, h8, h9, h10, shorthand?_of_isPlain hc]

theorem startArg_between (s : State) (done : List Argument) :
    (s.between done).startArg = s.inside done {} .arg := by
  simp [startArg, between, inside]

theorem startArg_inside (s : State) (done : List Argument) (a : Argument) (part : Part) :
    (s.inside done a part).startArg = s.inside done a part := by
  have hlast : ¬ (s.inside done a part).args.length ≤ (s.inside done a part).argIndex := by
    simp [inside]
  rw [startArg, if_neg hlast]

/-- The name of an argument grows by a name. -/
theorem steps_name (s : State) (done : List Argument) (a : Argument) {cs : List Char}
    (hcs : ∀ c ∈ cs, IsPlain c) :
    (s.inside done a .arg).steps cs =
      s.inside done { a with name := a.name ++ String.ofList cs } .arg := by
  rw [← foldl_push]
  induction cs generalizing a with
  | nil => rfl
  | cons c cs ih =>
    have hc := hcs c List.mem_cons_self
    rw [steps_cons, step_plain (not_mark hc).2.1 rfl, inside_part]
    simp only [stepArg_plain _ hc, startArg_inside, inside_modifyArg]
    rw [ih _ fun d hd => hcs d (List.mem_cons_of_mem _ hd), List.foldl_cons]

/-- A name in front of a parameter starts its argument. -/
theorem steps_firstName (s : State) (done : List Argument) {cs : List Char} (hcs : IsName cs) :
    (s.between done).steps cs = s.inside done { name := String.ofList cs } .arg := by
  have hplain : ∀ c ∈ cs, IsPlain c := fun c hc => Text.isPlain_of_isNameChar (hcs.2 c hc)
  cases cs with
  | nil => exact absurd rfl hcs.1
  | cons c cs =>
    have hc := hplain c List.mem_cons_self
    have hstep : (s.between done).step c = s.inside done { name := "".push c } .arg := by
      have hpart : (s.between done).part = .arg := rfl
      rw [step_plain (not_mark hc).2.1 rfl, hpart]
      simp only [stepArg_plain _ hc, startArg_between, inside_modifyArg]
    rw [steps_cons, hstep, steps_name _ _ _ fun d hd => hplain d (List.mem_cons_of_mem _ hd),
      String.ofList_cons, String.push_eq_append, String.empty_append]

/-! ## The type of an argument -/

theorem stepArg_tag (s : State) (done : List Argument) (a : Argument) {c : Char}
    (hc : c ∈ ['%', '#', '!', '$']) :
    (s.inside done a .arg).step c = s.inside done { a with type := a.type.push c } .arg := by
  have hquote : c ≠ '"' := by
    rintro rfl
    revert hc
    decide
  rw [step_plain hquote rfl, inside_part]
  simp only [List.mem_cons, List.not_mem_nil, or_false] at hc
  rcases hc with rfl | rfl | rfl | rfl <;>
    simp [stepArg, TypeName.shorthand?, pushArgType]

/-- A tag is collected as the type. -/
theorem steps_mark (s : State) (done : List Argument) (a : Argument) {mark : List Char}
    (hmark : mark ∈ tagMarks) :
    (s.inside done a .arg).steps mark =
      s.inside done { a with type := a.type ++ String.ofList mark } .arg := by
  have hchars : ∀ mark ∈ tagMarks, ∀ c ∈ mark, c ∈ ['%', '#', '!', '$'] := by decide
  have hall := hchars mark hmark
  clear hmark hchars
  rw [← foldl_push]
  induction mark generalizing a with
  | nil => rfl
  | cons c cs ih =>
    rw [steps_cons, stepArg_tag s done a (hall c List.mem_cons_self),
      ih _ fun d hd => hall d (List.mem_cons_of_mem _ hd), List.foldl_cons]

theorem stepArg_bracket (s : State) (done : List Argument) {a : Argument} (ha : a.type ≠ "")
    {c : Char} (hc : c = '[' ∨ c = ']') :
    (s.inside done a .arg).step c = s.inside done { a with type := a.type.push c } .arg := by
  have hquote : c ≠ '"' := by
    rintro rfl
    revert hc
    decide
  rw [step_plain hquote rfl, inside_part]
  rcases hc with rfl | rfl <;>
    simp [stepArg, TypeName.shorthand?, pushArgType, ha]

/-- Brackets behind a tag are collected with it. -/
theorem steps_brackets (s : State) (done : List Argument) {a : Argument} (ha : a.type ≠ "")
    (dims : Nat) :
    (s.inside done a .arg).steps (brackets dims) =
      s.inside done { a with type := a.type ++ String.ofList (brackets dims) } .arg := by
  rw [← foldl_push]
  induction dims generalizing a with
  | zero => rfl
  | succ n ih =>
    have hopen := stepArg_bracket s done ha (.inl rfl)
    have hclose := stepArg_bracket s done (a := { a with type := a.type.push '[' })
      (push_ne_empty a.type '[') (.inr rfl)
    rw [brackets, steps_cons, hopen, steps_cons, hclose, ih (push_ne_empty (a.type.push '[') ']')]
    rfl

theorem stepArgReturn_inside (s : State) (done : List Argument) (a : Argument) {nest : Nat} {c : Char}
    (hcomment : c ≠ '\'') (hdelim : nest = 0 → c ≠ ')' ∧ endsType c = false) :
    (s.inside done a .argReturn nest).stepArgReturn c =
      s.inside done { a with type := a.type.push c } .argReturn (depthAfter nest c) := by
  by_cases hzero : nest = 0
  · obtain ⟨hparen, hends⟩ := hdelim hzero
    simp only [endsType, Bool.or_eq_false_iff, beq_eq_false_iff_ne] at hends
    simp [stepArgReturn, hcomment, hparen, hends.1, hends.2, pushArgType]
  · simp [stepArgReturn, hcomment, hzero, pushArgType]

/-- **A type spelled out** is collected up to its end, but for the strings in it. -/
theorem steps_type (s : State) (done : List Argument) (a : Argument) {nest : Nat} {quoted : Bool}
    {cs : List Char} (h : isBalanced endsType nest quoted cs = true) :
    (s.inside done a .argReturn nest quoted).steps cs =
      s.inside done { a with type := a.type ++ String.ofList (unquoted quoted cs) } .argReturn := by
  rw [← foldl_push]
  induction cs generalizing a nest quoted with
  | nil =>
    obtain ⟨rfl, rfl⟩ := Text.balanced_end h
    rfl
  | cons c cs ih =>
    rcases balanced_cases h with ⟨rfl, hrest⟩ | ⟨hquote, rfl, hrest⟩ | ⟨hquote, rfl, hcomment, hdelim, hrest⟩
    · have hstep : (s.inside done a .argReturn nest quoted).step '"' =
          s.inside done a .argReturn nest (!quoted) := rfl
      rw [steps_cons, hstep, ih _ hrest]
      simp [unquoted]
    · have hstep : (s.inside done a .argReturn nest true).step c =
          s.inside done a .argReturn nest true := by
        simp [step, hquote, pushLiteral]
      rw [steps_cons, hstep, ih _ hrest]
      simp [unquoted, hquote]
    · rw [steps_cons, step_plain hquote rfl, inside_part]
      simp only [stepArgReturn_inside s done a hcomment hdelim]
      rw [ih _ hrest]
      simp [unquoted, hquote]

/-- The type of an argument is collected in each of its spellings. -/
theorem steps_spelling (s : State) (done : List Argument) {a : Argument} (ha : a.type = "")
    (ann : Spelling) :
    ∃ part ∈ [Part.arg, .argReturn], (s.inside done a .arg).steps ann.print =
      s.inside done { a with type := String.ofList ann.collected } part := by
  cases ann with
  | none =>
    refine ⟨.arg, by simp, ?_⟩
    obtain ⟨name, type, default⟩ := a
    subst ha
    rfl
  | tag t =>
    refine ⟨.arg, by simp, ?_⟩
    have hne : a.type ++ String.ofList t.mark ≠ "" := by
      have hmarks : ∀ mark ∈ tagMarks, mark ≠ [] := by decide
      intro he
      have hlist := congrArg String.toList he
      simp only [String.toList_append, String.toList_ofList, String.toList_empty,
        List.append_eq_nil_iff] at hlist
      exact hmarks t.mark t.isMark hlist.2
    rw [Spelling.print, steps_append, steps_append, steps_mark s done a t.isMark,
      steps_brackets s done hne, steps_gap rfl rfl t.blank]
    simp [ha, Spelling.collected, String.ofList_append]
  | typed t =>
    refine ⟨.argReturn, by simp, ?_⟩
    have hcolon : (s.inside done a .arg).step ':' = s.inside done a .argReturn := by
      rw [step_plain (by decide) rfl]
      simp [stepArg]
      rfl
    rw [Spelling.print, steps_cons, hcolon, steps_type s done a t.balanced, ha, String.empty_append]
    rfl
  | pointer t opens =>
    refine ⟨.argReturn, by simp, ?_⟩
    obtain ⟨text, hbalanced⟩ := t
    cases text with
    | nil => simp at opens
    | cons c cs =>
      obtain rfl : c = '(' := by simpa using opens
      have hopen : (s.inside done a .arg).step '(' =
          s.inside done { a with type := a.type.push '(' } .argReturn 1 := by
        rw [step_plain (by decide) rfl]
        simp [stepArg, pushArgType]
        rfl
      have hrest : isBalanced endsType 1 false cs = true := by
        simpa [isBalanced, depthAfter, endsType] using hbalanced
      rw [Spelling.print, steps_cons, hopen, steps_type s done _ hrest, ha]
      simp [Spelling.collected, unquoted, String.ofList_cons, String.push_eq_append]

/-! ## The default of an argument -/

theorem stepArgDefault_inside (s : State) (done : List Argument) (a : Argument) (d : String)
    {nest : Nat} {c : Char} (hcomment : c ≠ '\'')
    (hdelim : nest = 0 → c ≠ ')' ∧ endsDefault c = false) :
    (s.inside done { a with default := some d } .argDefault nest).stepArgDefault c =
      s.inside done { a with default := some (pushUnlessLeading d c) } .argDefault
        (depthAfter nest c) := by
  by_cases hzero : nest = 0
  · obtain ⟨hparen, hends⟩ := hdelim hzero
    simp only [endsDefault, beq_eq_false_iff_ne] at hends
    simp [stepArgDefault, hcomment, hparen, hends]
  · simp [stepArgDefault, hcomment, hzero]

theorem pushLiteral_inside (s : State) (done : List Argument) (a : Argument) (d : String)
    (nest : Nat) (quoted : Bool) (c : Char) :
    (s.inside done { a with default := some d } .argDefault nest quoted).pushLiteral c =
      s.inside done { a with default := some (d.push c) } .argDefault nest quoted := by
  simp [pushLiteral, pushArgDefault]

/-- **A default** is collected up to its end, from its first character that is no blank. -/
theorem steps_default (s : State) (done : List Argument) (a : Argument) (d : String) {nest : Nat}
    {quoted : Bool} (hd : quoted = true → d ≠ "") {cs : List Char}
    (h : isBalanced endsDefault nest quoted cs = true) :
    (s.inside done { a with default := some d } .argDefault nest quoted).steps cs =
      s.inside done { a with default := some (cs.foldl pushUnlessLeading d) } .argDefault := by
  induction cs generalizing d nest quoted with
  | nil =>
    obtain ⟨rfl, rfl⟩ := Text.balanced_end h
    rfl
  | cons c cs ih =>
    rcases balanced_cases h with ⟨rfl, hrest⟩ | ⟨hquote, rfl, hrest⟩ | ⟨hquote, rfl, hcomment, hdelim, hrest⟩
    · have hstep : (s.inside done { a with default := some d } .argDefault nest quoted).step '"' =
          s.inside done { a with default := some (d.push '"') } .argDefault nest (!quoted) :=
        pushLiteral_inside s done a d nest (!quoted) '"'
      rw [steps_cons, hstep, ih _ (fun _ => push_ne_empty _ _) hrest, List.foldl_cons,
        pushUnlessLeading_quote]
    · have hstep : (s.inside done { a with default := some d } .argDefault nest true).step c =
          s.inside done { a with default := some (d.push c) } .argDefault nest true := by
        rw [← pushLiteral_inside]
        simp [step, hquote]
      rw [steps_cons, hstep, ih _ (fun _ => push_ne_empty _ _) hrest, List.foldl_cons,
        pushUnlessLeading_of_ne (hd rfl)]
    · rw [steps_cons, step_plain hquote rfl, inside_part]
      simp only [stepArgDefault_inside s done a d hcomment hdelim]
      rw [ih _ (by simp) hrest, List.foldl_cons]

/-- The equals sign opens the default. -/
theorem step_equals (s : State) (done : List Argument) (a : Argument) {part : Part}
    (hpart : part ∈ [Part.arg, .argReturn]) :
    (s.inside done a part).step '=' = s.inside done { a with default := some "" } .argDefault := by
  rw [step_plain (by decide) rfl, inside_part]
  simp only [List.mem_cons, List.not_mem_nil, or_false] at hpart
  rcases hpart with rfl | rfl
  · simp [stepArg, inside_openDefault]
  · simp [stepArgReturn, inside_openDefault]

/-! ## Whole parameters -/

/-- The parts of an argument, where a comma or a closing parenthesis ends it. -/
def argParts : List Part :=
  [.arg, .argReturn, .argDefault]

/-- **A parameter** is collected as one argument. -/
theorem steps_param (s : State) (done : List Argument) (p : Param) :
    ∃ part ∈ argParts, (s.between done).steps p.print = s.inside done p.collected part := by
  have hbefore : ∀ c ∈ p.before, isGap c = true := fun c hc => p.blank c (by simp [hc])
  have hafter : ∀ c ∈ p.after, isGap c = true := fun c hc => p.blank c (by simp [hc])
  obtain ⟨part, hpart, hann⟩ :=
    steps_spelling s done (a := { name := String.ofList p.name }) rfl p.spelling
  have hhead : (s.between done).steps p.print =
      (s.inside done { name := String.ofList p.name, type := String.ofList p.spelling.collected }
        part).steps p.printDefault := by
    rw [Param.print, steps_append, steps_gap rfl rfl hbefore, steps_append,
      steps_firstName s done p.isName, steps_append, steps_gap rfl rfl hafter, steps_append, hann]
  rw [hhead, Param.printDefault, Param.collected]
  cases hdefault : p.default with
  | none =>
    have hsub : ∀ q ∈ [Part.arg, .argReturn], q ∈ argParts := by decide
    exact ⟨part, hsub part hpart, rfl⟩
  | some d =>
    refine ⟨.argDefault, by simp [argParts], ?_⟩
    simp only [Option.elim_some, Option.map_some]
    rw [steps_cons, step_equals s done _ hpart, steps_default s done _ "" (by simp) d.balanced,
      foldl_pushUnlessLeading]

theorem step_comma (s : State) (done : List Argument) (a : Argument) {part : Part}
    (hpart : part ∈ argParts) : (s.inside done a part).step ',' = s.between (done ++ [a]) := by
  rw [step_plain (by decide) rfl, inside_part]
  simp only [argParts, List.mem_cons, List.not_mem_nil, or_false] at hpart
  rcases hpart with rfl | rfl | rfl <;>
    simp [stepArg, stepArgReturn, stepArgDefault, nextArg, between, inside]

/-- The reader behind the argument list. -/
def closed (s : State) (args : List Argument) (argIndex : Nat) : State :=
  { s with part := .done, args, argIndex, nest := 0, inString := false, inArgs := false }

theorem step_close (s : State) (done : List Argument) (a : Argument) {part : Part}
    (hpart : part ∈ argParts) :
    (s.inside done a part).step ')' = s.closed (done ++ [a]) done.length := by
  rw [step_plain (by decide) rfl, inside_part]
  simp only [argParts, List.mem_cons, List.not_mem_nil, or_false] at hpart
  rcases hpart with rfl | rfl | rfl <;>
    simp [stepArg, stepArgReturn, stepArgDefault, stop, closed, inside]

theorem printParams_cons (p q : Param) (ps : List Param) :
    printParams (p :: q :: ps) = p.print ++ ',' :: printParams (q :: ps) := by
  simp [printParams]

/-- **A parameter list** is collected as one argument for each parameter. -/
theorem steps_params (s : State) (done : List Argument) (ps : List Param) :
    ∃ i, (s.between done).steps (printParams ps ++ [')']) =
      s.closed (done ++ ps.map Param.collected) i := by
  induction ps generalizing done with
  | nil =>
    refine ⟨done.length, ?_⟩
    simp [printParams, steps_cons, steps_nil, step, between, stepArg, stop, closed]
  | cons p ps ih =>
    obtain ⟨part, hpart, hp⟩ := steps_param s done p
    cases ps with
    | nil =>
      refine ⟨done.length, ?_⟩
      have hprint : printParams [p] = p.print := by simp [printParams]
      rw [hprint, steps_append, hp, steps_cons, step_close s done _ hpart, steps_nil]
      rfl
    | cons q ps =>
      obtain ⟨i, hi⟩ := ih (done ++ [p.collected])
      refine ⟨i, ?_⟩
      rw [printParams_cons, List.append_assoc, List.cons_append, steps_append, hp, steps_cons,
        step_comma s done _ hpart, hi]
      simp

end State

theorem args_read (text : String) (file : Path) (line : Nat) :
    (read text file line).1.args = (State.steps {} text.toList).args.map State.finishArg :=
  rfl

end BlitzDoc.Signature
