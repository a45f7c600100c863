import BlitzDoc.CommandIndex
import BlitzDoc.Proofs.TypeName.NormalForm

/-!
# Parameter lists in the command index

The command index has parameter lists of the same form as signatures, and a reader of its own for
them. `indexed` is what that reader collects of a parameter (`steps_params`): it takes the text
behind the name up to the first equals sign as the type, and all that follows as the default.

A signature cuts only at an equals sign outside of parentheses. So the two agree on a list exactly if
no type in it has an equals sign (`args_eq_iff`), and a function whose own parameters have defaults is
read apart (`nested_default_differs`).
-/

namespace BlitzDoc.CommandIndex

open Signature (Param Spelling isGap isGap_cases endsType endsDefault printParams brackets mem_brackets
  tagMarks foldl_push foldl_pushUnlessLeading push_ne_empty)
open Text (IsName IsPlain isBalanced isNested depthAfter unquoted nested_cases)

/-! ## Parameters as the index has them -/

/-- The text of the type: the spelling without its colon. -/
def typeText : Spelling → List Char
  | .none => []
  | .tag t => t.mark ++ brackets t.dims ++ t.gap
  | .typed t => t.text
  | .pointer t _ => t.text

/-- The parameter can stand in a line of the index: it is on one line, and its strings are in
defaults. -/
structure Fits (p : Param) : Prop where
  oneLine : ∀ c ∈ p.print, c ≠ '\n' ∧ c ≠ '\r'
  strings : '"' ∉ (typeText p.spelling).takeWhile (· != '=')

instance (p : Param) : Decidable (Fits p) :=
  decidable_of_iff ((∀ c ∈ p.print, c ≠ '\n' ∧ c ≠ '\r') ∧
      '"' ∉ (typeText p.spelling).takeWhile (· != '='))
    ⟨fun h => ⟨h.1, h.2⟩, fun h => ⟨h.1, h.2⟩⟩

/-- What stands behind the name of a parameter. -/
def detail (p : Param) : List Char :=
  typeText p.spelling ++ p.printDefault

/-- An argument with what is collected of the text behind its name. -/
def collect (a : Argument) (text : List Char) : Argument :=
  { a with
    type := a.type ++ String.ofList (text.takeWhile (· != '='))
    default := (Text.splitOnce? (· == '=') text).map fun cut =>
      String.ofList (Text.dropBlanks cut.2) }

/-- What the index collects of a parameter. -/
def indexed (p : Param) : Argument :=
  collect { name := String.ofList p.name } (detail p)

/-- A text either has no equals sign, or it is cut at its first one. -/
theorem equals_cases (cs : List Char) :
    ('=' ∉ cs ∧ cs.takeWhile (· != '=') = cs ∧ Text.splitOnce? (· == '=') cs = none) ∨
      ∃ xs ys, cs = xs ++ '=' :: ys ∧ '=' ∉ xs ∧ cs.takeWhile (· != '=') = xs ∧
        Text.splitOnce? (· == '=') cs = some (xs, ys) := by
  induction cs with
  | nil => exact Or.inl ⟨by simp, rfl, rfl⟩
  | cons c cs ih =>
    by_cases hc : c = '='
    · exact Or.inr ⟨[], cs, by simp [hc], by simp, by simp [hc], by simp [Text.splitOnce?, hc]⟩
    · have hne : '=' ≠ c := fun h => hc h.symm
      rcases ih with ⟨hmem, htake, hcut⟩ | ⟨xs, ys, rfl, hmem, htake, hcut⟩
      · exact Or.inl ⟨by simp [hne, hmem], by simp [hc, htake], by simp [Text.splitOnce?, hc, hcut]⟩
      · exact Or.inr ⟨c :: xs, ys, by simp, by simp [hne, hmem], by simp [hc, htake],
          by simp [Text.splitOnce?, hc, hcut]⟩

theorem collect_of_not_mem {a : Argument} {text : List Char} (ha : a.default = none)
    (htext : '=' ∉ text) : collect a text = { a with type := a.type ++ String.ofList text } := by
  rcases equals_cases text with ⟨-, htake, hcut⟩ | ⟨xs, ys, rfl, -⟩
  · simp [collect, htake, hcut, ha]
  · simp at htext

theorem collect_append {a : Argument} {xs : List Char} (hxs : '=' ∉ xs) (ys : List Char) :
    collect a (xs ++ '=' :: ys) =
      { a with
        type := a.type ++ String.ofList xs
        default := some (String.ofList (Text.dropBlanks ys)) } := by
  induction xs generalizing a with
  | nil => simp [collect, Text.splitOnce?]
  | cons x xs ih =>
    simp only [List.mem_cons, not_or] at hxs
    have hx : x ≠ '=' := fun h => hxs.1 h.symm
    have hgrow := ih (a := a) hxs.2
    simp only [collect, Argument.mk.injEq] at hgrow ⊢
    simp_all [Text.splitOnce?]

theorem collect_cons {a : Argument} {c : Char} (hc : c ≠ '=') (text : List Char) :
    collect { a with type := a.type.push c } text = collect a (c :: text) := by
  have htype (xs : List Char) : a.type.push c ++ String.ofList xs = a.type ++ String.ofList (c :: xs) := by
    rw [← String.toList_inj]
    simp
  simp [collect, htype, hc, Text.splitOnce?, Function.comp_def]

theorem not_mem_takeWhile {c d : Char} (hc : c ≠ '=') {text : List Char}
    (h : d ∉ (c :: text).takeWhile (· != '=')) : d ∉ text.takeWhile (· != '=') := by
  intro hmem
  apply h
  rw [List.takeWhile_cons_of_pos (by simpa using hc)]
  exact List.mem_cons_of_mem _ hmem

namespace State

/-! ## Steps of the reader -/

/-- The reader after some characters of a line. -/
def steps (s : State) (cs : List Char) : State :=
  cs.foldl step s

theorem steps_cons (s : State) (c : Char) (cs : List Char) :
    s.steps (c :: cs) = (s.step c).steps cs := rfl

theorem steps_append (s : State) (xs ys : List Char) :
    s.steps (xs ++ ys) = (s.steps xs).steps ys :=
  List.foldl_append

/-- **A text is collected** character by character, where each is added behind the others. -/
theorem steps_collect (put : String → State) {marks : List Char}
    (hput : ∀ text c, c ∉ marks → (put text).step c = put (text.push c)) (text : String)
    {cs : List Char} (hcs : ∀ c ∈ cs, c ∉ marks) :
    (put text).steps cs = put (text ++ String.ofList cs) := by
  rw [← foldl_push]
  induction cs generalizing text with
  | nil => rfl
  | cons c cs ih =>
    rw [steps_cons, hput text c (hcs c List.mem_cons_self),
      ih _ fun d hd => hcs d (List.mem_cons_of_mem _ hd), List.foldl_cons]

/-- The reader within the last parameter. -/
def inside (s : State) (done : List Argument) (a : Argument) (part : ParamPart) (nest : Nat := 0)
    (quoted : Bool := false) : State :=
  { s with part := .param part, params := done ++ [a], nest, inString := quoted }

section
variable (s : State) (done : List Argument) (a : Argument) (part : ParamPart) (nest : Nat)
  (quoted : Bool)

theorem inside_modifyParam (f : Argument → Argument) :
    (s.inside done a part nest quoted).modifyParam f = s.inside done (f a) part nest quoted := by
  simp [modifyParam, inside, Signature.State.modify_last]

theorem inside_pushType (c : Char) : (s.inside done a part nest quoted).pushType c =
    s.inside done { a with type := a.type.push c } part nest quoted :=
  inside_modifyParam ..

theorem inside_trackNest (c : Char) : (s.inside done a part nest quoted).trackNest c =
    s.inside done a part (depthAfter nest c) quoted := by
  unfold trackNest depthAfter
  split
  · rfl
  · split <;> rfl

theorem inside_pushLiteral (d : String) (c : Char) :
    (s.inside done { a with default := some d } .default nest quoted).pushLiteral c =
      s.inside done { a with default := some (Signature.State.pushUnlessLeading d c) } .default nest
        quoted :=
  inside_modifyParam ..

end

/-- Outside strings and away from quotes, a character of a parameter goes to the part that is being
read. -/
theorem step_inside (s : State) (done : List Argument) (a : Argument) (part : ParamPart) (nest : Nat)
    {c : Char} (hreturn : c ≠ '\r') (hquote : c ≠ '"') :
    (s.inside done a part nest).step c = (s.inside done a part nest).stepParam part c := by
  simp [step, hreturn, hquote, inside]

/-! ## The parts of a parameter -/

theorem stepParam_gap (s : State) (done : List Argument) (a : Argument) {c : Char}
    (hc : isGap c = true) : (s.inside done a .name).step c = s.inside done a .name := by
  rcases isGap_cases hc with rfl | rfl <;> rfl

theorem steps_gap (s : State) (done : List Argument) (a : Argument) {cs : List Char}
    (hcs : ∀ c ∈ cs, isGap c = true) : (s.inside done a .name).steps cs = s.inside done a .name := by
  induction cs with
  | nil => rfl
  | cons c cs ih =>
    rw [steps_cons, stepParam_gap s done a (hcs c List.mem_cons_self),
      ih fun d hd => hcs d (List.mem_cons_of_mem _ hd)]

theorem stepParam_plain (s : State) (done : List Argument) (a : Argument) {c : Char}
    (hc : IsPlain c) :
    (s.inside done a .name).step c = s.inside done { a with name := a.name.push c } .name := by
  have hreturn : c ≠ '\r' := hc.ne (by decide)
  obtain ⟨-, hquote, h1, h2, -, -, h3, h4, h5, -, -, -, -, h6, h7⟩ := Signature.State.not_mark hc
  rw [step_inside s done a .name 0 hreturn hquote]
  simp [stepParam, h1, h2, h3, h4, h5, h6, h7, Signature.State.shorthand?_of_isPlain hc,
    inside_modifyParam]

theorem steps_name (s : State) (done : List Argument) (a : Argument) {cs : List Char}
    (hcs : ∀ c ∈ cs, IsPlain c) :
    (s.inside done a .name).steps cs =
      s.inside done { a with name := a.name ++ String.ofList cs } .name := by
  rw [← foldl_push]
  induction cs generalizing a with
  | nil => rfl
  | cons c cs ih =>
    rw [steps_cons, stepParam_plain s done a (hcs c List.mem_cons_self),
      ih _ fun d hd => hcs d (List.mem_cons_of_mem _ hd), List.foldl_cons]

/-- Where commas are barred, a character that is not is none of the delimiters. -/
theorem not_delim {barred : Char → Bool} (hbarred : barred ',' = true) {nest : Nat} {c : Char}
    (hdelim : nest = 0 → c ≠ ')' ∧ barred c = false) (hzero : nest = 0) : c ≠ ')' ∧ c ≠ ',' := by
  obtain ⟨hparen, hc⟩ := hdelim hzero
  refine ⟨hparen, ?_⟩
  rintro rfl
  rw [hbarred] at hc
  cases hc

theorem stepParam_type (s : State) (done : List Argument) (a : Argument) {nest : Nat} {c : Char}
    (hequals : c ≠ '=') (hdelim : nest = 0 → c ≠ ')' ∧ c ≠ ',') :
    (s.inside done a .type nest).stepParam .type c =
      s.inside done { a with type := a.type.push c } .type (depthAfter nest c) := by
  have hnest : (s.inside done a .type nest).nest = nest := rfl
  by_cases hzero : nest = 0
  · simp [stepParam, hdelim hzero, hequals, inside_trackNest, inside_pushType]
  · simp [stepParam, hnest, hzero, hequals, inside_trackNest, inside_pushType]

section
variable {banned barred : Char → Bool} (hbarred : barred ',' = true)
include hbarred

/-- **A type is collected up to an equals sign.** What is left to read is nested still. -/
theorem steps_type (s : State) (done : List Argument) (a : Argument) {nest : Nat} {xs : List Char}
    (hxs : ∀ c ∈ xs, c ≠ '\r' ∧ c ≠ '"' ∧ c ≠ '=') {rest : List Char}
    (h : isNested banned barred nest false (xs ++ rest) = true) :
    ∃ nest', (s.inside done a .type nest).steps xs =
        s.inside done { a with type := a.type ++ String.ofList xs } .type nest' ∧
      isNested banned barred nest' false rest = true := by
  rw [← foldl_push]
  induction xs generalizing a nest with
  | nil => exact ⟨nest, rfl, h⟩
  | cons c cs ih =>
    obtain ⟨hreturn, hquote, hequals⟩ := hxs c List.mem_cons_self
    rcases nested_cases h with ⟨hc, -⟩ | ⟨-, hc, -⟩ | ⟨-, -, -, hdelim, hrest⟩
    · exact absurd hc hquote
    · cases hc
    · obtain ⟨nest', hsteps, hnested⟩ :=
        ih { a with type := a.type.push c } (fun d hd => hxs d (List.mem_cons_of_mem _ hd)) hrest
      refine ⟨nest', ?_, hnested⟩
      rw [steps_cons, step_inside s done a .type nest hreturn hquote,
        stepParam_type s done a hequals (not_delim hbarred hdelim), hsteps, List.foldl_cons]

theorem stepParam_default (s : State) (done : List Argument) (a : Argument) (d : String) {nest : Nat}
    {c : Char} (hdelim : nest = 0 → c ≠ ')' ∧ barred c = false) :
    (s.inside done { a with default := some d } .default nest).stepParam .default c =
      s.inside done { a with default := some (Signature.State.pushUnlessLeading d c) } .default
        (depthAfter nest c) := by
  have hnest : (s.inside done { a with default := some d } .default nest).nest = nest := rfl
  by_cases hzero : nest = 0
  · simp [stepParam, not_delim hbarred hdelim hzero, inside_trackNest, inside_pushLiteral]
  · simp [stepParam, hnest, hzero, inside_trackNest, inside_pushLiteral]

/-- **A default is collected up to its end**, from its first character that is no blank. -/
theorem steps_default (s : State) (done : List Argument) (a : Argument) (d : String) {nest : Nat}
    {quoted : Bool} {cs : List Char} (hcs : ∀ c ∈ cs, c ≠ '\r')
    (h : isNested banned barred nest quoted cs = true) :
    (s.inside done { a with default := some d } .default nest quoted).steps cs =
      s.inside done
        { a with default := some (cs.foldl Signature.State.pushUnlessLeading d) } .default := by
  induction cs generalizing d nest quoted with
  | nil =>
    obtain ⟨rfl, rfl⟩ := Text.nested_end h
    rfl
  | cons c cs ih =>
    have hreturn := hcs c List.mem_cons_self
    have htail : ∀ c ∈ cs, c ≠ '\r' := fun c hc => hcs c (List.mem_cons_of_mem _ hc)
    rcases nested_cases h with ⟨rfl, hrest⟩ | ⟨hquote, rfl, hrest⟩ | ⟨hquote, rfl, -, hdelim, hrest⟩
    · have hstep : (s.inside done { a with default := some d } .default nest quoted).step '"' =
          s.inside done { a with default := some (Signature.State.pushUnlessLeading d '"') } .default
            nest (!quoted) :=
        inside_pushLiteral s done a nest (!quoted) d '"'
      rw [steps_cons, hstep, ih _ htail hrest, List.foldl_cons]
    · have hstep : (s.inside done { a with default := some d } .default nest true).step c =
          s.inside done { a with default := some (Signature.State.pushUnlessLeading d c) } .default
            nest true := by
        rw [← inside_pushLiteral]
        simp [step, hreturn, hquote, inside]
      rw [steps_cons, hstep, ih _ htail hrest, List.foldl_cons]
    · rw [steps_cons, step_inside s done _ .default nest hreturn hquote,
        stepParam_default hbarred s done a d hdelim, ih _ htail hrest, List.foldl_cons]

end

theorem step_equals (s : State) (done : List Argument) (a : Argument) {part : ParamPart}
    (hpart : part ≠ .default) (nest : Nat) :
    (s.inside done a part nest).step '=' =
      s.inside done { a with default := some "" } .default nest := by
  rw [step_inside s done a part nest (by decide) (by decide)]
  simp [stepParam, hpart, inside_modifyParam]
  rfl

/-- From an equals sign on, all is the default. -/
theorem steps_equals (s : State) (done : List Argument) (a : Argument) {part : ParamPart}
    (hpart : part ≠ .default) {nest : Nat} {text : List Char} (htext : ∀ c ∈ text, c ≠ '\r')
    (h : isNested (· == '\'') endsDefault nest false text = true) :
    (s.inside done a part nest).steps ('=' :: text) =
      s.inside done { a with default := some (String.ofList (Text.dropBlanks text)) } .default := by
  rw [steps_cons, step_equals s done a hpart, steps_default rfl s done a "" htext h,
    foldl_pushUnlessLeading]

/-! ## Whole parameters -/

theorem nested_default (d : Signature.DefaultText) :
    isNested (· == '\'') endsDefault 0 false d.text = true :=
  Text.isBalanced_eq_isNested .. ▸ d.balanced

/-- The default of a parameter is nested with its equals sign, too. -/
theorem nested_printDefault (p : Param) :
    isNested (· == '\'') endsDefault 0 false p.printDefault = true := by
  unfold Param.printDefault
  cases p.default with
  | none => rfl
  | some d => simpa [isNested, depthAfter, endsDefault] using nested_default d

/-- **The rest of a parameter**, from inside its type on. -/
theorem steps_rest (s : State) (done : List Argument) {a : Argument} (ha : a.default = none)
    {nest : Nat} {rest : List Char} (h : isBalanced endsType nest false rest = true) (p : Param)
    (hreturn : ∀ c ∈ rest ++ p.printDefault, c ≠ '\r')
    (hstring : '"' ∉ rest.takeWhile (· != '=')) :
    ∃ part, (s.inside done a .type nest).steps (rest ++ p.printDefault) =
      s.inside done (collect a (rest ++ p.printDefault)) part := by
  simp only [List.mem_append] at hreturn
  rw [Text.isBalanced_eq_isNested] at h
  have hcomma : endsType ',' = true := rfl
  rcases equals_cases rest with ⟨hmem, htake, -⟩ | ⟨xs, zs, rfl, hmem, htake, -⟩
  · -- the type has no equals sign, so all of it is collected
    rw [htake] at hstring
    have hchars : ∀ c ∈ rest, c ≠ '\r' ∧ c ≠ '"' ∧ c ≠ '=' := fun c hc =>
      ⟨hreturn c (.inl hc), fun e => hstring (e ▸ hc), fun e => hmem (e ▸ hc)⟩
    rw [← List.append_nil rest] at h
    obtain ⟨nest', hsteps, hend⟩ := steps_type hcomma s done a hchars h
    obtain ⟨rfl, -⟩ := Text.nested_end hend
    rw [steps_append, hsteps]
    cases hdefault : p.default with
    | none =>
      refine ⟨.type, ?_⟩
      simp only [Param.printDefault, hdefault, Option.elim_none, List.append_nil]
      rw [collect_of_not_mem ha hmem]
      rfl
    | some d =>
      refine ⟨.default, ?_⟩
      have htext : ∀ c ∈ d.text, c ≠ '\r' := fun c hc =>
        hreturn c (.inr (by simp [Param.printDefault, hdefault, hc]))
      simp only [Param.printDefault, hdefault, Option.elim_some]
      rw [steps_equals s done _ (by decide) htext (nested_default d), collect_append hmem]
  · -- the type is cut at an equals sign inside its parentheses
    rw [htake] at hstring
    have hchars : ∀ c ∈ xs, c ≠ '\r' ∧ c ≠ '"' ∧ c ≠ '=' := fun c hc =>
      ⟨hreturn c (.inl (by simp [hc])), fun e => hstring (e ▸ hc), fun e => hmem (e ▸ hc)⟩
    obtain ⟨nest', hsteps, hcut⟩ := steps_type hcomma s done a hchars h
    have hzs : isNested (· == '\'') endsDefault nest' false (zs ++ p.printDefault) = true := by
      have hbarred : ∀ c, endsType c = false → endsDefault c = false := by
        simp +contextual [endsType, endsDefault]
      have hnested := Text.isNested_mono (fun _ => id) hbarred hcut
      refine Text.isNested_append ?_ (nested_printDefault p)
      simpa [isNested, depthAfter, endsDefault] using hnested
    have htext : ∀ c ∈ zs ++ p.printDefault, c ≠ '\r' := by
      intro c hc
      rcases List.mem_append.1 hc with hc | hc
      · exact hreturn c (.inl (by simp [hc]))
      · exact hreturn c (.inr hc)
    refine ⟨.default, ?_⟩
    rw [List.append_assoc, steps_append, hsteps, List.cons_append,
      steps_equals s done _ (by decide) htext hzs, collect_append hmem]

theorem step_tag (s : State) (done : List Argument) (a : Argument) {c : Char}
    (hc : c ∈ ['%', '#', '!', '$']) :
    (s.inside done a .name).step c = s.inside done { a with type := a.type.push c } .type := by
  simp only [List.mem_cons, List.not_mem_nil, or_false] at hc
  rcases hc with rfl | rfl | rfl | rfl <;>
    (rw [step_inside s done a .name 0 (by decide) (by decide)]
     simp [stepParam, TypeName.shorthand?, inside_pushType]
     rfl)

theorem step_colon (s : State) (done : List Argument) (a : Argument) :
    (s.inside done a .name).step ':' = s.inside done a .type := by
  rw [step_inside s done a .name 0 (by decide) (by decide)]
  rfl

/-- A default right behind the name of a parameter. -/
theorem steps_untyped (s : State) (done : List Argument) {a : Argument} (ha : a.default = none)
    (p : Param) (hreturn : ∀ c ∈ p.printDefault, c ≠ '\r') :
    ∃ part, (s.inside done a .name).steps p.printDefault =
      s.inside done (collect a p.printDefault) part := by
  unfold Param.printDefault at hreturn ⊢
  cases hdefault : p.default with
  | none =>
    refine ⟨.name, ?_⟩
    rw [Option.elim_none, collect_of_not_mem ha (by simp)]
    simp [steps]
  | some d =>
    refine ⟨.default, ?_⟩
    have htext : ∀ c ∈ d.text, c ≠ '\r' := fun c hc => hreturn c (by simp [hdefault, hc])
    have hcollect : collect a ('=' :: d.text) =
        { a with default := some (String.ofList (Text.dropBlanks d.text)) } := by
      simp [collect, Text.splitOnce?]
    rw [Option.elim_some, steps_equals s done _ (by decide) htext (nested_default d), hcollect]

/-- A tag is one of the shorthands, and nothing behind it ends the type. -/
theorem tag_cases (t : Signature.TypeTag) :
    ∃ c ∈ ['%', '#', '!', '$'], ∃ rest, t.mark ++ brackets t.dims ++ t.gap = c :: rest ∧
      isBalanced endsType 0 false rest = true := by
  have hmarks : ∀ mark ∈ tagMarks, ∃ c ∈ ['%', '#', '!', '$'], ∃ more ∈ [[], ['%']],
      mark = c :: more := by decide
  obtain ⟨c, hc, more, hmore, hmark⟩ := hmarks t.mark t.isMark
  refine ⟨c, hc, more ++ brackets t.dims ++ t.gap, by simp [hmark],
    Text.isBalanced_of_neutral ?_⟩
  intro d hd
  simp only [List.mem_append] at hd
  rcases hd with (hd | hd) | hd
  · have hall : ∀ more ∈ [[], ['%']], ∀ d ∈ more,
        d ∉ ['"', '\'', '(', ')'] ∧ endsType d = false := by decide
    exact hall more hmore d hd
  · rcases mem_brackets hd with rfl | rfl <;> decide
  · rcases isGap_cases (t.blank d hd) with rfl | rfl <;> decide

/-- **What stands behind the name of a parameter** is collected as its type and its default. -/
theorem steps_detail (s : State) (done : List Argument) {a : Argument} (ha : a.default = none)
    {p : Param} (hp : Fits p) :
    ∃ part, (s.inside done a .name).steps (p.spelling.print ++ p.printDefault) =
      s.inside done (collect a (detail p)) part := by
  have hprint : ∀ c ∈ p.spelling.print ++ p.printDefault, c ≠ '\r' := by
    intro c hc
    apply (hp.oneLine c _).2
    simp only [Param.print, List.mem_append] at hc ⊢
    exact .inr (.inr (.inr hc))
  have hstring := hp.strings
  unfold detail
  cases hann : p.spelling with
  | none =>
    rw [hann] at hprint
    exact steps_untyped s done ha p hprint
  | tag t =>
    rw [hann] at hprint hstring
    obtain ⟨c, hc, rest, hsplit, hrest⟩ := tag_cases t
    have hequals : ∀ c ∈ ['%', '#', '!', '$'], c ≠ '=' := by decide
    simp only [Spelling.print, typeText, hsplit, List.cons_append] at hprint hstring ⊢
    obtain ⟨part, hsteps⟩ := steps_rest s done (a := { a with type := a.type.push c }) ha hrest p
      (fun d hd => hprint d (List.mem_cons_of_mem _ hd)) (not_mem_takeWhile (hequals c hc) hstring)
    refine ⟨part, ?_⟩
    rw [steps_cons, step_tag s done a hc, hsteps, collect_cons (hequals c hc)]
  | typed t =>
    rw [hann] at hprint hstring
    obtain ⟨part, hsteps⟩ := steps_rest s done ha t.balanced p
      (fun d hd => hprint d (List.mem_cons_of_mem _ hd)) hstring
    refine ⟨part, ?_⟩
    simp only [Spelling.print, typeText, List.cons_append]
    rw [steps_cons, step_colon, hsteps]
  | pointer t opens =>
    rw [hann] at hprint hstring
    obtain ⟨text, hbalanced⟩ := t
    cases text with
    | nil => simp at opens
    | cons c cs =>
      obtain rfl : c = '(' := by simpa using opens
      have hopen : (s.inside done a .name).step '(' =
          s.inside done { a with type := a.type.push '(' } .type 1 := by
        rw [step_inside s done a .name 0 (by decide) (by decide)]
        simp [stepParam, inside_pushType]
        rfl
      have hrest : isBalanced endsType 1 false cs = true := by
        simpa [isBalanced, depthAfter, endsType] using hbalanced
      obtain ⟨part, hsteps⟩ := steps_rest s done (a := { a with type := a.type.push '(' }) ha hrest p
        (fun d hd => hprint d (List.mem_cons_of_mem _ hd)) (not_mem_takeWhile (by decide) hstring)
      refine ⟨part, ?_⟩
      simp only [Spelling.print, typeText, List.cons_append]
      rw [steps_cons, hopen, hsteps, collect_cons (by decide)]

/-- **A parameter** is collected as one argument. -/
theorem steps_param (s : State) (done : List Argument) {p : Param} (hp : Fits p) :
    ∃ part, (s.inside done {} .name).steps p.print = s.inside done (indexed p) part := by
  have hbefore : ∀ c ∈ p.before, isGap c = true := fun c hc => p.blank c (by simp [hc])
  have hafter : ∀ c ∈ p.after, isGap c = true := fun c hc => p.blank c (by simp [hc])
  have hname : ∀ c ∈ p.name, IsPlain c := fun c hc => Text.isPlain_of_isNameChar (p.isName.2 c hc)
  obtain ⟨part, hdetail⟩ := steps_detail s done (a := { name := String.ofList p.name }) rfl hp
  refine ⟨part, ?_⟩
  rw [Param.print, steps_append, steps_gap s done _ hbefore, steps_append, steps_name s done _ hname,
    steps_append, steps_gap s done _ hafter]
  exact hdetail

theorem step_comma (s : State) (done : List Argument) (a : Argument) (part : ParamPart) :
    (s.inside done a part).step ',' = s.inside (done ++ [a]) {} .name := by
  rw [step_inside s done a part 0 (by decide) (by decide)]
  rfl

/-- The reader behind the parameters. -/
def closed (s : State) (params : List Argument) : State :=
  { s with part := .tail, params, nest := 0, inString := false }

theorem step_close (s : State) (done : List Argument) (a : Argument) (part : ParamPart) :
    (s.inside done a part).step ')' = s.closed (done ++ [a]) := by
  rw [step_inside s done a part 0 (by decide) (by decide)]
  rfl

/-- **A list** of texts that are each read as one argument; an empty one leaves an argument without a
name. -/
theorem steps_list {α : Type} (s : State) (done : List Argument) (print : α → List Char)
    (read : α → Argument) {items : List α}
    (hitems : ∀ i ∈ items, ∀ done, ∃ part,
      (s.inside done {} .name).steps (print i) = s.inside done (read i) part) :
    (s.inside done {} .name).steps ([','].intercalate (items.map print) ++ [')']) =
      s.closed (done ++ if items.isEmpty then [{}] else items.map read) := by
  induction items generalizing done with
  | nil => exact step_close s done {} .name
  | cons i items ih =>
    simp only [List.forall_mem_cons] at hitems
    obtain ⟨part, hi⟩ := hitems.1 done
    cases items with
    | nil =>
      have hprint : [','].intercalate ([i].map print) = print i := by simp
      rw [hprint, steps_append, hi, steps_cons, step_close]
      rfl
    | cons j items =>
      have hprint : [','].intercalate ((i :: j :: items).map print) =
          print i ++ ',' :: [','].intercalate ((j :: items).map print) := by simp
      rw [hprint, List.append_assoc, List.cons_append, steps_append, hi, steps_cons, step_comma,
        ih _ hitems.2]
      simp

/-- **A parameter list** is collected as one argument for each parameter. -/
theorem steps_params (s : State) (done : List Argument) {ps : List Param} (hps : ∀ p ∈ ps, Fits p) :
    (s.inside done {} .name).steps (printParams ps ++ [')']) =
      s.closed (done ++ if ps.isEmpty then [{}] else ps.map indexed) :=
  steps_list s done Param.print indexed fun p hp done => steps_param s done (hps p hp)

/-! ## Whole lines -/

/-- The texts behind the signature of a line do not change what was read of it. -/
theorem steps_texts {s : State} (hpart : s.part ∈ [.description, .docs, .anchor])
    (hstring : s.inString = false) (cs : List Char) :
    (s.steps cs).name = s.name ∧ (s.steps cs).params = s.params := by
  induction cs generalizing s with
  | nil => exact ⟨rfl, rfl⟩
  | cons c cs ih =>
    have hstep : (s.step c).part ∈ [Part.description, .docs, .anchor] ∧
        (s.step c).inString = false ∧ (s.step c).name = s.name ∧ (s.step c).params = s.params := by
      simp only [List.mem_cons, List.not_mem_nil, or_false] at hpart
      have hkeeps : s.keepsLiterals = false := by
        rcases hpart with hpart | hpart | hpart <;> simp [keepsLiterals, hpart]
      simp only [step, hkeeps, hstring]
      rcases hpart with hpart | hpart | hpart <;> simp only [hpart] <;> (repeat' split) <;>
        simp_all
    obtain ⟨hpart', hstring', hname, hparams⟩ := hstep
    obtain ⟨hname', hparams'⟩ := ih hpart' hstring'
    rw [steps_cons]
    exact ⟨hname'.trans hname, hparams'.trans hparams⟩

/-- What ends the name of a command. -/
def nameMarks : List Char :=
  ['\r', ':', '=', '(', '|', '%', '#', '!', '$']

/-- The name of a command is collected. -/
theorem steps_heading {cs : List Char} (hcs : ∀ c ∈ cs, c ∉ nameMarks) :
    State.steps {} cs = { name := String.ofList cs } := by
  have hput : ∀ text c, c ∉ nameMarks →
      State.step { name := text } c = { name := text.push c } := by
    intro text c hc
    simp only [nameMarks, List.mem_cons, List.not_mem_nil, or_false, not_or] at hc
    obtain ⟨hreturn, hcolon, hequals, hopen, hpipe, hint, hfloat, hdouble, hstring⟩ := hc
    have htag : TypeName.shorthand? c = none := by
      unfold TypeName.shorthand?
      split <;> first | rfl | contradiction
    simp [step, keepsLiterals, hreturn, hopen, hcolon, hequals, hpipe, htag]
  have hsteps := steps_collect (fun name => { name }) hput "" hcs
  rwa [String.empty_append] at hsteps

theorem not_nameMarks {c : Char} (hc : IsPlain c) : c ∉ nameMarks := by
  have hmarks : ∀ d ∈ nameMarks, Text.isBlank d = true ∨ d ∈ Text.marks := by decide
  exact fun hmem => hc.ne (hmarks c hmem) rfl

theorem steps_lineName {name : List Char} (hname : IsName name) :
    State.steps {} name = { name := String.ofList name } :=
  steps_heading fun c hc => not_nameMarks (Text.isPlain_of_isNameChar (hname.2 c hc))

end State

/-- A line feed ends a line wherever it stands, and the next line starts afresh. -/
theorem linesFrom_newline (s : State) (xs ys : List Char) :
    linesFrom s (xs ++ '\n' :: ys) = linesFrom s xs ++ linesFrom {} ys := by
  induction xs generalizing s with
  | nil => simp [linesFrom]
  | cons c xs ih => by_cases hc : c = '\n' <;> simp [linesFrom, hc, ih]

theorem linesFrom_of_not_mem {cs : List Char} (h : '\n' ∉ cs) (s : State) :
    linesFrom s cs = [(s.steps cs).finish] := by
  induction cs generalizing s with
  | nil => rfl
  | cons c cs ih =>
    simp only [List.mem_cons, not_or] at h
    have hc : c ≠ '\n' := fun e => h.1 e.symm
    simp only [linesFrom, hc, if_false]
    rw [ih h.2, State.steps_cons]

/-- A line ends at its line feed. -/
theorem linesFrom_append {cs : List Char} (h : '\n' ∉ cs) (s : State) (rest : List Char) :
    linesFrom s (cs ++ '\n' :: rest) = (s.steps cs).finish :: linesFrom {} rest := by
  rw [linesFrom_newline, linesFrom_of_not_mem h]
  rfl

/-- A line with a name has an entry, with the parameters that have names. -/
theorem exists_finish {s : State} (h : Text.trim s.name ≠ "") :
    ∃ e, s.finish = some e ∧
      e.args = (s.params.map Signature.State.finishArg).filter fun a => !a.name.isEmpty := by
  have hname : (Text.trim s.name).isEmpty = false := by
    rw [Bool.eq_false_iff, ne_eq, String.isEmpty_iff]
    exact h
  simp only [State.finish, hname, Bool.false_eq_true, if_false]
  exact ⟨_, rfl, rfl⟩

/-- The line of a command with parameters. -/
def commandLine (name : List Char) (ps : List Param) (description : List Char) : String :=
  String.ofList (name ++ '(' :: (printParams ps ++ ')' :: '|' :: (description ++ ['|'])))

theorem oneLine_printParams {ps : List Param} (hps : ∀ p ∈ ps, Fits p) : '\n' ∉ printParams ps := by
  induction ps with
  | nil => simp [printParams]
  | cons p ps ih =>
    simp only [List.forall_mem_cons] at hps
    have hp : '\n' ∉ p.print := fun h => (hps.1.oneLine _ h).1 rfl
    cases ps with
    | nil => simpa [printParams] using hp
    | cons q ps =>
      rw [Signature.State.printParams_cons]
      simp [hp, ih hps.2]

theorem finishArg_name_ne_empty (p : Param) :
    (Signature.State.finishArg (indexed p)).name ≠ "" := by
  intro h
  simp only [Signature.State.finishArg, indexed, collect, Text.trim_ofList p.isName.isTrimmed] at h
  have hlist := congrArg String.toList h
  simp only [String.toList_ofList, String.toList_empty] at hlist
  exact p.isName.1 hlist

/-- All arguments of a list have names, but for the one that an empty list leaves. -/
theorem filter_finishArg {α : Type} (read : α → Argument) {items : List α}
    (hitems : ∀ i ∈ items, (Signature.State.finishArg (read i)).name ≠ "") :
    (((if items.isEmpty then [{}] else items.map read).map Signature.State.finishArg).filter
      fun a => !a.name.isEmpty) = items.map fun i => Signature.State.finishArg (read i) := by
  cases items with
  | nil =>
    have hnone : (Signature.State.finishArg {}).name.isEmpty = true := by decide
    simp [hnone]
  | cons i items =>
    have hkeep : ∀ a ∈ (i :: items).map (fun i => Signature.State.finishArg (read i)),
        (!a.name.isEmpty) = true := by
      intro a ha
      obtain ⟨j, hj, rfl⟩ := List.mem_map.1 ha
      rw [Bool.not_eq_true', Bool.eq_false_iff, ne_eq, String.isEmpty_iff]
      exact hitems j hj
    simp only [List.isEmpty_cons, Bool.false_eq_true, if_false, List.map_map]
    exact List.filter_eq_self.2 hkeep

/-- **The entry of a line** has one argument for each parameter. -/
theorem lines_commandLine {name : List Char} (hname : IsName name) {ps : List Param}
    (hps : ∀ p ∈ ps, Fits p) {description : List Char} (hline : '\n' ∉ description) :
    ∃ e, lines (commandLine name ps description) = [some e] ∧
      e.args = ps.map fun p => Signature.State.finishArg (indexed p) := by
  have hone : '\n' ∉ name ++ '(' :: (printParams ps ++ ')' :: '|' :: (description ++ ['|'])) := by
    have hnameLine : '\n' ∉ name := fun h =>
      (Text.isPlain_of_isNameChar (hname.2 _ h)).ne (by decide) rfl
    simp [hnameLine, oneLine_printParams hps, hline]
  -- the signature is read, and the texts behind it leave it alone
  let base : State := { name := String.ofList name, hadParams := true }
  have hopen : State.step { name := String.ofList name } '(' = base.inside [] {} .name := rfl
  have hread : State.steps {} (name ++ '(' :: (printParams ps ++ ')' :: '|' :: (description ++ ['|']))) =
      ((base.closed (if ps.isEmpty then [{}] else ps.map indexed)).step '|').steps
        (description ++ ['|']) := by
    have hparams := State.steps_params base [] hps
    rw [State.steps_append, State.steps_lineName hname, State.steps_cons, hopen,
      List.append_cons, State.steps_append, hparams, State.steps_cons, List.nil_append]
  obtain ⟨hsameName, hsameParams⟩ := State.steps_texts
    (s := (base.closed (if ps.isEmpty then [{}] else ps.map indexed)).step '|')
    List.mem_cons_self rfl (description ++ ['|'])
  have htrim : Text.trim (String.ofList name) ≠ "" := by
    rw [Text.trim_ofList hname.isTrimmed]
    intro h
    have hlist := congrArg String.toList h
    simp only [String.toList_ofList, String.toList_empty] at hlist
    exact hname.1 hlist
  obtain ⟨e, hfinish, hargs⟩ := exists_finish
    (s := State.steps {} (name ++ '(' :: (printParams ps ++ ')' :: '|' :: (description ++ ['|']))))
    (by rw [hread, hsameName]; exact htrim)
  refine ⟨e, ?_, ?_⟩
  · rw [lines, commandLine, String.toList_ofList, linesFrom_of_not_mem hone, hfinish]
  · have hplain : ((base.closed (if ps.isEmpty then [{}] else ps.map indexed)).step '|').params =
        if ps.isEmpty then [{}] else ps.map indexed := rfl
    rw [hargs, hread, hsameParams, hplain]
    exact filter_finishArg indexed fun p _ => finishArg_name_ne_empty p

/-! ## Where the two readers agree -/

theorem mem_unquoted {text : List Char} (hstring : '"' ∉ text.takeWhile (· != '='))
    (hmem : '=' ∈ text) : '=' ∈ unquoted false text := by
  rcases equals_cases text with ⟨hnot, -⟩ | ⟨xs, ys, rfl, -, htake, -⟩
  · exact absurd hmem hnot
  · rw [htake] at hstring
    rw [Text.unquoted_append, Text.unquoted_of_not_mem hstring, Text.quotedAfter_of_not_mem hstring]
    simp [unquoted]

/-- The type that a signature has of a parameter has an equals sign where the text of it has one. -/
theorem mem_collected {p : Param} (hp : Fits p) (hmem : '=' ∈ typeText p.spelling) :
    '=' ∈ p.spelling.collected := by
  have hstring := hp.strings
  revert hmem hstring
  cases p.spelling with
  | none => simp [typeText]
  | tag t =>
    intro hmem _
    simp only [typeText, List.mem_append] at hmem
    rcases hmem with hmem | hgap
    · simpa [Spelling.collected] using hmem
    · exact absurd (t.blank _ hgap) (by decide)
  | typed t => exact fun hmem hstring => mem_unquoted hstring hmem
  | pointer t opens => exact fun hmem hstring => mem_unquoted hstring hmem

/-- Without an equals sign, the type is the same text but for blanks at its end. -/
theorem finishType_typeText {p : Param} (hp : Fits p) (hmem : '=' ∉ typeText p.spelling) :
    Signature.State.finishType (String.ofList (typeText p.spelling)) =
      Signature.State.finishType (String.ofList p.spelling.collected) := by
  have hstring := hp.strings
  have htake : (typeText p.spelling).takeWhile (· != '=') = typeText p.spelling := by
    rcases equals_cases (typeText p.spelling) with ⟨-, h, -⟩ | ⟨xs, ys, h, -⟩
    · exact h
    · simp [h] at hmem
  rw [htake] at hstring
  revert hstring
  cases p.spelling with
  | none => exact fun _ => rfl
  | tag t =>
    intro _
    have hblank : ∀ c ∈ t.gap, Text.isBlank c = true := by
      intro c hc
      rcases isGap_cases (t.blank c hc) with rfl | rfl <;> decide
    rw [Signature.State.finishType, typeText, TypeName.expand_append_blanks _ hblank]
    rfl
  | typed t =>
    intro hstring
    have htext : '"' ∉ t.text := hstring
    rw [Spelling.collected, Text.unquoted_of_not_mem htext]
    rfl
  | pointer t opens =>
    intro hstring
    have htext : '"' ∉ t.text := hstring
    rw [Spelling.collected, Text.unquoted_of_not_mem htext]
    rfl

/-- **One parameter** is the same to both readers exactly if its type has no equals sign. -/
theorem finishArg_indexed_iff {p : Param} (hp : Fits p) :
    Signature.State.finishArg (indexed p) = Signature.State.finishArg p.collected ↔
      '=' ∉ typeText p.spelling := by
  constructor
  · intro h hmem
    have hequals (type : String) : '=' ∈ (Signature.State.finishType type).toList ↔ '=' ∈ type.toList :=
      TypeName.mem_iff_of_filter_isKept (by decide) (Signature.State.filter_finishType type)
    have htype := congrArg (fun a => '=' ∈ a.type.toList) h
    simp only [Signature.State.finishArg, Param.collected, indexed, collect, String.empty_append,
      hequals, String.toList_ofList, eq_iff_iff] at htype
    have hcut := htype.2 (mem_collected hp hmem)
    have hbefore := List.mem_takeWhile_imp hcut
    simp at hbefore
  · intro hmem
    have hindexed : indexed p = { p.collected with type := String.ofList (typeText p.spelling) } := by
      unfold indexed detail Param.printDefault Param.collected
      cases p.default with
      | none =>
        simp only [Option.elim_none, List.append_nil]
        rw [collect_of_not_mem rfl hmem]
        simp
      | some d =>
        simp only [Option.elim_some]
        rw [collect_append hmem]
        simp
    rw [hindexed, Signature.State.finishArg, finishType_typeText hp hmem]
    rfl

/-- The signature of a function with the parameters. -/
def functionLine (name : List Char) (ps : List Param) : String :=
  "Function " ++ String.ofList (name ++ '(' :: (printParams ps ++ [')']))

theorem read_functionLine {name : List Char} (hname : IsName name) (ps : List Param) (file : Path)
    (line : Nat) : (Signature.read (functionLine name ps) file line).1.args =
      ps.map fun p => Signature.State.finishArg p.collected := by
  let base : Signature.State := { Signature.State.named .function (String.ofList name) with inArgs := true }
  have hopen : (Signature.State.named .function (String.ofList name)).step '(' = base.between [] := rfl
  obtain ⟨i, hread⟩ := Signature.State.steps_params base [] ps
  have hkeyword : Signature.State.steps {} "Function ".toList = Signature.State.keyed .function := by
    decide
  have hline : (functionLine name ps).toList =
      "Function ".toList ++ (name ++ '(' :: (printParams ps ++ [')'])) := by
    simp only [functionLine, String.toList_append, String.toList_ofList]
  have hsteps : Signature.State.steps {} (functionLine name ps).toList =
      base.closed (ps.map Param.collected) i := by
    rw [hline, Signature.State.steps_append, hkeyword, Signature.State.steps_append,
      Signature.State.steps_declName .function hname, Signature.State.steps_cons, hopen, hread,
      List.nil_append]
  rw [Signature.args_read, hsteps]
  exact List.map_map

/-- **The command index and signatures agree on a parameter list** exactly if no type in it has an
equals sign. -/
theorem args_eq_iff (name : List Char) (hname : IsName name) (ps : List Param)
    (hps : ∀ p ∈ ps, Fits p) (description : List Char) (hline : '\n' ∉ description) (file : Path)
    (line : Nat) :
    ∃ e, lines (commandLine name ps description) = [some e] ∧
      (e.args = (Signature.read (functionLine name ps) file line).1.args ↔
        ∀ p ∈ ps, '=' ∉ typeText p.spelling) := by
  obtain ⟨e, he, hargs⟩ := lines_commandLine hname hps hline
  refine ⟨e, he, ?_⟩
  rw [hargs, read_functionLine hname, List.map_inj_left]
  exact forall₂_congr fun p hp => finishArg_indexed_iff (hps p hp)

/-- A tag of an array, a type, a function and defaults with delimiters. -/
def sampleParams : List Param :=
  [{ name := "items".toList
     spelling := .tag { mark := ['$'], dims := 2, blank := Signature.isGap_of_mem_nil } },
    { before := [' '], name := "size".toList, spelling := .typed ⟨"Int ".toList, by decide⟩
      default := some ⟨" Max(1, 2)".toList, by decide⟩ },
    { name := "compare".toList
      spelling := .pointer ⟨"(a:Object, b:Object)".toList, by decide⟩ (by decide)
      default := some ⟨"Cmp".toList, by decide⟩ },
    { name := "note".toList, default := some ⟨"\"),'=\"".toList, by decide⟩ }]

theorem sampleParams_agree :
    functionLine "Sort".toList sampleParams =
      "Function Sort(items$[][], size:Int = Max(1, 2),compare(a:Object, b:Object)=Cmp,note=\"),'=\")" ∧
    (∀ p ∈ sampleParams, Fits p ∧ '=' ∉ typeText p.spelling) ∧
    ∃ e, lines (commandLine "Sort".toList sampleParams "Sorts".toList) = [some e] ∧
      e.args = (Signature.read (functionLine "Sort".toList sampleParams) ⟨"sort.bmx"⟩ 1).1.args := by
  have hfits : ∀ p ∈ sampleParams, Fits p := by decide +kernel
  have htypes : ∀ p ∈ sampleParams, '=' ∉ typeText p.spelling := by decide +kernel
  obtain ⟨e, he, hargs⟩ := args_eq_iff "Sort".toList (by decide +kernel) sampleParams hfits
    "Sorts".toList (by decide) ⟨"sort.bmx"⟩ 1
  exact ⟨by decide +kernel, fun p hp => ⟨hfits p hp, htypes p hp⟩, e, he, hargs.2 htypes⟩

/-- A function whose own parameter has a default. -/
def callbackParams : List Param :=
  [{ name := "cb".toList, spelling := .pointer ⟨"(a:Int=0)".toList, by decide⟩ (by decide) }]

/-- The index cuts at the default of a parameter's own parameter; a signature keeps it in the type. -/
theorem nested_default_differs :
    (∀ p ∈ callbackParams, Fits p) ∧
    commandLine ['F'] callbackParams ['d'] = "F(cb(a:Int=0))|d|" ∧
    (lines (commandLine ['F'] callbackParams ['d'])).map (Option.map HelpEntry.args) =
      [some [{ name := "cb", type := "Int(a:Int", default := some "0)" }]] ∧
    functionLine ['F'] callbackParams = "Function F(cb(a:Int=0))" ∧
    (Signature.read (functionLine ['F'] callbackParams) ⟨"f.bmx"⟩ 1).1.args =
      [{ name := "cb", type := "Int(a:Int=0)" }] := by
  decide +kernel

end BlitzDoc.CommandIndex
