import BlitzDoc.Proofs.Signature.Bookkeeping
import BlitzDoc.Proofs.TypeName.NormalForm

/-!
# Types of signatures, read again

Whatever signature a declaration was read from, its types are spelled out, and a type that is written
into another signature is read there as it stands (`stableTypes_read`).

What is collected of a type could be collected again: behind a name it has none of the marks that end it
or are left out, and as the type of an argument it has them at most in parentheses of its own. The last
type of a list that is cut off may leave some of these open; `typeDepth?` counts them. `Typed` says this of
all that the reader has collected, and every character keeps it (`Typed.step`). Spelling out a type moves
no marks, so it still holds of the types of the declaration.
-/

namespace BlitzDoc.Signature

open Text (IsName depthAfter depthBehind?)
open BlitzDoc.TypeName (expand)

/-- The character belongs to no type. -/
def isQuote (c : Char) : Bool :=
  c == '\'' || c == '"'

/-- The number of parentheses that the type of an argument leaves open; none if the type would not be
collected as a whole. -/
def typeDepth? (type : String) : Option Nat :=
  depthBehind? isQuote endsType 0 type.toList

namespace State

/-- The parts that collect the type of an argument. -/
def typeParts : List Part :=
  [.arg, .argReturn]

/-- All that was collected of types could be collected again. -/
structure Typed (s : State) : Prop where
  returns : ∀ c ∈ s.returns.toList, c ∉ returnsMarks
  args : ∀ a ∈ s.args, (typeDepth? a.type).isSome
  /-- The open parentheses are those of the type that is being read. -/
  current : s.part ∈ typeParts → ∀ a ∈ s.currentArg?, typeDepth? a.type = some s.nest

theorem mem_modify {α : Type} {as : List α} {i : Nat} {f : α → α} {b : α} (h : b ∈ as.modify i f) :
    b ∈ as ∨ ∃ a ∈ as[i]?, b = f a := by
  obtain ⟨j, hj⟩ := List.mem_iff_getElem?.1 h
  rw [List.getElem?_modify] at hj
  by_cases hij : i = j
  · subst hij
    obtain ⟨a, ha, rfl⟩ := Option.map_eq_some_iff.1 hj
    exact .inr ⟨a, ha, by simp⟩
  · refine .inl (List.mem_of_getElem? (i := j) ?_)
    simpa [hij] using hj

variable {s t : State}

namespace Typed

/-! ## Small changes -/

/-- Nothing was collected of a type. -/
theorem keep (h : Typed s) (hreturns : t.returns = s.returns) (hargs : t.args = s.args)
    (hcurrent : t.part ∈ typeParts → s.part ∈ typeParts ∧ t.argIndex = s.argIndex ∧ t.nest = s.nest) :
    Typed t where
  returns := hreturns ▸ h.returns
  args := hargs ▸ h.args
  current hpart a ha := by
    obtain ⟨hs, hindex, hnest⟩ := hcurrent hpart
    rw [currentArg?, hargs, hindex] at ha
    rw [hnest]
    exact h.current hs a ha

/-- The part is left, and no type is collected next. -/
theorem leave (h : Typed s) (hreturns : t.returns = s.returns) (hargs : t.args = s.args)
    (hpart : t.part ∉ typeParts) : Typed t :=
  h.keep hreturns hargs fun hmem => absurd hmem hpart

theorem ite {p : Prop} [Decidable p] (hs : p → Typed s) (ht : ¬p → Typed t) :
    Typed (if p then s else t) :=
  iteInduction hs ht

/-- The name or the default of the argument changes. -/
theorem modifyArg (h : Typed s) {f : Argument → Argument} (hf : ∀ a, (f a).type = a.type) :
    Typed (s.modifyArg f) where
  returns := h.returns
  args a ha := by
    rcases mem_modify ha with ha | ⟨b, hb, rfl⟩
    · exact h.args a ha
    · rw [hf]
      exact h.args b (List.mem_of_getElem? hb)
  current hpart a ha := by
    rw [currentArg?_modifyArg] at ha
    obtain ⟨b, hb, rfl⟩ := Option.map_eq_some_iff.1 ha
    rw [hf]
    exact h.current hpart b hb

/-- The type of the argument grows by a character that does not end it. -/
theorem pushArgType (h : Typed s) (hpart : s.part ∈ typeParts) {c : Char} (hquote : isQuote c = false)
    (hdelim : s.nest = 0 → c ≠ ')' ∧ endsType c = false) (hreturns : t.returns = s.returns)
    (hargs : t.args = (s.pushArgType c).args) (hindex : t.argIndex = s.argIndex)
    (hnest : t.nest = depthAfter s.nest c) : Typed t := by
  have hgrow : ∀ a ∈ s.currentArg?, typeDepth? (a.type.push c) = some (depthAfter s.nest c) :=
    fun a ha => Text.depthBehind?_push (h.current hpart a ha) hquote hdelim
  refine ⟨hreturns ▸ h.returns, ?_, ?_⟩
  · intro a ha
    rw [hargs] at ha
    rcases mem_modify ha with ha | ⟨b, hb, rfl⟩
    · exact h.args a ha
    · rw [hgrow b hb]
      rfl
  · intro _ a ha
    rw [currentArg?, hargs, hindex] at ha
    change a ∈ (s.pushArgType c).currentArg? at ha
    rw [State.pushArgType, currentArg?_modifyArg] at ha
    obtain ⟨b, hb, rfl⟩ := Option.map_eq_some_iff.1 ha
    rw [hnest]
    exact hgrow b hb

theorem pushReturns (h : Typed s) {c : Char} (hc : c ∉ returnsMarks)
    (hreturns : t.returns = s.returns.push c) (hargs : t.args = s.args) (hpart : t.part ∉ typeParts) :
    Typed t where
  returns := by
    rw [hreturns, String.toList_push]
    simpa [or_imp, forall_and] using ⟨h.returns, hc⟩
  args := hargs ▸ h.args
  current hmem := absurd hmem hpart

/-- In front of an argument there is no type yet. -/
theorem nextArg (h : Typed s) (hbooks : Consistent s) (hpart : s.part ∈ argParts) : Typed s.nextArg where
  returns := h.returns
  args := h.args
  current _ a ha := by
    have hbehind : s.args.length ≤ s.argIndex + 1 := hbooks.length_args hpart
    have hnone : s.nextArg.currentArg? = none := List.getElem?_eq_none hbehind
    rw [hnone] at ha
    cases ha

theorem openArgs (h : Typed s) (hbooks : Consistent s) (hpart : s.part ∈ headParts) :
    Typed s.openArgs where
  returns := h.returns
  args := h.args
  current _ a ha := by
    have hnone : s.openArgs.currentArg? = none := by
      simp [currentArg?, State.openArgs, hbooks.args hpart]
    rw [hnone] at ha
    cases ha

/-- An argument that starts has no type. -/
theorem startArg (h : Typed s) (hnest : s.nest = 0) : Typed s.startArg := by
  by_cases hle : s.args.length ≤ s.argIndex
  · obtain ⟨issues, hstart⟩ := startArg_of_le hle
    rw [hstart]
    refine ⟨h.returns, fun a ha => ?_, fun _ a ha => ?_⟩
    · rcases List.mem_append.1 ha with ha | ha
      · exact h.args a ha
      · rw [List.mem_singleton.1 ha]
        rfl
    · simp only [currentArg?, List.getElem?_concat_length, Option.mem_some_iff] at ha
      subst ha
      simp [typeDepth?, depthBehind?, hnest]
  · rwa [State.startArg, if_neg hle]

theorem openDefault (h : Typed s) : Typed s.openDefault := by
  have hopened : Typed (s.modifyArg fun a => { a with default := some "" }) := h.modifyArg fun _ => rfl
  exact hopened.leave rfl rfl (by simp [State.openDefault, typeParts])

theorem note (h : Typed s) (i : Issue) : Typed (s.note i) :=
  h.keep rfl rfl fun hpart => ⟨hpart, rfl, rfl⟩

theorem stop (h : Typed s) : Typed s.stop :=
  h.leave rfl rfl (by simp [State.stop, typeParts])

theorem pushLiteral (h : Typed s) (quoted : Bool) (c : Char) :
    Typed ({ s with inString := quoted }.pushLiteral c) := by
  have hquoted : Typed { s with inString := quoted } := h.keep rfl rfl fun hpart => ⟨hpart, rfl, rfl⟩
  unfold State.pushLiteral
  split
  · exact hquoted.keep rfl rfl fun hpart => ⟨hpart, rfl, rfl⟩
  · exact hquoted.modifyArg fun _ => rfl
  · exact hquoted

/-! ## One character, by part -/

theorem stepType (h : Typed s) (hpart : s.part = .type) (c : Char) : Typed (s.stepType c) := by
  refine .ite (fun _ => .ite (fun _ => h) fun _ => ?_) fun _ => .ite (fun _ => h) fun _ => ?_
  · exact h.leave rfl rfl (by simp [typeParts])
  · exact h.leave rfl rfl (by simp [hpart, typeParts])

theorem stepName (h : Typed s) (hbooks : Consistent s) (hpart : s.part = .name) {c : Char}
    (hquote : c ≠ '"') : Typed (s.stepName c) := by
  have hhead : s.part ∈ headParts := by simp [hpart, headParts]
  have hsame {t : State} (hreturns : t.returns = s.returns) (hargs : t.args = s.args)
      (ht : t.part = s.part) : Typed t := h.leave hreturns hargs (by simp [ht, hpart, typeParts])
  refine .ite (fun _ => h) fun hcomment => .ite (fun _ => hsame rfl rfl rfl) fun _ =>
    .ite (fun _ => h.leave rfl rfl (by simp [typeParts])) fun _ =>
    .ite (fun _ => h.openArgs hbooks hhead) fun hopen =>
    .ite (fun _ => h.leave rfl rfl (by simp [openValue, typeParts])) fun hequals =>
    .ite (fun _ => h.stop) fun hcomma =>
    .ite (fun _ => ?_) fun _ => hsame rfl rfl rfl
  have hmarks : c ∉ returnsMarks := by
    simp only [Bool.or_eq_true, decide_eq_true_eq, not_or] at hcomma
    simp [returnsMarks, hcomment, hopen, hequals, hcomma.2, hquote]
  exact h.pushReturns hmarks rfl rfl (by simp [typeParts])

theorem stepReturns (h : Typed s) (hbooks : Consistent s) (hpart : s.part = .returns) {c : Char}
    (hquote : c ≠ '"') : Typed (s.stepReturns c) := by
  have hhead : s.part ∈ headParts := by simp [hpart, headParts]
  refine .ite (fun _ => h) fun hcomment => .ite (fun _ => h.openArgs hbooks hhead) fun hopen =>
    .ite (fun _ => h.leave rfl rfl (by simp [openValue, typeParts])) fun hequals =>
    .ite (fun _ => h.stop) fun hcomma => ?_
  have hmarks : c ∉ returnsMarks := by
    simp [returnsMarks, hcomment, hopen, hequals, hcomma, hquote]
  exact h.pushReturns hmarks rfl rfl (by simp [hpart, typeParts])

theorem stepValue (h : Typed s) (hpart : s.part = .value) (c : Char) : Typed (s.stepValue c) := by
  refine .ite (fun _ => h) fun _ => .ite (fun _ => h.stop) fun _ => .ite (fun _ => h.note _) fun _ => ?_
  rw [trackNest_eq]
  exact h.leave rfl rfl (by simp [hpart, typeParts])

theorem stepArg (h : Typed s) (hbooks : Consistent s) (hpart : s.part = .arg) {c : Char}
    (hquote : c ≠ '"') : Typed (s.stepArg c) := by
  have hlist : s.part ∈ argParts := by simp [hpart, argParts]
  have htype : s.part ∈ typeParts := by simp [hpart, typeParts]
  have hnest : s.nest = 0 := hbooks.nest (by simp [hpart])
  refine .ite (fun _ => h) fun hskipped => .ite (fun _ => h.nextArg hbooks hlist) fun hcomma =>
    .ite (fun _ => h.stop) fun hclose =>
    .ite (fun _ => .ite (fun _ => h.keep rfl rfl fun _ => ⟨htype, rfl, rfl⟩) fun _ => h.note _) fun _ =>
    .ite (fun _ => .ite (fun _ => h.openDefault) fun _ => h.note _) fun hequals => ?_
  have hcomment : isQuote c = false := by
    simp only [Bool.or_eq_true, decide_eq_true_eq, not_or] at hskipped
    simp [isQuote, hskipped.1.1, hquote]
  have hends : c ≠ ')' ∧ endsType c = false := by simp [endsType, hclose, hcomma, hequals]
  refine .ite (fun hopen => .ite (fun _ => ?_) fun _ => h.note _) fun hopen => ?_
  · refine h.pushArgType htype hcomment (fun _ => hends) rfl rfl rfl ?_
    rw [hnest, hopen]
    rfl
  · have hpush : Typed (s.pushArgType c) := by
      refine h.pushArgType htype hcomment (fun _ => hends) rfl rfl rfl ?_
      simp [State.pushArgType, State.modifyArg, depthAfter, hopen, hclose]
    exact .ite (fun _ => .ite (fun _ => hpush) fun _ => h.note _) fun _ =>
      .ite (fun _ => hpush) fun _ => (h.startArg hnest).modifyArg fun _ => rfl

theorem stepArgReturn (h : Typed s) (hbooks : Consistent s) (hpart : s.part = .argReturn) {c : Char}
    (hquote : c ≠ '"') : Typed (s.stepArgReturn c) := by
  have hlist : s.part ∈ argParts := by simp [hpart, argParts]
  have htype : s.part ∈ typeParts := by simp [hpart, typeParts]
  refine .ite (fun _ => h) fun hcomment => .ite (fun _ => h.nextArg hbooks hlist) fun hcomma =>
    .ite (fun _ => h.stop) fun hclose => .ite (fun _ => h.openDefault) fun hequals => ?_
  simp only [Bool.and_eq_true, decide_eq_true_eq, not_and] at hcomma hclose hequals
  rw [trackNest_eq]
  refine h.pushArgType htype (by simp [isQuote, hcomment, hquote]) (fun hnest => ?_) rfl rfl rfl rfl
  have hmarks : c ≠ ',' ∧ c ≠ ')' ∧ c ≠ '=' :=
    ⟨fun hc => hcomma hc hnest, fun hc => hclose hc hnest, fun hc => hequals hc hnest⟩
  simp [endsType, hmarks]

theorem stepArgDefault (h : Typed s) (hbooks : Consistent s) (hpart : s.part = .argDefault) (c : Char) :
    Typed (s.stepArgDefault c) := by
  have hlist : s.part ∈ argParts := by simp [hpart, argParts]
  refine .ite (fun _ => h) fun _ => .ite (fun _ => h.nextArg hbooks hlist) fun _ =>
    .ite (fun _ => h.stop) fun _ => ?_
  rw [trackNest_eq]
  exact (h.leave (t := { s with nest := depthAfter s.nest c }) rfl rfl
    (by simp [hpart, typeParts])).modifyArg fun _ => rfl

/-! ## Runs -/

/-- **Every character** leaves the types such that they could be collected again. -/
theorem step (h : Typed s) (hbooks : Consistent s) (c : Char) : Typed (s.step c) := by
  by_cases hdone : s.part = .done
  · rwa [step_done hdone]
  by_cases hliteral : c = '"' ∨ s.inString = true
  · obtain ⟨quoted, hstep⟩ := step_literal hdone hliteral
    rw [hstep]
    exact h.pushLiteral quoted c
  · simp only [not_or, Bool.not_eq_true] at hliteral
    obtain ⟨hquote, hstring⟩ := hliteral
    rw [step_plain hquote hstring]
    cases hpart : s.part with
    | type => exact h.stepType hpart c
    | name => exact h.stepName hbooks hpart hquote
    | returns => exact h.stepReturns hbooks hpart hquote
    | value => exact h.stepValue hpart c
    | arg => exact h.stepArg hbooks hpart hquote
    | argReturn => exact h.stepArgReturn hbooks hpart hquote
    | argDefault => exact h.stepArgDefault hbooks hpart c
    | done => exact h

theorem steps (h : Typed s) (hbooks : Consistent s) (cs : List Char) : Typed (s.steps cs) := by
  induction cs generalizing s with
  | nil => exact h
  | cons c cs ih => exact ih (h.step hbooks c) (hbooks.step c)

theorem start : Typed {} where
  returns := by simp
  args := by simp
  current := by simp [typeParts]

end Typed

/-! ## The types of a declaration -/

theorem typeDepth?_finishType (type : String) : typeDepth? (finishType type) = typeDepth? type := by
  refine depthBehind?_finishType (fun c hc => ?_) type
  have hmark : c ∉ ['(', ')', '\'', '"', ',', '='] := TypeName.not_mem_of_isKept (by decide) hc
  simp_all [isQuote, endsType]

/-- A type is collected as it stands, up to its end. -/
theorem steps_openType (s : State) (done : List Argument) (a : Argument) {nest n : Nat} {cs : List Char}
    (h : depthBehind? isQuote endsType nest cs = some n) :
    (s.inside done a .argReturn nest).steps cs =
      s.inside done { a with type := a.type ++ String.ofList cs } .argReturn n := by
  rw [← foldl_push]
  induction cs generalizing a nest with
  | nil =>
    obtain rfl : nest = n := Option.some.inj h
    rfl
  | cons c cs ih =>
    obtain ⟨hquote, hdelim, hrest⟩ := Text.depthBehind?_cons_eq_some.1 h
    simp only [isQuote, Bool.or_eq_false_iff, beq_eq_false_iff_ne] at hquote
    rw [steps_cons, step_plain hquote.2 rfl, inside_part]
    simp only [stepArgReturn_inside s done a hquote.1 hdelim]
    rw [ih _ hrest, List.foldl_cons]

end State

/-! ## Reading types again -/

/-- The head of a signature, up to its name. -/
def heading (k : Kind) (name : String) : String :=
  k.label ++ " " ++ name

section
variable {k : Kind} (hk : k ≠ .unknown) {name : String} (hname : IsName name.toList)
include hk hname

/-- A type behind a name is read up to blanks and its spelling. -/
theorem read_returns {t : String} (ht : ∀ c ∈ t.toList, c ∉ returnsMarks) (file : Path) (line : Nat) :
    (read (heading k name ++ ":" ++ t) file line).1.returns = expand t := by
  have hcolon : (State.named k name).step ':' = { State.named k name with part := .returns } := rfl
  have htext : (heading k name ++ ":" ++ t).toList =
      (k.label ++ " ").toList ++ (name.toList ++ ':' :: t.toList) := by simp [heading]
  have hsteps : State.steps {} (heading k name ++ ":" ++ t).toList =
      { State.named k name with part := .returns, returns := "" ++ String.ofList t.toList } := by
    rw [htext, State.steps_head hk hname, State.steps_cons, hcolon, State.steps_returns rfl rfl ht]
    rfl
  simp only [read, State.finish, hsteps, String.ofList_toList, String.empty_append]

/-- A type of an argument is read as it stands, even if it leaves parentheses open. -/
theorem read_argType {arg : String} (harg : IsName arg.toList) {t : String} (ht : (typeDepth? t).isSome)
    (file : Path) (line : Nat) :
    (read (heading k name ++ "(" ++ arg ++ ":" ++ t) file line).1.args =
      [{ name := arg, type := State.finishType t }] := by
  obtain ⟨n, hn⟩ := Option.isSome_iff_exists.1 ht
  let s : State := { State.named k name with inArgs := true }
  have htext : (heading k name ++ "(" ++ arg ++ ":" ++ t).toList =
      (k.label ++ " ").toList ++ (name.toList ++ '(' :: (arg.toList ++ ':' :: t.toList)) := by
    simp [heading]
  have hopen : (State.named k name).step '(' = s.between [] := rfl
  have hcolon : (s.inside [] { name := arg } .arg).step ':' =
      s.inside [] { name := arg } .argReturn := rfl
  have hsteps : State.steps {} (heading k name ++ "(" ++ arg ++ ":" ++ t).toList =
      s.inside [] { name := arg, type := t } .argReturn n := by
    rw [htext, State.steps_head hk hname, State.steps_cons, hopen, State.steps_append,
      State.steps_firstName s [] harg, String.ofList_toList, State.steps_cons, hcolon,
      State.steps_openType s [] _ hn, String.ofList_toList, String.empty_append]
  have htrim : Text.trim arg = arg := Text.trim_of_isTrimmed harg.isTrimmed
  rw [args_read, hsteps]
  simp [State.inside, State.finishArg, State.finishValue, htrim]

end

/-- The types of a declaration are spelled out, and each is read as it stands wherever a type is written
in a signature. -/
structure StableTypes (d : Declaration) : Prop where
  returns : expand d.returns = d.returns
  args : ∀ a ∈ d.args, a.type ≠ "" ∧ expand a.type = a.type
  rereadReturns : ∀ (k : Kind) (name : String) (file : Path) (line : Nat), k ≠ .unknown →
    IsName name.toList → (read (heading k name ++ ":" ++ d.returns) file line).1.returns = d.returns
  /-- The list is left open, since a type that was cut off may leave it so, too. -/
  rereadArgs : ∀ a ∈ d.args, ∀ (k : Kind) (name arg : String) (file : Path) (line : Nat), k ≠ .unknown →
    IsName name.toList → IsName arg.toList →
      (read (heading k name ++ "(" ++ arg ++ ":" ++ a.type) file line).1.args =
        [{ name := arg, type := a.type }]

/-- **The types of every declaration are stable**, whatever the signature it was read from. -/
theorem stableTypes_read (raw : String) (file : Path) (line : Nat) :
    StableTypes (read raw file line).1 := by
  have htyped := State.Typed.start.steps State.Consistent.start raw.toList
  have hreturns : expand (read raw file line).1.returns = (read raw file line).1.returns :=
    TypeName.expand_expand _
  have hmarks : ∀ c ∈ (read raw file line).1.returns.toList, c ∉ returnsMarks :=
    TypeName.not_mem_of_mem_expand (by decide) htyped.returns
  have hargs : ∀ a ∈ (read raw file line).1.args,
      (a.type ≠ "" ∧ expand a.type = a.type) ∧ (typeDepth? a.type).isSome := by
    intro a ha
    rw [args_read] at ha
    obtain ⟨b, hb, rfl⟩ := List.mem_map.1 ha
    simp only [State.finishArg, State.typeDepth?_finishType]
    exact ⟨State.finishType_spec b.type, htyped.args b hb⟩
  refine ⟨hreturns, fun a ha => (hargs a ha).1, fun k name file line hk hname => ?_,
    fun a ha k name arg file line hk hname harg => ?_⟩
  · rw [read_returns hk hname hmarks, hreturns]
  · obtain ⟨⟨hne, hexpand⟩, hdepth⟩ := hargs a ha
    rw [read_argType hk hname harg hdepth, State.finishType_of_expand_eq hne hexpand]

/-- A list that is cut off inside the type of its only argument, and that type in another one. -/
example :
    (read "Function Each%(run( n%, done$()" ⟨"a.bmx"⟩ 1).1.args =
        [{ name := "run", type := "Int( n%, done$()" }] ∧
      (read "Method Other(run:Int( n%, done$()" ⟨"b.bmx"⟩ 2).1.args =
        [{ name := "run", type := "Int( n%, done$()" }] := by
  decide +kernel

end BlitzDoc.Signature
