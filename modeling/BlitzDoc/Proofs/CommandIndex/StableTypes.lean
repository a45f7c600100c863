import BlitzDoc.Proofs.CommandIndex.Lines
import BlitzDoc.Proofs.Signature.StableTypes

/-!
# Types of the index, read again

The index has a reader of its own, and its types are as stable as those of signatures: whatever the text
of the index, the types of its entries are spelled out, and a type that is written into another line is
read there as it stands (`stableTypes_parse`).

The argument is the one for signatures. `Typed` says of all that was collected of types that it could be
collected again, and every character of a line keeps it (`Typed.step`). Here quotes and apostrophes are
characters of a type like any others, but a type has no equals sign, not even in parentheses, and stays on
its line. The main statement is `types_stable`, on types of every origin.
-/

namespace BlitzDoc

namespace CommandIndex

open Signature (endsDefault)
open Signature.State (mem_modify finishType)
open Text (IsName depthAfter depthBehind?)

/-! ## Texts that can be collected as types -/

/-- What ends the type of a command or is left out of it. -/
def returnsMarks : List Char :=
  ['\n', '\r', '=', '(', '|']

/-- The text can be collected as the type of a parameter, and leaves some parentheses open. -/
structure IsOpenType (type : String) (nest : Nat) : Prop where
  depth : depthBehind? (· == '=') endsDefault 0 type.toList = some nest
  oneLine : ∀ c ∈ type.toList, c ≠ '\n' ∧ c ≠ '\r'

theorem isOpenType_empty : IsOpenType "" 0 :=
  ⟨rfl, by simp⟩

theorem IsOpenType.push {type : String} {nest : Nat} (h : IsOpenType type nest) {c : Char}
    (hline : c ≠ '\n' ∧ c ≠ '\r') (hequals : c ≠ '=')
    (hdelim : nest = 0 → c ≠ ')' ∧ endsDefault c = false) :
    IsOpenType (type.push c) (depthAfter nest c) where
  depth := Text.depthBehind?_push h.depth (by simpa using hequals) hdelim
  oneLine := by
    rw [String.toList_push]
    simpa [or_imp, forall_and] using ⟨⟨fun c hc => (h.oneLine c hc).1, hline.1⟩,
      fun c hc => (h.oneLine c hc).2, hline.2⟩

/-- A type that is spelled out has its marks where the text has them. -/
theorem IsOpenType.finishType {type : String} {nest : Nat} (h : IsOpenType type nest) :
    IsOpenType (finishType type) nest where
  depth := by
    rw [Signature.State.depthBehind?_finishType (fun c hc => ?_) type]
    · exact h.depth
    have hmark : c ∉ ['(', ')', ',', '='] := TypeName.not_mem_of_isKept (by decide) hc
    simp_all [endsDefault]
  oneLine c hc := by
    rcases Signature.State.mem_of_mem_finishType hc with hletter | hmem
    · have hplain := Text.isPlain_of_isNameChar hletter
      exact ⟨hplain.ne (by decide), hplain.ne (by decide)⟩
    · exact h.oneLine c hmem

namespace State

/-- The parts that collect the type of a parameter. -/
def typeParts : List Part :=
  [.param .name, .param .type]

/-- All that was collected of types could be collected again. -/
structure Typed (s : State) : Prop where
  returns : ∀ c ∈ s.returns.toList, c ∉ returnsMarks
  params : ∀ p ∈ s.params, ∃ nest, IsOpenType p.type nest
  /-- The open parentheses are those of the type that is being read. -/
  current : s.part ∈ typeParts → ∀ p ∈ s.params.getLast?, IsOpenType p.type s.nest
  outside : s.part = .param .name → s.nest = 0

theorem getLast?_modifyParam (s : State) (f : Argument → Argument) :
    (s.modifyParam f).params.getLast? = s.params.getLast?.map f := by
  simp [modifyParam, List.getLast?_eq_getElem?]

theorem trackNest_eq (s : State) (c : Char) : s.trackNest c = { s with nest := depthAfter s.nest c } := by
  unfold trackNest depthAfter
  split
  · rfl
  · split <;> rfl

variable {s t : State}

namespace Typed

/-! ## Small changes -/

theorem ite {p : Prop} [Decidable p] (hs : p → Typed s) (ht : ¬p → Typed t) :
    Typed (if p then s else t) :=
  iteInduction hs ht

/-- Nothing was collected of a type. -/
theorem keep (h : Typed s) (hreturns : t.returns = s.returns) (hparams : t.params = s.params)
    (hcurrent : t.part ∈ typeParts → s.part ∈ typeParts ∧ t.nest = s.nest)
    (houtside : t.part = .param .name → s.part = .param .name) : Typed t where
  returns := hreturns ▸ h.returns
  params := hparams ▸ h.params
  current hpart p hp := by
    obtain ⟨hs, hnest⟩ := hcurrent hpart
    rw [hnest]
    exact h.current hs p (hparams ▸ hp)
  outside hpart := by
    obtain ⟨-, hnest⟩ := hcurrent (by simp [hpart, typeParts])
    rw [hnest]
    exact h.outside (houtside hpart)

/-- The part is left, and no type is collected next. -/
theorem leave (h : Typed s) (hreturns : t.returns = s.returns) (hparams : t.params = s.params)
    (hpart : t.part ∉ typeParts) : Typed t :=
  h.keep hreturns hparams (fun hmem => absurd hmem hpart)
    fun hname => absurd (by simp [hname, typeParts]) hpart

/-- The name or the default of the parameter changes. -/
theorem modifyParam (h : Typed s) {f : Argument → Argument} (hf : ∀ p, (f p).type = p.type) :
    Typed (s.modifyParam f) where
  returns := h.returns
  params p hp := by
    rcases mem_modify hp with hp | ⟨q, hq, rfl⟩
    · exact h.params p hp
    · rw [hf]
      exact h.params q (List.mem_of_getElem? hq)
  current hpart p hp := by
    rw [getLast?_modifyParam] at hp
    obtain ⟨q, hq, rfl⟩ := Option.map_eq_some_iff.1 hp
    rw [hf]
    exact h.current hpart q hq
  outside := h.outside

/-- A parameter that starts has no type. -/
theorem openParam (h : Typed s) (hreturns : t.returns = s.returns)
    (hparams : t.params = s.params ++ [({} : Argument)])
    (hnest : t.nest = 0) : Typed t where
  returns := hreturns ▸ h.returns
  params p hp := by
    rw [hparams] at hp
    rcases List.mem_append.1 hp with hp | hp
    · exact h.params p hp
    · rw [List.mem_singleton.1 hp]
      exact ⟨0, isOpenType_empty⟩
  current _ p hp := by
    rw [hparams, List.getLast?_concat, Option.mem_some_iff] at hp
    subst hp
    rw [hnest]
    exact isOpenType_empty
  outside _ := hnest

/-- The type of the parameter grows by a character that does not end it. -/
theorem pushType (h : Typed s) (hpart : s.part ∈ typeParts) {c : Char} (hline : c ≠ '\n' ∧ c ≠ '\r')
    (hequals : c ≠ '=') (hdelim : s.nest = 0 → c ≠ ')' ∧ endsDefault c = false)
    (hreturns : t.returns = s.returns) (hparams : t.params = (s.pushType c).params)
    (hnest : t.nest = depthAfter s.nest c) (hnext : t.part ≠ .param .name) : Typed t := by
  have hgrow : ∀ p ∈ s.params.getLast?, IsOpenType (p.type.push c) (depthAfter s.nest c) :=
    fun p hp => (h.current hpart p hp).push hline hequals hdelim
  refine ⟨hreturns ▸ h.returns, fun p hp => ?_, fun _ p hp => ?_, fun hname => absurd hname hnext⟩
  · rw [hparams] at hp
    rcases mem_modify hp with hp | ⟨q, hq, rfl⟩
    · exact h.params p hp
    · exact ⟨_, hgrow q (List.getLast?_eq_getElem? ▸ hq)⟩
  · rw [hparams, State.pushType, getLast?_modifyParam] at hp
    obtain ⟨q, hq, rfl⟩ := Option.map_eq_some_iff.1 hp
    rw [hnest]
    exact hgrow q hq

theorem pushReturns (h : Typed s) {c : Char} (hc : c ∉ returnsMarks)
    (hreturns : t.returns = s.returns.push c) (hparams : t.params = s.params)
    (hpart : t.part ∉ typeParts) : Typed t where
  returns := by
    rw [hreturns, String.toList_push]
    simpa [or_imp, forall_and] using ⟨h.returns, hc⟩
  params := hparams ▸ h.params
  current hmem := absurd hmem hpart
  outside hname := absurd (by simp [hname, typeParts]) hpart

theorem pushLiteral (h : Typed s) (c : Char) : Typed (s.pushLiteral c) := by
  unfold State.pushLiteral
  split
  · exact h.keep rfl rfl (fun hpart => ⟨hpart, rfl⟩) id
  · exact h.modifyParam fun _ => rfl
  · exact h

theorem openParams (h : Typed s) : Typed s.openParams :=
  h.openParam rfl rfl rfl

theorem openDefault (h : Typed s) : Typed s.openDefault :=
  h.leave rfl rfl (by simp [State.openDefault, typeParts])

/-! ## One character -/

/-- A character of a parameter, by the part that is being read. -/
theorem stepParam (h : Typed s) {part : ParamPart} (hpart : s.part = .param part) {c : Char}
    (hline : c ≠ '\n' ∧ c ≠ '\r') : Typed (s.stepParam part c) := by
  refine .ite (fun hcomma => ?_) fun hcomma => .ite (fun _ => ?_) fun hclose =>
    .ite (fun _ => ?_) fun hvalue => ?_
  · simp only [Bool.and_eq_true, decide_eq_true_eq] at hcomma
    exact h.openParam rfl rfl hcomma.2
  · exact h.leave rfl rfl (by simp [typeParts])
  · have hopened : Typed (s.modifyParam fun p => { p with default := some "" }) :=
      h.modifyParam fun _ => rfl
    exact hopened.leave rfl rfl (by simp [typeParts])
  simp only [Bool.and_eq_true, decide_eq_true_eq, not_and] at hcomma hclose
  simp only [Bool.and_eq_true, decide_eq_true_eq, not_and, bne_iff_ne, ne_eq, not_not] at hvalue
  have hdelim : s.nest = 0 → c ≠ ')' ∧ endsDefault c = false := fun hnest =>
    ⟨fun hc => hclose hc hnest, by simpa [endsDefault] using fun hc => hcomma hc hnest⟩
  cases part with
  | name =>
    have htype : s.part ∈ typeParts := by simp [hpart, typeParts]
    have hnest : s.nest = 0 := h.outside hpart
    have hequals : c ≠ '=' := fun hc => by cases hvalue hc
    refine .ite (fun _ => ?_) fun _ => .ite (fun _ => h) fun _ => .ite (fun hopen => ?_) fun hopen =>
      .ite (fun _ => ?_) fun _ => h.modifyParam fun _ => rfl
    · exact h.keep rfl rfl (fun _ => ⟨htype, rfl⟩) fun _ => hpart
    · refine h.pushType htype hline hequals hdelim rfl rfl ?_ (by simp)
      rw [hnest, hopen]
      rfl
    · refine h.pushType htype hline hequals hdelim rfl rfl ?_ (by simp)
      simp [State.pushType, State.modifyParam, depthAfter, hopen, hdelim hnest]
  | type =>
    have htype : s.part ∈ typeParts := by simp [hpart, typeParts]
    have hequals : c ≠ '=' := fun hc => by cases hvalue hc
    have hname : s.part ≠ .param .name := by simp [hpart]
    change Typed ((s.trackNest c).pushType c)
    rw [trackNest_eq]
    exact h.pushType htype hline hequals hdelim rfl rfl rfl hname
  | default =>
    change Typed ((s.trackNest c).pushLiteral c)
    rw [trackNest_eq]
    exact (h.leave (t := { s with nest := depthAfter s.nest c }) rfl rfl
      (by simp [hpart, typeParts])).pushLiteral c

/-- **Every character** of a line leaves the types such that they could be collected again. -/
theorem step (h : Typed s) {c : Char} (hfeed : c ≠ '\n') : Typed (s.step c) := by
  refine .ite (fun _ => h) fun hreturn => .ite (fun _ => ?_) fun _ => .ite (fun _ => h.pushLiteral c)
    fun _ => ?_
  · exact (h.keep (t := { s with inString := !s.inString }) rfl rfl (fun hpart => ⟨hpart, rfl⟩)
      id).pushLiteral c
  -- the parts in the order of a line; only the name and the type collect the type of the command
  split
  next hpart =>
    refine .ite (fun _ => ?_) fun _ => .ite (fun _ => h.openDefault) fun hequals =>
      .ite (fun _ => h.openParams) fun hopen => .ite (fun _ => ?_) fun hpipe =>
      .ite (fun _ => ?_) fun _ => ?_
    · exact h.leave rfl rfl (by simp [typeParts])
    · exact h.leave rfl rfl (by simp [typeParts])
    · have hmarks : c ∉ returnsMarks := by simp [returnsMarks, hfeed, hreturn, hequals, hopen, hpipe]
      exact h.pushReturns hmarks rfl rfl (by simp [typeParts])
    · exact h.leave rfl rfl (by simp [hpart, typeParts])
  next hpart =>
    refine .ite (fun _ => h.openDefault) fun hequals => .ite (fun _ => h.openParams) fun hopen =>
      .ite (fun _ => ?_) fun hpipe => ?_
    · exact h.leave rfl rfl (by simp [typeParts])
    · have hmarks : c ∉ returnsMarks := by simp [returnsMarks, hfeed, hreturn, hequals, hopen, hpipe]
      exact h.pushReturns hmarks rfl rfl (by simp [hpart, typeParts])
  next => exact .ite (fun _ => h.leave rfl rfl (by simp [typeParts])) fun _ => h.pushLiteral c
  next part hpart => exact h.stepParam hpart ⟨hfeed, hreturn⟩
  next => exact .ite (fun _ => h.leave rfl rfl (by simp [typeParts])) fun _ => h
  next hpart =>
    exact .ite (fun _ => h.leave rfl rfl (by simp [typeParts])) fun _ =>
      h.leave rfl rfl (by simp [hpart, typeParts])
  next hpart =>
    exact .ite (fun _ => h.leave rfl rfl (by simp [typeParts])) fun _ =>
      h.leave rfl rfl (by simp [hpart, typeParts])
  next hpart => exact h.leave rfl rfl (by simp [hpart, typeParts])

theorem steps (h : Typed s) {cs : List Char} (hcs : '\n' ∉ cs) : Typed (s.steps cs) := by
  induction cs generalizing s with
  | nil => exact h
  | cons c cs ih =>
    simp only [List.mem_cons, not_or] at hcs
    exact ih (h.step fun hc => hcs.1 hc.symm) hcs.2

theorem start : Typed {} where
  returns := by simp
  params := by simp
  current := by simp [typeParts]
  outside := by simp

end Typed

/-- A type is collected as it stands, up to its end. -/
theorem steps_openType (s : State) (done : List Argument) (a : Argument) {nest n : Nat} {cs : List Char}
    (h : depthBehind? (· == '=') endsDefault nest cs = some n) (hline : ∀ c ∈ cs, c ≠ '\n' ∧ c ≠ '\r') :
    (s.inside done a .type nest).steps cs =
      s.inside done { a with type := a.type ++ String.ofList cs } .type n := by
  rw [← Signature.foldl_push]
  induction cs generalizing a nest with
  | nil =>
    obtain rfl : nest = n := Option.some.inj h
    rfl
  | cons c cs ih =>
    obtain ⟨hequals, hdelim, hrest⟩ := Text.depthBehind?_cons_eq_some.1 h
    simp only [List.forall_mem_cons] at hline
    have hstep : (s.inside done a .type nest).step c = (s.inside done a .type nest).stepParam .type c := by
      simp [step, inside, keepsLiterals, hline.1.2]
    rw [steps_cons, hstep, stepParam_type s done a (by simpa using hequals) (not_delim rfl hdelim),
      ih _ hrest hline.2, List.foldl_cons]

end State

/-! ## Reading types again -/

theorem feed_not_mem_of_isName {name : List Char} (h : IsName name) : '\n' ∉ name :=
  fun hmem => (Text.isPlain_of_isNameChar (h.2 '\n' hmem)).ne (by decide) rfl

/-- A line that starts with a name has the entry of what was read of it. -/
theorem parse_named {line name : String} (hline : '\n' ∉ line.toList) (hname : IsName name.toList)
    (h : (State.steps {} line.toList).name = name) :
    ∃ e, (parse line).1 = [e] ∧ e.name = name ∧
      e.returns = TypeName.expand (State.steps {} line.toList).returns ∧
      e.args = ((State.steps {} line.toList).params.map Signature.State.finishArg).filter
        fun a => !a.name.isEmpty := by
  obtain ⟨hne, hsplit⟩ := split_name hname
  rw [← h] at hne hsplit
  obtain ⟨e, hfinish, hargs⟩ := exists_finish hne
  obtain ⟨-, hentry, -, hreturns, -⟩ := finish_spec hfinish
  refine ⟨e, ?_, ?_, hreturns, hargs⟩
  · rw [parse, lines, linesFrom_of_not_mem hline, hfinish]
    rfl
  · rw [hentry, hsplit, h]

section
variable {name : String} (hname : IsName name.toList)
include hname

/-- A type behind a name is read up to blanks and its spelling. -/
theorem parse_returns {t : String} (ht : ∀ c ∈ t.toList, c ∉ returnsMarks) :
    (parse (name ++ ":" ++ t)).1.map (fun e => (e.name, e.returns)) = [(name, TypeName.expand t)] := by
  have hmarks : ∀ c ∈ t.toList, c ∉ ['\r', '=', '(', '|'] := fun c hc hmem =>
    ht c hc (List.mem_cons_of_mem _ hmem)
  have hsteps : State.steps {} (name ++ ":" ++ t).toList = { part := .returns, name, returns := t } := by
    have htext : (name ++ ":" ++ t).toList = name.toList ++ ':' :: t.toList := by simp
    have hcolon : State.step { name } ':' = { part := .returns, name } := rfl
    rw [htext, State.steps_append, State.steps_lineName hname, String.ofList_toList, State.steps_cons,
      hcolon]
    exact State.steps_returns (s := { name }) rfl hmarks
  have hline : '\n' ∉ (name ++ ":" ++ t).toList := by
    have hfeed : '\n' ∉ t.toList := fun hmem => ht _ hmem List.mem_cons_self
    simp [feed_not_mem_of_isName hname, hfeed]
  obtain ⟨e, hparse, hentry, hreturns, -⟩ := parse_named hline hname (by rw [hsteps])
  rw [hparse, List.map_singleton, hentry, hreturns, hsteps]

/-- A type of a parameter is read as it stands, even if it leaves parentheses open. -/
theorem parse_paramType {arg : String} (harg : IsName arg.toList) {t : String} {nest : Nat}
    (ht : IsOpenType t nest) :
    (parse (name ++ "(" ++ arg ++ ":" ++ t)).1.map (fun e => (e.name, e.args)) =
      [(name, [{ name := arg, type := finishType t }])] := by
  let s : State := { name, hadParams := true }
  have hsteps : State.steps {} (name ++ "(" ++ arg ++ ":" ++ t).toList =
      s.inside [] { name := arg, type := t } .type nest := by
    have htext : (name ++ "(" ++ arg ++ ":" ++ t).toList =
        name.toList ++ '(' :: (arg.toList ++ ':' :: t.toList) := by simp
    have hopen : State.step { name } '(' = s.inside [] {} .name := rfl
    have hplain : ∀ c ∈ arg.toList, Text.IsPlain c := fun c hc => Text.isPlain_of_isNameChar (harg.2 c hc)
    rw [htext, State.steps_append, State.steps_lineName hname, String.ofList_toList, State.steps_cons,
      hopen, State.steps_append, State.steps_name s [] _ hplain, State.steps_cons, State.step_colon,
      State.steps_openType s [] _ ht.depth ht.oneLine, String.ofList_toList, String.ofList_toList,
      String.empty_append, String.empty_append]
  have hline : '\n' ∉ (name ++ "(" ++ arg ++ ":" ++ t).toList := by
    have hfeed : '\n' ∉ t.toList := fun hmem => (ht.oneLine _ hmem).1 rfl
    simp [feed_not_mem_of_isName hname, feed_not_mem_of_isName harg, hfeed]
  have htrim : Text.trim arg = arg := Text.trim_of_isTrimmed harg.isTrimmed
  have hne : arg.isEmpty = false := by
    rw [Bool.eq_false_iff, ne_eq, String.isEmpty_iff]
    exact ne_empty_of_isName harg
  obtain ⟨e, hparse, hentry, -, hargs⟩ := parse_named hline hname (by rw [hsteps]; rfl)
  rw [hparse, List.map_singleton, hentry, hargs, hsteps]
  simp [State.inside, Signature.State.finishArg, Signature.State.finishValue, htrim, hne]

end

/-- The types of an entry are spelled out, and each is read as it stands wherever a type is written in
a line of an index. -/
structure StableTypes (e : HelpEntry) : Prop where
  returns : TypeName.expand e.returns = e.returns
  args : ∀ a ∈ e.args, a.type ≠ "" ∧ TypeName.expand a.type = a.type
  rereadReturns : ∀ name : String, IsName name.toList →
    (parse (name ++ ":" ++ e.returns)).1.map (fun r => (r.name, r.returns)) = [(name, e.returns)]
  /-- The list is left open, since a type that was cut off may leave it so, too. -/
  rereadArgs : ∀ a ∈ e.args, ∀ name arg : String, IsName name.toList → IsName arg.toList →
    (parse (name ++ "(" ++ arg ++ ":" ++ a.type)).1.map (fun r => (r.name, r.args)) =
      [(name, [{ name := arg, type := a.type }])]

/-- **The types of every entry are stable**, whatever the text of the index. -/
theorem stableTypes_parse {text : String} {e : HelpEntry} (he : e ∈ (parse text).1) : StableTypes e := by
  obtain ⟨line, hfeed, hfinish⟩ := (keyed_line text).holds e he
  have htyped := State.Typed.start.steps hfeed
  obtain ⟨-, -, -, hreturns, hargs, -⟩ := finish_spec hfinish
  have hexpand : TypeName.expand e.returns = e.returns := by
    rw [hreturns, TypeName.expand_expand]
  have hmarks : ∀ c ∈ e.returns.toList, c ∉ returnsMarks := by
    rw [hreturns]
    exact TypeName.not_mem_of_mem_expand (by decide) htyped.returns
  have htypes : ∀ a ∈ e.args, (a.type ≠ "" ∧ TypeName.expand a.type = a.type) ∧
      ∃ nest, IsOpenType a.type nest := by
    intro a ha
    rw [hargs] at ha
    obtain ⟨p, hp, rfl⟩ := List.mem_map.1 (List.mem_of_mem_filter ha)
    obtain ⟨nest, hopen⟩ := htyped.params p hp
    simp only [Signature.State.finishArg]
    exact ⟨Signature.State.finishType_spec p.type, nest, hopen.finishType⟩
  refine ⟨hexpand, fun a ha => (htypes a ha).1, fun name hname => ?_, fun a ha name arg hname harg => ?_⟩
  · rw [parse_returns hname hmarks, hexpand]
  · obtain ⟨⟨hne, hstays⟩, nest, hopen⟩ := htypes a ha
    rw [parse_paramType hname harg hopen, Signature.State.finishType_of_expand_eq hne hstays]

end CommandIndex

/-! ## Types of every origin -/

namespace TypeName

open Text (IsName)

/-- **Types are stable.** To spell out a type twice is to do it once. The result has no blanks at its
ends, starts with no parameter list and no tag, and is empty exactly if there was nothing but blanks; the
texts that stay as they are are those that are spelled out. So all types of a declaration, read from any
signature, and all types of the entries of any index stay as they are, and each is read as it stands
where it is written again. -/
theorem types_stable (s raw text : String) (file : Path) (line : Nat) :
    (expand (expand s) = expand s ∧ Text.IsTrimmed (expand s).toList ∧
        (∀ c ∈ (expand s).toList.head?, c ≠ '(' ∧ shorthand? c = none) ∧
        (expand s = "" ↔ ∀ c ∈ s.toList, Text.isBlank c = true) ∧
        (expand s = s ↔ IsSpelledOut s.toList)) ∧
      Signature.StableTypes (Signature.read raw file line).1 ∧
      ∀ e ∈ (CommandIndex.parse text).1, CommandIndex.StableTypes e := by
  have hspelled := isSpelledOut_expand s
  refine ⟨⟨expand_expand s, hspelled.trimmed, hspelled.head, expand_eq_empty_iff s, expand_eq_self_iff⟩,
    Signature.stableTypes_read raw file line, fun e he => CommandIndex.stableTypes_parse he⟩

/-- A line that ends inside the type of its only parameter, with quotes of both kinds in it. -/
def cutOffIndex : String :=
  "Each%[]( run( 'a\", b%"

theorem types_stable_cutOffIndex :
    expand (expand " %%[]") = expand " %%[]" ∧
      ∃ e, (CommandIndex.parse cutOffIndex).1 = [e] ∧ e.returns = "Int[]" ∧
        e.args = [{ name := "run", type := "Int( 'a\", b%" }] ∧
        (CommandIndex.parse ("Other" ++ ":" ++ "Int[]")).1.map (fun r => (r.name, r.returns)) =
          [("Other", "Int[]")] ∧
        (CommandIndex.parse ("Other" ++ "(" ++ "f" ++ ":" ++ "Int( 'a\", b%")).1.map
          (fun r => (r.name, r.args)) = [("Other", [{ name := "f", type := "Int( 'a\", b%" }])] := by
  obtain ⟨⟨htwice, -⟩, -, hindex⟩ :=
    types_stable " %%[]" "Function Each%(run( n%, done$()" cutOffIndex ⟨"a.bmx"⟩ 1
  have hparse : (CommandIndex.parse cutOffIndex).1.map (fun e => (e.returns, e.args)) =
      [("Int[]", [{ name := "run", type := "Int( 'a\", b%" }])] := by
    decide +kernel
  obtain ⟨e, behind, hentries, he, hbehind⟩ := List.map_eq_cons_iff.1 hparse
  rw [List.map_eq_nil_iff] at hbehind
  subst hbehind
  obtain ⟨hreturns, hargs⟩ := Prod.mk.inj he
  have hstable := hindex e (by rw [hentries]; exact List.mem_cons_self)
  have hother : IsName "Other".toList ∧ IsName "f".toList := by decide
  have hreturned := hstable.rereadReturns "Other" hother.1
  have htyped := hstable.rereadArgs { name := "run", type := "Int( 'a\", b%" }
    (by rw [hargs]; exact List.mem_cons_self) "Other" "f" hother.1 hother.2
  rw [hreturns] at hreturned
  exact ⟨htwice, e, hentries, hreturns, hargs, hreturned, htyped⟩

end TypeName

end BlitzDoc
