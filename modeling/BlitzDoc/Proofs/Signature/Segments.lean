import BlitzDoc.Proofs.Signature.Layout

/-!
# Argument lists by segments

Between commas that stand outside of strings and parentheses, an argument list is read segment by
segment, well-formed or not: no segment writes into the argument of another, and a blank one has no
argument (`argsOf_intercalate`).

The arguments are one list, and the reader has a place in it that runs ahead of its end at an empty
argument and comes back when one starts. What a character can do to the two is said once, in `Moved`.
That the place never leads into a segment that is over is the relation `Follows`, between the reader of
a whole list and one that has only the last segment; it is kept by every character.
-/

namespace BlitzDoc.Signature

open Text (IsName IsPlain)

namespace State

/-! ## What a character does to the arguments -/

/-- The argument that is being read may have changed. -/
def Written (s s' : State) : Prop :=
  s'.argIndex = s.argIndex ∧ ∃ f, s'.args = s.args.modify s.argIndex f

/-- An argument was added behind the others. -/
def Started (s s' : State) : Prop :=
  s.args.length ≤ s.argIndex ∧ s'.argIndex = s.args.length ∧ ∃ a, s'.args = s.args ++ [a]

/-- The argument was left behind. -/
def Ended (s s' : State) : Prop :=
  s'.argIndex = s.argIndex + 1 ∧ s'.args = s.args

theorem written_of_same {s s' : State} (hindex : s'.argIndex = s.argIndex) (hargs : s'.args = s.args) :
    Written s s' :=
  ⟨hindex, id, by rw [hargs, List.modify_id]⟩

/-- Where there is no argument yet, one is added behind the others. -/
theorem startArg_of_le {s : State} (h : s.args.length ≤ s.argIndex) :
    ∃ issues, s.startArg =
      { s with args := s.args ++ [{}], argIndex := s.args.length, issues } := by
  unfold State.startArg
  rw [if_pos h]
  by_cases hahead : s.args.length < s.argIndex
  · exact ⟨s.issues ++ [.emptyArgument], by simp [hahead, State.note]⟩
  · have hindex : s.argIndex = s.args.length := by omega
    refine ⟨s.issues, ?_⟩
    obtain ⟨⟩ := s
    simp_all

/-- The reader is in an argument list or behind it. -/
structure InList (s : State) : Prop where
  part : s.part ∈ .done :: argParts
  nest : s.part = .arg → s.nest = 0

/-- **What one character does in an argument list**: it may change the argument that is being read,
start one, or, as a comma outside of parentheses, end one. -/
structure Moved (s : State) (c : Char) (s' : State) : Prop where
  inList : InList s'
  args : Written s s' ∨ Started s s' ∨ (c = ',' ∧ s.inString = false ∧ s.nest = 0 ∧ Ended s s')

section
variable {s s' : State} {c : Char}

theorem Moved.stay (h : InList s) (hpart : s'.part = s.part) (hnest : s'.nest = s.nest)
    (hargs : Written s s') : Moved s c s' :=
  ⟨⟨hpart ▸ h.part, fun harg => hnest.trans (h.nest (hpart.symm.trans harg))⟩, .inl hargs⟩

theorem Moved.leave (hpart : s'.part ∈ [Part.argReturn, .argDefault, .done]) (hargs : Written s s') :
    Moved s c s' := by
  have hleft : ∀ part ∈ [Part.argReturn, .argDefault, .done],
      part ∈ Part.done :: argParts ∧ part ≠ .arg := by decide
  obtain ⟨hmem, hne⟩ := hleft s'.part hpart
  exact ⟨⟨hmem, fun harg => absurd harg hne⟩, .inl hargs⟩

theorem moved_nextArg (hc : c = ',') (hstring : s.inString = false) (hnest : s.nest = 0) :
    Moved s c s.nextArg :=
  ⟨⟨by simp [nextArg, argParts], fun _ => hnest⟩, .inr (.inr ⟨hc, hstring, hnest, rfl, rfl⟩)⟩

theorem moved_stop : Moved s c s.stop :=
  .leave (by simp [stop]) (written_of_same rfl rfl)

theorem moved_openDefault : Moved s c s.openDefault :=
  .leave (by simp [openDefault]) ⟨rfl, _, rfl⟩

theorem moved_startArg (h : InList s) (f : Argument → Argument) :
    Moved s c (s.startArg.modifyArg f) := by
  by_cases hle : s.args.length ≤ s.argIndex
  · obtain ⟨issues, hstart⟩ := startArg_of_le hle
    rw [hstart]
    exact ⟨⟨h.part, h.nest⟩, .inr (.inl ⟨hle, rfl, f {}, modify_last s.args {} f⟩)⟩
  · rw [startArg, if_neg hle]
    exact .stay h rfl rfl ⟨rfl, f, rfl⟩

theorem Moved.ite {p : Prop} [Decidable p] {t e : State} (ht : p → Moved s c t) (he : ¬p → Moved s c e) :
    Moved s c (if p then t else e) :=
  iteInduction ht he

theorem moved_stepArg (h : InList s) (hpart : s.part = .arg) (hstring : s.inString = false) :
    Moved s c (s.stepArg c) := by
  have hsame : Moved s c s := .stay h rfl rfl (written_of_same rfl rfl)
  have hnote : ∀ issue, Moved s c (s.note issue) :=
    fun _ => .stay h rfl rfl (written_of_same rfl rfl)
  have htype : Moved s c (s.pushArgType c) := .stay h rfl rfl ⟨rfl, _, rfl⟩
  refine .ite (fun _ => hsame) fun _ => .ite (fun hc => ?_) fun _ => .ite (fun _ => moved_stop) fun _ =>
    .ite (fun _ => .ite (fun _ => ?_) fun _ => hnote _) fun _ =>
    .ite (fun _ => .ite (fun _ => moved_openDefault) fun _ => hnote _) fun _ =>
    .ite (fun _ => .ite (fun _ => ?_) fun _ => hnote _) fun _ =>
    .ite (fun _ => .ite (fun _ => htype) fun _ => hnote _) fun _ =>
    .ite (fun _ => htype) fun _ => moved_startArg h _
  · exact moved_nextArg hc hstring (h.nest hpart)
  · exact .leave (by simp) (written_of_same rfl rfl)
  · exact .leave (by simp) ⟨rfl, _, rfl⟩

theorem moved_trackNest (hpart : s.part ∈ [Part.argReturn, .argDefault]) (f : Argument → Argument) :
    Moved s c ((s.trackNest c).modifyArg f) := by
  rw [trackNest_eq]
  refine .leave ?_ ⟨rfl, f, rfl⟩
  simp only [List.mem_cons, List.not_mem_nil, or_false] at hpart
  rcases hpart with hpart | hpart <;> simp [modifyArg, hpart]

theorem moved_stepArgReturn (h : InList s) (hpart : s.part = .argReturn) (hstring : s.inString = false) :
    Moved s c (s.stepArgReturn c) := by
  refine .ite (fun _ => .stay h rfl rfl (written_of_same rfl rfl)) fun _ => .ite (fun hc => ?_) fun _ =>
    .ite (fun _ => moved_stop) fun _ => .ite (fun _ => moved_openDefault) fun _ =>
    moved_trackNest (by simp [hpart]) _
  simp only [Bool.and_eq_true, decide_eq_true_eq] at hc
  exact moved_nextArg hc.1 hstring hc.2

theorem moved_stepArgDefault (h : InList s) (hpart : s.part = .argDefault)
    (hstring : s.inString = false) : Moved s c (s.stepArgDefault c) := by
  refine .ite (fun _ => .stay h rfl rfl (written_of_same rfl rfl)) fun _ => .ite (fun hc => ?_) fun _ =>
    .ite (fun _ => moved_stop) fun _ => moved_trackNest (by simp [hpart]) _
  simp only [Bool.and_eq_true, decide_eq_true_eq] at hc
  exact moved_nextArg hc.1 hstring hc.2

theorem moved_pushLiteral (h : InList s) (quoted : Bool) :
    Moved s c ({ s with inString := quoted }.pushLiteral c) := by
  have hpart := h.part
  simp only [argParts, List.mem_cons, List.not_mem_nil, or_false] at hpart
  rcases hpart with hpart | hpart | hpart | hpart <;> simp only [pushLiteral, hpart]
  · exact .stay h hpart.symm rfl (written_of_same rfl rfl)
  · exact .stay h hpart.symm rfl (written_of_same rfl rfl)
  · exact .stay h hpart.symm rfl (written_of_same rfl rfl)
  · exact .stay h hpart.symm rfl ⟨rfl, _, rfl⟩

/-- The reader moves so with every character. -/
theorem moved_step (h : InList s) (c : Char) : Moved s c (s.step c) := by
  by_cases hdone : s.part = .done
  · rw [step_done hdone]
    exact .stay h rfl rfl (written_of_same rfl rfl)
  by_cases hliteral : c = '"' ∨ s.inString = true
  · obtain ⟨quoted, hstep⟩ := step_literal hdone hliteral
    rw [hstep]
    exact moved_pushLiteral h quoted
  · simp only [not_or, Bool.not_eq_true] at hliteral
    obtain ⟨hquote, hstring⟩ := hliteral
    have hpart := h.part
    rw [step_plain hquote hstring]
    simp only [argParts, List.mem_cons, List.not_mem_nil, or_false, hdone, false_or] at hpart
    rcases hpart with hpart | hpart | hpart
    · simp only [hpart]
      exact moved_stepArg h hpart hstring
    · simp only [hpart]
      exact moved_stepArgReturn h hpart hstring
    · simp only [hpart]
      exact moved_stepArgDefault h hpart hstring

theorem inList_steps (h : InList s) (cs : List Char) : InList (s.steps cs) := by
  induction cs generalizing s with
  | nil => exact h
  | cons c cs ih => exact ih (moved_step h c).inList

end

/-! ## Two readers side by side -/

/-- The first reader has done with some arguments that the second never saw, and otherwise stands where
the second stands: in an argument of its own, or in front of one. -/
structure Follows (done : List Argument) (r s : State) : Prop where
  part : r.part = s.part
  inString : r.inString = s.inString
  nest : r.nest = s.nest
  args : r.args = done ++ s.args
  /-- Neither has an argument to write to, or both write to their last one. -/
  index : (s.args.length ≤ s.argIndex ∧ r.args.length ≤ r.argIndex) ∨
    (s.argIndex + 1 = s.args.length ∧ r.argIndex = done.length + s.argIndex)

section
variable {done : List Argument} {r s : State}

/-- Nothing but the arguments and the place in them has to be compared anew. -/
theorem Follows.move (h : Follows done r s) {r' s' : State} (hr : r'.args = r.args ∧ r'.argIndex = r.argIndex)
    (hs : s'.args = s.args ∧ s'.argIndex = s.argIndex) (hpart : r'.part = s'.part)
    (hstring : r'.inString = s'.inString) (hnest : r'.nest = s'.nest) : Follows done r' s' := by
  refine ⟨hpart, hstring, hnest, ?_, ?_⟩
  · rw [hr.1, hs.1, h.args]
  · rw [hr.1, hr.2, hs.1, hs.2]
    exact h.index

theorem Follows.inList (h : Follows done r s) (hs : InList s) : InList r :=
  ⟨h.part ▸ hs.part, fun harg => h.nest.trans (hs.nest (h.part.symm.trans harg))⟩

theorem Follows.currentArg? (h : Follows done r s) : r.currentArg? = s.currentArg? := by
  unfold State.currentArg?
  rcases h.index with ⟨hs, hr⟩ | ⟨-, hr⟩
  · rw [List.getElem?_eq_none hs, List.getElem?_eq_none hr]
  · rw [h.args, hr, List.getElem?_append_right (by omega), Nat.add_sub_cancel_left]

theorem Follows.modifyArg (h : Follows done r s) (f : Argument → Argument) :
    Follows done (r.modifyArg f) (s.modifyArg f) := by
  refine ⟨h.part, h.inString, h.nest, ?_, by simpa [State.modifyArg] using h.index⟩
  unfold State.modifyArg
  rcases h.index with ⟨hs, hr⟩ | ⟨-, hr⟩
  · rw [List.modify_eq_self hs, List.modify_eq_self hr, h.args]
  · rw [h.args, hr, modify_append]

theorem Follows.startArg (h : Follows done r s) : Follows done r.startArg s.startArg := by
  rcases h.index with ⟨hs, hr⟩ | ⟨hs, hr⟩
  · obtain ⟨issues, hstart⟩ := startArg_of_le hs
    obtain ⟨issues', hstart'⟩ := startArg_of_le hr
    rw [hstart, hstart']
    refine ⟨h.part, h.inString, h.nest, by simp [h.args], .inr ⟨by simp, by simp [h.args]⟩⟩
  · unfold State.startArg
    have hr' : ¬r.args.length ≤ r.argIndex := by
      rw [h.args, hr, List.length_append]
      omega
    have hs' : ¬s.args.length ≤ s.argIndex := by omega
    rwa [if_neg hr', if_neg hs']

theorem Follows.nextArg (h : Follows done r s) : Follows done r.nextArg s.nextArg := by
  refine ⟨rfl, h.inString, h.nest, h.args, ?_⟩
  have hargs := congrArg List.length h.args
  simp only [List.length_append] at hargs
  simp only [State.nextArg]
  rcases h.index with ⟨hs, hr⟩ | ⟨hs, hr⟩ <;> exact .inl (by omega)

theorem Follows.trackNest (h : Follows done r s) (c : Char) :
    Follows done (r.trackNest c) (s.trackNest c) := by
  rw [trackNest_eq, trackNest_eq, h.nest]
  exact h.move ⟨rfl, rfl⟩ ⟨rfl, rfl⟩ h.part h.inString rfl

theorem Follows.note (h : Follows done r s) (i : Issue) : Follows done (r.note i) (s.note i) :=
  h.move ⟨rfl, rfl⟩ ⟨rfl, rfl⟩ h.part h.inString h.nest

theorem Follows.stop (h : Follows done r s) : Follows done r.stop s.stop :=
  h.move ⟨rfl, rfl⟩ ⟨rfl, rfl⟩ rfl h.inString h.nest

theorem Follows.openDefault (h : Follows done r s) : Follows done r.openDefault s.openDefault :=
  (h.modifyArg _).move ⟨rfl, rfl⟩ ⟨rfl, rfl⟩ rfl h.inString h.nest

theorem Follows.ite {p : Prop} [Decidable p] {r₁ r₂ s₁ s₂ : State} (h₁ : Follows done r₁ s₁)
    (h₂ : Follows done r₂ s₂) : Follows done (if p then r₁ else r₂) (if p then s₁ else s₂) := by
  by_cases h : p
  · rwa [if_pos h, if_pos h]
  · rwa [if_neg h, if_neg h]

theorem Follows.stepArg (h : Follows done r s) (c : Char) :
    Follows done (r.stepArg c) (s.stepArg c) := by
  simp only [State.stepArg, h.currentArg?]
  have htyped : Follows done { r with part := .argReturn } { s with part := .argReturn } :=
    h.move ⟨rfl, rfl⟩ ⟨rfl, rfl⟩ rfl h.inString h.nest
  have hcall : Follows done { r.pushArgType c with nest := 1, part := .argReturn }
      { s.pushArgType c with nest := 1, part := .argReturn } :=
    (h.modifyArg _).move ⟨rfl, rfl⟩ ⟨rfl, rfl⟩ rfl h.inString rfl
  exact h.ite <| h.nextArg.ite <| h.stop.ite <| (htyped.ite (h.note _)).ite <|
    (h.openDefault.ite (h.note _)).ite <| (hcall.ite (h.note _)).ite <|
    ((h.modifyArg _).ite (h.note _)).ite <| (h.modifyArg _).ite <| h.startArg.modifyArg _

theorem Follows.stepArgReturn (h : Follows done r s) (c : Char) :
    Follows done (r.stepArgReturn c) (s.stepArgReturn c) := by
  simp only [State.stepArgReturn, h.nest]
  exact h.ite <| h.nextArg.ite <| h.stop.ite <| h.openDefault.ite <| (h.trackNest c).modifyArg _

theorem Follows.stepArgDefault (h : Follows done r s) (c : Char) :
    Follows done (r.stepArgDefault c) (s.stepArgDefault c) := by
  simp only [State.stepArgDefault, h.nest]
  exact h.ite <| h.nextArg.ite <| h.stop.ite <| (h.trackNest c).modifyArg _

theorem Follows.pushLiteral (h : Follows done r s) (hpart : s.part ∈ .done :: argParts) (c : Char) :
    Follows done (r.pushLiteral c) (s.pushLiteral c) := by
  unfold State.pushLiteral
  rw [h.part]
  simp only [argParts, List.mem_cons, List.not_mem_nil, or_false] at hpart
  rcases hpart with hpart | hpart | hpart | hpart <;> simp only [hpart]
  · exact h
  · exact h
  · exact h
  · exact h.modifyArg _

/-- **Side by side for one character.** -/
theorem Follows.step (h : Follows done r s) (hpart : s.part ∈ .done :: argParts) (c : Char) :
    Follows done (r.step c) (s.step c) := by
  unfold State.step
  rw [h.part, h.inString]
  by_cases hdone : s.part = .done
  · simpa [hdone] using h
  · by_cases hquote : c = '"'
    · have htoggled : Follows done { r with part := s.part, inString := !s.inString }
          { s with inString := !s.inString } :=
        h.move ⟨rfl, rfl⟩ ⟨rfl, rfl⟩ rfl rfl h.nest
      simp only [hdone, hquote, if_true, if_false]
      exact htoggled.pushLiteral hpart '"'
    · by_cases hstring : s.inString = true
      · simp only [hdone, hquote, hstring, if_true, if_false]
        exact h.pushLiteral hpart c
      · simp only [hdone, hquote, hstring, if_false]
        simp only [argParts, List.mem_cons, List.not_mem_nil, or_false, hdone, false_or] at hpart
        rcases hpart with hpart | hpart | hpart <;> simp only [hpart]
        · exact h.stepArg c
        · exact h.stepArgReturn c
        · exact h.stepArgDefault c

end

/-! ## Segments -/

theorem Follows.steps {done : List Argument} {r s : State} (h : Follows done r s) (hs : InList s)
    (cs : List Char) : Follows done (r.steps cs) (s.steps cs) := by
  induction cs generalizing r s with
  | nil => exact h
  | cons c cs ih => exact ih (h.step hs.part c) (moved_step hs c).inList

/-- The arguments never get fewer. -/
theorem length_args_le_steps {s : State} (h : InList s) (cs : List Char) :
    s.args.length ≤ (s.steps cs).args.length := by
  induction cs generalizing s with
  | nil => exact Nat.le_refl _
  | cons c cs ih =>
    have hmoved := moved_step h c
    have hrest := ih hmoved.inList
    rw [steps_cons]
    rcases hmoved.args with ⟨-, f, hargs⟩ | ⟨-, -, a, hargs⟩ | ⟨-, -, -, -, hargs⟩
    · simp only [hargs, List.length_modify] at hrest
      exact hrest
    · simp only [hargs, List.length_append, List.length_singleton] at hrest
      omega
    · simp only [hargs] at hrest
      exact hrest

/-- Without a comma that ends an argument, there is one at most. -/
theorem length_args_le_one {s : State} (h : InList s) (hindex : s.argIndex = 0)
    (hlength : s.args.length ≤ 1) {cs : List Char}
    (hcomma : ∀ before after, cs = before ++ ',' :: after →
      (s.steps before).inString = true ∨ (s.steps before).nest ≠ 0) :
    (s.steps cs).args.length ≤ 1 := by
  induction cs generalizing s with
  | nil => exact hlength
  | cons c cs ih =>
    have hmoved := moved_step h c
    have hrest : ∀ before after, cs = before ++ ',' :: after →
        ((s.step c).steps before).inString = true ∨ ((s.step c).steps before).nest ≠ 0 := by
      intro before after hcs
      exact hcomma (c :: before) after (by rw [hcs, List.cons_append])
    rw [steps_cons]
    rcases hmoved.args with ⟨hsame, f, hargs⟩ | ⟨hle, hnew, a, hargs⟩ | ⟨rfl, hstring, hnest, -⟩
    · exact ih hmoved.inList (hsame.trans hindex) (by simpa [hargs] using hlength) hrest
    · have hnone : s.args.length = 0 := by omega
      exact ih hmoved.inList (hnew.trans hnone) (by simp [hargs, hnone]) hrest
    · have hends := hcomma [] cs rfl
      simp [steps_nil, hstring, hnest] at hends

/-- The first character of a name starts an argument. -/
theorem length_args_of_name {s : State} (h : InList s) (hpart : s.part = .arg)
    (hstring : s.inString = false) (hargs : s.args.length ≤ s.argIndex) {cs : List Char} {c : Char}
    (hhead : (cs.dropWhile isGap).head? = some c) (hc : TypeName.isNameChar c = true) :
    s.args.length < (s.steps cs).args.length := by
  obtain ⟨rest, hrest⟩ : ∃ rest, cs.dropWhile isGap = c :: rest := by
    cases hcs : cs.dropWhile isGap with
    | nil => simp [hcs] at hhead
    | cons d rest => exact ⟨rest, by simp_all⟩
  have hplain := Text.isPlain_of_isNameChar hc
  obtain ⟨issues, hstart⟩ := startArg_of_le hargs
  have hstep : (s.step c).args.length = s.args.length + 1 := by
    rw [step_plain (not_mark hplain).2.1 hstring, hpart]
    simp only [stepArg_plain s hplain, hstart]
    simp [modifyArg]
  have hgap : s.steps (cs.takeWhile isGap) = s :=
    steps_gap hpart hstring fun d hd => List.mem_takeWhile_imp hd
  have hcs : cs.takeWhile isGap ++ c :: rest = cs := hrest ▸ List.takeWhile_append_dropWhile
  have hsteps : s.steps (cs.takeWhile isGap ++ c :: rest) = (s.step c).steps rest := by
    rw [steps_append, hgap, steps_cons]
  have hle := length_args_le_steps (moved_step h c).inList rest
  rw [← hcs, hsteps]
  omega

/-- The reader is inside its argument list, outside of strings and of inner parentheses. -/
structure IsOpen (s : State) : Prop where
  part : s.part ≠ .done
  outside : s.inString = false
  nest : s.nest = 0

/-- **Behind a segment**, a comma leads in front of the next one and a parenthesis out of the list. -/
theorem IsOpen.step {s : State} (hopen : IsOpen s) (h : InList s) :
    s.step ',' = s.nextArg ∧ s.step ')' = s.stop := by
  have hpart := h.part
  simp only [argParts, List.mem_cons, List.not_mem_nil, or_false, hopen.part, false_or] at hpart
  rw [step_plain (by decide) hopen.outside, step_plain (by decide) hopen.outside]
  rcases hpart with hpart | hpart | hpart <;>
    simp [hpart, stepArg, stepArgReturn, stepArgDefault, hopen.nest]

theorem inList_between (s : State) : InList (s.between []) :=
  ⟨by simp [between, argParts], fun _ => rfl⟩

/-- **Segments with commas between them** are read one behind the other, each as if it stood alone. -/
theorem steps_segments {base : State} {segments : List (List Char)}
    (hsegments : ∀ segment ∈ segments, IsOpen ((base.between []).steps segment))
    {done : List Argument} {r : State} (h : Follows done r (base.between [])) :
    (r.steps ([','].intercalate segments ++ [')'])).args =
      done ++ segments.flatMap fun segment => ((base.between []).steps segment).args := by
  have hbase := inList_between base
  induction segments generalizing done r with
  | nil =>
    have hopen : IsOpen r := ⟨by simp [h.part, between], h.inString, h.nest⟩
    have hstop := (hopen.step (h.inList hbase)).2
    simp only [List.intercalate_nil, List.nil_append, steps_cons, steps_nil, hstop, List.flatMap_nil]
    exact h.args
  | cons segment segments ih =>
    simp only [List.forall_mem_cons] at hsegments
    have hread := h.steps hbase segment
    have hopen : IsOpen (r.steps segment) :=
      ⟨hread.part ▸ hsegments.1.part, hread.inString.trans hsegments.1.outside,
        hread.nest.trans hsegments.1.nest⟩
    obtain ⟨hcomma, hstop⟩ := hopen.step (hread.inList (inList_steps hbase segment))
    cases segments with
    | nil =>
      rw [List.intercalate_singleton, steps_append, steps_cons, hstop, List.flatMap_singleton]
      exact hread.args
    | cons next segments =>
      -- behind the comma the reader is in front of its next argument, as at the start
      have hnext : Follows (done ++ ((base.between []).steps segment).args)
          (r.steps segment).nextArg (base.between []) := by
        refine ⟨rfl, hopen.outside, hopen.nest, ?_, .inl ⟨Nat.le_refl _, ?_⟩⟩
        · exact hread.args.trans (List.append_nil _).symm
        · have hargs := congrArg List.length hread.args
          simp only [List.length_append] at hargs
          simp only [nextArg]
          rcases hread.index with ⟨-, hle⟩ | ⟨hlast, hindex⟩ <;> omega
      rw [List.intercalate_cons_cons, List.append_assoc, List.append_assoc, List.singleton_append,
        steps_append, steps_cons, hcomma, ih hsegments.2 hnext]
      simp

end State

/-! ## Argument lists of a function -/

/-- The signature of a function up to some text in its argument list. -/
def call (name text : List Char) : List Char :=
  "Function ".toList ++ (name ++ '(' :: text)

/-- The arguments of a function with this argument list. -/
def argsOf (file : Path) (line : Nat) (name list : List Char) : List Argument :=
  (read (String.ofList (call name (list ++ [')']))) file line).1.args

/-- The text is a segment of an argument list: behind it the list is still open, and neither a string
nor a parenthesis in it is. -/
def IsSegment (name segment : List Char) : Prop :=
  State.IsOpen (State.steps {} (call name segment))

/-- None of the commas in the segment ends an argument: each is in a string or in parentheses. -/
def IsUncut (name segment : List Char) : Prop :=
  ∀ i < segment.length, segment[i]? = some ',' →
    (State.steps {} (call name (segment.take i))).inString = true ∨
      (State.steps {} (call name (segment.take i))).nest ≠ 0

instance (s : State) : Decidable (State.IsOpen s) :=
  decidable_of_iff (s.part ≠ .done ∧ s.inString = false ∧ s.nest = 0)
    ⟨fun ⟨hpart, houtside, hnest⟩ => ⟨hpart, houtside, hnest⟩, fun h => ⟨h.part, h.outside, h.nest⟩⟩

instance (name segment : List Char) : Decidable (IsSegment name segment) :=
  inferInstanceAs (Decidable (State.IsOpen _))

instance (name segment : List Char) : Decidable (IsUncut name segment) :=
  inferInstanceAs (Decidable (∀ i < segment.length, _))

/-- The reader in front of the arguments of a function. -/
def atArgs (name : List Char) : State :=
  ({ State.named .function (String.ofList name) with inArgs := true } : State).between []

theorem inList_atArgs (name : List Char) : State.InList (atArgs name) :=
  State.inList_between _

section
variable {name : List Char} (hname : IsName name)
include hname

theorem steps_call (text : List Char) : State.steps {} (call name text) = (atArgs name).steps text := by
  have hkeyword : State.steps {} "Function ".toList = State.keyed .function := by decide
  have hopen : (State.named .function (String.ofList name)).step '(' = atArgs name := rfl
  calc State.steps {} (call name text)
    _ = (State.steps {} "Function ".toList).steps (name ++ '(' :: text) := State.steps_append ..
    _ = (State.named .function (String.ofList name)).steps ('(' :: text) := by
      rw [hkeyword, State.steps_append, State.steps_declName .function hname]
    _ = (atArgs name).steps text := by rw [State.steps_cons, hopen]

theorem argsOf_eq (file : Path) (line : Nat) (list : List Char) :
    argsOf file line name list =
      ((atArgs name).steps (list ++ [')'])).args.map State.finishArg := by
  rw [argsOf, args_read, String.toList_ofList, steps_call hname]

/-- The parenthesis behind a segment changes nothing about its arguments. -/
theorem argsOf_segment (file : Path) (line : Nat) {segment : List Char}
    (hsegment : IsSegment name segment) :
    argsOf file line name segment = ((atArgs name).steps segment).args.map State.finishArg := by
  rw [IsSegment, steps_call hname] at hsegment
  have hstop := (hsegment.step (State.inList_steps (inList_atArgs name) segment)).2
  rw [argsOf_eq hname, State.steps_append, State.steps_cons, hstop]
  rfl

theorem length_argsOf_le_one (file : Path) (line : Nat) {segment : List Char}
    (hsegment : IsSegment name segment) (huncut : IsUncut name segment) :
    (argsOf file line name segment).length ≤ 1 := by
  rw [argsOf_segment hname file line hsegment, List.length_map]
  refine State.length_args_le_one (inList_atArgs name) rfl (Nat.zero_le _) fun before after hcut => ?_
  have htake : segment.take before.length = before := by simp [hcut]
  have hcomma := huncut before.length (by simp [hcut]) (by simp [hcut])
  rwa [htake, steps_call hname] at hcomma

theorem length_argsOf_pos (file : Path) (line : Nat) {segment : List Char}
    (hsegment : IsSegment name segment) {c : Char}
    (hhead : (segment.dropWhile isGap).head? = some c) (hc : TypeName.isNameChar c = true) :
    0 < (argsOf file line name segment).length := by
  rw [argsOf_segment hname file line hsegment, List.length_map]
  exact State.length_args_of_name (inList_atArgs name) rfl rfl (Nat.zero_le _) hhead hc

end

/-- **Argument lists are read segment by segment.** With commas between them, segments have the
arguments that each has alone, one behind the other. A segment that no comma cuts has one at most, and
it has one if it begins with a name. -/
theorem argsOf_intercalate {name : List Char} (hname : IsName name) {segments : List (List Char)}
    (hsegments : ∀ segment ∈ segments, IsSegment name segment) (file : Path) (line : Nat) :
    argsOf file line name ([','].intercalate segments) = segments.flatMap (argsOf file line name) ∧
    ∀ segment ∈ segments, IsUncut name segment →
      (argsOf file line name segment).length ≤ 1 ∧
      ((∃ c, (segment.dropWhile isGap).head? = some c ∧ TypeName.isNameChar c = true) →
        (argsOf file line name segment).length = 1) := by
  constructor
  · have halone : ∀ segment ∈ segments, State.IsOpen ((atArgs name).steps segment) := by
      intro segment hsegment
      have hopen := hsegments segment hsegment
      rwa [IsSegment, steps_call hname] at hopen
    have hstart : State.Follows [] (atArgs name) (atArgs name) :=
      ⟨rfl, rfl, rfl, rfl, .inl ⟨Nat.le_refl _, Nat.le_refl _⟩⟩
    have hread := State.steps_segments halone hstart
    rw [argsOf_eq hname, hread, List.nil_append, List.map_flatMap]
    refine congrArg List.flatten (List.map_congr_left fun segment hsegment => ?_)
    exact (argsOf_segment hname file line (hsegments segment hsegment)).symm
  · intro segment hmem huncut
    have hsegment := hsegments segment hmem
    have hone := length_argsOf_le_one hname file line hsegment huncut
    refine ⟨hone, fun ⟨c, hhead, hc⟩ => ?_⟩
    have hpos := length_argsOf_pos hname file line hsegment hhead hc
    omega

/-- Segments with delimiters inside of them, a blank one, one that is no argument, and one that more
than one argument is in. -/
def sampleSegments : List (List Char) :=
  ["a:Int(x:Int,y:Int)".toList, " ".toList, " $ :b".toList, "\tc$=\",)\"".toList, "d,,e=".toList]

theorem argsOf_sampleSegments :
    (∀ segment ∈ sampleSegments, IsSegment "F".toList segment) ∧
    argsOf ⟨"f.bmx"⟩ 1 "F".toList ([','].intercalate sampleSegments) =
      sampleSegments.flatMap (argsOf ⟨"f.bmx"⟩ 1 "F".toList) ∧
    IsUncut "F".toList "\tc$=\",)\"".toList ∧
    (argsOf ⟨"f.bmx"⟩ 1 "F".toList "\tc$=\",)\"".toList).length = 1 ∧
    (argsOf ⟨"f.bmx"⟩ 1 "F".toList ([','].intercalate sampleSegments)).map Argument.name =
      ["a", "b", "c", "d", "e"] := by
  have hsegments : ∀ segment ∈ sampleSegments, IsSegment "F".toList segment := by decide +kernel
  obtain ⟨hlist, hsingle⟩ := argsOf_intercalate (by decide +kernel) hsegments ⟨"f.bmx"⟩ 1
  have huncut : IsUncut "F".toList "\tc$=\",)\"".toList := by decide +kernel
  have hone := (hsingle _ (by decide +kernel) huncut).2 ⟨'c', by decide +kernel, by decide +kernel⟩
  exact ⟨hsegments, hlist, huncut, hone, by decide +kernel⟩

end BlitzDoc.Signature
