import BlitzDoc.Proofs.Text.Lines
import BlitzDoc.TypeName

/-!
# Names and balanced texts

The texts that signatures are made of. A name is a run of letters, numerals and underscores, so that
none of the marks of a signature stands in it (`isPlain_of_isNameChar`). A balanced text closes its
parentheses and strings (`isBalanced`); what a reader does with one depends on no more than how deep
it stands and whether it is inside a string, which is what `balanced_cases` splits on. Of a text that
leaves parentheses open, `depthBehind?` says how many.
-/

namespace BlitzDoc.Text

/-! ## Names -/

/-- The characters of a text are checked one by one, not among all characters. -/
instance (priority := high) decidableForallMem {p : Char → Prop} [DecidablePred p] (cs : List Char) :
    Decidable (∀ c ∈ cs, p c) :=
  List.decidableBAll p cs

/-- As `decidableForallMem`. -/
instance (priority := high) decidableExistsMem {p : Char → Prop} [DecidablePred p] (cs : List Char) :
    Decidable (∃ c ∈ cs, p c) :=
  List.decidableBEx p cs

/-- The marks of signatures: delimiters, quotes, brackets and type tags. -/
def marks : List Char :=
  ['\'', '"', '(', ')', '[', ']', ',', ':', '=', '|', '%', '#', '!', '$']

/-- The character is neither a blank nor a mark. -/
def IsPlain (c : Char) : Prop :=
  isBlank c = false ∧ c ∉ marks

theorem IsPlain.ne {c d : Char} (hc : IsPlain c) (hd : isBlank d = true ∨ d ∈ marks) : c ≠ d := by
  rintro rfl
  rcases hd with hd | hd
  · rw [hc.1] at hd
    cases hd
  · exact hc.2 hd

/-- A code point inside one of the ranges is listed among their members. -/
theorem mem_of_inRanges {ranges : List (Nat × Nat)} {n : Nat} (h : inRanges ranges n = true) :
    ∃ r ∈ ranges, r.1 ≤ n ∧ n ≤ r.2 := by
  induction ranges with
  | nil => simp [inRanges] at h
  | cons r rest ih =>
    obtain ⟨first, last⟩ := r
    simp only [inRanges] at h
    by_cases hlow : n < first
    · simp [hlow] at h
    · simp only [hlow, if_false, Bool.or_eq_true, decide_eq_true_eq] at h
      rcases h with h | h
      · exact ⟨(first, last), by simp, by omega, h⟩
      · obtain ⟨r, hr, hin⟩ := ih h
        exact ⟨r, List.mem_cons_of_mem _ hr, hin⟩

/-- What holds of each of the blanks holds of every character that is one. -/
theorem forall_isBlank {P : Char → Prop}
    (h : ∀ r ∈ blankRanges, ∀ k ∈ List.range (r.2 + 1 - r.1), P (Char.ofNat (r.1 + k))) {c : Char}
    (hc : isBlank c = true) : P c := by
  obtain ⟨r, hr, hlow, hhigh⟩ := mem_of_inRanges hc
  have hp := h r hr (c.toNat - r.1) (by simp; omega)
  rwa [Nat.add_sub_cancel' hlow, Char.ofNat_toNat] at hp

/-- Blanks are no letters, numerals or underscores. -/
theorem isBlank_of_isNameChar {c : Char} (h : TypeName.isNameChar c = true) : isBlank c = false := by
  rw [Bool.eq_false_iff]
  intro hblank
  have hnone : TypeName.isNameChar c = false :=
    forall_isBlank (P := fun c => TypeName.isNameChar c = false) (by decide +kernel) hblank
  rw [h] at hnone
  cases hnone

theorem isPlain_of_isNameChar {c : Char} (h : TypeName.isNameChar c = true) : IsPlain c := by
  refine ⟨isBlank_of_isNameChar h, ?_⟩
  intro hmark
  have hnone : ∀ d ∈ marks, TypeName.isNameChar d = false := by decide
  rw [hnone c hmark] at h
  cases h

/-- The text is a name. -/
def IsName (cs : List Char) : Prop :=
  cs ≠ [] ∧ ∀ c ∈ cs, TypeName.isNameChar c = true

instance (cs : List Char) : Decidable (IsName cs) :=
  inferInstanceAs (Decidable (_ ∧ _))

theorem isTrimmed_of_forall {cs : List Char} (h : ∀ c ∈ cs, isBlank c = false) : IsTrimmed cs := by
  have hdrop : ∀ ds : List Char, (∀ c ∈ ds, isBlank c = false) → ds.dropWhile isBlank = ds := by
    intro ds hds
    cases ds with
    | nil => rfl
    | cons d ds => simp [hds d List.mem_cons_self]
  refine ⟨hdrop cs h, ?_⟩
  rw [dropBlanksEnd, hdrop cs.reverse (fun c hc => h c (List.mem_reverse.1 hc)), List.reverse_reverse]

theorem IsName.isTrimmed {cs : List Char} (h : IsName cs) : IsTrimmed cs :=
  isTrimmed_of_forall fun c hc => isBlank_of_isNameChar (h.2 c hc)

/-! ## Balanced texts -/

/-- The number of open parentheses behind a character. -/
def depthAfter (depth : Nat) (c : Char) : Nat :=
  if c = '(' then depth + 1 else if c = ')' then depth - 1 else depth

/-- The text closes its strings and parentheses, when it starts with `depth` of these open and, if
`quoted`, inside a string. Outside strings no comment starts, and outside parentheses no character
that is `barred` stands. -/
def isBalanced (barred : Char → Bool) : (depth : Nat) → (quoted : Bool) → List Char → Bool
  | depth, quoted, [] => depth == 0 && !quoted
  | depth, quoted, c :: cs =>
    if c = '"' then isBalanced barred depth (!quoted) cs
    else if quoted then isBalanced barred depth true cs
    else
      c != '\'' && (depth != 0 || (c != ')' && !barred c))
        && isBalanced barred (depthAfter depth c) false cs

/-- As `isBalanced`, with any characters that are `banned` outside strings in the place of comments. -/
def isNested (banned barred : Char → Bool) : (depth : Nat) → (quoted : Bool) → List Char → Bool
  | depth, quoted, [] => depth == 0 && !quoted
  | depth, quoted, c :: cs =>
    if c = '"' then isNested banned barred depth (!quoted) cs
    else if quoted then isNested banned barred depth true cs
    else
      !banned c && (depth != 0 || (c != ')' && !barred c))
        && isNested banned barred (depthAfter depth c) false cs

theorem isBalanced_eq_isNested (barred : Char → Bool) (depth : Nat) (quoted : Bool) (cs : List Char) :
    isBalanced barred depth quoted cs = isNested (· == '\'') barred depth quoted cs := by
  induction cs generalizing depth quoted with
  | nil => rfl
  | cons c cs ih => simp only [isBalanced, isNested, ih, bne]

section
variable {banned barred : Char → Bool} {depth : Nat} {quoted : Bool} {c : Char} {cs : List Char}

/-- What the next character of a nested text can be. -/
theorem nested_cases (h : isNested banned barred depth quoted (c :: cs) = true) :
    (c = '"' ∧ isNested banned barred depth (!quoted) cs = true) ∨
      (c ≠ '"' ∧ quoted = true ∧ isNested banned barred depth true cs = true) ∨
      (c ≠ '"' ∧ quoted = false ∧ banned c = false ∧ (depth = 0 → c ≠ ')' ∧ barred c = false) ∧
        isNested banned barred (depthAfter depth c) false cs = true) := by
  rw [isNested] at h
  by_cases hquote : c = '"'
  · simp only [hquote, if_true] at h
    exact Or.inl ⟨hquote, h⟩
  · cases quoted with
    | true =>
      simp only [hquote, if_false, if_true] at h
      exact Or.inr (Or.inl ⟨hquote, rfl, h⟩)
    | false =>
      simp only [hquote, if_false, Bool.false_eq_true, Bool.and_eq_true, Bool.or_eq_true,
        bne_iff_ne, ne_eq, Bool.not_eq_true'] at h
      obtain ⟨⟨hbanned, hdepth⟩, hrest⟩ := h
      refine Or.inr (Or.inr ⟨hquote, rfl, hbanned, ?_, hrest⟩)
      intro hzero
      exact hdepth.resolve_left (fun hne => hne hzero)

/-- What the next character of a balanced text can be. -/
theorem balanced_cases (h : isBalanced barred depth quoted (c :: cs) = true) :
    (c = '"' ∧ isBalanced barred depth (!quoted) cs = true) ∨
      (c ≠ '"' ∧ quoted = true ∧ isBalanced barred depth true cs = true) ∨
      (c ≠ '"' ∧ quoted = false ∧ c ≠ '\'' ∧ (depth = 0 → c ≠ ')' ∧ barred c = false) ∧
        isBalanced barred (depthAfter depth c) false cs = true) := by
  simp only [isBalanced_eq_isNested] at h ⊢
  simpa only [beq_eq_false_iff_ne] using nested_cases h

theorem nested_end (h : isNested banned barred depth quoted [] = true) :
    depth = 0 ∧ quoted = false := by
  simpa [isNested] using h

theorem balanced_end (h : isBalanced barred depth quoted [] = true) : depth = 0 ∧ quoted = false := by
  simpa [isBalanced] using h

/-- A nested text stays so if fewer characters are banned and barred. -/
theorem isNested_mono {banned' barred' : Char → Bool}
    (hbanned : ∀ c, banned c = false → banned' c = false)
    (hbarred : ∀ c, barred c = false → barred' c = false)
    (h : isNested banned barred depth quoted cs = true) :
    isNested banned' barred' depth quoted cs = true := by
  induction cs generalizing depth quoted with
  | nil => exact h
  | cons c cs ih =>
    rcases nested_cases h with ⟨rfl, hrest⟩ | ⟨hquote, rfl, hrest⟩ | ⟨hquote, rfl, hc, hdelim, hrest⟩
    · simp [isNested, ih hrest]
    · simp [isNested, hquote, ih hrest]
    · simp only [isNested, hquote, if_false, Bool.false_eq_true, ih hrest, hbanned c hc]
      by_cases hzero : depth = 0
      · simp [hdelim hzero, hbarred c (hdelim hzero).2]
      · simp [hzero]

end

/-- A text without quotes, parentheses, banned and barred characters is nested. -/
theorem isNested_of_neutral {banned barred : Char → Bool} {cs : List Char}
    (h : ∀ c ∈ cs, c ∉ ['"', '(', ')'] ∧ banned c = false ∧ barred c = false) :
    isNested banned barred 0 false cs = true := by
  induction cs with
  | nil => rfl
  | cons c cs ih =>
    obtain ⟨hmark, hbanned, hbarred⟩ := h c List.mem_cons_self
    simp only [List.mem_cons, List.not_mem_nil, or_false, not_or] at hmark
    have hrest := ih fun d hd => h d (List.mem_cons_of_mem _ hd)
    simp [isNested, hmark, hbanned, hbarred, depthAfter, hrest]

/-- A text without quotes, parentheses and barred characters is balanced. -/
theorem isBalanced_of_neutral {barred : Char → Bool} {cs : List Char}
    (h : ∀ c ∈ cs, c ∉ ['"', '\'', '(', ')'] ∧ barred c = false) :
    isBalanced barred 0 false cs = true := by
  rw [isBalanced_eq_isNested]
  refine isNested_of_neutral fun c hc => ?_
  obtain ⟨hmark, hbarred⟩ := h c hc
  simp only [List.mem_cons, List.not_mem_nil, or_false, not_or] at hmark
  simp [hmark, hbarred]

theorem isNested_append {banned barred : Char → Bool} {depth : Nat} {quoted : Bool} {xs ys : List Char}
    (hxs : isNested banned barred depth quoted xs = true)
    (hys : isNested banned barred 0 false ys = true) :
    isNested banned barred depth quoted (xs ++ ys) = true := by
  induction xs generalizing depth quoted with
  | nil =>
    obtain ⟨rfl, rfl⟩ := nested_end hxs
    exact hys
  | cons c cs ih =>
    rcases nested_cases hxs with ⟨rfl, h⟩ | ⟨hquote, rfl, h⟩ | ⟨hquote, rfl, hc, hdelim, h⟩
    · simp [isNested, ih h]
    · simp [isNested, hquote, ih h]
    · simp only [List.cons_append, isNested, hquote, if_false, Bool.false_eq_true, ih h]
      by_cases hzero : depth = 0
      · simp [hc, hdelim hzero]
      · simp [hc, hzero]

theorem isBalanced_append {barred : Char → Bool} {depth : Nat} {quoted : Bool} {xs ys : List Char}
    (hxs : isBalanced barred depth quoted xs = true) (hys : isBalanced barred 0 false ys = true) :
    isBalanced barred depth quoted (xs ++ ys) = true := by
  rw [isBalanced_eq_isNested] at *
  exact isNested_append hxs hys

/-! ## Texts that leave parentheses open -/

/-- The number of open parentheses behind the text, when it starts with `depth` of these open. There is
none if a character is `banned`, or outside of parentheses `barred` or a closing parenthesis. -/
def depthBehind? (banned barred : Char → Bool) : (depth : Nat) → List Char → Option Nat
  | depth, [] => some depth
  | depth, c :: cs =>
    if banned c || (depth == 0 && (c == ')' || barred c)) then none
    else depthBehind? banned barred (depthAfter depth c) cs

section
variable {banned barred : Char → Bool} {depth n : Nat}

theorem depthBehind?_cons_eq_some {c : Char} {cs : List Char} :
    depthBehind? banned barred depth (c :: cs) = some n ↔
      banned c = false ∧ (depth = 0 → c ≠ ')' ∧ barred c = false) ∧
        depthBehind? banned barred (depthAfter depth c) cs = some n := by
  rw [depthBehind?]
  by_cases hzero : depth = 0
  · simp [hzero, and_assoc]
  · simp [hzero]

theorem depthBehind?_append (xs ys : List Char) : depthBehind? banned barred depth (xs ++ ys) =
    (depthBehind? banned barred depth xs).bind fun d => depthBehind? banned barred d ys := by
  induction xs generalizing depth with
  | nil => rfl
  | cons c xs ih =>
    rw [List.cons_append, depthBehind?, depthBehind?, ih]
    split <;> rfl

theorem depthBehind?_push {text : String} (h : depthBehind? banned barred depth text.toList = some n)
    {c : Char} (hbanned : banned c = false) (hdelim : n = 0 → c ≠ ')' ∧ barred c = false) :
    depthBehind? banned barred depth (text.push c).toList = some (depthAfter n c) := by
  rw [String.toList_push, depthBehind?_append, h]
  exact depthBehind?_cons_eq_some.2 ⟨hbanned, hdelim, rfl⟩

/-- Only the marks of a text count. -/
theorem depthBehind?_filter {q : Char → Bool}
    (hq : ∀ c, q c = false → c ∉ ['(', ')'] ∧ banned c = false ∧ barred c = false) (cs : List Char) :
    depthBehind? banned barred depth (cs.filter q) = depthBehind? banned barred depth cs := by
  induction cs generalizing depth with
  | nil => rfl
  | cons c cs ih =>
    by_cases hc : q c = true
    · rw [List.filter_cons_of_pos hc, depthBehind?, depthBehind?, ih]
    · obtain ⟨hparens, hbanned, hbarred⟩ := hq c (by simpa using hc)
      simp only [List.mem_cons, List.not_mem_nil, or_false, not_or] at hparens
      rw [List.filter_cons_of_neg hc, ih]
      simp [depthBehind?, depthAfter, hparens, hbanned, hbarred]

end

/-! ## Strings -/

/-- The characters outside strings. -/
def unquoted : (quoted : Bool) → List Char → List Char
  | _, [] => []
  | quoted, c :: cs =>
    if c = '"' then unquoted (!quoted) cs
    else if quoted then unquoted true cs
    else c :: unquoted false cs

theorem unquoted_of_not_mem {cs : List Char} (h : '"' ∉ cs) : unquoted false cs = cs := by
  induction cs with
  | nil => rfl
  | cons c cs ih =>
    simp only [List.mem_cons, not_or] at h
    have hc : c ≠ '"' := fun e => h.1 e.symm
    simp [unquoted, hc, ih h.2]

/-- A string is open behind the text, if one was open or not before it. -/
def quotedAfter (quoted : Bool) (cs : List Char) : Bool :=
  quoted ^^ cs.count '"' % 2 == 1

theorem quotedAfter_nil (quoted : Bool) : quotedAfter quoted [] = quoted := by
  simp [quotedAfter]

theorem quotedAfter_cons (quoted : Bool) (c : Char) (cs : List Char) :
    quotedAfter quoted (c :: cs) = quotedAfter (quoted ^^ c == '"') cs := by
  by_cases hc : c = '"'
  · have hodd : ((cs.count '"' + 1) % 2 == 1) = !(cs.count '"' % 2 == 1) := by
      rcases Nat.mod_two_eq_zero_or_one (cs.count '"') with h | h <;> simp [Nat.add_mod, h]
    simp [quotedAfter, hc, hodd]
  · have hbeq : (c == '"') = false := beq_eq_false_iff_ne.2 hc
    simp [quotedAfter, hc, hbeq]

theorem quotedAfter_of_not_mem {cs : List Char} (h : '"' ∉ cs) (quoted : Bool) :
    quotedAfter quoted cs = quoted := by
  simp [quotedAfter, List.count_eq_zero.2 h]

theorem unquoted_append (quoted : Bool) (xs ys : List Char) :
    unquoted quoted (xs ++ ys) = unquoted quoted xs ++ unquoted (quotedAfter quoted xs) ys := by
  induction xs generalizing quoted with
  | nil => rw [quotedAfter_nil]; rfl
  | cons c cs ih =>
    rw [quotedAfter_cons]
    by_cases hc : c = '"'
    · simp [unquoted, hc, ih]
    · have hbeq : (c == '"') = false := beq_eq_false_iff_ne.2 hc
      cases quoted <;> simp [unquoted, hc, hbeq, ih]

end BlitzDoc.Text
