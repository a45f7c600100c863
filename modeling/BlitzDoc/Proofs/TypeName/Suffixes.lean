import BlitzDoc.Proofs.Signature.Spellings

/-!
# What follows a type's name or tag

A tag stands for a type's name, and what follows the tag should be what follows the name: brackets,
`Ptr`, a parameter list. Behind a name the suffix is kept as it was written, up to blanks at its end.
Behind a tag the blanks in front of it are dropped as well, so the two spellings agree exactly on the
suffixes that start with no blank (`expand_mark_eq_iff`), and `% Ptr` becomes one word
(`expand_mark_pointer`).

The suffix may be any text, but a `%` behind a `%`, which makes another tag of it. Letters and digits
behind a name make another name, and none of these is a builtin type (`builtin?_name_append`).
-/

namespace BlitzDoc.TypeName

open Signature (Builtin)

variable (b : Builtin)

/-! ## Behind a tag -/

theorem isTrimmed_mark : Text.IsTrimmed b.mark := by
  cases b <;> decide

/-- A tag becomes the name, and blanks behind it are dropped. -/
theorem expandTrimmed_mark_append {cs : List Char} (h : b = .int → cs.head? ≠ some '%') :
    expandTrimmed (b.mark ++ cs) = b.name.toList ++ Text.dropBlanks cs := by
  cases b with
  | int =>
    cases cs with
    | nil => rfl
    | cons c cs =>
      have hc : c ≠ '%' := by simpa using h rfl
      simp [Builtin.mark, Builtin.name, expandTrimmed, shorthand?, hc]
  | long => rfl
  | float => rfl
  | double => rfl
  | string => rfl

/-- The blanks around what follows a tag are dropped. -/
theorem expand_mark_append {s : String} (h : b = .int → s.toList.head? ≠ some '%') :
    expand (String.ofList b.mark ++ s) = b.name ++ Text.trim s := by
  have hmark : Text.trim (String.ofList b.mark ++ s) = String.ofList b.mark ++ Text.trimEnd s := by
    refine Text.trim_append ?_ ?_ s
    · rw [String.toList_ofList]
      exact isTrimmed_mark b
    · cases b <;> decide
  have hsuffix : b = .int → (Text.dropBlanksEnd s.toList).head? ≠ some '%' := by
    intro hb hhead
    refine h hb ?_
    obtain ⟨bs, -, hs⟩ := Text.exists_blanks_end s.toList
    rw [← hs, List.head?_append, hhead]
    rfl
  rw [← String.toList_inj, expand, hmark, String.toList_ofList, String.toList_append, String.toList_ofList,
    Text.trimEnd, String.toList_ofList, expandTrimmed_mark_append b hsuffix, String.toList_append, Text.trim,
    String.toList_ofList, Text.dropBlanks_dropBlanksEnd]

/-! ## Behind a name -/

/-- A builtin type whose name starts like that of a type with a tag is that type. -/
theorem length_le_of_prefix : ∀ name ∈ builtins,
    b.name.toList.map Char.toLower <+: name.toList.map Char.toLower → name.length ≤ b.name.length := by
  cases b <;> decide

/-- What goes on behind the name of a type with a tag is the name of no builtin type. -/
theorem builtin?_name_append (more : List Char) :
    builtin? (b.name.toList ++ more) = if more = [] then some b.name else none := by
  by_cases hmore : more = []
  · rw [if_pos hmore, hmore, List.append_nil]
    cases b <;> decide +kernel
  · rw [if_neg hmore, builtin?, List.find?_eq_none]
    intro name hname hsame
    rw [beq_iff_eq, ← String.toList_inj] at hsame
    simp only [Text.lowerAscii, String.toList_map, String.toList_ofList, List.map_append] at hsame
    have hinit : b.name.toList.map Char.toLower <+: name.toList.map Char.toLower :=
      hsame ▸ List.prefix_append _ _
    have hlonger := congrArg List.length hsame
    have hle := length_le_of_prefix b name hname hinit
    have hpos := List.length_pos_of_ne_nil hmore
    simp only [List.length_map, List.length_append, String.length_toList] at hlonger
    omega

theorem isNameChar_name : ∀ c ∈ b.name.toList, isNameChar c = true := by
  cases b <;> decide

theorem name_ne_empty : b.name ≠ "" := by
  cases b <;> decide

/-- A name keeps what follows it. -/
theorem expandTrimmed_name_append (cs : List Char) :
    expandTrimmed (b.name.toList ++ cs) = b.name.toList ++ cs := by
  have hname := isNameChar_name b
  have hnamed : expandTrimmed (b.name.toList ++ cs) = expandNamed (b.name.toList ++ cs) := by
    cases hchars : b.name.toList with
    | nil => exact absurd hchars (by simpa using name_ne_empty b)
    | cons c rest =>
      rw [hchars] at hname
      exact Signature.expandTrimmed_of_isNameChar (hname c List.mem_cons_self) (rest ++ cs)
  rw [hnamed, expandNamed, List.takeWhile_append_of_pos hname, List.dropWhile_append_of_pos hname,
    builtin?_name_append]
  by_cases hmore : cs.takeWhile isNameChar = []
  · have hsplit := List.takeWhile_append_dropWhile (p := isNameChar) (l := cs)
    rw [hmore, List.nil_append] at hsplit
    rw [if_pos hmore]
    exact congrArg (b.name.toList ++ ·) hsplit
  · rw [if_neg hmore]

/-- Of what follows a name, only the blanks at the end are dropped. -/
theorem expand_name_append (s : String) : expand (b.name ++ s) = b.name ++ Text.trimEnd s := by
  have htrimmed : Text.IsTrimmed b.name.toList :=
    Text.isTrimmed_of_forall fun c hc => Text.isBlank_of_isNameChar (isNameChar_name b c hc)
  rw [expand, Text.trim_append htrimmed (name_ne_empty b), String.toList_append, expandTrimmed_name_append,
    ← String.toList_append, String.ofList_toList]

/-! ## Both spellings -/

/-- **A tag means its name exactly on the suffixes that start with no blank**, or are nothing but blanks.
The suffix is any text; only a `%` behind a `%` is not one, since the two are a tag together. -/
theorem expand_mark_eq_iff {s : String} (h : b = .int → s.toList.head? ≠ some '%') :
    expand (String.ofList b.mark ++ s) = b.name ++ Text.trim s ∧
      expand (b.name ++ s) = b.name ++ Text.trimEnd s ∧
      (expand (String.ofList b.mark ++ s) = expand (b.name ++ s) ↔
        (∀ c ∈ s.toList.head?, Text.isBlank c = false) ∨ ∀ c ∈ s.toList, Text.isBlank c = true) := by
  refine ⟨expand_mark_append b h, expand_name_append b s, ?_⟩
  rw [expand_mark_append b h, expand_name_append b s, ← Text.trim_eq_trimEnd_iff, String.append_right_inj]

theorem expand_mark_arrayPointer :
    expand "%[] Ptr " = expand "Int[] Ptr " ∧ expand "%[] Ptr " = "Int[] Ptr" := by
  have hhead : Builtin.int = .int → "[] Ptr ".toList.head? ≠ some '%' := fun _ => by decide
  have hbracket : ∀ c ∈ "[] Ptr ".toList.head?, Text.isBlank c = false := by
    rintro c ⟨⟩
    rfl
  obtain ⟨hmark, -, hiff⟩ := expand_mark_eq_iff .int hhead
  exact ⟨hiff.2 (.inl hbracket), hmark.trans (by decide)⟩

/-- **A blank between a tag and what follows it is lost**, and with it the end of the name. -/
theorem expand_mark_pointer : expand "% Ptr" = "IntPtr" ∧ expand "Int Ptr" = "Int Ptr" := by
  decide +kernel

end BlitzDoc.TypeName
