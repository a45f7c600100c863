import BlitzDoc.Proofs.TypeName.Suffixes

/-!
# Types that are spelled out

A type is spelled out (`IsSpelledOut`) when it has no blanks at its ends, starts with no parameter list
and no tag, and has the usual capitals if it is builtin. Spelling out any text gives such a type
(`isSpelledOut_expand`), and these are exactly the texts that it leaves as they are
(`expand_eq_self_iff`); so to do it twice is to do it once.

What a text begins with decides what becomes of it, and `expandTrimmed_cases` says so once. Marks that
are no tags stay where they are, whatever the text (`filter_expand`).
-/

namespace BlitzDoc

namespace TypeName

open Signature (Builtin)
open Text (IsTrimmed)

/-- The type is in its uniform spelling. -/
structure IsSpelledOut (t : List Char) : Prop where
  trimmed : IsTrimmed t
  /-- It starts with no parameter list and no tag. -/
  head : ∀ c ∈ t.head?, c ≠ '(' ∧ shorthand? c = none
  /-- A builtin type has its usual capitals. -/
  capitals : ∀ b ∈ builtin? (t.takeWhile isNameChar), t.takeWhile isNameChar = b.toList

-- the head is looked at itself, not looked for among all characters
instance (t : List Char) : Decidable (IsSpelledOut t) :=
  letI : Decidable (∀ c ∈ t.head?, c ≠ '(' ∧ shorthand? c = none) :=
    Option.decidableForallMem _
  decidable_of_iff (IsTrimmed t ∧ (∀ c ∈ t.head?, c ≠ '(' ∧ shorthand? c = none) ∧
      ∀ b ∈ builtin? (t.takeWhile isNameChar), t.takeWhile isNameChar = b.toList)
    ⟨fun h => ⟨h.1, h.2.1, h.2.2⟩, fun h => ⟨h.1, h.2, h.3⟩⟩

/-! ## How a text begins -/

theorem builtin?_nil : builtin? [] = none := by
  decide +kernel

theorem exists_builtin_of_shorthand? {c : Char} {name : String} (h : shorthand? c = some name) :
    ∃ b : Builtin, b.mark = [c] ∧ b.name = name := by
  unfold shorthand? at h
  split at h
  · exact ⟨.int, rfl, Option.some.inj h⟩
  · exact ⟨.float, rfl, Option.some.inj h⟩
  · exact ⟨.double, rfl, Option.some.inj h⟩
  · exact ⟨.string, rfl, Option.some.inj h⟩
  · cases h

/-- **What becomes of a text** depends on whether it begins with a tag, with a parameter list, or with
neither. -/
theorem expandTrimmed_cases (cs : List Char) :
    (∃ (b : Builtin) (rest : List Char), cs = b.mark ++ rest ∧
        expandTrimmed cs = b.name.toList ++ Text.dropBlanks rest) ∨
      (cs.head? = some '(' ∧ expandTrimmed cs = Builtin.int.name.toList ++ cs) ∨
      ((∀ c ∈ cs.head?, c ≠ '(' ∧ shorthand? c = none) ∧ expandTrimmed cs = expandNamed cs) := by
  unfold expandTrimmed
  split
  · exact .inr (.inl ⟨rfl, rfl⟩)
  · exact .inl ⟨.long, _, rfl, rfl⟩
  · rename_i c rest hopen _
    cases htag : shorthand? c with
    | none =>
      have hc : c ≠ '(' := hopen
      exact .inr (.inr ⟨by simp [hc, htag], rfl⟩)
    | some name =>
      obtain ⟨b, hmark, rfl⟩ := exists_builtin_of_shorthand? htag
      exact .inl ⟨b, rest, by rw [hmark, List.singleton_append], rfl⟩
  · exact .inr (.inr ⟨by simp, by rw [expandNamed, List.takeWhile_nil, builtin?_nil]⟩)

/-! ## The result is spelled out -/

/-- What begins with a name is spelled out, if the name as far as it goes has its usual capitals. -/
theorem isSpelledOut_append {word cs : List Char} (hword : Text.IsName word)
    (hend : Text.dropBlanksEnd cs = cs)
    (hcapitals : ∀ b ∈ builtin? (word ++ cs.takeWhile isNameChar),
      word ++ cs.takeWhile isNameChar = b.toList) : IsSpelledOut (word ++ cs) := by
  obtain ⟨hfront, hback⟩ := hword.isTrimmed
  refine ⟨⟨Text.dropBlanks_append hfront hword.1 cs, ?_⟩, ?_, ?_⟩
  · by_cases hcs : cs = []
    · rw [hcs, List.append_nil]
      exact hback
    · exact Text.dropBlanksEnd_append hend hcs word
  · intro c hc
    have hmem : c ∈ word := by
      rw [List.head?_append_of_ne_nil _ hword.1] at hc
      exact List.mem_of_mem_head? hc
    have hplain := Text.isPlain_of_isNameChar (hword.2 c hmem)
    exact ⟨hplain.ne (by decide), Signature.State.shorthand?_of_isPlain hplain⟩
  · rw [List.takeWhile_append_of_pos hword.2]
    exact hcapitals

theorem isSpelledOut_name_append (b : Builtin) {cs : List Char} (h : Text.dropBlanksEnd cs = cs) :
    IsSpelledOut (b.name.toList ++ cs) := by
  refine isSpelledOut_append ⟨by simpa using name_ne_empty b, isNameChar_name b⟩ h fun t ht => ?_
  rw [builtin?_name_append] at ht
  split at ht
  · rename_i hmore
    rw [hmore, List.append_nil, Option.some.inj ht]
  · cases ht

/-- The builtin types are names, and each is found under its own. -/
theorem builtin?_spec {name : List Char} {b : String} (h : builtin? name = some b) :
    Text.IsName b.toList ∧ builtin? b.toList = some b := by
  have hall : ∀ b ∈ builtins, Text.IsName b.toList ∧ builtin? b.toList = some b := by decide +kernel
  exact hall b (List.mem_of_find?_eq_some h)

theorem isSpelledOut_expandNamed {cs : List Char} (h : IsTrimmed cs)
    (hhead : ∀ c ∈ cs.head?, c ≠ '(' ∧ shorthand? c = none) : IsSpelledOut (expandNamed cs) := by
  have hsplit := List.takeWhile_append_dropWhile (p := isNameChar) (l := cs)
  unfold expandNamed
  split
  · rename_i b hb
    obtain ⟨hname, hself⟩ := builtin?_spec hb
    have hend : (cs.dropWhile isNameChar).takeWhile isNameChar = [] :=
      List.takeWhile_eq_nil_iff.2 (List.dropWhile_get_zero_not isNameChar cs)
    refine isSpelledOut_append hname (Text.dropBlanksEnd_of_append (hsplit.symm ▸ h.2)) ?_
    rw [hend, List.append_nil, hself]
    rintro _ ⟨⟩
    rfl
  · rename_i hnone
    exact ⟨h, hhead, by simp [hnone]⟩

theorem isSpelledOut_expandTrimmed {cs : List Char} (h : IsTrimmed cs) :
    IsSpelledOut (expandTrimmed cs) := by
  rcases expandTrimmed_cases cs with ⟨b, rest, rfl, hcs⟩ | ⟨-, hcs⟩ | ⟨hhead, hcs⟩
  · rw [hcs]
    refine isSpelledOut_name_append b ?_
    rw [← Text.dropBlanks_dropBlanksEnd, Text.dropBlanksEnd_of_append h.2]
  · rw [hcs]
    exact isSpelledOut_name_append .int h.2
  · rw [hcs]
    exact isSpelledOut_expandNamed h hhead

/-- **Every type is spelled out** by `expand`. -/
theorem isSpelledOut_expand (s : String) : IsSpelledOut (expand s).toList := by
  rw [expand, String.toList_ofList]
  refine isSpelledOut_expandTrimmed ?_
  rw [Text.trim, String.toList_ofList]
  exact Text.isTrimmed_trimmed s.toList

/-! ## What is spelled out stays -/

theorem expandTrimmed_of_isSpelledOut {cs : List Char} (h : IsSpelledOut cs) : expandTrimmed cs = cs := by
  rcases expandTrimmed_cases cs with ⟨b, rest, rfl, -⟩ | ⟨hopen, -⟩ | ⟨-, hcs⟩
  · have htag : ∃ c ∈ (b.mark ++ rest).head?, shorthand? c ≠ none := by
      cases b <;> simp [Builtin.mark, shorthand?]
    obtain ⟨c, hc, htag⟩ := htag
    exact absurd (h.head c hc).2 htag
  · exact absurd rfl (h.head _ hopen).1
  · rw [hcs, expandNamed]
    split
    · rename_i b hb
      rw [← h.capitals b hb, List.takeWhile_append_dropWhile]
    · rfl

theorem expand_of_isSpelledOut {t : String} (h : IsSpelledOut t.toList) : expand t = t := by
  rw [expand, Text.trim_of_isTrimmed h.trimmed, expandTrimmed_of_isSpelledOut h, String.ofList_toList]

/-- **The types that stay as they are** are those that are spelled out. -/
theorem expand_eq_self_iff {t : String} : expand t = t ↔ IsSpelledOut t.toList :=
  ⟨fun h => h ▸ isSpelledOut_expand t, expand_of_isSpelledOut⟩

/-- A type of its own, and a builtin one that is not spelled out. -/
example : IsSpelledOut "TList[]".toList ∧ ¬IsSpelledOut "%[]".toList := by
  decide +kernel

theorem expand_expand (s : String) : expand (expand s) = expand s :=
  expand_of_isSpelledOut (isSpelledOut_expand s)

/-! ## Nothing but blanks -/

theorem expandNamed_eq_nil_iff (cs : List Char) : expandNamed cs = [] ↔ cs = [] := by
  unfold expandNamed
  split
  · rename_i b hb
    have hcs : cs ≠ [] := by
      rintro rfl
      rw [List.takeWhile_nil, builtin?_nil] at hb
      cases hb
    simp only [List.append_eq_nil_iff, (builtin?_spec hb).1.1, hcs, false_and]
  · rfl

theorem expandTrimmed_eq_nil_iff (cs : List Char) : expandTrimmed cs = [] ↔ cs = [] := by
  have hname (b : Builtin) : b.name.toList ≠ [] := by
    simpa using name_ne_empty b
  rcases expandTrimmed_cases cs with ⟨b, rest, rfl, hcs⟩ | ⟨hopen, hcs⟩ | ⟨-, hcs⟩
  · have hmark : b.mark ≠ [] := by cases b <;> decide
    simp [hcs, hname, hmark]
  · have hne : cs ≠ [] := by
      rintro rfl
      cases hopen
    simp [hcs, hne]
  · rw [hcs]
    exact expandNamed_eq_nil_iff cs

theorem expand_eq_empty_iff (s : String) : expand s = "" ↔ ∀ c ∈ s.toList, Text.isBlank c = true := by
  have hblank : Text.trim s = "" ↔ ∀ c ∈ s.toList, Text.isBlank c = true := by
    rw [← String.isEmpty_iff, Text.isEmpty_trim, List.all_eq_true]
  rw [← hblank, ← String.toList_eq_nil_iff, expand, String.toList_ofList, expandTrimmed_eq_nil_iff,
    String.toList_eq_nil_iff]

/-! ## Marks -/

/-- Spelling out a type leaves the character where it is. -/
def isKept (c : Char) : Bool :=
  !isNameChar c && !Text.isBlank c && (shorthand? c).isNone

theorem isKept_of_isNameChar {c : Char} (h : isNameChar c = true) : isKept c = false := by
  simp [isKept, h]

theorem isKept_of_isBlank {c : Char} (h : Text.isBlank c = true) : isKept c = false := by
  simp [isKept, h]

theorem filter_isKept_dropBlanks (cs : List Char) :
    (Text.dropBlanks cs).filter isKept = cs.filter isKept :=
  Text.filter_dropWhile (fun _ => isKept_of_isBlank) cs

theorem filter_isKept_of_isName {cs : List Char} (h : Text.IsName cs) : cs.filter isKept = [] := by
  rw [List.filter_eq_nil_iff]
  intro c hc
  simp [isKept_of_isNameChar (h.2 c hc)]

theorem filter_expandNamed (cs : List Char) : (expandNamed cs).filter isKept = cs.filter isKept := by
  unfold expandNamed
  split
  · rename_i b hb
    rw [List.filter_append, filter_isKept_of_isName (builtin?_spec hb).1, List.nil_append]
    exact Text.filter_dropWhile (fun _ => isKept_of_isNameChar) cs
  · rfl

theorem filter_expandTrimmed (cs : List Char) : (expandTrimmed cs).filter isKept = cs.filter isKept := by
  have hname (b : Builtin) : b.name.toList.filter isKept = [] :=
    filter_isKept_of_isName ⟨by simpa using name_ne_empty b, isNameChar_name b⟩
  rcases expandTrimmed_cases cs with ⟨b, rest, rfl, hcs⟩ | ⟨-, hcs⟩ | ⟨-, hcs⟩
  · have hmark : b.mark.filter isKept = [] := by cases b <;> decide
    rw [hcs, List.filter_append, List.filter_append, hname, hmark, filter_isKept_dropBlanks]
  · rw [hcs, List.filter_append, hname, List.nil_append]
  · rw [hcs, filter_expandNamed]

/-- **Marks stay where they are**: a type is spelled out in letters, blanks and tags. -/
theorem filter_expand (s : String) : (expand s).toList.filter isKept = s.toList.filter isKept := by
  rw [expand, String.toList_ofList, filter_expandTrimmed, Text.filter_trim fun _ => isKept_of_isBlank]

theorem not_mem_of_isKept {marks : List Char} (hmarks : ∀ d ∈ marks, isKept d = true) {c : Char}
    (hc : isKept c = false) : c ∉ marks := by
  intro hmem
  rw [hmarks c hmem] at hc
  cases hc

theorem mem_iff_of_filter_isKept {c : Char} (hc : isKept c = true) {xs ys : List Char}
    (h : xs.filter isKept = ys.filter isKept) : c ∈ xs ↔ c ∈ ys := by
  have hmem (cs : List Char) : c ∈ cs ↔ c ∈ cs.filter isKept := by simp [hc]
  rw [hmem, h, ← hmem]

theorem mem_of_mem_expandNamed {c : Char} {cs : List Char} (h : c ∈ expandNamed cs) :
    isNameChar c = true ∨ c ∈ cs := by
  unfold expandNamed at h
  split at h
  · rename_i b hb
    rcases List.mem_append.1 h with h | h
    · exact .inl ((builtin?_spec hb).1.2 c h)
    · exact .inr (List.dropWhile_subset isNameChar h)
  · exact .inr h

theorem mem_of_mem_expandTrimmed {c : Char} {cs : List Char} (h : c ∈ expandTrimmed cs) :
    isNameChar c = true ∨ c ∈ cs := by
  rcases expandTrimmed_cases cs with ⟨b, rest, rfl, hcs⟩ | ⟨-, hcs⟩ | ⟨-, hcs⟩
  · rw [hcs] at h
    rcases List.mem_append.1 h with h | h
    · exact .inl (isNameChar_name b c h)
    · exact .inr (List.mem_append_right _ (List.dropWhile_subset Text.isBlank h))
  · rw [hcs] at h
    rcases List.mem_append.1 h with h | h
    · exact .inl (isNameChar_name .int c h)
    · exact .inr h
  · exact mem_of_mem_expandNamed (hcs ▸ h)

/-- Spelling out a type adds nothing but letters to it. -/
theorem mem_of_mem_expand {c : Char} {s : String} (h : c ∈ (expand s).toList) :
    isNameChar c = true ∨ c ∈ s.toList := by
  rw [expand, String.toList_ofList] at h
  exact (mem_of_mem_expandTrimmed h).imp_right Text.mem_of_mem_trim

/-- Of some marks that are no letters, a type has none that the text had not. -/
theorem not_mem_of_mem_expand {marks : List Char} (hmarks : ∀ d ∈ marks, isNameChar d = false)
    {s : String} (h : ∀ c ∈ s.toList, c ∉ marks) : ∀ c ∈ (expand s).toList, c ∉ marks := by
  intro c hc hmem
  rcases mem_of_mem_expand hc with hletter | hc
  · rw [hmarks c hmem] at hletter
    cases hletter
  · exact h c hc hmem

end TypeName

/-! ## Types of arguments -/

namespace Signature.State

open BlitzDoc.TypeName (expand isKept)

/-- The type of an argument is spelled out and not empty. -/
theorem finishType_spec (type : String) :
    finishType type ≠ "" ∧ expand (finishType type) = finishType type := by
  by_cases hempty : expand type = ""
  · have hint : finishType type = "Int" := by rw [finishType, hempty]; rfl
    rw [hint]
    decide +kernel
  · rw [finishType, Text.nonEmpty?_of_ne hempty, Option.getD_some]
    exact ⟨hempty, TypeName.expand_expand type⟩

theorem finishType_of_expand_eq {t : String} (hne : t ≠ "") (h : expand t = t) : finishType t = t := by
  rw [finishType, h, Text.nonEmpty?_of_ne hne, Option.getD_some]

theorem mem_of_mem_finishType {c : Char} {type : String} (h : c ∈ (finishType type).toList) :
    TypeName.isNameChar c = true ∨ c ∈ type.toList := by
  by_cases hempty : expand type = ""
  · have hint : ∀ c ∈ "Int".toList, TypeName.isNameChar c = true := by decide
    rw [finishType, hempty] at h
    exact .inl (hint c h)
  · rw [finishType, Text.nonEmpty?_of_ne hempty, Option.getD_some] at h
    exact TypeName.mem_of_mem_expand h

theorem filter_finishType (type : String) :
    (finishType type).toList.filter isKept = type.toList.filter isKept := by
  have hexpand := TypeName.filter_expand type
  rw [finishType]
  by_cases hempty : expand type = ""
  · rw [← hexpand, hempty]
    decide
  · rw [Text.nonEmpty?_of_ne hempty, Option.getD_some, hexpand]

/-- The parentheses of a type stay where they are. -/
theorem depthBehind?_finishType {banned barred : Char → Bool}
    (h : ∀ c, isKept c = false → c ∉ ['(', ')'] ∧ banned c = false ∧ barred c = false) (type : String) :
    Text.depthBehind? banned barred 0 (finishType type).toList =
      Text.depthBehind? banned barred 0 type.toList := by
  rw [← Text.depthBehind?_filter h, filter_finishType, Text.depthBehind?_filter h]

end Signature.State

end BlitzDoc
