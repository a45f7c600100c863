import BlitzDoc.Source.Line

/-!
# Telling keywords apart

A line that starts with one keyword does not start with another whose first letter is different
(`after?_of_apart`). So a line that starts with the keyword of a function, a method, a constant, a
variable or a field is no part of the structure of a source (`not_structure_of_leaf`), and one that
opens an aggregate starts no comment (`afterRem?_of_opens`).
-/

namespace BlitzDoc.Source.Line

/-! ## First letters -/

/-- A character is a form of at most one small letter. -/
theorem sameLetter_unique {k k' c : Char} (hk : k.isLower = true) (hk' : k'.isLower = true)
    (h : sameLetter k c = true) (h' : sameLetter k' c = true) : k = k' := by
  -- neither the long s nor the Kelvin sign has a small letter of the alphabet
  have hother : ∀ d : Char, d.isLower = true → d ≠ 'ſ' ∧ d ≠ '\u212a' := by
    intro d hd
    refine ⟨?_, ?_⟩ <;> rintro rfl <;> revert hd <;> decide
  have hlong : Char.toLower 'ſ' = 'ſ' := by decide
  have hkelvin : Char.toLower '\u212a' = '\u212a' := by decide
  simp only [sameLetter, Bool.or_eq_true, Bool.and_eq_true, beq_iff_eq] at h h'
  rcases h with (rfl | ⟨rfl, rfl⟩) | ⟨rfl, rfl⟩ <;> rcases h' with (h' | ⟨rfl, h'⟩) | ⟨rfl, h'⟩
  · exact h'
  · rw [h', hlong] at hk
    exact absurd rfl (hother 'ſ' hk).1
  · rw [h', hkelvin] at hk
    exact absurd rfl (hother '\u212a' hk).2
  · rw [← h', hlong] at hk'
    exact absurd rfl (hother 'ſ' hk').1
  · rfl
  · simp at h'
  · rw [← h', hkelvin] at hk'
    exact absurd rfl (hother '\u212a' hk').2
  · simp at h'
  · rfl

/-- The words start with different small letters. -/
def apart (word other : String) : Bool :=
  match word.toList, other.toList with
  | k :: _, k' :: _ => k.isLower && k'.isLower && k != k'
  | _, _ => false

/-- **A line that starts with one word** does not start with a word apart from it. -/
theorem after?_of_apart {word other : String} {l : List Char} (h : (after? word l).isSome = true)
    (hapart : apart word other = true) : after? other l = none := by
  unfold apart at hapart
  unfold after? at h ⊢
  cases hw : word.toList with
  | nil => simp [hw] at hapart
  | cons k ks =>
    cases ho : other.toList with
    | nil => simp [hw, ho] at hapart
    | cons k' ks' =>
      simp only [hw, ho, Bool.and_eq_true, bne_iff_ne] at hapart
      obtain ⟨⟨hk, hk'⟩, hne⟩ := hapart
      cases hl : Text.dropBlanks l with
      | nil => rfl
      | cons c cs =>
        rw [hw, hl, afterKeyword?] at h
        have hc : sameLetter k c = true := by
          by_cases hc : sameLetter k c = true
          · exact hc
          · simp [hc] at h
        have hc' : ¬ sameLetter k' c = true := fun hc' => hne (sameLetter_unique hk hk' hc hc')
        simp [afterKeyword?, hc']

/-! ## Lines by their first word -/

/-- The words that start a declaration without members. -/
def leafWords : List String :=
  ["function", "method", "const", "global", "local", "field"]

/-- The line starts a declaration without members. -/
def startsLeaf (l : List Char) : Bool :=
  leafWords.any fun word => (after? word l).isSome

theorem afterRem?_eq_none {l : List Char} (h : after? "rem" l = none) : afterRem? l = none := by
  rw [afterRem?, h]
  rfl

theorem afterBlank?_eq_none {word : String} {l : List Char} (h : after? word l = none) :
    afterBlank? word l = none := by
  rw [afterBlank?, h]

/-- A declaration without members starts no comment, and neither opens nor ends an aggregate. -/
theorem not_structure_of_leaf {l : List Char} (h : startsLeaf l = true) :
    afterRem? l = none ∧ opensAggregate l = false ∧ closesAggregate l = false := by
  obtain ⟨word, hword, hafter⟩ := List.any_eq_true.1 h
  have hapart : ∀ word ∈ leafWords, ∀ other ∈ "rem" :: "end" :: aggregates,
      apart word other = true := by decide
  have hnone : ∀ other ∈ "rem" :: "end" :: aggregates, after? other l = none :=
    fun other ho => after?_of_apart hafter (hapart word hword other ho)
  refine ⟨afterRem?_eq_none (hnone "rem" (by simp)), ?_, ?_⟩
  · rw [opensAggregate, List.any_eq_false]
    intro other ho
    rw [afterBlank?_eq_none (hnone other (by simp [ho]))]
    simp
  · rw [closesAggregate, List.any_eq_false]
    intro other _
    simp [isEnd, hnone "end" (by simp)]

/-- The line is `word`, blanks and the start of a name. -/
def opens (word : String) (l : List Char) : Bool :=
  match afterBlank? word l with
  | some (c :: _) => Text.isWordChar c
  | _ => false

theorem opensAggregate_of_opens {word : String} (hword : word ∈ aggregates) {l : List Char}
    (h : opens word l = true) : opensAggregate l = true :=
  List.any_eq_true.2 ⟨word, hword, h⟩

theorem afterRem?_of_opens {word : String} (hword : word ∈ aggregates) {l : List Char}
    (h : opens word l = true) : afterRem? l = none := by
  have hapart : ∀ word ∈ aggregates, apart word "rem" = true := by decide
  have hafter : (after? word l).isSome = true := by
    cases ha : after? word l with
    | none => simp [opens, afterBlank?_eq_none ha] at h
    | some rest => rfl
  exact afterRem?_eq_none (after?_of_apart hafter (hapart word hword))

end BlitzDoc.Source.Line
