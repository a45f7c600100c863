import BlitzDoc.Text.Blank
import BlitzDoc.Text.Cut
import Mathlib.Data.List.DropRight
import Mathlib.Data.List.TakeWhile

/-!
# Trimmed texts and lines

`IsTrimmed` texts have no blanks at their ends; trimming leaves them alone, and a text that is put
together from lines is trimmed when its first and last line are (`isTrimmed_intercalate`). Writing
lines one below the other and reading them again gives the same lines (`lines_unlines`).
-/

namespace BlitzDoc.Text

/-! ## Trimmed texts -/

/-- The text has no blanks at its ends. -/
def IsTrimmed (cs : List Char) : Prop :=
  dropBlanks cs = cs ∧ dropBlanksEnd cs = cs

instance (cs : List Char) : Decidable (IsTrimmed cs) :=
  inferInstanceAs (Decidable (_ ∧ _))

theorem isBlank_of_dropBlanks {c : Char} {cs : List Char} (h : dropBlanks (c :: cs) = c :: cs) :
    isBlank c = false := by
  cases hblank : isBlank c with
  | false => rfl
  | true =>
    have hdrop : dropBlanks (c :: cs) = dropBlanks cs := by
      simp only [dropBlanks, List.dropWhile_cons, hblank, ↓reduceIte]
    have hle := length_dropWhile_le isBlank cs
    have hlength := congrArg List.length (hdrop.symm.trans h)
    simp only [dropBlanks, List.length_cons] at hlength
    omega

theorem dropBlanks_append {xs : List Char} (h : dropBlanks xs = xs) (hne : xs ≠ []) (ys : List Char) :
    dropBlanks (xs ++ ys) = xs ++ ys := by
  cases xs with
  | nil => exact absurd rfl hne
  | cons c cs =>
    have hc := isBlank_of_dropBlanks h
    simp only [dropBlanks, List.cons_append, List.dropWhile_cons, hc]
    rfl

theorem dropBlanksEnd_append {ys : List Char} (h : dropBlanksEnd ys = ys) (hne : ys ≠ [])
    (xs : List Char) : dropBlanksEnd (xs ++ ys) = xs ++ ys := by
  have hrev : dropBlanks ys.reverse = ys.reverse := by
    have h' := congrArg List.reverse h
    rwa [dropBlanksEnd, List.reverse_reverse] at h'
  have hall := dropBlanks_append hrev (by simpa using hne) xs.reverse
  unfold dropBlanks at hall
  rw [dropBlanksEnd, List.reverse_append, hall, List.reverse_append, List.reverse_reverse,
    List.reverse_reverse]

theorem getLast?_ne_of_isTrimmed {cs : List Char} (h : IsTrimmed cs) {c : Char}
    (hc : isBlank c = true) : cs.getLast? ≠ some c := by
  intro hlast
  have hrev : dropBlanks cs.reverse = cs.reverse := by
    have h' := congrArg List.reverse h.2
    rwa [dropBlanksEnd, List.reverse_reverse] at h'
  rw [List.getLast?_eq_head?_reverse] at hlast
  cases hcs : cs.reverse with
  | nil => simp [hcs] at hlast
  | cons d ds =>
    rw [hcs] at hrev hlast
    obtain rfl : d = c := by simpa using hlast
    simp [isBlank_of_dropBlanks hrev] at hc

theorem trim_ofList {cs : List Char} (h : IsTrimmed cs) : trim (String.ofList cs) = String.ofList cs := by
  rw [trim, String.toList_ofList, h.1, h.2]

theorem trim_of_isTrimmed {s : String} (h : IsTrimmed s.toList) : trim s = s := by
  rw [← String.ofList_toList (s := s)]
  exact trim_ofList h

theorem dropBlanksEnd_append_blanks (xs : List Char) {bs : List Char}
    (hbs : ∀ c ∈ bs, isBlank c = true) : dropBlanksEnd (xs ++ bs) = dropBlanksEnd xs := by
  have hdrop : bs.reverse.dropWhile isBlank = [] := by
    rw [List.dropWhile_eq_nil_iff]
    intro c hc
    exact hbs c (List.mem_reverse.1 hc)
  rw [dropBlanksEnd, List.reverse_append, List.dropWhile_append, hdrop]
  rfl

theorem dropBlanksEnd_append_cons (xs : List Char) {c : Char} (hc : isBlank c = false)
    (ys : List Char) : dropBlanksEnd (xs ++ c :: ys) = xs ++ c :: dropBlanksEnd ys := by
  have hcons : (c :: xs.reverse).dropWhile isBlank = c :: xs.reverse :=
    List.dropWhile_cons_of_neg (by simp [hc])
  simp only [dropBlanksEnd, List.reverse_append, List.reverse_cons, List.append_assoc,
    List.singleton_append, List.dropWhile_append, hcons]
  split
  · rename_i hempty
    simp [List.isEmpty_iff.1 hempty]
  · simp

theorem exists_blanks_end (cs : List Char) :
    ∃ bs, (∀ c ∈ bs, isBlank c = true) ∧ dropBlanksEnd cs ++ bs = cs :=
  ⟨cs.rtakeWhile isBlank, fun _ hc => List.mem_rtakeWhile_imp hc,
    List.rdropWhile_append_rtakeWhile⟩

/-- The end of a text is trimmed if the text is. -/
theorem dropBlanksEnd_of_append {xs ys : List Char} (h : dropBlanksEnd (xs ++ ys) = xs ++ ys) :
    dropBlanksEnd ys = ys := by
  obtain ⟨bs, hbs, hys⟩ := exists_blanks_end ys
  have hle := length_dropBlanksEnd_le (xs ++ dropBlanksEnd ys)
  rw [← dropBlanksEnd_append_blanks _ hbs, List.append_assoc, hys, h, List.length_append,
    List.length_append] at hle
  refine List.IsPrefix.eq_of_length_le ⟨bs, hys⟩ (by omega)

/-- What is left of a text has no blanks at its ends. -/
theorem isTrimmed_trimmed (cs : List Char) : IsTrimmed (dropBlanksEnd (dropBlanks cs)) := by
  refine ⟨?_, List.rdropWhile_idempotent isBlank (dropBlanks cs)⟩
  obtain ⟨bs, -, hcs⟩ := exists_blanks_end (dropBlanks cs)
  cases htext : dropBlanksEnd (dropBlanks cs) with
  | nil => rfl
  | cons c rest =>
    have hdrop : dropBlanks (dropBlanks cs) = dropBlanks cs := List.dropWhile_idempotent isBlank cs
    rw [← hcs, htext, List.cons_append] at hdrop
    exact List.dropWhile_cons_of_neg (by simp [isBlank_of_dropBlanks hdrop])

theorem trimmed_append_blanks (xs : List Char) {bs : List Char} (hbs : ∀ c ∈ bs, isBlank c = true) :
    dropBlanksEnd (dropBlanks (xs ++ bs)) = dropBlanksEnd (dropBlanks xs) := by
  by_cases hxs : (xs.dropWhile isBlank).isEmpty = true
  · have hdrop : bs.dropWhile isBlank = [] := List.dropWhile_eq_nil_iff.2 hbs
    rw [dropBlanks, List.dropWhile_append, if_pos hxs, hdrop, dropBlanks, List.isEmpty_iff.1 hxs]
  · rw [dropBlanks, List.dropWhile_append, if_neg hxs, dropBlanksEnd_append_blanks _ hbs]
    rfl

/-- Blanks behind a text are trimmed away. -/
theorem trim_append_blanks (xs : List Char) {bs : List Char} (hbs : ∀ c ∈ bs, isBlank c = true) :
    trim (String.ofList (xs ++ bs)) = trim (String.ofList xs) := by
  rw [trim, trim, String.toList_ofList, String.toList_ofList, trimmed_append_blanks xs hbs]

theorem dropBlanks_blanks_append {bs : List Char} (hbs : ∀ c ∈ bs, isBlank c = true)
    (xs : List Char) : dropBlanks (bs ++ xs) = dropBlanks xs := by
  have hdrop : bs.dropWhile isBlank = [] := List.dropWhile_eq_nil_iff.2 hbs
  simp [dropBlanks, List.dropWhile_append, hdrop]

/-- Blanks in front of a text are trimmed away. -/
theorem trim_blanks_append {bs : List Char} (hbs : ∀ c ∈ bs, isBlank c = true) (xs : List Char) :
    trim (String.ofList (bs ++ xs)) = trim (String.ofList xs) := by
  rw [trim, trim, String.toList_ofList, String.toList_ofList, dropBlanks_blanks_append hbs]

theorem trim_dropBlanks (cs : List Char) :
    trim (String.ofList (dropBlanks cs)) = trim (String.ofList cs) := by
  simp only [trim, String.toList_ofList, dropBlanks, List.dropWhile_idempotent]

/-- Nothing is left of a text of blanks. -/
theorem isEmpty_trim (s : String) : (trim s).isEmpty = s.toList.all isBlank := by
  have hend : (trim s).isEmpty = true ↔ ∀ c ∈ dropBlanks s.toList, isBlank c = true := by
    simp [trim, dropBlanksEnd]
  rw [Bool.eq_iff_iff, hend, List.all_eq_true]
  constructor
  · intro h c hc
    rw [← List.takeWhile_append_dropWhile (p := isBlank) (l := s.toList)] at hc
    rcases List.mem_append.1 hc with hc | hc
    · exact List.mem_takeWhile_imp hc
    · exact h c hc
  · exact fun h c hc => h c (List.dropWhile_subset isBlank hc)

theorem mem_of_mem_trim {s : String} {c : Char} (h : c ∈ (trim s).toList) : c ∈ s.toList := by
  rw [trim, String.toList_ofList, dropBlanksEnd, List.mem_reverse] at h
  have hend := List.dropWhile_subset isBlank h
  exact List.dropWhile_subset isBlank (List.mem_reverse.1 hend)

/-- What is dropped at the front is not missed by a filter that would take it out anyway. -/
theorem filter_dropWhile {p q : Char → Bool} (h : ∀ c, p c = true → q c = false) (cs : List Char) :
    (cs.dropWhile p).filter q = cs.filter q := by
  induction cs with
  | nil => rfl
  | cons c cs ih =>
    by_cases hc : p c = true
    · rw [List.dropWhile_cons_of_pos hc, ih, List.filter_cons_of_neg (by simp [h c hc])]
    · rw [List.dropWhile_cons_of_neg hc]

/-- Trimming takes nothing but blanks. -/
theorem filter_trim {q : Char → Bool} (hq : ∀ c, isBlank c = true → q c = false) (s : String) :
    (trim s).toList.filter q = s.toList.filter q := by
  rw [trim, String.toList_ofList, dropBlanksEnd, List.filter_reverse, filter_dropWhile hq,
    List.filter_reverse, List.reverse_reverse, dropBlanks, filter_dropWhile hq]

theorem trim_eq_empty_iff (s : String) :
    trim s = "" ↔ s.toList.filter (fun c => !isBlank c) = [] := by
  rw [← String.isEmpty_iff, isEmpty_trim, List.filter_eq_nil_iff, List.all_eq_true]
  simp

/-- A text is nothing but blanks, or it has a first character that is none. -/
theorem blanks_or_split (cs : List Char) :
    (∀ c ∈ cs, isBlank c = true) ∨
      ∃ bs c rest, (∀ b ∈ bs, isBlank b = true) ∧ isBlank c = false ∧ cs = bs ++ c :: rest := by
  induction cs with
  | nil => exact .inl (by simp)
  | cons c cs ih =>
    cases hc : isBlank c with
    | false => exact .inr ⟨[], c, cs, by simp, hc, rfl⟩
    | true =>
      rcases ih with hblank | ⟨bs, d, rest, hbs, hd, rfl⟩
      · exact .inl (List.forall_mem_cons.2 ⟨hc, hblank⟩)
      · exact .inr ⟨c :: bs, d, rest, List.forall_mem_cons.2 ⟨hc, hbs⟩, hd, rfl⟩

theorem dropBlanks_cons {c : Char} (hc : isBlank c = false) (cs : List Char) :
    dropBlanks (c :: cs) = c :: cs :=
  List.dropWhile_cons_of_neg (by simp [hc])

theorem dropBlanksEnd_blanks {bs : List Char} (hbs : ∀ c ∈ bs, isBlank c = true) :
    dropBlanksEnd bs = [] :=
  dropBlanksEnd_append_blanks [] hbs

/-- The ends of a text can be trimmed in either order. -/
theorem dropBlanks_dropBlanksEnd (cs : List Char) :
    dropBlanks (dropBlanksEnd cs) = dropBlanksEnd (dropBlanks cs) := by
  rcases blanks_or_split cs with hblank | ⟨bs, c, rest, hbs, hc, rfl⟩
  · have hdrop : dropBlanks cs = [] := List.dropWhile_eq_nil_iff.2 hblank
    rw [dropBlanksEnd_blanks hblank, hdrop]
    rfl
  · have hend := dropBlanksEnd_append_cons [] hc rest
    rw [List.nil_append, List.nil_append] at hend
    rw [dropBlanksEnd_append_cons bs hc, dropBlanks_blanks_append hbs, dropBlanks_cons hc,
      dropBlanks_blanks_append hbs, dropBlanks_cons hc, hend]

/-- Nothing is trimmed in front of a text exactly if it starts with no blank or is nothing but blanks. -/
theorem trim_eq_trimEnd_iff (s : String) :
    trim s = trimEnd s ↔ (∀ c ∈ s.toList.head?, isBlank c = false) ∨ ∀ c ∈ s.toList, isBlank c = true := by
  rw [trim, trimEnd, ← dropBlanks_dropBlanksEnd, String.ofList_inj]
  rcases blanks_or_split s.toList with hblank | ⟨bs, c, rest, hbs, hc, hs⟩
  · rw [dropBlanksEnd_blanks hblank]
    exact ⟨fun _ => .inr hblank, fun _ => rfl⟩
  · rw [hs, dropBlanksEnd_append_cons bs hc, dropBlanks_blanks_append hbs, dropBlanks_cons hc]
    cases bs with
    | nil => simp [hc]
    | cons b bs =>
      have hlength : c :: dropBlanksEnd rest ≠ b :: bs ++ c :: dropBlanksEnd rest := by
        intro h
        have := congrArg List.length h
        simp only [List.length_cons, List.length_append] at this
        omega
      simp only [hlength, false_iff, not_or, not_forall]
      exact ⟨⟨b, by simp, by simp [hbs b]⟩, c, by simp, by simp [hc]⟩

/-- Behind a trimmed text, only the blanks at the end of a suffix are trimmed. -/
theorem trim_append {word : String} (hword : IsTrimmed word.toList) (hne : word ≠ "") (s : String) :
    trim (word ++ s) = word ++ trimEnd s := by
  have hchars : word.toList ≠ [] := by simpa using hne
  have hlast : isBlank (word.toList.getLast hchars) = false := by
    rw [Bool.eq_false_iff]
    exact fun hblank => getLast?_ne_of_isTrimmed hword hblank (List.getLast?_eq_some_getLast hchars)
  have hend := dropBlanksEnd_append_cons word.toList.dropLast hlast s.toList
  rw [List.append_cons, List.dropLast_append_getLast, List.append_cons, List.dropLast_append_getLast]
    at hend
  rw [← String.toList_inj]
  simp only [trim, trimEnd, String.toList_append, String.toList_ofList]
  rw [dropBlanks_append hword.1 hchars, hend]

theorem nonEmpty?_of_ne {s : String} (h : s ≠ "") : nonEmpty? s = some s := by
  have hs : s.isEmpty = false := by
    rw [Bool.eq_false_iff, ne_eq, String.isEmpty_iff]
    exact h
  simp [nonEmpty?, hs]

/-- A text is cut in two at the end of the run of characters that are not cut at. -/
theorem splitOnce?_eq (p : Char → Bool) (cs : List Char) :
    splitOnce? p cs =
      match cs.dropWhile fun c => !p c with
      | [] => none
      | _ :: rest => some (cs.takeWhile fun c => !p c, rest) := by
  induction cs with
  | nil => rfl
  | cons c cs ih =>
    by_cases hc : p c = true
    · simp [splitOnce?, hc]
    · simp only [splitOnce?, hc, ih, List.dropWhile_cons, List.takeWhile_cons]
      simp only [Bool.not_eq_true] at hc
      cases cs.dropWhile fun c => !p c <;> simp

/-! ## Lines that are put together -/

/-- No piece of a text holds the character that the text was cut at. -/
theorem not_mem_of_mem_splitOn {a : Char} {cs piece : List Char} (h : piece ∈ cs.splitOn a) :
    a ∉ piece := by
  induction cs generalizing piece with
  | nil => simp at h; simp [h]
  | cons c cs ih =>
    rw [List.splitOn_cons_eq_if_modifyHead] at h
    split at h
    · rcases List.mem_cons.1 h with rfl | h
      · simp
      · exact ih h
    · rename_i hc
      cases hs : cs.splitOn a with
      | nil => exact absurd hs (List.splitOn_ne_nil _ _)
      | cons head tail =>
        rw [hs, List.modifyHead_cons] at h
        rcases List.mem_cons.1 h with rfl | h
        · have hhead : a ∉ head := ih (by rw [hs]; exact List.mem_cons_self)
          have hne : ¬ a = c := fun e => hc (by simp [e.symm])
          simp [hhead, hne]
        · exact ih (by rw [hs]; exact List.mem_cons_of_mem _ h)

theorem intercalate_cons_eq_append (sep l : List Char) (ls : List (List Char)) :
    ∃ rest, sep.intercalate (l :: ls) = l ++ rest := by
  cases ls with
  | nil => exact ⟨[], by simp⟩
  | cons m ms => exact ⟨sep ++ sep.intercalate (m :: ms), by simp⟩

theorem intercalate_concat_eq_append (sep : List Char) (ls : List (List Char)) (l : List Char) :
    ∃ front, sep.intercalate (ls ++ [l]) = front ++ l := by
  induction ls with
  | nil => exact ⟨[], by simp⟩
  | cons m ms ih =>
    obtain ⟨front, h⟩ := ih
    refine ⟨m ++ sep ++ front, ?_⟩
    rw [List.cons_append, List.intercalate_cons_of_ne_nil (by simp), h]
    simp only [List.append_assoc]

theorem mem_intercalate {sep l : List Char} {ls : List (List Char)} (hl : l ∈ ls) {c : Char}
    (hc : c ∈ l) : c ∈ sep.intercalate ls := by
  induction ls with
  | nil => cases hl
  | cons m ms ih =>
    rcases List.mem_cons.1 hl with rfl | hl
    · obtain ⟨rest, h⟩ := intercalate_cons_eq_append sep l ms
      rw [h]
      exact List.mem_append_left _ hc
    · rw [List.intercalate_cons_of_ne_nil (List.ne_nil_of_mem hl)]
      simp [ih hl]

/-- Only the first and the last line matter to the ends of a text. -/
theorem isTrimmed_intercalate {sep first : List Char} {more : List (List Char)}
    (htrimmed : ∀ l ∈ first :: more, IsTrimmed l) (hfirst : first ≠ [])
    (hlast : (first :: more).getLast? ≠ some []) : IsTrimmed (sep.intercalate (first :: more)) := by
  constructor
  · obtain ⟨rest, h⟩ := intercalate_cons_eq_append sep first more
    rw [h]
    exact dropBlanks_append (htrimmed first List.mem_cons_self).1 hfirst rest
  · rcases List.eq_nil_or_concat (first :: more) with h | ⟨front, last, h⟩
    · cases h
    · rw [List.concat_eq_append] at h
      rw [h] at htrimmed hlast ⊢
      have hne : last ≠ [] := by simpa using hlast
      obtain ⟨start, hstart⟩ := intercalate_concat_eq_append sep front last
      rw [hstart]
      exact dropBlanksEnd_append (htrimmed last (by simp)).2 hne start

theorem stripEnd?_append (xs ending : List Char) : stripEnd? ending (xs ++ ending) = some xs := by
  have hend : ending.isSuffixOf (xs ++ ending) = true :=
    List.isSuffixOf_iff_suffix.2 (List.suffix_append xs ending)
  simp [stripEnd?, hend]

/-! ## Lines that are written and read -/

/-- The text can stand on a line of its own. -/
def IsLine (l : List Char) : Prop :=
  '\n' ∉ l ∧ l.getLast? ≠ some '\r'

instance (l : List Char) : Decidable (IsLine l) :=
  inferInstanceAs (Decidable (_ ∧ _))

theorem isLine_of_isTrimmed {l : List Char} (h : IsTrimmed l) (hl : '\n' ∉ l) : IsLine l :=
  ⟨hl, getLast?_ne_of_isTrimmed h (by decide)⟩

/-- Lines one below the other. -/
def unlines (ls : List (List Char)) : List Char :=
  ls.flatMap (· ++ ['\n'])

theorem chompReturn_of_isLine {l : List Char} (h : IsLine l) : chompReturn l = l := by
  have hend : ['\r'].isSuffixOf l = false := by
    rw [Bool.eq_false_iff]
    intro hsuffix
    obtain ⟨front, rfl⟩ := List.isSuffixOf_iff_suffix.1 hsuffix
    exact h.2 (by simp)
  simp [chompReturn, stripEnd?, hend]

theorem splitOn_unlines {ls : List (List Char)} (h : ∀ l ∈ ls, '\n' ∉ l) :
    (unlines ls).splitOn '\n' = ls ++ [[]] := by
  induction ls with
  | nil => rfl
  | cons l ls ih =>
    have hl : '\n' ∉ l := h l List.mem_cons_self
    have hunlines : unlines (l :: ls) = l ++ '\n' :: unlines ls := by simp [unlines]
    rw [hunlines, List.splitOn_append_cons_self_of_not_mem hl,
      ih fun m hm => h m (List.mem_cons_of_mem _ hm), List.cons_append]

/-- **Reading what was written** gives the same lines. -/
theorem lines_unlines {ls : List (List Char)} (h : ∀ l ∈ ls, IsLine l) : lines (unlines ls) = ls := by
  have hchomp : ls.map chompReturn = ls := by
    rw [List.map_congr_left fun l hl => chompReturn_of_isLine (h l hl), List.map_id']
  simp [lines, splitOn_unlines fun l hl => (h l hl).1, hchomp]

end BlitzDoc.Text
