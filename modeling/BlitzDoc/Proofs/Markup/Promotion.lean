import BlitzDoc.Proofs.Markup.Strip
import Mathlib.Data.List.Infix
import Mathlib.Tactic.IntervalCases

/-!
# Tags with data

Of the tags with data, those of headings, emphasis and code have constructs of their own (`namedTags`);
every other one is handed to the renderer as it is. The name of a heading is read as a number behind an
`h`, however, and a number may have a plus sign and zeros in front: `[h01](T)` is a heading as well.

The main statement is `format_tagged`: a tag with data makes one call of the renderer, and what it is
called with is what the table says, but for these padded headings (`IsPadded`).
-/

namespace BlitzDoc.Markup

/-! ## Names of tags -/

/-- The tags that have constructs of their own, in small letters. -/
def namedTags : List (String × (String → Construct)) :=
  [("h1", .heading 1), ("h2", .heading 2), ("h3", .heading 3), ("h4", .heading 4), ("h5", .heading 5),
   ("h6", .heading 6), ("i", .italic), ("em", .italic), ("code", .code), ("pre", .codeBlock)]

/-- The construct of a tag with data, by the name of the tag. -/
def named (tag data : String) : Construct :=
  match namedTags.lookup (Text.lowerAscii tag) with
  | some construct => construct data
  | none => .html tag (some data)

/-- The letters of a heading tag: the level may have a plus sign and zeros in front. -/
def headingTag (sign : Bool) (zeros level : Nat) : List Char :=
  'h' :: ((if sign then ['+'] else []) ++ List.replicate zeros '0' ++ [Nat.digitChar level])

/-- The tag is a heading's, with something in front of the level. -/
def IsPadded (level : Nat) (tag : String) : Prop :=
  ∃ sign zeros, (sign = true ∨ zeros ≠ 0) ∧ (Text.lowerAscii tag).toList = headingTag sign zeros level

/-! ## Levels of headings -/

theorem digitsValue_cons_zero (ds : List Char) : Text.digitsValue ('0' :: ds) = Text.digitsValue ds := rfl

theorem digitsValue_zeros_append (zeros : Nat) (ds : List Char) :
    Text.digitsValue (List.replicate zeros '0' ++ ds) = Text.digitsValue ds := by
  induction zeros with
  | zero => rfl
  | succ zeros ih => rw [List.replicate_succ, List.cons_append, digitsValue_cons_zero, ih]

/-- Each further digit makes a number that is not zero at least ten times as large. -/
theorem ten_mul_le_digits (n : Nat) (d : Char) (ds : List Char) :
    10 * n ≤ (d :: ds).foldl (fun n d => 10 * n + (d.toNat - '0'.toNat)) n := by
  induction ds generalizing n d with
  | nil => simp
  | cons e ds ih =>
    have := ih (10 * n + (d.toNat - '0'.toNat)) e
    rw [List.foldl_cons]
    omega

theorem digitChar_of_isDigit {d : Char} (h : d.isDigit = true) : Nat.digitChar (d.toNat - 48) = d := by
  have hrange : 48 ≤ d.toNat ∧ d.toNat ≤ 57 := by
    simpa [Char.isDigit, UInt32.le_iff_toNat_le] using h
  rw [← Char.toNat_inj, Nat.toNat_digitChar_of_lt_ten (by omega)]
  omega

/-- Digits with the value of a single digit are that digit behind zeros. -/
theorem eq_zeros_append_of_value {ds : List Char} (hds : ∀ d ∈ ds, d.isDigit = true)
    (hpos : 1 ≤ Text.digitsValue ds) (hle : Text.digitsValue ds ≤ 9) :
    ∃ zeros, ds = List.replicate zeros '0' ++ [Nat.digitChar (Text.digitsValue ds)] := by
  induction ds with
  | nil => simp [Text.digitsValue] at hpos
  | cons d ds ih =>
    rw [List.forall_mem_cons] at hds
    by_cases hzero : d = '0'
    · subst hzero
      rw [digitsValue_cons_zero] at hpos hle ⊢
      obtain ⟨zeros, hzeros⟩ := ih hds.2 hpos hle
      exact ⟨zeros + 1, by rw [List.replicate_succ, List.cons_append, ← hzeros]⟩
    · have hdigit := digitChar_of_isDigit hds.1
      have hne : d.toNat - 48 ≠ 0 := by
        intro h
        rw [h] at hdigit
        exact hzero hdigit.symm
      cases ds with
      | nil => exact ⟨0, by simp [Text.digitsValue, hdigit]⟩
      | cons e ds =>
        -- a second digit would make the value ten or more
        have hten := ten_mul_le_digits (d.toNat - 48) e ds
        have hvalue : Text.digitsValue (d :: e :: ds) =
            (e :: ds).foldl (fun n d => 10 * n + (d.toNat - '0'.toNat)) (d.toNat - 48) := by
          simp [Text.digitsValue]
        omega

/-- The level that a number names, if it is one. -/
def level? (digits : List Char) : Option Nat :=
  if !digits.isEmpty && digits.all Char.isDigit && 1 ≤ Text.digitsValue digits &&
    Text.digitsValue digits ≤ 6 then some (Text.digitsValue digits) else none

theorem headingLevel?_plus (digits : List Char) :
    headingLevel? ('h' :: '+' :: digits) = level? digits := rfl

theorem headingLevel?_of_no_plus {digits : List Char} (h : digits.head? ≠ some '+') :
    headingLevel? ('h' :: digits) = level? digits := by
  cases digits with
  | nil => rfl
  | cons d digits =>
    have hd : d ≠ '+' := by simpa using h
    simp [headingLevel?, level?, hd]

theorem level?_eq_some_iff {digits : List Char} {level : Nat} :
    level? digits = some level ↔
      1 ≤ level ∧ level ≤ 6 ∧ ∃ zeros, digits = List.replicate zeros '0' ++ [Nat.digitChar level] := by
  constructor
  · intro h
    simp only [level?, Option.ite_none_right_eq_some, Bool.and_eq_true, decide_eq_true_eq,
      List.all_eq_true, Option.some.injEq] at h
    obtain ⟨⟨⟨⟨-, hall⟩, hpos⟩, hle⟩, rfl⟩ := h
    exact ⟨hpos, hle, eq_zeros_append_of_value hall hpos (by omega)⟩
  · rintro ⟨hpos, hle, zeros, rfl⟩
    have hdigit : ∀ level ≤ 6, (Nat.digitChar level).isDigit = true ∧
        Text.digitsValue [Nat.digitChar level] = level := by decide
    obtain ⟨hlast, hvalue⟩ := hdigit level hle
    have hzeros : (List.replicate zeros '0').all Char.isDigit = true := by
      rw [List.all_eq_true]
      exact fun c hc => List.eq_of_mem_replicate hc ▸ by decide
    simp [level?, digitsValue_zeros_append, hvalue, hlast, hzeros, hpos, hle]

/-- **The tags of headings**: an `h` and a level from 1 to 6, with a plus sign and zeros between them. -/
theorem headingLevel?_eq_some_iff {cs : List Char} {level : Nat} :
    headingLevel? cs = some level ↔
      1 ≤ level ∧ level ≤ 6 ∧ ∃ sign zeros, cs = headingTag sign zeros level := by
  constructor
  · intro h
    obtain ⟨rest, rfl⟩ : ∃ rest, cs = 'h' :: rest := by
      unfold headingLevel? at h
      split at h
      · exact ⟨_, rfl⟩
      · cases h
    by_cases hplus : rest.head? = some '+'
    · obtain ⟨digits, rfl⟩ := List.head?_eq_some_iff.1 hplus
      rw [headingLevel?_plus, level?_eq_some_iff] at h
      obtain ⟨hpos, hle, zeros, rfl⟩ := h
      exact ⟨hpos, hle, true, zeros, rfl⟩
    · rw [headingLevel?_of_no_plus hplus, level?_eq_some_iff] at h
      obtain ⟨hpos, hle, zeros, rfl⟩ := h
      exact ⟨hpos, hle, false, zeros, rfl⟩
  · rintro ⟨hpos, hle, sign, zeros, rfl⟩
    have hlevel : level? (List.replicate zeros '0' ++ [Nat.digitChar level]) = some level :=
      level?_eq_some_iff.2 ⟨hpos, hle, zeros, rfl⟩
    cases sign with
    | true => exact hlevel
    | false =>
      refine (headingLevel?_of_no_plus ?_).trans hlevel
      have hdigit : ∀ level ≤ 6, Nat.digitChar level ≠ '+' := by decide
      cases zeros with
      | zero => simp [hdigit level hle]
      | succ zeros => simp [List.replicate_succ]

/-! ## The construct of a tag -/

/-- The table has the headings that are not padded. -/
theorem lookup_headingTag {level : Nat} (hpos : 1 ≤ level) (hle : level ≤ 6) :
    namedTags.lookup (String.ofList (headingTag false 0 level)) = some (.heading level) := by
  interval_cases level <;> rfl

/-- The table has no longer tags that start with an `h`. -/
theorem lookup_headingTag_of_padded {sign : Bool} {zeros : Nat} (h : sign = true ∨ zeros ≠ 0)
    (level : Nat) : namedTags.lookup (String.ofList (headingTag sign zeros level)) = none := by
  have hshort : ∀ name ∈ namedTags.map (·.1), name.toList.head? = some 'h' → name.toList.length = 2 := by
    decide
  rw [List.lookup_eq_none_iff]
  intro entry hentry
  rw [bne_iff_ne]
  intro heq
  have hlength := hshort entry.1 (List.mem_map_of_mem hentry) (by rw [← heq, String.toList_ofList]; rfl)
  rw [← heq, String.toList_ofList] at hlength
  simp only [headingTag, List.length_cons, List.length_append, List.length_replicate,
    List.length_nil] at hlength
  rcases h with rfl | hzeros
  · simp at hlength
  · omega

/-- The construct of a tag that is no heading's is what its name says. -/
theorem promote_of_no_level {tag : String} (h : headingLevel? (Text.lowerAscii tag).toList = none)
    (data : String) : promote tag data = named tag data := by
  have hlevels : ∀ name ∈ ["h1", "h2", "h3", "h4", "h5", "h6"], headingLevel? name.toList ≠ none := by
    decide
  have hne : ∀ name ∈ ["h1", "h2", "h3", "h4", "h5", "h6"], (Text.lowerAscii tag == name) = false := by
    intro name hname
    rw [beq_eq_false_iff_ne]
    rintro rfl
    exact hlevels _ hname h
  simp only [List.mem_cons, List.not_mem_nil, or_false, forall_eq_or_imp, forall_eq] at hne
  simp only [promote, h, named, namedTags, List.lookup_cons, hne]
  by_cases hi : Text.lowerAscii tag = "i"
  · simp [hi]
  by_cases hem : Text.lowerAscii tag = "em"
  · simp [hem]
  by_cases hcode : Text.lowerAscii tag = "code"
  · simp [hcode]
  by_cases hpre : Text.lowerAscii tag = "pre"
  · simp [hpre]
  · simp [hi, hem, hcode, hpre, beq_false_of_ne hi, beq_false_of_ne hem, beq_false_of_ne hcode,
      beq_false_of_ne hpre]

/-- A padded heading is a heading, though the table does not have it. -/
theorem promote_of_isPadded {tag : String} {level : Nat} (hpos : 1 ≤ level) (hle : level ≤ 6)
    (h : IsPadded level tag) (data : String) :
    promote tag data = .heading level data ∧ named tag data = .html tag (some data) := by
  obtain ⟨sign, zeros, hpadded, htag⟩ := h
  have hlevel := headingLevel?_eq_some_iff.2 ⟨hpos, hle, sign, zeros, htag⟩
  have hsmall : Text.lowerAscii tag = String.ofList (headingTag sign zeros level) := by
    rw [← htag, String.ofList_toList]
  refine ⟨by simp only [promote, hlevel], ?_⟩
  simp only [named, hsmall, lookup_headingTag_of_padded hpadded]

/-- A heading that is not padded is in the table. -/
theorem promote_of_level {tag : String} {level : Nat} (hpos : 1 ≤ level) (hle : level ≤ 6)
    (htag : (Text.lowerAscii tag).toList = headingTag false 0 level) (data : String) :
    promote tag data = named tag data := by
  have hlevel := headingLevel?_eq_some_iff.2 ⟨hpos, hle, false, 0, htag⟩
  have hsmall : Text.lowerAscii tag = String.ofList (headingTag false 0 level) := by
    rw [← htag, String.ofList_toList]
  have hpromote : promote tag data = .heading level data := by simp only [promote, hlevel]
  rw [hpromote]
  simp only [named, hsmall, lookup_headingTag hpos hle]

/-- **What the table says, and where it ends.** The construct of a tag is what the table says exactly if
the tag is no padded heading. -/
theorem promote_eq_named_iff (tag data : String) :
    promote tag data = named tag data ↔ ∀ level, 1 ≤ level → level ≤ 6 → ¬ IsPadded level tag := by
  constructor
  · intro h level hpos hle hpadded
    obtain ⟨hpromote, hnamed⟩ := promote_of_isPadded hpos hle hpadded data
    rw [hpromote, hnamed] at h
    cases h
  · intro hnone
    cases hlevel : headingLevel? (Text.lowerAscii tag).toList with
    | none => exact promote_of_no_level hlevel data
    | some level =>
      obtain ⟨hpos, hle, sign, zeros, htag⟩ := headingLevel?_eq_some_iff.1 hlevel
      by_cases hpadded : sign = true ∨ zeros ≠ 0
      · exact absurd ⟨sign, zeros, hpadded, htag⟩ (hnone level hpos hle)
      · obtain ⟨rfl, rfl⟩ : sign = false ∧ zeros = 0 := by simpa using hpadded
        exact promote_of_level hpos hle htag data

/-! ## Spans of tags with data -/

/-- Every delimiter that is opened is closed, and none is closed before it is opened. -/
def IsMatched (opening closing : Char) (cs : List Char) : Prop :=
  cs.count opening = cs.count closing ∧
    ∀ front ∈ cs.inits, front.count closing ≤ front.count opening

instance (opening closing : Char) (cs : List Char) : Decidable (IsMatched opening closing cs) :=
  inferInstanceAs (Decidable (_ ∧ _))

/-- Matched delimiters do not close the one in front of them. -/
theorem enclosed_append {opening closing : Char} (hne : opening ≠ closing) {cs : List Char}
    (hmatched : IsMatched opening closing cs) (rest : List Char) :
    enclosed opening closing (cs ++ closing :: rest) = (cs, rest) := by
  have hfind : (List.range (cs ++ closing :: rest).length).find?
      (closesAt opening closing (cs ++ closing :: rest)) = some cs.length := by
    rw [List.find?_range_eq_some]
    refine ⟨by simp [closesAt, hmatched.1], by simp, fun n hn => ?_⟩
    -- a delimiter that closes before the end would leave more closed than opened
    rw [Bool.not_eq_true', Bool.eq_false_iff]
    intro hcloses
    simp only [closesAt, Bool.and_eq_true, beq_iff_eq, List.getElem?_append_left hn,
      List.take_append_of_le_length (Nat.le_of_lt hn)] at hcloses
    have hfront : cs.take (n + 1) = cs.take n ++ [closing] := by
      rw [List.take_add_one, hcloses.1]
      rfl
    have hle := hmatched.2 (cs.take (n + 1)) ((List.mem_inits _ _).2 (List.take_prefix _ _))
    rw [hfront, List.count_append, List.count_append, List.count_singleton_self, hcloses.2,
      List.count_singleton, if_neg (by simpa using hne.symm)] at hle
    omega
  rw [enclosed, hfind]
  simp

theorem isMatched_of_not_mem {opening closing : Char} {cs : List Char} (hopen : opening ∉ cs)
    (hclose : closing ∉ cs) : IsMatched opening closing cs := by
  refine ⟨by rw [List.count_eq_zero.2 hopen, List.count_eq_zero.2 hclose], fun front hfront => ?_⟩
  have hinit := (List.mem_inits _ _).1 hfront
  rw [List.count_eq_zero.2 fun hmem => hclose (hinit.subset hmem)]
  exact Nat.zero_le _

/-- Matched delimiters stay matched when other characters are dropped. -/
theorem IsMatched.filter {opening closing : Char} {cs : List Char} (h : IsMatched opening closing cs)
    {p : Char → Bool} (hopen : p opening = true) (hclose : p closing = true) :
    IsMatched opening closing (cs.filter p) := by
  refine ⟨by rw [List.count_filter hopen, List.count_filter hclose, h.1], fun front hfront => ?_⟩
  obtain ⟨l, hl, rfl⟩ := List.prefix_filter_iff.1 ((List.mem_inits _ _).1 hfront)
  rw [List.count_filter hopen, List.count_filter hclose]
  exact h.2 l ((List.mem_inits _ _).2 hl)

/-! ## Formatting a tag with data -/

/-- A text as it is formatted: with the flag, without its line breaks. -/
def kept (strip : Bool) (text : String) : String :=
  if strip then dropBreaks text else text

theorem isBlank_of_isBreak {c : Char} (h : isBreak c = true) : Text.isBlank c = true := by
  have hc : c = '\n' ∨ c = '\r' := by simpa [isBreak] using h
  rcases hc with rfl | rfl <;> decide

/-- Line breaks are blanks, so nothing else is dropped with them. -/
theorem filter_kept (strip : Bool) (text : String) :
    (kept strip text).toList.filter (fun c => !Text.isBlank c) =
      text.toList.filter fun c => !Text.isBlank c := by
  cases strip with
  | false => rfl
  | true =>
    simp only [kept, if_true, dropBreaks, String.toList_ofList, List.filter_filter]
    refine List.filter_congr fun c _ => ?_
    cases hbreak : isBreak c with
    | false => simpa [isBreak] using fun _ => hbreak
    | true => simp [isBlank_of_isBreak hbreak]

theorem trim_kept_ne_empty (strip : Bool) {tag : String} (h : Text.trim tag ≠ "") :
    Text.trim (kept strip tag) ≠ "" := by
  rw [ne_eq, Text.trim_eq_empty_iff, filter_kept, ← Text.trim_eq_empty_iff]
  exact h

theorem isLineBreak_trim_kept (strip : Bool) (tag : String) :
    isLineBreak (Text.trim (kept strip tag)) = isLineBreak tag := by
  have htrim (s : String) := Text.filter_trim (q := fun c => !Text.isBlank c) (by simp) s
  simp only [isLineBreak, htrim, filter_kept]

variable {m : Type → Type} [Monad m] [LawfulMonad m] (render : Construct → m String)

theorem format_kept (strip : Bool) (text : String) :
    format render strip text = format render false (kept strip text) := by
  cases strip with
  | false => rfl
  | true => exact format_strip render text

theorem front_tagged {tag data : List Char} (htag : ∀ c ∈ tag, c ≠ '[' ∧ c ≠ ']')
    (hdata : IsMatched '(' ')' data) :
    front '[' (tag ++ ']' :: '(' :: (data ++ [')'])) = (bracketMeaning tag (some data), []) := by
  have htags : IsMatched '[' ']' tag :=
    isMatched_of_not_mem (fun h => (htag _ h).1 rfl) fun h => (htag _ h).2 rfl
  have hspan : bracketSpan (tag ++ ']' :: '(' :: (data ++ [')'])) = (tag, some data, []) := by
    simp [bracketSpan, enclosed_append (by decide) htags, enclosed_append (by decide) hdata]
  simp [front, hspan]

/-- A tag with data makes one call of the renderer. -/
theorem format_tag (strip : Bool) {tag data : String} (hblank : Text.trim tag ≠ "")
    (htag : ∀ c ∈ tag.toList, c ≠ '[' ∧ c ≠ ']') (hbreak : isLineBreak tag = false)
    (hdata : IsMatched '(' ')' data.toList) :
    format render strip ("[" ++ tag ++ "](" ++ data ++ ")") =
      render (promote (Text.trim (kept strip tag)) (kept strip data)) := by
  have htext : (kept strip ("[" ++ tag ++ "](" ++ data ++ ")")).toList =
      '[' :: ((kept strip tag).toList ++ ']' :: '(' :: ((kept strip data).toList ++ [')'])) := by
    cases strip <;> simp [kept, dropBreaks]
  have htags : ∀ c ∈ (kept strip tag).toList, c ≠ '[' ∧ c ≠ ']' := by
    cases strip with
    | false => exact htag
    | true =>
      intro c hc
      simp only [kept, if_true, dropBreaks, String.toList_ofList] at hc
      exact htag c (List.mem_of_mem_filter hc)
  have hmatched : IsMatched '(' ')' (kept strip data).toList := by
    cases strip with
    | false => exact hdata
    | true =>
      simp only [kept, if_true, dropBreaks, String.toList_ofList]
      exact hdata.filter (by decide) (by decide)
  have hmeaning : bracketMeaning (kept strip tag).toList (some (kept strip data).toList) =
      .construct (promote (Text.trim (kept strip tag)) (kept strip data)) := by
    simp [bracketMeaning, trim_kept_ne_empty strip hblank, isLineBreak_trim_kept, hbreak]
  rw [format_kept, format_eq_formatSpans, htext, formatSpans_cons, front_tagged htags hmatched, hmeaning]
  simp [replaceBy, formatSpans]

/-- **A tag with data is promoted by its name.** The renderer is called once. It is called with the
construct that the table has for the tag or, if it has none, with the tag itself, exactly if the tag is
no padded heading; that one is a heading though the table does not have it. With the flag, line breaks
are dropped from the tag and the data first. -/
theorem format_tagged (strip : Bool) {tag data : String} (hblank : Text.trim tag ≠ "")
    (htag : ∀ c ∈ tag.toList, c ≠ '[' ∧ c ≠ ']') (hbreak : isLineBreak tag = false)
    (hdata : IsMatched '(' ')' data.toList) :
    let name := Text.trim (kept strip tag)
    let text := kept strip data
    format render strip ("[" ++ tag ++ "](" ++ data ++ ")") = render (promote name text) ∧
      (promote name text = named name text ↔ ∀ level, 1 ≤ level → level ≤ 6 → ¬ IsPadded level name) ∧
      ∀ level, 1 ≤ level → level ≤ 6 → IsPadded level name →
        promote name text = .heading level text ∧ named name text = .html name (some text) := by
  intro name text
  exact ⟨format_tag render strip hblank htag hbreak hdata, promote_eq_named_iff name text,
    fun level hpos hle hpadded => promote_of_isPadded hpos hle hpadded text⟩

/-- The tag of a heading among blanks, with parentheses and line breaks in its data. -/
theorem format_tagged_heading :
    format keepCalls true "[ H3\t](a (b)\r\n)" = keepCalls (.heading 3 "a (b)") ∧
      ∀ level, 1 ≤ level → level ≤ 6 → ¬ IsPadded level (Text.trim (kept true " H3\t")) := by
  have hblank : Text.trim " H3\t" ≠ "" := by decide
  have htag : ∀ c ∈ " H3\t".toList, c ≠ '[' ∧ c ≠ ']' := by simp
  have hbreak : isLineBreak " H3\t" = false := by decide +kernel
  have hdata : IsMatched '(' ')' "a (b)\r\n".toList := by decide
  obtain ⟨hformat, hnamed, -⟩ := format_tagged keepCalls true hblank htag hbreak hdata
  have hheading : promote (Text.trim (kept true " H3\t")) (kept true "a (b)\r\n") =
      .heading 3 "a (b)" := by decide +kernel
  rw [hheading] at hformat hnamed
  exact ⟨hformat, hnamed.1 (by decide +kernel)⟩

/-- **A heading whose level has a zero in front is one**, though no tag `h01` is named. -/
theorem format_padded_heading :
    format keepCalls false "[h01](T)" = keepCalls (.heading 1 "T") ∧
      named "h01" "T" = .html "h01" (some "T") ∧
      ((format keepCalls false "[h01](T)").run []).run = ("*", [.heading 1 "T"]) := by
  have hformat : format keepCalls false ("[" ++ "h01" ++ "](" ++ "T" ++ ")") =
      keepCalls (promote (Text.trim (kept false "h01")) (kept false "T")) :=
    format_tag keepCalls false (by decide) (by simp) (by decide +kernel) (by decide)
  have hheading : promote (Text.trim (kept false "h01")) (kept false "T") = .heading 1 "T" := by
    decide +kernel
  rw [hheading] at hformat
  refine ⟨hformat, by decide +kernel, ?_⟩
  rw [show "[h01](T)" = "[" ++ "h01" ++ "](" ++ "T" ++ ")" by decide, hformat]
  decide

end BlitzDoc.Markup
