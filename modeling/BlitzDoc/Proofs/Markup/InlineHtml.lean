import BlitzDoc.Markup.Html
import BlitzDoc.Proofs.Markup.Strip

/-!
# Tags in a text

A text without marked words and brackets has nothing in it but characters and tags (`partsOf`), and as
HTML each tag should come out as the tag that it is (`Part.kept`). A tag in angle brackets and a link in
square brackets are one construct, however, and the two are told apart by their data alone: a tag whose
data has no equals sign is taken for a link (`Part.isMistaken`), such as `<input disabled>`.

The main statement is `markup_tags`: what comes out, part by part (`Part.shown`), and that tags are kept
exactly if none of them is mistaken. A mistaken tag cannot be made up for by the rest of the text, since
no part comes out shorter than it should (`length_join_shown`).
-/

namespace BlitzDoc.Markup.Html

/-! ## Parts of a text -/

/-- A part of a text: a character, or a tag by what stands between its angle brackets. -/
inductive Part where
  | char (c : Char)
  | tag (raw : List Char)
deriving DecidableEq, Repr

/-- The parts of a text. A tag begins with a letter or a slash, and it ends at the next closing
bracket. -/
def partsOf : List Char → List Part
  | [] => []
  | c :: cs =>
    if c = '<' ∧ startsTag cs = true then
      .tag (cs.takeWhile (· != '>')) :: partsOf (cs.dropWhile (· != '>')).tail
    else .char c :: partsOf cs
termination_by cs => cs.length
decreasing_by
  · have := Text.length_dropWhile_le (· != '>') cs
    simp only [List.length_tail, List.length_cons]
    omega
  · simp

/-- The name of a tag: its first word. -/
def tagName (raw : List Char) : String :=
  String.ofList ((Text.trim (String.ofList raw)).toList.takeWhile fun c => !Text.isBlank c)

/-- What follows the name of a tag. -/
def tagRest (raw : List Char) : String :=
  Text.trim (String.ofList ((Text.trim (String.ofList raw)).toList.dropWhile fun c => !Text.isBlank c))

namespace Part

/-- The part as it was written. -/
def source : Part → List Char
  | char c => [c]
  | tag raw => '<' :: raw ++ ['>']

/-- The part as it should come out. Of tags only line breaks are left out. -/
def kept : Part → String
  | char c => String.singleton c
  | tag raw =>
    if isLineBreak (Text.trim (String.ofList raw)) then ""
    else if tagRest raw = "" then "<" ++ tagName raw ++ ">"
    else "<" ++ tagName raw ++ " " ++ tagRest raw ++ ">"

/-- A tag that is taken for a link: something follows its name, but no value of an attribute. -/
def isMistaken : Part → Bool
  | char _ => false
  | tag raw =>
    !isLineBreak (Text.trim (String.ofList raw)) && tagRest raw != "" &&
      !(tagRest raw).toList.contains '='

/-- The part as it comes out. -/
def shown : Part → String
  | char c => String.singleton c
  | tag raw =>
    if (tag raw).isMistaken then
      "<a href=\"" ++ escape (tagRest raw) ++ "\">" ++ escape (tagName raw) ++ "</a>"
    else (tag raw).kept

end Part

/-- The parts of a text are all of it, where every tag that is opened is closed. -/
theorem flatMap_source_partsOf {cs : List Char}
    (h : ∀ behind, '<' :: behind <:+ cs → startsTag behind = true → '>' ∈ behind) :
    (partsOf cs).flatMap Part.source = cs := by
  fun_induction partsOf cs with
  | case1 => rfl
  | case2 c cs htag ih =>
    obtain ⟨rfl, hstarts⟩ := htag
    have hsplit := List.takeWhile_append_dropWhile (p := (· != '>')) (l := cs)
    have hclosed : cs.dropWhile (· != '>') = '>' :: (cs.dropWhile (· != '>')).tail := by
      cases hdrop : cs.dropWhile (· != '>') with
      | nil =>
        have hall := List.dropWhile_eq_nil_iff.1 hdrop '>' (h cs List.suffix_rfl hstarts)
        simp at hall
      | cons d ds =>
        have hhead := List.head?_dropWhile_not (· != '>') cs
        simp only [hdrop, List.head?_cons] at hhead
        simp_all
    have hrest := ih fun behind hbehind => h behind <| hbehind.trans <|
      ((List.tail_suffix _).trans (List.dropWhile_suffix _)).trans (List.suffix_cons '<' cs)
    rw [List.flatMap_cons, hrest]
    simp only [Part.source, List.cons_append, List.append_assoc, List.nil_append]
    rw [← hclosed, hsplit]
  | case3 c cs _ ih =>
    have hrest := ih fun behind hbehind => h behind (hbehind.trans (List.suffix_cons c cs))
    rw [List.flatMap_cons, hrest]
    rfl

/-! ## What comes out -/

/-- A tag is handed to the renderer as its name and what follows it. -/
theorem angleMeaning_eq (raw : List Char) :
    angleMeaning raw =
      if isLineBreak (Text.trim (String.ofList raw)) then .literal ""
      else .construct (.html (tagName raw) (if tagRest raw = "" then none else some (tagRest raw))) :=
  rfl

theorem replaceBy_angleMeaning (formatCell : String → Id String) (raw : List Char) :
    (replaceBy formatCell (fun k => pure (construct k)) (angleMeaning raw)).run =
      (Part.tag raw).shown := by
  rw [angleMeaning_eq, Part.shown, Part.isMistaken, Part.kept]
  cases hbreak : isLineBreak (Text.trim (String.ofList raw)) with
  | true => rfl
  | false =>
    by_cases hrest : tagRest raw = ""
    · simp [replaceBy, construct, hrest]
    · simp [replaceBy, construct, hrest, isLink]

/-- The renderer takes a text part by part. -/
theorem formatSpans_eq_join {cs : List Char} (h : ∀ c ∈ cs, c ≠ '@' ∧ c ≠ '#' ∧ c ≠ '[') :
    (formatSpans (m := Id) (fun k => pure (construct k)) cs).run =
      String.join ((partsOf cs).map Part.shown) := by
  fun_induction partsOf cs with
  | case1 => rw [formatSpans]; rfl
  | case2 c cs htag ih =>
    obtain ⟨rfl, hstarts⟩ := htag
    have hfront : front '<' cs =
        (angleMeaning (cs.takeWhile (· != '>')), (cs.dropWhile (· != '>')).tail) := by
      simp [front, hstarts]
    have hrest := ih fun c hc => h c (List.mem_cons_of_mem _
      ((List.dropWhile_suffix _).subset (List.mem_of_mem_tail hc)))
    rw [formatSpans_cons, hfront]
    simp [replaceBy_angleMeaning, hrest]
  | case3 c cs htag ih =>
    obtain ⟨hat, hhash, hbracket⟩ := h c List.mem_cons_self
    have hfront : front c cs = (.literal (String.singleton c), cs) := by
      simp [front, hat, hhash, hbracket, htag]
    have hrest := ih fun c hc => h c (List.mem_cons_of_mem _ hc)
    rw [formatSpans_cons, hfront]
    simp [replaceBy, hrest, Part.shown]

/-! ## Mistaken tags -/

theorem length_le_escape (s : String) : s.length ≤ (escape s).length := by
  have hchar : ∀ c, 1 ≤ (escapeChar c).length := by
    intro c
    unfold escapeChar
    split <;> simp
  rw [escape, String.length_ofList, ← String.length_toList]
  induction s.toList with
  | nil => simp
  | cons c cs ih =>
    have := hchar c
    simp only [List.flatMap_cons, List.length_cons, List.length_append]
    omega

/-- No part comes out shorter than it should, and a mistaken tag comes out longer. -/
theorem length_kept_add_le (p : Part) : p.kept.length + p.isMistaken.toNat ≤ p.shown.length := by
  cases p with
  | char c => simp [Part.kept, Part.isMistaken, Part.shown]
  | tag raw =>
    cases hmistaken : (Part.tag raw).isMistaken with
    | false => simp [Part.shown, hmistaken]
    | true =>
      have hname := length_le_escape (tagName raw)
      have hrest := length_le_escape (tagRest raw)
      have hkept : (Part.tag raw).kept.length ≤ (tagName raw).length + (tagRest raw).length + 3 := by
        have hmarks : "<".length = 1 ∧ " ".length = 1 ∧ ">".length = 1 := by decide
        rw [Part.kept]
        split
        · simp
        split
        · simp only [String.length_append]
          omega
        · simp only [String.length_append]
          omega
      have hlink : "<a href=\"".length = 9 := by decide
      rw [Part.shown, if_pos hmistaken]
      simp only [String.length_append, Bool.toNat_true]
      omega

theorem length_join_shown (ps : List Part) :
    (String.join (ps.map Part.kept)).length + ps.countP Part.isMistaken ≤
      (String.join (ps.map Part.shown)).length := by
  induction ps with
  | nil => simp
  | cons p ps ih =>
    have hpart := length_kept_add_le p
    simp only [List.map_cons, String.join_cons, String.length_append, List.countP_cons]
    cases hmistaken : p.isMistaken with
    | false =>
      simp only [hmistaken, Bool.toNat_false, Bool.false_eq_true, if_false] at hpart ⊢
      omega
    | true =>
      simp only [hmistaken, Bool.toNat_true, if_true] at hpart ⊢
      omega

/-- **Every tag is kept exactly if none is mistaken.** -/
theorem join_shown_eq_iff (ps : List Part) :
    String.join (ps.map Part.shown) = String.join (ps.map Part.kept) ↔
      ∀ p ∈ ps, p.isMistaken = false := by
  constructor
  · intro h
    have hlength := length_join_shown ps
    rw [h] at hlength
    have hnone : ps.countP Part.isMistaken = 0 := by omega
    simpa using List.countP_eq_zero.1 hnone
  · intro h
    congr 1
    refine List.map_congr_left fun p hp => ?_
    cases p with
    | char c => rfl
    | tag raw => simp [Part.shown, h _ hp]

/-- **What becomes of the tags of a text** without marked words and brackets. The parts are all of the
text but its line breaks. A mistaken tag comes out as a link, and everything else as it should; so tags
are kept exactly if none is mistaken. -/
theorem markup_tags {text : String} (h : ∀ c ∈ text.toList, c ≠ '@' ∧ c ≠ '#' ∧ c ≠ '[')
    (hclosed : ∀ behind, '<' :: behind <:+ (dropBreaks text).toList → startsTag behind = true →
      '>' ∈ behind) :
    let parts := partsOf (dropBreaks text).toList
    parts.flatMap Part.source = (dropBreaks text).toList ∧
      markup text true = String.join (parts.map Part.shown) ∧
      (markup text true = String.join (parts.map Part.kept) ↔ ∀ p ∈ parts, p.isMistaken = false) := by
  intro parts
  have hplain : ∀ c ∈ (dropBreaks text).toList, c ≠ '@' ∧ c ≠ '#' ∧ c ≠ '[' := by
    intro c hc
    rw [dropBreaks, String.toList_ofList] at hc
    exact h c (List.mem_filter.1 hc).1
  have hmarkup : markup text true = String.join (parts.map Part.shown) := by
    rw [markup, if_pos rfl, formatPure, format_true_eq_formatSpans]
    exact formatSpans_eq_join hplain
  refine ⟨flatMap_source_partsOf hclosed, hmarkup, ?_⟩
  rw [hmarkup]
  exact join_shown_eq_iff parts

/-- Tags with values and without them, and line breaks in some of their forms. -/
def taggedText : String :=
  "1 < 2<br />\n<font  color=red >x</font><hr><B\nR>"

theorem markup_taggedText :
    markup taggedText true = "1 < 2<font color=red>x</font><hr>" ∧
      ∀ p ∈ partsOf (dropBreaks taggedText).toList, p.isMistaken = false := by
  have hplain : ∀ c ∈ taggedText.toList, c ≠ '@' ∧ c ≠ '#' ∧ c ≠ '[' := by
    have hall : taggedText.toList.all (fun c => c != '@' && c != '#' && c != '[') = true := by
      decide +kernel
    simpa [and_assoc] using hall
  have hkept : ∀ p ∈ partsOf (dropBreaks taggedText).toList, p.isMistaken = false := by decide +kernel
  have hclosed : ∀ behind, '<' :: behind <:+ (dropBreaks taggedText).toList →
      startsTag behind = true → '>' ∈ behind := by
    intro behind hbehind hstarts
    -- the text ends in a closing bracket
    have hlast : (dropBreaks taggedText).toList.getLast? = some '>' := by decide +kernel
    obtain ⟨before, hbefore⟩ := hbehind
    cases behind with
    | nil => cases hstarts
    | cons c cs =>
      rw [← hbefore, List.getLast?_append_cons, List.getLast?_cons_cons] at hlast
      exact List.mem_of_getLast? hlast
  refine ⟨?_, hkept⟩
  rw [(markup_tags hplain hclosed).2.2.2 hkept]
  decide +kernel

/-- **An attribute without a value makes a link of its tag.** -/
theorem markup_mistakes_attribute :
    markup "<input disabled>" true = "<a href=\"disabled\">input</a>" ∧
      partsOf (dropBreaks "<input disabled>").toList = [.tag "input disabled".toList] ∧
      (Part.tag "input disabled".toList).kept = "<input disabled>" := by
  refine ⟨?_, by decide +kernel, by decide +kernel⟩
  rw [markup, if_pos rfl, formatPure, format_true_eq_formatSpans]
  decide +kernel

end BlitzDoc.Markup.Html
