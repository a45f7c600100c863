import BlitzDoc.CommandPage
import BlitzDoc.Markup.Html
import BlitzDoc.Markup.Plain
import BlitzDoc.Proofs.Markup.Words
import BlitzDoc.Proofs.Text.Search

/-!
# The text of HTML

`stripTags` goes over a piece of HTML eight times: line break tags become line feeds, the other tags are
dropped, and six entities are decoded one after the other. `ReadsAs` says what text comes of a piece of
HTML wherever it stands, so that what is put together reads as its parts do (`ReadsAs.append`). Tags
read as nothing and escaped texts as they were before (`readsAs_escape`).

Entities are decoded in an order in which nothing is decoded twice: a text that is written with some of
them (`Coded`) is written with one less after each pass (`Coded.replaceAll`). Escaping is in order as
well: done in passes it starts with the ampersand, so no pass escapes what another one wrote
(`replaceEach_escapes`). Hence decoding undoes escaping, whatever entities the text has of its own
(`decode_escape`).

The main statement is `stripTags_markup`: a text of words has the same text as HTML and as plain text.
-/

namespace BlitzDoc.CommandPage

/-! ## Entities -/

/-- A text with some characters written as entities, and the text that it stands for. An ampersand is
written as an entity as long as there is any left to be decoded. -/
inductive Coded (es : List (String × String)) : List Char → List Char → Prop where
  | nil : Coded es [] []
  | plain {c : Char} {t u : List Char} (hc : c = '&' → es = []) (h : Coded es t u) :
    Coded es (c :: t) (c :: u)
  | entity {e : String × String} {t u : List Char} (he : e ∈ es) (h : Coded es t u) :
    Coded es (e.1.toList ++ t) (e.2.toList ++ u)

/-- The entities can be decoded one after the other: each begins with an ampersand, none is found inside
one behind it, and only the last stands for an ampersand. -/
def inOrder : List (String × String) → Bool
  | [] => true
  | e :: es =>
    e.1.toList.head? == some '&' && (es.isEmpty || !e.2.toList.contains '&')
      && es.all (fun later => Text.isFree e.1.toList later.1.toList) && inOrder es

theorem Coded.append {es : List (String × String)} {t u t' u' : List Char} (h : Coded es t u)
    (h' : Coded es t' u') : Coded es (t ++ t') (u ++ u') := by
  induction h with
  | nil => exact h'
  | plain hc _ ih => exact .plain hc ih
  | entity he _ ih =>
    rw [List.append_assoc, List.append_assoc]
    exact .entity he ih

theorem coded_of_plain {es : List (String × String)} {t : List Char} (h : '&' ∈ t → es = []) :
    Coded es t t := by
  induction t with
  | nil => exact .nil
  | cons c t ih =>
    refine .plain (fun hc => h (by simp [hc])) (ih fun hmem => h (List.mem_cons_of_mem c hmem))

theorem eq_of_coded_nil {t u : List Char} (h : Coded [] t u) : t = u := by
  generalize hes : ([] : List (String × String)) = es at h
  induction h with
  | nil => rfl
  | plain _ _ ih => rw [ih]
  | entity he _ _ =>
    subst hes
    cases he

/-- **One pass.** Decoding the first of the entities leaves a text that is written with the others. -/
theorem Coded.replaceAll {e : String × String} {es : List (String × String)} {t u : List Char}
    (horder : inOrder (e :: es) = true) (h : Coded (e :: es) t u) :
    Coded es (Text.replaceAll e.1.toList e.2.toList t) u := by
  simp only [inOrder, Bool.and_eq_true, beq_iff_eq, List.all_eq_true] at horder
  obtain ⟨⟨⟨hhead, hlast⟩, hfree⟩, -⟩ := horder
  have hne : e.1.toList ≠ [] := by
    intro hempty
    simp [hempty] at hhead
  induction h with
  | nil => exact .nil
  | @plain c t u hc _ ih =>
    have hamp : '&' ∉ [c] := by
      intro hmem
      exact absurd (hc (List.mem_singleton.1 hmem).symm) (List.cons_ne_nil e es)
    have hstep := Text.replaceAll_append (Text.avoids_of_head hhead hamp) e.2.toList t
    rw [List.singleton_append] at hstep
    rw [hstep]
    exact .plain (fun hamp => absurd (hc hamp) (List.cons_ne_nil e es)) ih
  | @entity d t u hd _ ih =>
    rcases List.mem_cons.1 hd with rfl | hd
    · rw [Text.replaceAll_pattern hne]
      refine Coded.append (coded_of_plain fun hamp => ?_) ih
      simpa [hamp] using hlast
    · rw [Text.replaceAll_append (Text.avoids_of_isFree (hfree d hd))]
      exact .entity hd ih

theorem foldl_replaceAll_of_coded {es : List (String × String)} (horder : inOrder es = true)
    {t u : List Char} (h : Coded es t u) :
    es.foldl (fun s e => Text.replaceAll e.1.toList e.2.toList s) t = u := by
  induction es generalizing t with
  | nil => exact eq_of_coded_nil h
  | cons e es ih =>
    have hrest : inOrder es = true := by
      simp only [inOrder, Bool.and_eq_true] at horder
      exact horder.2
    exact ih hrest (h.replaceAll horder)

theorem decodeEntities_of_coded {t u : List Char} (h : Coded entities t u) : decodeEntities t = u :=
  foldl_replaceAll_of_coded (by decide) h

/-! ## Escaped texts -/

theorem coded_escapeChar (c : Char) : Coded entities (Markup.Html.escapeChar c) [c] := by
  unfold Markup.Html.escapeChar
  split
  · exact .entity (e := ("&amp;", "&")) (by decide) .nil
  · exact .entity (e := ("&lt;", "<")) (by decide) .nil
  · exact .entity (e := ("&gt;", ">")) (by decide) .nil
  · exact .entity (e := ("&quot;", "\"")) (by decide) .nil
  · rename_i hamp _ _ _
    exact .plain (fun h => absurd h hamp) .nil

theorem coded_escape (s : String) : Coded entities (Markup.Html.escape s).toList s.toList := by
  rw [Markup.Html.escape, String.toList_ofList]
  induction s.toList with
  | nil => exact .nil
  | cons c cs ih => exact (coded_escapeChar c).append ih

/-- An escaped text has no angle brackets and no quotes. -/
theorem not_mem_escape {c : Char} (h : c ∈ ['<', '>', '"']) (s : String) :
    c ∉ (Markup.Html.escape s).toList := by
  rw [Markup.Html.escape, String.toList_ofList, List.mem_flatMap]
  rintro ⟨d, -, hc⟩
  unfold Markup.Html.escapeChar at hc
  split at hc
  · revert c; decide
  · revert c; decide
  · revert c; decide
  · revert c; decide
  · obtain rfl := List.mem_singleton.1 hc
    simp_all

/-! ## Reading HTML -/

/-- Wherever the piece of HTML stands, it reads as the text: no line break tag begins in it, and without
its tags it is the text with entities. -/
structure ReadsAs (html text : List Char) : Prop where
  noBreak : Text.Avoids (fun t => (breakLength? t).isSome) html
  exists_coded : ∃ coded, Coded entities coded text ∧
    ∀ rest, dropTagsFrom none (html ++ rest) = coded ++ dropTagsFrom none rest

theorem ReadsAs.append {html html' text text' : List Char} (h : ReadsAs html text)
    (h' : ReadsAs html' text') : ReadsAs (html ++ html') (text ++ text') := by
  obtain ⟨coded, hcoded, hdrop⟩ := h.exists_coded
  obtain ⟨coded', hcoded', hdrop'⟩ := h'.exists_coded
  refine ⟨h.noBreak.append h'.noBreak, coded ++ coded', hcoded.append hcoded', fun rest => ?_⟩
  rw [List.append_assoc, hdrop, hdrop', List.append_assoc]

theorem readsAs_flatMap {α : Type} {f g : α → List Char} {as : List α}
    (h : ∀ a ∈ as, ReadsAs (f a) (g a)) : ReadsAs (as.flatMap f) (as.flatMap g) := by
  induction as with
  | nil => exact ⟨Text.avoids_nil _, [], .nil, fun _ => rfl⟩
  | cons a as ih =>
    simp only [List.forall_mem_cons] at h
    exact h.1.append (ih h.2)

theorem breakLength?_of_ne {c : Char} (hc : c ≠ '<') (rest : List Char) :
    breakLength? (c :: rest) = none := by
  unfold breakLength?
  split
  · simp_all
  · rfl

theorem dropTagsFrom_append {x : List Char} (hx : '<' ∉ x) (rest : List Char) :
    dropTagsFrom none (x ++ rest) = x ++ dropTagsFrom none rest := by
  induction x with
  | nil => rfl
  | cons c x ih =>
    simp only [List.mem_cons, not_or] at hx
    rw [List.cons_append, dropTagsFrom, if_neg (Ne.symm hx.1), ih hx.2]
    rfl

theorem dropTagsFrom_tag {inner : List Char} (hinner : '>' ∉ inner) (tag rest : List Char) :
    dropTagsFrom (some tag) (inner ++ '>' :: rest) = dropTagsFrom none rest := by
  induction inner generalizing tag with
  | nil => simp [dropTagsFrom]
  | cons c inner ih =>
    simp only [List.mem_cons, not_or] at hinner
    rw [List.cons_append, dropTagsFrom, if_neg (Ne.symm hinner.1), ih hinner.2]

theorem avoids_breakLength? {x : List Char} (hx : '<' ∉ x) :
    Text.Avoids (fun t => (breakLength? t).isSome) x := by
  refine Text.avoids_of_forall fun c hc rest => ?_
  have hne : c ≠ '<' := by
    rintro rfl
    exact hx hc
  rw [breakLength?_of_ne hne]
  rfl

theorem readsAs_of_coded {html text : List Char} (h : Coded entities html text) (hangle : '<' ∉ html) :
    ReadsAs html text :=
  ⟨avoids_breakLength? hangle, html, h, dropTagsFrom_append hangle⟩

theorem readsAs_escape (s : String) : ReadsAs (Markup.Html.escape s).toList s.toList :=
  readsAs_of_coded (coded_escape s) (not_mem_escape (by decide) s)

/-- A tag reads as nothing. `inner` is what stands between its brackets. -/
theorem readsAs_tag {inner : List Char} (hopen : '<' ∉ inner) (hclose : '>' ∉ inner)
    (hbreak : ∀ rest, breakLength? ('<' :: (inner ++ ['>'] ++ rest)) = none) :
    ReadsAs ('<' :: (inner ++ ['>'])) [] := by
  refine ⟨Text.avoids_cons.2 ⟨fun rest => ?_, avoids_breakLength? (by simpa using hopen)⟩, [], .nil, ?_⟩
  · rw [hbreak rest]
    rfl
  · intro rest
    rw [List.cons_append, dropTagsFrom, if_pos rfl, List.append_assoc, List.singleton_append,
      dropTagsFrom_tag hclose]
    rfl

/-- **What a piece of HTML reads as is its text**, up to blanks at the ends. -/
theorem stripTags_of_readsAs {html text : List Char} (h : ReadsAs html text) :
    stripTags html = Text.trim (String.ofList text) := by
  obtain ⟨coded, hcoded, hdrop⟩ := h.exists_coded
  have htags := hdrop []
  rw [List.append_nil, dropTagsFrom, List.append_nil] at htags
  simp only [stripTags, Text.replaceMatches_of_avoids h.noBreak, htags, decodeEntities_of_coded hcoded]

theorem stripTags_escape (s : String) : stripTags (Markup.Html.escape s).toList = Text.trim s := by
  rw [stripTags_of_readsAs (readsAs_escape s), String.ofList_toList]

/-! ## Escaping in passes -/

/-- The characters that are escaped and their entities, in the order in which they can be replaced one
after the other. Each entity has an ampersand in it, so the ampersand comes first. -/
def escapes : List (Char × String) :=
  [('&', "&amp;"), ('<', "&lt;"), ('>', "&gt;"), ('"', "&quot;")]

/-- The text after a pass for each of the characters. -/
def replaceEach (es : List (Char × String)) (s : List Char) : List Char :=
  es.foldl (fun s e => Text.replaceAll [e.1] e.2.toList s) s

/-- Passes over a text do to each of its characters what they do to that character alone. -/
theorem replaceEach_eq_flatMap (es : List (Char × String)) (s : List Char) :
    replaceEach es s = s.flatMap fun c => replaceEach es [c] := by
  induction es generalizing s with
  | nil => simp [replaceEach]
  | cons e es ih =>
    have hpass (s : List Char) :
        replaceEach (e :: es) s = replaceEach es (Text.replaceAll [e.1] e.2.toList s) := rfl
    have hchar (c : Char) : replaceEach (e :: es) [c] =
        (if c = e.1 then e.2.toList else [c]).flatMap fun d => replaceEach es [d] := by
      rw [hpass, ih, Text.replaceAll_singleton, List.flatMap_singleton]
    rw [hpass, ih, Text.replaceAll_singleton, List.flatMap_assoc]
    simp only [hchar]

theorem replaceEach_escapes (c : Char) : replaceEach escapes [c] = Markup.Html.escapeChar c := by
  unfold Markup.Html.escapeChar
  split
  · decide
  · decide
  · decide
  · decide
  · rename_i hamp hopen hclose hquote
    have hpass {e : String} {d : Char} (hd : c ≠ d) : Text.replaceAll [d] e.toList [c] = [c] := by
      rw [Text.replaceAll_singleton, List.flatMap_singleton, if_neg hd]
    simp only [replaceEach, escapes, List.foldl_cons, List.foldl_nil, hpass hamp, hpass hopen,
      hpass hclose, hpass hquote]

/-- **Decoding undoes escaping**, whatever entities the text has in it. To escape each character of a
text is to replace the four characters one after the other; no angle bracket and no quote is left, the
entities decode to the text itself, and what the escaped text reads as is the text without blanks at its
ends. -/
theorem decode_escape (s : String) :
    (Markup.Html.escape s).toList = replaceEach escapes s.toList ∧
      (∀ c ∈ (Markup.Html.escape s).toList, c ≠ '<' ∧ c ≠ '>' ∧ c ≠ '"') ∧
      decodeEntities (Markup.Html.escape s).toList = s.toList ∧
      stripTags (Markup.Html.escape s).toList = Text.trim s := by
  refine ⟨?_, ?_, decodeEntities_of_coded (coded_escape s), stripTags_escape s⟩
  · rw [Markup.Html.escape, String.toList_ofList, replaceEach_eq_flatMap]
    simp only [replaceEach_escapes]
  · rintro c hc
    have hnone {d : Char} (hd : d ∈ ['<', '>', '"']) : c ≠ d := by
      rintro rfl
      exact not_mem_escape hd s hc
    exact ⟨hnone (by decide), hnone (by decide), hnone (by decide)⟩

/-- A text that was escaped before, and one with stray ampersands. -/
example :
    Markup.Html.escape "&amp;lt; & &#39;<b>" = "&amp;amp;lt; &amp; &amp;#39;&lt;b&gt;" ∧
      stripTags "&amp;amp;lt; &amp; &amp;#39;&lt;b&gt;".toList = "&amp;lt; & &#39;<b>" := by
  decide +kernel

/-! ## Words as HTML and as plain text -/

open Markup (Stretch outsideWords stretches)

theorem readsAs_highlight (w : String) :
    ReadsAs (Markup.Html.construct (.highlight w)).toList w.toList := by
  have hopen : ReadsAs ('<' :: ("b".toList ++ ['>'])) [] :=
    readsAs_tag (by decide) (by decide) fun rest => rfl
  have hclose : ReadsAs ('<' :: ("/b".toList ++ ['>'])) [] :=
    readsAs_tag (by decide) (by decide) fun rest => rfl
  have hall := (hopen.append (readsAs_escape w)).append hclose
  simpa [Markup.Html.construct, Markup.Html.element] using hall

/-- The anchor in the opening tag is escaped, so the tag ends behind it. -/
theorem readsAs_reference (w : String) :
    ReadsAs (Markup.Html.construct (.reference w)).toList w.toList := by
  have hslug {c : Char} (hc : c ∈ ['<', '>', '"']) := not_mem_escape hc (Anchor.slug w)
  have hopening : '<' ∉ "a href=\"#".toList ++ ((Markup.Html.escape (Anchor.slug w)).toList ++ ['"']) := by
    simp [hslug]
  have hclosing : '>' ∉ "a href=\"#".toList ++ ((Markup.Html.escape (Anchor.slug w)).toList ++ ['"']) := by
    simp [hslug]
  have hopen := readsAs_tag hopening hclosing fun rest => rfl
  have hclose : ReadsAs ('<' :: ("/a".toList ++ ['>'])) [] :=
    readsAs_tag (by decide) (by decide) fun rest => rfl
  have hall := (hopen.append (readsAs_escape w)).append hclose
  simpa [Markup.Html.construct] using hall

/-- A stretch reads as HTML as it is shown in plain text. -/
theorem readsAs_shown {s : Stretch} (hs : ∀ c, s = .char c → c ≠ '<' ∧ c ≠ '&') :
    ReadsAs (s.shown Markup.Html.construct).toList (s.shown Markup.Plain.construct).toList := by
  have hplain : ∀ c : Char, c ≠ '<' ∧ c ≠ '&' → ReadsAs [c] [c] := by
    rintro c ⟨hangle, hamp⟩
    refine readsAs_of_coded (coded_of_plain fun hmem => ?_) (by simpa using Ne.symm hangle)
    exact absurd (List.mem_singleton.1 hmem).symm hamp
  cases s with
  | char c => simpa [Stretch.shown, Stretch.call?, Stretch.source] using hplain c (hs c rfl)
  | word kind w =>
    by_cases hw : w = []
    · have hmarker : kind.marker ≠ '<' ∧ kind.marker ≠ '&' := by cases kind <;> decide
      simpa [Stretch.shown, Stretch.call?, Stretch.source, hw] using hplain kind.marker hmarker
    · cases kind with
      | highlight =>
        simpa [Stretch.shown, Stretch.call?, hw, Markup.WordKind.construct, Markup.Plain.construct]
          using readsAs_highlight (String.ofList w)
      | reference =>
        simpa [Stretch.shown, Stretch.call?, hw, Markup.WordKind.construct, Markup.Plain.construct]
          using readsAs_reference (String.ofList w)

/-- **Words have one text, as HTML and as plain text.** In a text without line breaks, let brackets,
angle brackets and ampersands stand in marked words only. Then what is left of its HTML without tags and
entities is its plain text, up to blanks at the ends. -/
theorem stripTags_markup {text : String} (hbreaks : ∀ c ∈ text.toList, c ≠ '\n' ∧ c ≠ '\r')
    (hwords : ∀ c ∈ outsideWords text.toList, c ≠ '[' ∧ c ≠ '<' ∧ c ≠ '&') :
    stripTags (Markup.Html.markup text true).toList = Text.trim (Markup.Plain.markup text true) := by
  have hflag (render : Markup.Construct → String) :
      (Markup.formatPure render true text).toList =
        (stretches text.toList).flatMap fun s => (s.shown render).toList := by
    have hno : ∀ c ∈ text.toList, Markup.isBreak c = false := by
      intro c hc
      simpa [Markup.isBreak] using hbreaks c hc
    have hplain : ∀ c ∈ outsideWords text.toList, c ≠ '[' ∧ c ≠ '<' :=
      fun c hc => ⟨(hwords c hc).1, (hwords c hc).2.1⟩
    rw [Markup.formatPure, Markup.format_of_no_break _ text.length text rfl hno]
    change (Markup.formatPure render false text).toList = _
    rw [Markup.formatPure_eq_join hplain, String.toList_join, List.flatMap_map]
  have hreads : ReadsAs ((stretches text.toList).flatMap fun s => (s.shown Markup.Html.construct).toList)
      ((stretches text.toList).flatMap fun s => (s.shown Markup.Plain.construct).toList) := by
    refine readsAs_flatMap fun s hs => readsAs_shown ?_
    rintro c rfl
    exact (hwords c (Markup.mem_outsideWords.2 hs)).2
  have hhtml : Markup.Html.markup text true = Markup.formatPure Markup.Html.construct true text := rfl
  rw [hhtml, hflag, stripTags_of_readsAs hreads, ← hflag, String.ofList_toList]
  rfl

/-- Words with tags, brackets, entities and quotes in them, at both ends of a text with angle brackets. -/
def wordedText : String :=
  " #<br>&lt; a > \"b\" @&amp;[x](y) #é.@ @<"

theorem stripTags_wordedText :
    stripTags (Markup.Html.markup wordedText true).toList =
        Text.trim (Markup.Plain.markup wordedText true) ∧
      Text.trim (Markup.Plain.markup wordedText true) = "<br>&lt; a > \"b\" &amp;[x](y) é.@ <" := by
  have hbreaks : ∀ c ∈ wordedText.toList, c ≠ '\n' ∧ c ≠ '\r' := by decide +kernel
  have hwords : ∀ c ∈ outsideWords wordedText.toList, c ≠ '[' ∧ c ≠ '<' ∧ c ≠ '&' := by decide +kernel
  refine ⟨stripTags_markup hbreaks hwords, ?_⟩
  rw [Markup.Plain.markup, Markup.formatPure, Markup.format_true_eq_formatSpans]
  decide +kernel

end BlitzDoc.CommandPage
