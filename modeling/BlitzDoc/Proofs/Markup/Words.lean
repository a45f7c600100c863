import BlitzDoc.About
import BlitzDoc.Markup.Markdown
import BlitzDoc.Proofs.Markup.Strip
import BlitzDoc.Proofs.Text.Balanced

/-!
# Texts of words

Where brackets are of no account, a text is nothing but characters and marked words (`stretches`), and
none of it gets lost between them (`flatMap_source_stretches`). Formatting then shows one stretch after
the other (`formatSpans_eq_mapM`): a marker with a word is handed to the renderer, and anything else,
markers without a word among it, stays as it was written.

Two statements follow. `format_writes_back`: a renderer that writes marker and word gets the text back,
and what it is handed are words. `toMarkdown_eq_markup`: the reader of about texts, which has rules of
its own for where a word ends and for braces, makes the same markdown of a text as the formatter, as
long as nothing occurs in it on which the two sets of rules differ.
-/

namespace BlitzDoc.Markup

/-! ## Stretches -/

/-- A stretch of a text: a character, or a marker with the word behind it, which may be empty. -/
inductive Stretch where
  | char (c : Char)
  | word (kind : WordKind) (word : List Char)
deriving DecidableEq, Repr

/-- The kind of words that a character marks. -/
def WordKind.ofMarker? (c : Char) : Option WordKind :=
  if c = '@' then some .highlight else if c = '#' then some .reference else none

/-- The stretches of a text. A word goes on up to the next character that ends words. -/
def stretches : List Char → List Stretch
  | [] => []
  | c :: cs =>
    match WordKind.ofMarker? c with
    | some kind =>
      .word kind (cs.takeWhile fun d => !isWordEnd d) :: stretches (cs.dropWhile fun d => !isWordEnd d)
    | none => .char c :: stretches cs
termination_by cs => cs.length
decreasing_by
  · have := Text.length_dropWhile_le (fun d => !isWordEnd d) cs
    simp only [List.length_cons]
    omega
  · simp

theorem WordKind.ofMarker?_eq_some {c : Char} {kind : WordKind} :
    WordKind.ofMarker? c = some kind ↔ c = kind.marker := by
  unfold WordKind.ofMarker?
  by_cases hat : c = '@'
  · subst hat
    cases kind <;> simp [WordKind.marker]
  · by_cases hhash : c = '#'
    · subst hhash
      cases kind <;> simp [WordKind.marker]
    · cases kind <;> simp [WordKind.marker, hat, hhash]

theorem WordKind.ofMarker?_eq_none {c : Char} :
    WordKind.ofMarker? c = none ↔ c ≠ '@' ∧ c ≠ '#' := by
  unfold WordKind.ofMarker?
  by_cases hat : c = '@' <;> by_cases hhash : c = '#' <;> simp [hat, hhash]

namespace Stretch

/-- The stretch as it was written. -/
def source : Stretch → List Char
  | char c => [c]
  | word kind w => kind.marker :: w

/-- The character that the stretch is. -/
def char? : Stretch → Option Char
  | char c => some c
  | word _ _ => none

/-- What a renderer is handed for the stretch. -/
def call? : Stretch → Option Construct
  | char _ => none
  | word kind w => if w = [] then none else some (kind.construct (String.ofList w))

/-- The stretch as it comes out. -/
def shown (render : Construct → String) (s : Stretch) : String :=
  s.call?.elim (String.ofList s.source) render

/-- Hands the stretch to the renderer, unless it stays as it was written. -/
def hand {m : Type → Type} [Monad m] (render : Construct → m String) (s : Stretch) : m String :=
  s.call?.elim (pure (String.ofList s.source)) render

end Stretch

/-- The characters of a text that stand in no marked word. -/
def outsideWords (cs : List Char) : List Char :=
  (stretches cs).filterMap Stretch.char?

theorem mem_outsideWords {cs : List Char} {c : Char} : c ∈ outsideWords cs ↔ .char c ∈ stretches cs := by
  rw [outsideWords, List.mem_filterMap]
  constructor
  · rintro ⟨s, hs, hchar⟩
    cases s with
    | char d =>
      cases hchar
      exact hs
    | word kind w => cases hchar
  · intro h
    exact ⟨.char c, h, rfl⟩

/-- The stretches are all of the text. -/
theorem flatMap_source_stretches (cs : List Char) : (stretches cs).flatMap Stretch.source = cs := by
  fun_induction stretches cs with
  | case1 => rfl
  | case2 c cs kind hkind ih =>
    have hmarker := WordKind.ofMarker?_eq_some.1 hkind
    have hsplit := List.takeWhile_append_dropWhile (p := fun d => !isWordEnd d) (l := cs)
    rw [List.flatMap_cons, ih, Stretch.source, List.cons_append, hsplit, hmarker]
  | case3 c cs _ ih =>
    rw [List.flatMap_cons, ih]
    rfl

theorem mem_of_mem_outsideWords {cs : List Char} {c : Char} (h : c ∈ outsideWords cs) : c ∈ cs := by
  rw [← flatMap_source_stretches cs]
  exact List.mem_flatMap.2 ⟨.char c, mem_outsideWords.1 h, List.mem_cons_self⟩

theorem isWordEnd_of_mem_stretches {cs : List Char} {kind : WordKind} {w : List Char}
    (h : .word kind w ∈ stretches cs) : ∀ c ∈ w, isWordEnd c = false := by
  fun_induction stretches cs with
  | case1 => cases h
  | case2 c cs _ _ ih =>
    rcases List.mem_cons.1 h with h | h
    · cases h
      intro d hd
      simpa using List.mem_takeWhile_imp hd
    · exact ih h
  | case3 c cs _ ih =>
    rcases List.mem_cons.1 h with h | h
    · cases h
    · exact ih h

/-! ## Formatting, stretch by stretch -/

theorem front_of_plain {c : Char} (hmarker : c ≠ '@' ∧ c ≠ '#') (hbracket : c ≠ '[' ∧ c ≠ '<')
    (cs : List Char) : front c cs = (.literal (String.singleton c), cs) := by
  simp [front, hmarker, hbracket]

theorem front_marker (kind : WordKind) (cs : List Char) :
    front kind.marker cs =
      (wordMeaning kind.marker (cs.takeWhile fun d => !isWordEnd d),
        cs.dropWhile fun d => !isWordEnd d) := by
  cases kind <;> simp [front, WordKind.marker]

section
variable {m : Type → Type} [Monad m] [LawfulMonad m] (render : Construct → m String)

omit [LawfulMonad m] in
theorem replaceBy_wordMeaning (formatCell : String → m String) (kind : WordKind) (w : List Char) :
    replaceBy formatCell render (wordMeaning kind.marker w) = (Stretch.word kind w).hand render := by
  by_cases hw : w = []
  · simp [wordMeaning, replaceBy, Stretch.hand, Stretch.call?, Stretch.source, hw]
  · cases kind <;>
      simp [wordMeaning, replaceBy, Stretch.hand, Stretch.call?, hw, WordKind.marker, WordKind.construct]

/-- A text with no bracket outside its words is handed over stretch by stretch. -/
theorem formatSpans_eq_mapM {cs : List Char} (h : ∀ c ∈ outsideWords cs, c ≠ '[' ∧ c ≠ '<') :
    formatSpans render cs = do
      let parts ← (stretches cs).mapM (Stretch.hand render)
      return String.join parts := by
  simp only [mem_outsideWords] at h
  fun_induction stretches cs with
  | case1 => simp [formatSpans]
  | case2 c cs kind hkind ih =>
    have hmarker := WordKind.ofMarker?_eq_some.1 hkind
    have hrest := ih fun c hc => h c (List.mem_cons_of_mem _ hc)
    rw [formatSpans_cons, hmarker, front_marker, replaceBy_wordMeaning, hrest]
    simp
  | case3 c cs hkind ih =>
    have hmarker := WordKind.ofMarker?_eq_none.1 hkind
    have hrest := ih fun c hc => h c (List.mem_cons_of_mem _ hc)
    rw [formatSpans_cons, front_of_plain hmarker (h c List.mem_cons_self), hrest]
    simp [replaceBy, Stretch.hand, Stretch.call?, Stretch.source]

/-- Where nothing is marked, the text stays as it is and no renderer is called. -/
theorem format_of_no_marker {text : String}
    (h : ∀ c ∈ text.toList, c ≠ '@' ∧ c ≠ '#' ∧ c ≠ '[' ∧ c ≠ '<') :
    format render false text = pure text := by
  have hspans : ∀ cs : List Char, (∀ c ∈ cs, c ≠ '@' ∧ c ≠ '#' ∧ c ≠ '[' ∧ c ≠ '<') →
      formatSpans render cs = pure (String.ofList cs) := by
    intro cs hcs
    induction cs with
    | nil => simp [formatSpans]
    | cons c cs ih =>
      simp only [List.forall_mem_cons] at hcs
      obtain ⟨⟨hat, hhash, hbracket, hangle⟩, hrest⟩ := hcs
      rw [formatSpans_cons, front_of_plain ⟨hat, hhash⟩ ⟨hbracket, hangle⟩, ih hrest]
      simp [replaceBy]
  rw [format_eq_renderPieces, renderPieces_eq render _ _ rfl, hspans text.toList h,
    String.ofList_toList]

end

theorem formatPure_eq_join {text : String} {render : Construct → String}
    (h : ∀ c ∈ outsideWords text.toList, c ≠ '[' ∧ c ≠ '<') :
    formatPure render false text =
      String.join ((stretches text.toList).map (Stretch.shown render)) := by
  have hhand : Stretch.hand (m := Id) (fun k => pure (render k)) =
      fun s => pure (Stretch.shown render s) := by
    funext s
    unfold Stretch.hand Stretch.shown
    cases s.call? <;> rfl
  rw [formatPure, format_eq_renderPieces, renderPieces_eq _ _ _ rfl, formatSpans_eq_mapM _ h, hhand]
  simp

/-! ## Writing words back -/

/-- The renderer, with a list of what it was handed. -/
def recorded (render : Construct → String) (k : Construct) : StateM (List Construct) String := do
  modify (· ++ [k])
  return render k

/-- One stretch after the other is shown, and the calls are those of the stretches in their order. -/
theorem run_mapM_recorded (render : Construct → String) (ss : List Stretch) (calls : List Construct) :
    ((ss.mapM (Stretch.hand (recorded render))).run calls).run =
      (ss.map (Stretch.shown render), calls ++ ss.filterMap Stretch.call?) := by
  induction ss generalizing calls with
  | nil => simp
  | cons s ss ih =>
    cases hcall : s.call? with
    | none => simp [List.mapM_cons, Stretch.hand, Stretch.shown, hcall, ih]
    | some k => simp [List.mapM_cons, Stretch.hand, Stretch.shown, hcall, recorded, ih]

/-- A renderer that writes marker and word shows every stretch as it was written. -/
theorem join_shown_of_writes {render : Construct → String}
    (hreference : ∀ w, render (.reference w) = "#" ++ w)
    (hhighlight : ∀ w, render (.highlight w) = "@" ++ w) (ss : List Stretch) :
    String.join (ss.map (Stretch.shown render)) = String.ofList (ss.flatMap Stretch.source) := by
  have hshown : ∀ s : Stretch, s.shown render = String.ofList s.source := by
    intro s
    cases s with
    | char c => rfl
    | word kind w =>
      by_cases hw : w = []
      · simp [Stretch.shown, Stretch.call?, hw]
      · cases kind with
        | highlight => simp [Stretch.shown, Stretch.call?, Stretch.source, hw, WordKind.construct,
            WordKind.marker, hhighlight]
        | reference => simp [Stretch.shown, Stretch.call?, Stretch.source, hw, WordKind.construct,
            WordKind.marker, hreference]
  induction ss with
  | nil => rfl
  | cons s ss ih => simp [hshown, ih]

/-- What is handed over are words that are not empty and hold no character that ends words. -/
theorem word_of_mem_calls {cs : List Char} {k : Construct}
    (h : k ∈ (stretches cs).filterMap Stretch.call?) :
    ∃ w, (k = .reference w ∨ k = .highlight w) ∧ w ≠ "" ∧ ∀ c ∈ w.toList, isWordEnd c = false := by
  obtain ⟨s, hs, hcall⟩ := List.mem_filterMap.1 h
  cases s with
  | char c => cases hcall
  | word kind w =>
    have hends := isWordEnd_of_mem_stretches hs
    by_cases hw : w = []
    · simp [Stretch.call?, hw] at hcall
    · refine ⟨String.ofList w, ?_, ?_, by simpa using hends⟩
      · simp only [Stretch.call?, hw, if_false, Option.some.injEq] at hcall
        cases kind with
        | highlight => exact .inr hcall.symm
        | reference => exact .inl hcall.symm
      · intro hempty
        have hlist := congrArg String.toList hempty
        simp [hw] at hlist

/-- **Marked words are written back without loss.** A text without brackets comes back from a renderer
that writes marker and word, and the words of the text, which it was handed in their order, are no empty
ones and hold no character that ends words. Where there is no marker, no renderer is called. -/
theorem format_writes_back {render : Construct → String}
    (hreference : ∀ w, render (.reference w) = "#" ++ w)
    (hhighlight : ∀ w, render (.highlight w) = "@" ++ w)
    {text : String} (h : ∀ c ∈ text.toList, c ≠ '[' ∧ c ≠ '<') :
    let calls := (stretches text.toList).filterMap Stretch.call?
    ((format (recorded render) false text).run []).run = (text, calls) ∧
      (∀ k ∈ calls, ∃ w, (k = .reference w ∨ k = .highlight w) ∧ w ≠ "" ∧
        ∀ c ∈ w.toList, isWordEnd c = false) ∧
      ((∀ c ∈ text.toList, c ≠ '@' ∧ c ≠ '#') →
        ∀ other : Construct → StateM (List Construct) String, format other false text = pure text) := by
  intro calls
  have hchars : ∀ c ∈ outsideWords text.toList, c ≠ '[' ∧ c ≠ '<' := by
    intro c hc
    exact h c (mem_of_mem_outsideWords hc)
  refine ⟨?_, fun k hk => word_of_mem_calls hk, ?_⟩
  · have hrun := run_mapM_recorded render (stretches text.toList) []
    have hback := join_shown_of_writes hreference hhighlight (stretches text.toList)
    rw [flatMap_source_stretches, String.ofList_toList] at hback
    rw [format_eq_renderPieces, renderPieces_eq _ _ _ rfl, formatSpans_eq_mapM _ hchars,
      StateT.run_bind, Id.run_bind, hrun]
    simp [hback, calls]
  · intro hmarkers other
    refine format_of_no_marker other fun c hc => ?_
    exact ⟨(hmarkers c hc).1, (hmarkers c hc).2, h c hc⟩

/-- Writes marker and word. -/
def writeBack : Construct → String
  | .reference w => "#" ++ w
  | .highlight w => "@" ++ w
  | _ => ""

/-- Markers inside words, without a word, back to back and at the end. -/
def markedText : String :=
  "See #Foo,@a#b.@ ## x]@@\x7by\x7d) a>b\n#\t@"

theorem format_markedText :
    ((format (recorded writeBack) false markedText).run []).run =
        (markedText, [.reference "Foo", .highlight "a#b", .reference "#", .highlight "@\x7by\x7d"]) ∧
      format (recorded writeBack) false "a > b, c]" = pure "a > b, c]" := by
  have hchars : ∀ c ∈ markedText.toList, c ≠ '[' ∧ c ≠ '<' := by decide +kernel
  have hplain : ∀ c ∈ "a > b, c]".toList, c ≠ '[' ∧ c ≠ '<' := by decide +kernel
  have hreference : ∀ w, writeBack (.reference w) = "#" ++ w := fun _ => rfl
  have hhighlight : ∀ w, writeBack (.highlight w) = "@" ++ w := fun _ => rfl
  refine ⟨?_, ?_⟩
  · rw [(format_writes_back hreference hhighlight hchars).1]
    decide +kernel
  · exact (format_writes_back hreference hhighlight hplain).2.2 (by decide +kernel) _

end BlitzDoc.Markup

/-! ## About texts -/

namespace BlitzDoc.About

open Markup (Stretch outsideWords stretches)

/-- The character means the same to the reader of about texts and to the formatter. -/
def Agreed (c : Char) : Prop :=
  c ∉ ['[', ']', '<', ')', '\x7b'] ∧ (Text.isBlank c = true → c ∈ [' ', '\t', '\r', '\n'])

instance (c : Char) : Decidable (Agreed c) :=
  inferInstanceAs (Decidable (_ ∧ _))

theorem Agreed.isWordEnd_eq {c : Char} (h : Agreed c) : isWordEnd c = Markup.isWordEnd c := by
  have hne := h.1
  simp only [List.mem_cons, not_or] at hne
  rw [Bool.eq_iff_iff]
  simp only [isWordEnd, Markup.isWordEnd, Bool.or_eq_true, beq_iff_eq]
  tauto

/-- All blanks end words, so none is trimmed off a word. -/
theorem Agreed.isBlank_eq_false {c : Char} (h : Agreed c) (hend : Markup.isWordEnd c = false) :
    Text.isBlank c = false := by
  rw [Bool.eq_false_iff]
  intro hblank
  have hmem := h.2 hblank
  simp only [List.mem_cons, List.not_mem_nil, or_false] at hmem
  rcases hmem with rfl | rfl | rfl | rfl <;> revert hend <;> decide

/-- A word goes on up to the next character that ends words, and is rendered there. -/
theorem finish_foldl_word (marker : Char) (out buf : String) {cs : List Char}
    (h : ∀ c ∈ cs, Agreed c) :
    finish (cs.foldl step (out, .word marker buf)) =
      finish ((cs.dropWhile fun c => !Markup.isWordEnd c).foldl step
        (out ++ renderWord marker false
          (buf ++ String.ofList (cs.takeWhile fun c => !Markup.isWordEnd c)), .text)) := by
  induction cs generalizing buf with
  | nil => simp [finish]
  | cons c cs ih =>
    simp only [List.forall_mem_cons] at h
    have hend := h.1.isWordEnd_eq
    by_cases hc : Markup.isWordEnd c = true
    · simp [step, hend, hc]
    · simp [step, hend, hc, ih _ h.2, Markup.push_append]

/-- Behind a marker stands a word, which may be empty. -/
theorem finish_foldl_marked (marker : Char) (out : String) {cs : List Char} (h : ∀ c ∈ cs, Agreed c) :
    finish (cs.foldl step (out, .marked marker)) =
      finish ((cs.dropWhile fun c => !Markup.isWordEnd c).foldl step
        (out ++ renderWord marker false
          (String.ofList (cs.takeWhile fun c => !Markup.isWordEnd c)), .text)) := by
  cases cs with
  | nil => simp [finish]
  | cons c cs =>
    simp only [List.forall_mem_cons] at h
    have hend := h.1.isWordEnd_eq
    have hbrace : c ≠ '\x7b' := by
      rintro rfl
      exact h.1.1 (by simp)
    by_cases hc : Markup.isWordEnd c = true
    · simp [step, hend, hc, hbrace]
    · have hword := finish_foldl_word marker out (String.singleton c) h.2
      simp [step, hend, hc, hbrace, hword]

/-- Both render a word alike that has no blanks. -/
theorem renderWord_eq_shown (kind : Markup.WordKind) {w : List Char}
    (hw : ∀ c ∈ w, Text.isBlank c = false) :
    renderWord kind.marker false (String.ofList w) =
      (Stretch.word kind w).shown Markup.Markdown.construct := by
  have htrim := Text.trim_ofList (Text.isTrimmed_of_forall hw)
  by_cases hempty : w = []
  · subst hempty
    cases kind <;> decide
  · have hne : (String.ofList w).isEmpty = false := by simpa using hempty
    cases kind with
    | highlight => simp [renderWord, htrim, hempty, Stretch.shown, Stretch.call?,
        Markup.WordKind.marker, Markup.WordKind.construct, Markup.Markdown.construct]
    | reference => simp [renderWord, htrim, hempty, Stretch.shown, Stretch.call?,
        Markup.WordKind.marker, Markup.WordKind.construct, Markup.Markdown.construct]

/-- The reader takes the stretches of a text one after the other. -/
theorem finish_foldl_text {cs : List Char} (h : ∀ c ∈ cs, Agreed c) (out : String) :
    finish (cs.foldl step (out, .text)) =
      out ++ String.join ((stretches cs).map (Stretch.shown Markup.Markdown.construct)) := by
  fun_induction stretches cs generalizing out with
  | case1 => simp [finish]
  | case2 c cs kind hkind ih =>
    obtain rfl := Markup.WordKind.ofMarker?_eq_some.1 hkind
    simp only [List.forall_mem_cons] at h
    have hstep : step (out, .text) kind.marker = (out, .marked kind.marker) := by
      cases kind <;> rfl
    have hword : ∀ c ∈ cs.takeWhile fun d => !Markup.isWordEnd d, Text.isBlank c = false := by
      intro c hc
      have hend : Markup.isWordEnd c = false := by simpa using List.mem_takeWhile_imp hc
      exact (h.2 c ((List.takeWhile_sublist _).subset hc)).isBlank_eq_false hend
    have hrest := ih fun c hc => h.2 c ((List.dropWhile_suffix _).subset hc)
    rw [List.foldl_cons, hstep, finish_foldl_marked _ _ h.2, hrest, renderWord_eq_shown kind hword,
      List.map_cons, String.join_cons, String.append_assoc]
  | case3 c cs hkind ih =>
    obtain ⟨hat, hhash⟩ := Markup.WordKind.ofMarker?_eq_none.1 hkind
    simp only [List.forall_mem_cons] at h
    have hstep : step (out, .text) c = (out.push c, .text) := by
      simp [step, startText, isMarker, hat, hhash]
    have hshown : (Stretch.char c).shown Markup.Markdown.construct = String.singleton c := rfl
    rw [List.foldl_cons, hstep, ih h.2, List.map_cons, String.join_cons, hshown,
      ← String.append_assoc, String.append_singleton]

/-- **Both ways from an about text to markdown agree** on a text of characters that mean the same to
both: it has none of the characters that bracket or that end a word for one of them only, and no blanks
but spaces, tabs and line breaks. -/
theorem toMarkdown_eq_markup {text : String} (h : ∀ c ∈ text.toList, Agreed c) :
    toMarkdown text = Markup.Markdown.markup text false := by
  have hchars : ∀ c ∈ outsideWords text.toList, c ≠ '[' ∧ c ≠ '<' := by
    intro c hc
    have hne := (h c (Markup.mem_of_mem_outsideWords hc)).1
    simp only [List.mem_cons, not_or] at hne
    exact ⟨hne.1, hne.2.2.1⟩
  rw [toMarkdown, finish_foldl_text h, String.empty_append, Markup.Markdown.markup,
    Markup.formatPure_eq_join hchars]

/-- Words that end at every kind of blank, a closing brace inside a word, and markers without a word. -/
theorem toMarkdown_sample :
    (∀ c ∈ "@a#b\tc,#Draw-It\r\n@\x7d. # (@".toList, Agreed c) ∧
      toMarkdown "@a#b\tc,#Draw-It\r\n@\x7d. # (@" =
        Markup.Markdown.markup "@a#b\tc,#Draw-It\r\n@\x7d. # (@" false ∧
      toMarkdown "@a#b\tc,#Draw-It\r\n@\x7d. # (@" =
        "**a#b**\tc,[Draw-It](#draw-it)\r\n**\x7d**. # (@" := by
  have hagreed : ∀ c ∈ "@a#b\tc,#Draw-It\r\n@\x7d. # (@".toList, Agreed c := by decide +kernel
  exact ⟨hagreed, toMarkdown_eq_markup hagreed, by decide +kernel⟩

end BlitzDoc.About
