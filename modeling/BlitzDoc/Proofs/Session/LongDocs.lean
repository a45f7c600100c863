import BlitzDoc.Proofs.CommandIndex.Lines
import BlitzDoc.Proofs.Session.Failures
import BlitzDoc.Proofs.Session.Pages

/-!
# Long documentation

The long documentation of a command is read from its page once. The first answer is recorded with the
entry of the command, a missing page as well as a page that was found, and stays there until the command
index is loaded again or cleared. So a command that was asked for once gets the same answer in every mix
of capitals, whatever becomes of its page (`helpDocs_once`).

There are two parts to this. As long as an index stays in place, nothing but `helpDocs` touches its
entries (`help_apply`), and what `helpDocs` writes is the record of one key (`helpDocs_eq`); an answer that
is recorded is kept by either (`answered_apply`).
-/

namespace BlitzDoc

/-! ## Entries with distinct keys -/

namespace CommandIndex

/-- No two entries have the same key. -/
def Distinct (entries : List HelpEntry) : Prop :=
  (entries.map (·.searchKey)).Nodup

theorem distinct_insert {acc : List HelpEntry × List Event} (h : Distinct acc.1) (e : HelpEntry) :
    Distinct (insert acc e).1 := by
  unfold insert
  split
  · exact h
  · rename_i hfree
    have hnew : ∀ x ∈ acc.1, x.searchKey ≠ e.searchKey := by
      simpa [find?] using hfree
    unfold Distinct at h ⊢
    rw [List.map_append, List.nodup_append]
    refine ⟨h, by simp, fun key hkey other hother => ?_⟩
    obtain ⟨x, hx, rfl⟩ := List.mem_map.1 hkey
    rw [List.map_singleton, List.mem_singleton] at hother
    exact hother ▸ hnew x hx

theorem distinct_parse (text : String) : Distinct (parse text).1 := by
  have hfold : ∀ (es : List HelpEntry) (acc : List HelpEntry × List Event), Distinct acc.1 →
      Distinct (es.foldl insert acc).1 := by
    intro es
    induction es with
    | nil => exact fun _ h => h
    | cons e es ih => exact fun acc h => ih _ (distinct_insert h e)
  exact hfold _ _ (by simp [Distinct])

theorem find?_eq_some_iff {entries : List HelpEntry} (h : Distinct entries) {key : String}
    {e : HelpEntry} : find? entries key = some e ↔ e ∈ entries ∧ e.searchKey = key := by
  constructor
  · intro hfind
    exact ⟨List.mem_of_find?_eq_some hfind, by simpa using List.find?_some hfind⟩
  · rintro ⟨he, rfl⟩
    cases hfind : find? entries e.searchKey with
    | none => simpa using List.find?_eq_none.1 hfind e he
    | some x =>
      have hkey : x.searchKey = e.searchKey := by simpa using List.find?_some hfind
      rw [List.inj_on_of_nodup_map h (List.mem_of_find?_eq_some hfind) he hkey]

end CommandIndex

/-- The entry with an answer recorded, if it has the key. -/
def HelpEntry.withAnswer (key : String) (answer : Option LongDocs) (e : HelpEntry) : HelpEntry :=
  if e.searchKey = key then { e with long := answer, hasScraped := true } else e

theorem HelpEntry.searchKey_withAnswer (key : String) (answer : Option LongDocs) (e : HelpEntry) :
    (e.withAnswer key answer).searchKey = e.searchKey := by
  unfold withAnswer
  split <;> rfl

namespace CommandIndex

theorem distinct_map_withAnswer {entries : List HelpEntry} (h : Distinct entries) (key : String)
    (answer : Option LongDocs) : Distinct (entries.map (HelpEntry.withAnswer key answer)) := by
  simpa [Distinct, Function.comp_def, HelpEntry.searchKey_withAnswer] using h

theorem find?_map_withAnswer (entries : List HelpEntry) (key : String) (answer : Option LongDocs)
    (other : String) : find? (entries.map (HelpEntry.withAnswer key answer)) other =
      (find? entries other).map (HelpEntry.withAnswer key answer) := by
  have hkey : (fun e : HelpEntry => e.searchKey == other) ∘ HelpEntry.withAnswer key answer =
      fun e => e.searchKey == other :=
    funext fun e => congrArg (· == other) (e.searchKey_withAnswer key answer)
  rw [find?, List.find?_map, hkey, find?]

end CommandIndex

namespace Session

open CommandIndex (find? Distinct)

/-! ## Answers on record -/

/-- The answer for the key is on record: it is with the entry, or there is no entry and no answer. -/
def Answered (help : List HelpEntry) (key : String) (answer : Option LongDocs) : Prop :=
  match find? help key with
  | none => answer = none
  | some e => e.hasScraped = true ∧ e.long = answer

section
variable {s : Session} {t : FileTree} {key : String} {answer : Option LongDocs}

/-- An answer on record is given again. Nothing is read for it, and nothing changes. -/
theorem helpDocs_of_answered (h : Answered s.help (Text.lower key) answer) (t : FileTree) :
    s.helpDocs t key = { result := answer, session := s, tree := t } := by
  cases hfind : find? s.help (Text.lower key) with
  | none =>
    have hnone : answer = none := by simpa only [Answered, hfind] using h
    simp only [helpDocs, helpEntry?, hfind, hnone]
  | some e =>
    obtain ⟨hscraped, hlong⟩ : e.hasScraped = true ∧ e.long = answer := by
      simpa only [Answered, hfind] using h
    simp only [helpDocs, helpEntry?, hfind, hscraped, hlong, if_true]

theorem map_withAnswer_of_answered {help : List HelpEntry} (hdistinct : Distinct help)
    (h : Answered help key answer) : help.map (HelpEntry.withAnswer key answer) = help := by
  refine (List.map_congr_left fun e he => ?_).trans (List.map_id help)
  unfold HelpEntry.withAnswer
  split
  · rename_i hkey
    have hfind := (CommandIndex.find?_eq_some_iff hdistinct).2 ⟨he, hkey⟩
    simp only [Answered, hfind] at h
    rw [← h.1, ← h.2]
    rfl
  · rfl

/-- **What `helpDocs` does** is to put its answer on record. -/
theorem helpDocs_eq (hdistinct : Distinct s.help) (t : FileTree) (key : String) :
    (s.helpDocs t key).tree = t ∧
      (s.helpDocs t key).session = { s with
        help := s.help.map (HelpEntry.withAnswer (Text.lower key) (s.helpDocs t key).result) } ∧
      Answered (s.helpDocs t key).session.help (Text.lower key) (s.helpDocs t key).result := by
  by_cases hrecord : ∃ answer, Answered s.help (Text.lower key) answer
  · obtain ⟨answer, h⟩ := hrecord
    rw [helpDocs_of_answered h]
    refine ⟨rfl, ?_, h⟩
    rw [map_withAnswer_of_answered hdistinct h]
  · -- there is an entry, and it has not been asked for
    cases hfind : find? s.help (Text.lower key) with
    | none => exact absurd ⟨none, by simp [Answered, hfind]⟩ hrecord
    | some e =>
      have hnew : ¬e.hasScraped = true := fun h => hrecord ⟨e.long, by simp [Answered, hfind, h]⟩
      have hkey := ((CommandIndex.find?_eq_some_iff hdistinct).1 hfind).2
      have hdocs : s.helpDocs t key = {
          result := (fetchDocs t s.config e).1
          session := { s with
            help := s.help.map (HelpEntry.withAnswer (Text.lower key) (fetchDocs t s.config e).1) }
          tree := t, log := (fetchDocs t s.config e).2 } := by
        simp only [helpDocs, helpEntry?, hfind, hnew, hkey, beq_iff_eq]
        rfl
      rw [hdocs]
      refine ⟨rfl, rfl, ?_⟩
      simp [Answered, CommandIndex.find?_map_withAnswer, hfind, HelpEntry.withAnswer, hkey]

end

/-! ## Runs that keep an index -/

/-- The operation leaves the command index in place: it does not clear it, and loads no other. -/
def Operation.KeepsIndex (w : Session × FileTree) : Operation → Prop
  | .clear => False
  | .loadIndex => ∀ n, (w.1.loadIndex w.2).result ≠ .ok n
  | _ => True

/-- No operation of the run puts another command index in place. -/
def KeepsIndex : Session × FileTree → List Operation → Prop
  | _, [] => True
  | w, o :: operations => o.KeepsIndex w ∧ KeepsIndex (o.apply w) operations

theorem applyAll_induction {P : Session × FileTree → Prop}
    (hstep : ∀ w (o : Operation), o.KeepsIndex w → P w → P (o.apply w))
    {operations : List Operation} {w : Session × FileTree} (hkept : KeepsIndex w operations) (hw : P w) :
    P (Operation.applyAll w operations) := by
  induction operations generalizing w with
  | nil => exact hw
  | cons o operations ih => exact ih hkept.2 (hstep w o hkept.1 hw)

theorem help_rescan (s : Session) (t : FileTree) (force : Bool) :
    (s.rescan t force).session.help = s.help := by
  cases hfolder : t.isFolder s.config.modFolder with
  | false => rw [rescan_of_no_folder s t force hfolder]
  | true => rw [(rescan_of_folder s t force hfolder).1]

theorem help_readCache (s : Session) (t : FileTree) : (s.readCache t).1.help = s.help := by
  simp only [readCache]
  split
  · rfl
  · split <;> rfl

theorem help_moduleHtml (s : Session) (key : String) : (s.moduleHtml key).2.help = s.help := by
  simp only [moduleHtml]
  split <;> rfl

/-- **Only `helpDocs` touches the entries** of an index that stays in place. -/
theorem help_apply {w : Session × FileTree} {o : Operation} (h : o.KeepsIndex w) :
    (o.apply w).1.help = w.1.help ∨ ∃ key, o = .helpDocs key := by
  obtain ⟨s, t⟩ := w
  cases o with
  | load => exact .inl ((help_rescan _ t false).trans (help_readCache s t))
  | rescan force => exact .inl (help_rescan s t force)
  | clear => exact h.elim
  | moduleHtml key => exact .inl (help_moduleHtml s key)
  | loadIndex =>
    cases hresult : (s.loadIndex t).result with
    | ok n => exact absurd hresult (h n)
    | error e =>
      obtain ⟨fault, hread, -⟩ := (loadIndex_eq_error_iff s t e).1 hresult
      left
      rw [Operation.apply, loadIndex_of_read_error hread]
  | helpDocs key => exact .inr ⟨key, rfl⟩
  | edit files => exact .inl rfl

theorem distinct_apply {w : Session × FileTree} {o : Operation} (hkept : o.KeepsIndex w)
    (h : Distinct w.1.help) : Distinct (o.apply w).1.help := by
  rcases help_apply hkept with hhelp | ⟨key, rfl⟩
  · rwa [hhelp]
  · obtain ⟨-, hsession, -⟩ := helpDocs_eq h w.2 key
    rw [Operation.apply, hsession]
    exact CommandIndex.distinct_map_withAnswer h _ _

/-- **An answer stays on record**: another call for the same key gives it again, and one for another key
leaves it alone. -/
theorem answered_apply {w : Session × FileTree} {o : Operation} {key : String}
    {answer : Option LongDocs} (hkept : o.KeepsIndex w) (hdistinct : Distinct w.1.help)
    (h : Answered w.1.help key answer) : Answered (o.apply w).1.help key answer := by
  rcases help_apply hkept with hhelp | ⟨other, rfl⟩
  · rwa [hhelp]
  · by_cases hkey : key = Text.lower other
    · subst hkey
      rwa [Operation.apply, helpDocs_of_answered h]
    · obtain ⟨-, hsession, -⟩ := helpDocs_eq hdistinct w.2 other
      rw [Operation.apply, hsession]
      unfold Answered at h ⊢
      rw [CommandIndex.find?_map_withAnswer]
      cases hfind : find? w.1.help key with
      | none => simpa [hfind] using h
      | some e =>
        have hother : e.searchKey ≠ Text.lower other := by
          rw [((CommandIndex.find?_eq_some_iff hdistinct).1 hfind).2]
          exact hkey
        simpa [hfind, HelpEntry.withAnswer, hother] using h

theorem distinct_loadIndex {s : Session} {t : FileTree} {n : Nat}
    (h : (s.loadIndex t).result = .ok n) : Distinct (s.loadIndex t).session.help := by
  cases hread : t.read s.config.indexFile with
  | error fault =>
    rw [loadIndex_of_read_error hread] at h
    cases h
  | ok text =>
    have hhelp : (s.loadIndex t).session.help = (CommandIndex.parse text).1 := by
      simp [loadIndex, Imports.exists_of_read hread, hread]
    rw [hhelp]
    exact CommandIndex.distinct_parse text

/-- **Long documentation is fetched once for an index.** After an index was loaded, and for as long as it
stays in place, a call of `helpDocs` changes nothing but the long documentation and the mark of the one
entry with the key, and all later calls for the key, in any mix of capitals, give the answer of this one
and change nothing. In between the modules may be loaded, scanned again and rendered, other commands
asked for, and any files changed. -/
theorem helpDocs_once {s₀ : Session} {t₀ : FileTree} {n : Nat}
    (hloaded : (s₀.loadIndex t₀).result = .ok n) {before : List Operation}
    (hbefore : KeepsIndex (Operation.loadIndex.apply (s₀, t₀)) before) (key : String) :
    let w := Operation.applyAll (Operation.loadIndex.apply (s₀, t₀)) before
    let first := w.1.helpDocs w.2 key
    first.tree = w.2 ∧
      first.session = { w.1 with
        help := w.1.help.map fun e =>
          if e.searchKey = Text.lower key then { e with long := first.result, hasScraped := true }
          else e } ∧
      (w.1.help.map (·.searchKey)).Nodup ∧
      ∀ between, KeepsIndex (first.session, first.tree) between →
        ∀ again, Text.lower again = Text.lower key →
          let w' := Operation.applyAll (first.session, first.tree) between
          w'.1.helpDocs w'.2 again = { result := first.result, session := w'.1, tree := w'.2 } := by
  intro w first
  have hdistinct : Distinct w.1.help :=
    applyAll_induction (fun _ _ => distinct_apply) hbefore (distinct_loadIndex hloaded)
  obtain ⟨htree, hsession, hanswered⟩ := helpDocs_eq hdistinct w.2 key
  refine ⟨htree, hsession, hdistinct, fun between hbetween again hagain => ?_⟩
  intro w'
  have hfirst : Distinct first.session.help := by
    rw [hsession]
    exact CommandIndex.distinct_map_withAnswer hdistinct _ _
  obtain ⟨-, hlast⟩ : Distinct w'.1.help ∧ Answered w'.1.help (Text.lower key) first.result :=
    applyAll_induction
      (P := fun w => Distinct w.1.help ∧ Answered w.1.help (Text.lower key) first.result)
      (fun _ _ hkept h => ⟨distinct_apply hkept h.1, answered_apply hkept h.1 h.2⟩)
      hbetween ⟨hfirst, hanswered⟩
  exact helpDocs_of_answered (hagain ▸ hlast) w'.2

/-- An index with one command. -/
def indexedTree : FileTree where
  files := [(⟨"root/docs/html/Modules/commands.txt"⟩,
    .text "Abs%( n% )|Absolute value|/mod/brl.mod/math.mod/doc/commands.html#Abs")]

/-- The page of the command beside it. -/
def documentedTree : FileTree :=
  indexedTree.putFile ⟨"root/mod/brl.mod/math.mod/doc/commands.html"⟩
    (.text "<table id=Abs><td class=docright>Absolute</td></table>")

/-- The answer after an index was loaded, and a later one. -/
def answersFrom (t : FileTree) (before between : List Operation) : Option LongDocs × Option LongDocs :=
  let w := Operation.applyAll (Operation.loadIndex.apply ({ config := .ofRoot ⟨"root"⟩ }, t)) before
  let first := w.1.helpDocs w.2 "Abs"
  let w' := Operation.applyAll (first.session, first.tree) between
  (first.result, (w'.1.helpDocs w'.2 "aBS").result)

/-- A page that is gone later on, and one that comes too late. -/
theorem helpDocs_once_indexed :
    answersFrom documentedTree [.moduleHtml "brl.mod/math.mod"] [.edit {}, .load, .loadIndex] =
        (some { title := some "Absolute" }, some { title := some "Absolute" }) ∧
      answersFrom indexedTree [.helpDocs "Sin"] [.edit documentedTree, .helpDocs "abs"] =
        (none, none) := by
  have hlower : Text.lower "aBS" = Text.lower "Abs" := by decide +kernel
  have hfound : (Session.loadIndex { config := .ofRoot ⟨"root"⟩ } documentedTree).result = .ok 1 := by
    decide +kernel
  have hmissed : (Session.loadIndex { config := .ofRoot ⟨"root"⟩ } indexedTree).result = .ok 1 := by
    decide +kernel
  simp only [answersFrom, Prod.mk.injEq]
  constructor
  · have hbefore : KeepsIndex
        (Operation.loadIndex.apply ({ config := .ofRoot ⟨"root"⟩ }, documentedTree))
        [.moduleHtml "brl.mod/math.mod"] := ⟨trivial, trivial⟩
    obtain ⟨-, -, -, hagain⟩ := helpDocs_once hfound hbefore "Abs"
    have hlater := congrArg Outcome.result (hagain [.edit {}, .load, .loadIndex] ?_ "aBS" hlower)
    · rw [hlater, and_self]
      decide +kernel
    · refine ⟨trivial, trivial, fun n hok => ?_, trivial⟩
      have hnone : (Except.ok n : Except Failure Nat).toOption = none := by
        rw [← hok]
        decide +kernel
      cases hnone
  · have hbefore : KeepsIndex (Operation.loadIndex.apply ({ config := .ofRoot ⟨"root"⟩ }, indexedTree))
        [.helpDocs "Sin"] := ⟨trivial, trivial⟩
    obtain ⟨-, -, -, hagain⟩ := helpDocs_once hmissed hbefore "Abs"
    have hlater := congrArg Outcome.result
      (hagain [.edit documentedTree, .helpDocs "abs"] ⟨trivial, trivial, trivial⟩ "aBS" hlower)
    rw [hlater, and_self]
    decide +kernel

end Session

end BlitzDoc
