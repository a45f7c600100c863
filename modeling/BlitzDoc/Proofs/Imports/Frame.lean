import BlitzDoc.Proofs.Imports.Search

/-!
# What an analysis depends on

An analysis reads the files that it looks at and no others. Two trees in which all of these read alike
therefore give one analysis and one list of marks (`analyzeFile_of_reads`). So a file makes no difference
that is not marked (`analyzeFile_congr`), and one that is marked but not followed may as well not be
there (`analyzeFile_of_unfollowed`). Only the events can differ: a file that is missing and one that
cannot be read are told apart there and nowhere else.

The two searches go turn by turn (`alike_turn`), so they stay alike to their end (`alike_reaches`).
-/

namespace BlitzDoc.Imports

open Source (Options scan)

theorem toOption_eq_some_iff {ε α : Type} {x : Except ε α} {a : α} :
    x.toOption = some a ↔ x = .ok a := by
  cases x <;> simp [Except.toOption]

/-! ## What is seen of a target -/

section
variable {t : FileTree} {options : Options} {visited : List Path} {target : Path}

theorem look_of_skipped (h : target.hasExtension options.extension = false ∨
    isVisited visited target.normalize = true) : ∃ e, look t options visited target = .skipped e := by
  by_cases hext : target.hasExtension options.extension = true
  · have hvis := h.resolve_left (by simp [hext])
    exact ⟨.alreadyVisited target, by simp [look, hext, hvis]⟩
  · exact ⟨.foreignExtension target, by simp [look, hext]⟩

variable (hext : target.hasExtension options.extension = true)
  (hnew : isVisited visited target.normalize = false)

include hext hnew in
theorem look_of_unreadable (h : ∀ text, t.read target ≠ .ok text) :
    ∃ e, look t options visited target = .missed e := by
  simp only [look, hext, hnew, Bool.not_true, Bool.false_eq_true, if_false]
  split
  · exact ⟨_, rfl⟩
  · cases hread : t.read target with
    | error fault => exact ⟨_, rfl⟩
    | ok text => exact absurd hread (h text)

include hext hnew in
theorem look_of_read {text : String} (h : t.read target = .ok text) :
    look t options visited target = .readable text := by
  simp [look, hext, hnew, exists_of_read h, h]

end

/-! ## Two searches side by side -/

namespace Search

/-- The searches have the same targets before them and have found and marked the same. -/
structure Alike (s s' : Search) : Prop where
  stack : s'.stack = s.stack
  analysis : s'.outcome.analysis = s.outcome.analysis
  visited : s'.outcome.visited = s.outcome.visited

/-- The search looks at the target on top of its stack: it has not been marked, and its extension is
that of sources. -/
def LooksAt (options : Options) (s : Search) (target : Path) : Prop :=
  (∃ rest, s.stack = target :: rest) ∧ target.hasExtension options.extension = true ∧
    isVisited s.outcome.visited target.normalize = false

variable {t t' : FileTree} {options : Options} {place target : Path} {s s' mid final : Search}

/-- What is looked at is marked, and it is scanned if it can be read. -/
theorem turn_of_looksAt (t : FileTree) (h : s.LooksAt options target) :
    ∃ s', s.turn t options = some s' ∧ target.normalize ∈ s'.outcome.visited ∧
      ∀ text, t.read target = .ok text → ⟨text, target, options⟩ ∈ s'.scanned.drop s.scanned.length := by
  obtain ⟨⟨rest, hstack⟩, hext, hnew⟩ := h
  have hmarked : target.normalize ∈ mark s.outcome.visited target.normalize := by simp [mark, hnew]
  by_cases hread : ∃ text, t.read target = .ok text
  · obtain ⟨text, htext⟩ := hread
    have hlook := look_of_read hext hnew htext
    refine ⟨s.take ⟨text, target, options⟩ rest, by simp only [turn, hstack, hlook], hmarked, ?_⟩
    intro text' htext'
    rw [htext] at htext'
    cases htext'
    simp [take]
  · obtain ⟨e, hlook⟩ := look_of_unreadable hext hnew fun text htext => hread ⟨text, htext⟩
    exact ⟨s.miss target rest e, by simp only [turn, hstack, hlook], hmarked,
      fun text htext => absurd ⟨text, htext⟩ hread⟩

/-- Marks stay, and so do the files that were scanned. -/
theorem subset_of_reaches (h : s.Reaches t options s') :
    s.outcome.visited ⊆ s'.outcome.visited ∧ s.scanned <+: s'.scanned := by
  have hmark (visited : List Path) (p : Path) : visited ⊆ mark visited p := by
    unfold mark
    split
    · exact List.Subset.refl _
    · exact List.subset_append_left _ _
  induction h with
  | refl => exact ⟨List.Subset.refl _, List.prefix_rfl⟩
  | tail _ hstep ih =>
    obtain ⟨target, rest, -, hstep⟩ := turn_cases hstep
    rcases hstep with ⟨e, -, rfl⟩ | ⟨-, -, ⟨e, -, rfl⟩ | ⟨text, -, rfl⟩⟩
    · exact ih
    · exact ⟨List.Subset.trans ih.1 (hmark _ _), ih.2⟩
    · exact ⟨List.Subset.trans ih.1 (hmark _ _), ih.2.trans (List.prefix_append _ _)⟩

/-- A search goes one way, so all that it comes to lies on the way to its end. -/
theorem reaches_final (h : s.Reaches t options mid) (hfinal : s.Reaches t options final)
    (hend : final.stack = []) : mid.Reaches t options final := by
  have hunique : Relator.RightUnique fun s s' : Search => s.turn t options = some s' := by
    intro a b c hb hc
    exact Option.some.inj (hb.symm.trans hc)
  rcases Relation.ReflTransGen.total_of_right_unique hunique h hfinal with hreach | hreach
  · exact hreach
  · rcases Relation.ReflTransGen.cases_head hreach with rfl | ⟨next, hturn, -⟩
    · exact .refl
    · rw [turn_eq_none_iff.2 hend] at hturn
      cases hturn

/-- **One turn**: where the target reads alike, both searches make the same of it. -/
theorem alike_turn {r : Search} (h : s.turn t options = some r) (halike : s.Alike s')
    (hread : ∀ target, s.LooksAt options target → (t'.read target).toOption = (t.read target).toOption) :
    ∃ r', s'.turn t' options = some r' ∧ r.Alike r' := by
  obtain ⟨target, rest, hstack, h⟩ := turn_cases h
  have hstack' : s'.stack = target :: rest := halike.stack.trans hstack
  rcases h with ⟨e, hskip, rfl⟩ | ⟨hext, hnew, h⟩
  · obtain ⟨e', hlook⟩ := look_of_skipped (t := t') (halike.visited ▸ hskip)
    exact ⟨s'.skip rest e', by simp only [turn, hstack', hlook], rfl, halike.analysis, halike.visited⟩
  have hsame := hread target ⟨⟨rest, hstack⟩, hext, hnew⟩
  have hnew' : isVisited s'.outcome.visited target.normalize = false := halike.visited ▸ hnew
  rcases h with ⟨e, hnone, rfl⟩ | ⟨text, htext, rfl⟩
  · have hnone' : ∀ text, t'.read target ≠ .ok text := fun text htext =>
      hnone text (toOption_eq_some_iff.1 (hsame.symm.trans (toOption_eq_some_iff.2 htext)))
    obtain ⟨e', hlook⟩ := look_of_unreadable hext hnew' hnone'
    refine ⟨s'.miss target rest e', by simp only [turn, hstack', hlook], rfl, halike.analysis, ?_⟩
    simp only [miss, halike.visited]
  · have htext' : t'.read target = .ok text :=
      toOption_eq_some_iff.1 (hsame.trans (toOption_eq_some_iff.2 htext))
    have hlook := look_of_read hext hnew' htext'
    refine ⟨s'.take ⟨text, target, options⟩ rest, by simp only [turn, hstack', hlook], rfl, ?_, ?_⟩
    · simp only [take, halike.analysis]
    · simp only [take, halike.visited]

/-- **A whole search**: what one search comes to, the other comes to as well. -/
theorem alike_reaches (h : s.Reaches t options final) (halike : s.Alike s')
    (hread : ∀ mid target, s.Reaches t options mid → mid.LooksAt options target →
      (t'.read target).toOption = (t.read target).toOption) :
    ∃ final', s'.Reaches t' options final' ∧ final.Alike final' := by
  induction h with
  | refl => exact ⟨s', .refl, halike⟩
  | @tail mid _ hreach hstep ih =>
    obtain ⟨mid', hreach', hmid⟩ := ih
    obtain ⟨final', hstep', hfinal⟩ := alike_turn hstep hmid fun target => hread mid target hreach
    exact ⟨final', hreach'.tail hstep', hfinal⟩

end Search

/-! ## Analyses -/

/-- What an analysis finds and what it marks. -/
def Outcome.findings (o : Outcome) : Analysis × List Path :=
  (o.analysis, o.visited)

/-- The analysis of a file looks at the target while it follows imports. -/
def LooksAt (t : FileTree) (file : Path) (options : Options) (target : Path) : Prop :=
  ∃ source s, t.read file = .ok source ∧
    (Search.start source file options []).Reaches t { options with isModuleEntry := false } s ∧
    s.LooksAt { options with isModuleEntry := false } target

/-- The analysis of a file follows an import to the place: it scans the file that is there. -/
def Follows (t : FileTree) (file : Path) (options : Options) (place : Path) : Prop :=
  ∃ source s, t.read file = .ok source ∧
    (Search.start source file options []).Reaches t { options with isModuleEntry := false } s ∧
    ∃ r ∈ s.scanned.tail, r.place = place

section
variable {t t' : FileTree} {place : Path} {file : Path} {options : Options}

/-- A file that can be read is there, so only reading decides. -/
theorem toOption_analyzeFile (t : FileTree) (file : Path) (options : Options) :
    (analyzeFile t file options).toOption =
      (t.read file).toOption.map fun source => analyze t source file options [] := by
  unfold analyzeFile
  cases hcase : t.read file with
  | ok source => simp [exists_of_read hcase, Except.toOption]
  | error fault => split <;> rfl

/-- **An analysis depends on the files that it looks at.** -/
theorem analyzeFile_of_reads (hfile : (t'.read file).toOption = (t.read file).toOption)
    (hread : ∀ target, LooksAt t file options target →
      (t'.read target).toOption = (t.read target).toOption) :
    (analyzeFile t' file options).toOption.map Outcome.findings =
      (analyzeFile t file options).toOption.map Outcome.findings := by
  rw [toOption_analyzeFile, toOption_analyzeFile, hfile]
  cases hcase : t.read file with
  | error fault => rfl
  | ok source =>
    simp only [Except.toOption, Option.map_some, Option.some.injEq]
    by_cases hfollow : options.followImports = true
    · obtain ⟨final, hreach, houtcome, hend, -⟩ := exists_search t source file options []
      have hstart : (Search.start source file options []).Alike
          (Search.start source file options []) := ⟨rfl, rfl, rfl⟩
      obtain ⟨final', hreach', halike⟩ := Search.alike_reaches hreach hstart
        fun mid target hmid hlook => hread target ⟨source, mid, hcase, hmid, hlook⟩
      have hend' : final'.stack = [] := halike.stack.trans (hend hfollow)
      have houtcome' : analyze t' source file options [] = final'.outcome := by
        rw [← Search.follow_of_reaches hreach' hend']
        simp only [analyze, hfollow, if_true]
        rfl
      rw [← houtcome, houtcome', Outcome.findings, Outcome.findings, halike.analysis, halike.visited]
    · simp [analyze, hfollow]

/-- A file that pulls in no other follows none. -/
theorem not_follows_of_no_targets
    (h : ∀ source, t.read file = .ok source → (scan source file options).targets = []) :
    ¬Follows t file options place := by
  rintro ⟨source, s, hread, hreach, r, hr, -⟩
  rcases Relation.ReflTransGen.cases_head hreach with rfl | ⟨next, hturn, -⟩
  · cases hr
  · rw [Search.turn_eq_none_iff.2 (h source hread)] at hturn
    cases hturn

variable (hread : ∀ q : Path, q.normalize ≠ place → (t'.read q).toOption = (t.read q).toOption)

include hread in
/-- **A file that is not marked** may change. -/
theorem analyzeFile_congr (hfile : file.normalize ≠ place)
    (hplace : ∀ o, analyzeFile t file options = .ok o → place ∉ o.visited) :
    (analyzeFile t' file options).toOption.map Outcome.findings =
      (analyzeFile t file options).toOption.map Outcome.findings := by
  by_cases hfollow : options.followImports = true
  · refine analyzeFile_of_reads (hread file hfile) ?_
    rintro target ⟨source, mid, hcase, hmid, hlook⟩
    refine hread target ?_
    rintro rfl
    -- the target would be marked in the next turn, and then in the end
    obtain ⟨next, hturn, hmarked, -⟩ := Search.turn_of_looksAt t hlook
    obtain ⟨final, hreach, houtcome, hend, -⟩ := exists_search t source file options []
    have hfinal := Search.reaches_final (hmid.tail hturn) hreach (hend hfollow)
    have hok : analyzeFile t file options = .ok (analyze t source file options []) := by
      simp [analyzeFile, exists_of_read hcase, hcase]
    refine hplace _ hok ?_
    rw [← houtcome]
    exact (Search.subset_of_reaches hfinal).1 hmarked
  · rw [toOption_analyzeFile, toOption_analyzeFile, hread file hfile]
    simp [analyze, hfollow]

include hread in
/-- **A file that is not followed** may as well not be there. -/
theorem analyzeFile_of_unfollowed (hfile : file.normalize ≠ place)
    (hgone : ∀ q : Path, q.normalize = place → (t'.read q).toOption = none)
    (hplace : ¬Follows t file options place) :
    (analyzeFile t' file options).toOption.map Outcome.findings =
      (analyzeFile t file options).toOption.map Outcome.findings := by
  refine analyzeFile_of_reads (hread file hfile) ?_
  rintro target ⟨source, mid, hcase, hmid, hlook⟩
  by_cases htarget : target.normalize = place
  · rw [hgone target htarget]
    cases htext : t.read target with
    | error fault => rfl
    | ok text =>
      -- the target would be scanned in the next turn
      obtain ⟨next, hturn, -, hscanned⟩ := Search.turn_of_looksAt t hlook
      have hgrown := (Search.subset_of_reaches hmid).2.length_le
      have htail : next.scanned.drop mid.scanned.length <:+ next.scanned.tail := by
        rw [← List.drop_one]
        exact List.drop_suffix_drop_left _ hgrown
      exact absurd ⟨source, next, hcase, hmid.tail hturn, _, htail.subset (hscanned text htext), htarget⟩
        hplace
  · exact hread target htarget

end

end BlitzDoc.Imports
