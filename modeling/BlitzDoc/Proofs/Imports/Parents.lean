import BlitzDoc.Page
import BlitzDoc.Proofs.Analysis.Append
import BlitzDoc.Proofs.Imports.Search
import BlitzDoc.Proofs.Source.Parents

/-!
# Parents across files

A parent is a bare place in a list of entries, and the entries of a followed file move when they are
appended. Appending moves their parents along (`validParents_append`), so in the outcome of an
analysis every parent still comes before its member and opens an aggregate of the file that the
member is from (`analyze_parents_valid`).
-/

namespace BlitzDoc

open Source

/-! ## Appending -/

theorem IsOwner.adopted {docs : List DocEntry} {file : Path} {j : Nat} (h : IsOwner docs file j)
    (m : Option String) (front : List DocEntry) :
    IsOwner (front ++ docs.map (Analysis.adopt m front.length)) file (j + front.length) := by
  obtain ⟨owner, howner, h⟩ := h
  refine ⟨Analysis.adopt m front.length owner, ?_, h⟩
  rw [List.getElem?_append_right (Nat.le_add_left _ _), Nat.add_sub_cancel, List.getElem?_map, howner]
  rfl

theorem validParents_append {a b : Analysis} (ha : ValidParents a.docs) (hb : ValidParents b.docs) :
    ValidParents (a.append b).docs := by
  rw [Analysis.append_docs]
  intro i x hx j hj
  by_cases hi : i < a.docs.length
  · rw [List.getElem?_append_left hi] at hx
    obtain ⟨hlt, howner⟩ := ha i x hx j hj
    exact ⟨hlt, howner.append _⟩
  · rw [List.getElem?_append_right (Nat.le_of_not_lt hi), List.getElem?_map,
      Option.map_eq_some_iff] at hx
    obtain ⟨e, he, rfl⟩ := hx
    rw [Analysis.adopt_parent, Option.map_eq_some_iff] at hj
    obtain ⟨k, hk, rfl⟩ := hj
    obtain ⟨hlt, howner⟩ := hb _ e he k hk
    exact ⟨by omega, howner.adopted a.moduleName a.docs⟩

namespace Imports

/-! ## Where the entries of a file stand -/

/-- The number of entries in the files. -/
def entryCount (rs : List Reading) : Nat :=
  (rs.flatMap fun r => r.scanned.analysis.docs).length

/-- The entries of a file stand in the list from place `n` on, their parents moved along. -/
def StandsAt (docs : List DocEntry) (n : Nat) (r : Reading) : Prop :=
  ∀ i e, r.scanned.analysis.docs[i]? = some e → ∃ e', docs[n + i]? = some e' ∧
    e'.declaration = { e.declaration with parent := e.declaration.parent.map (· + n) }

theorem StandsAt.append {docs : List DocEntry} {n : Nat} {r : Reading} (h : StandsAt docs n r)
    (more : List DocEntry) : StandsAt (docs ++ more) n r := by
  intro i e he
  obtain ⟨e', he', hmoved⟩ := h i e he
  have hlt := (List.getElem?_eq_some_iff.1 he').1
  exact ⟨e', by rw [List.getElem?_append_left hlt, he'], hmoved⟩

/-- What was just appended stands behind all that was there. -/
theorem standsAt_append (a : Analysis) (r : Reading) :
    StandsAt (a.append r.scanned.analysis).docs a.docs.length r := by
  intro i e he
  refine ⟨Analysis.adopt a.moduleName a.docs.length e, ?_, rfl⟩
  rw [Analysis.append_docs, List.getElem?_append_right (Nat.le_add_right _ _), Nat.add_sub_cancel_left,
    List.getElem?_map, he]
  rfl

/-- Parents keep away from the end of the list. -/
theorem StandsAt.parent_lt {docs : List DocEntry} {n : Nat} {r : Reading} (h : StandsAt docs n r)
    (hvalid : ValidParents docs) {e : DocEntry} (he : e ∈ r.scanned.analysis.docs) {j : Nat}
    (hj : e.declaration.parent = some j) : j + n < docs.length := by
  obtain ⟨i, hi⟩ := List.getElem?_of_mem he
  obtain ⟨e', he', hmoved⟩ := h i e hi
  have hj' : e'.declaration.parent = some (j + n) := by rw [hmoved, hj]; rfl
  exact ((hvalid _ e' he' _ hj').2).lt

theorem StandsAt.isKeyword {docs : List DocEntry} {n : Nat} {r : Reading} (h : StandsAt docs n r)
    {k : Nat} (hk : IsKeyword r.scanned.analysis.docs k) : IsKeyword docs (n + k) := by
  obtain ⟨e, he, hkind, hparent⟩ := hk
  obtain ⟨e', he', hmoved⟩ := h k e he
  exact ⟨e', he', by rw [hmoved, hkind], by rw [hmoved, hparent]; rfl⟩

/-! ## The invariant of the search -/

/-- What holds between two turns: the outcome has the entries of the scanned files, one file behind
the other. -/
structure Merged (s : Search) : Prop where
  parents : ValidParents s.outcome.analysis.docs
  length : s.outcome.analysis.docs.length = entryCount s.scanned
  stands : ∀ before r after, s.scanned = before ++ r :: after →
    StandsAt s.outcome.analysis.docs (entryCount before) r

theorem merged_start (source : String) (file : Path) (options : Options) (marked : List Path) :
    Merged (.start source file options marked) := by
  refine ⟨(scan_parents source file options).1, ?_, ?_⟩
  · simp [entryCount, Search.start, Reading.scanned]
  · intro before r after h
    obtain ⟨rfl, rfl, rfl⟩ : before = [] ∧ r = ⟨source, file, options⟩ ∧ after = [] := by
      rcases List.append_eq_singleton_iff.1 h.symm with ⟨hb, hr⟩ | ⟨-, hr⟩
      · exact ⟨hb, by simpa using hr⟩
      · cases hr
    intro i e he
    have hdocs : (Search.start source file options marked).outcome.analysis.docs[0 + i]? = some e := by
      rw [Nat.zero_add]
      exact he
    exact ⟨e, hdocs, by simp [entryCount]⟩

theorem merged_take {s : Search} (M : Merged s) (r : Reading) (rest : List Path) :
    Merged (s.take r rest) := by
  refine ⟨validParents_append M.parents (scan_parents _ _ _).1, ?_, ?_⟩
  · have hlength := Analysis.length_append_docs s.outcome.analysis r.scanned.analysis
    rw [M.length] at hlength
    simpa [entryCount, Search.take] using hlength
  · intro before r' after h
    rcases List.eq_nil_or_concat after with rfl | ⟨after', last, rfl⟩
    · obtain ⟨hbefore, hr⟩ := List.append_inj' h rfl
      obtain rfl : r = r' := by simpa using hr
      rw [← hbefore, ← M.length]
      exact standsAt_append s.outcome.analysis r
    · rw [List.concat_eq_append, ← List.cons_append, ← List.append_assoc] at h
      obtain ⟨hfront, -⟩ := List.append_inj' h rfl
      exact (M.stands before r' after' hfront).append _

theorem merged_turn {t : FileTree} {options : Options} {s s' : Search} (M : Merged s)
    (h : s.turn t options = some s') : Merged s' := by
  obtain ⟨target, rest, -, h⟩ := Search.turn_cases h
  rcases h with ⟨e, -, rfl⟩ | ⟨-, -, ⟨e, -, rfl⟩ | ⟨text, -, rfl⟩⟩
  · exact ⟨M.parents, M.length, M.stands⟩
  · exact ⟨M.parents, M.length, M.stands⟩
  · exact merged_take M _ rest

/-! ## Outcomes -/

/-- The name of a member is shown behind that of the entry that its parent points at. -/
theorem displayName_of_parent (title : String) (a : Analysis) {e owner : DocEntry} {j : Nat}
    (hj : e.declaration.parent = some j) (howner : a.docs[j]? = some owner) :
    (Page.ofAnalysis title a).displayName e =
      owner.declaration.name ++ "." ++ e.declaration.name := by
  have hbind : e.declaration.parent.bind ((Page.ofAnalysis title a).entries[·]?) = some owner := by
    rw [hj]
    exact howner
  unfold Page.displayName
  rw [hbind]

/-- **Parents in the outcome of an analysis.** A parent comes before its member and opens an aggregate
of the same file, whose name qualifies that of the member. In the search that led there, every scanned
file has its entries at one stretch: those made from keywords have no parent, and a parent that moves
along never leaves the list. -/
theorem analyze_parents_valid (t : FileTree) (source : String) (file : Path) (options : Options)
    (marked : List Path) :
    (∀ i e, (analyze t source file options marked).analysis.docs[i]? = some e →
      ∀ j, e.declaration.parent = some j → j < i ∧
        ∃ owner, (analyze t source file options marked).analysis.docs[j]? = some owner ∧
          owner.declaration.file = e.declaration.file ∧
          Line.opensAggregate owner.declaration.raw.toList = true ∧
          ∀ title, (Page.ofAnalysis title (analyze t source file options marked).analysis).displayName e
            = owner.declaration.name ++ "." ++ e.declaration.name) ∧
    ∃ final : Search,
      (Search.start source file options marked).Reaches t { options with isModuleEntry := false } final ∧
      final.outcome = analyze t source file options marked ∧
      (options.followImports = true → final.stack = []) ∧
      (options.followImports = false → final = Search.start source file options marked) ∧
      ∀ before r after, final.scanned = before ++ r :: after →
        StandsAt final.outcome.analysis.docs (entryCount before) r ∧
        (∀ k ∈ keywordPlaces r.text r.file r.options,
          IsKeyword final.outcome.analysis.docs (entryCount before + k)) ∧
        ∀ e ∈ r.scanned.analysis.docs, ∀ j, e.declaration.parent = some j →
          j + entryCount before < final.outcome.analysis.docs.length := by
  obtain ⟨final, hreach, houtcome, hend, hstart⟩ := exists_search t source file options marked
  have M : Merged final :=
    Search.reaches_induction (fun _ _ => merged_turn) hreach (merged_start source file options marked)
  refine ⟨?_, final, hreach, houtcome, hend, hstart, ?_⟩
  · rw [← houtcome]
    intro i e he j hj
    obtain ⟨hlt, owner, howner, hfile, hopens⟩ := M.parents i e he j hj
    exact ⟨hlt, owner, howner, hfile, hopens, fun title => displayName_of_parent title _ hj howner⟩
  · intro before r after hscanned
    have hstands := M.stands before r after hscanned
    refine ⟨hstands, ?_, ?_⟩
    · exact fun k hk => hstands.isKeyword (scan_keywordPlaces r.text r.file r.options k hk)
    · exact fun e he j hj => hstands.parent_lt M.parents he hj

end Imports

end BlitzDoc
