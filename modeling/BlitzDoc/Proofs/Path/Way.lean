import BlitzDoc.Proofs.Path.Link
import Mathlib.Data.List.Infix

/-!
# The way to a path

Step by step, a path goes through the folders of its `steps`, and they lead to its place
(`foldl_steps`). The folders that are made for it are its ancestors, whose steps are the first ones of
its own (`steps_ancestors`). Where no `..` takes back a step that was made before, all of these folders
lie above the place (`IsDirect.prefix`); else the way may lead through folders elsewhere.
-/

namespace BlitzDoc.Path

open Component (IsPiece)

/-! ## Steps -/

theorem foldl_filterMap_stepOf? (ps : List (List Char)) (done : List Component) :
    (ps.filterMap stepOf?).foldl foldStep done =
      (ps.filterMap Component.ofPiece?).foldl foldStep done := by
  induction ps generalizing done with
  | nil => rfl
  | cons piece ps ih =>
    rw [List.filterMap_cons, List.filterMap_cons]
    by_cases hdot : piece = ['.']
    · subst hdot
      exact ih done
    · have hstep : stepOf? piece = Component.ofPiece? piece := by
        unfold stepOf?
        split
        · rename_i h
          exact absurd rfl hdot
        · rfl
      rw [hstep]
      cases Component.ofPiece? piece with
      | none => exact ih done
      | some c => exact ih _

/-- The steps of a path lead to its place. -/
theorem foldl_steps (p : Path) : p.steps.foldl foldStep [] = p.place := by
  rw [place, components_eq]
  unfold steps
  cases hp : p.pieces with
  | nil => exact absurd hp (pieces_ne_nil p)
  | cons first rest =>
    by_cases hfirst : first = []
    · subst hfirst
      cases rest with
      | nil => rfl
      | cons piece rest =>
        simp only [List.foldl_cons, foldl_filterMap_stepOf?]
        rfl
    · split
      · rename_i heq
        exact absurd (List.cons.inj heq).1 hfirst
      · rw [foldl_filterMap_stepOf?, componentsOf]
        by_cases hdot : first = ['.']
        · subst hdot
          rfl
        · simp only [leading, hfirst, hdot, if_false, List.foldl_append, List.filterMap_cons]
          cases Component.ofPiece? first <;> rfl

/-- A step on the way of a path: one that is written, or a stay. -/
theorem isPiece_of_stepOf? {piece : List Char} {c : Component} (h : stepOf? piece = some c)
    (hslash : '/' ∉ piece) : c = .here ∨ c.IsPiece := by
  unfold stepOf? at h
  split at h
  · cases h
    exact Or.inl rfl
  · exact Or.inr (Component.isPiece_of_ofPiece? h hslash).1

/-! ## Ancestors -/

/-- A path leads the folders above it, unless there are none. -/
theorem ancestors_cases (p : Path) :
    p.ancestors = [] ∨ p.text.isEmpty = false ∧ ∃ outer, p.ancestors = p :: outer := by
  unfold ancestors
  cases hlength : p.components.length with
  | zero => exact .inl rfl
  | succ n =>
    rw [ancestorsFrom]
    cases p.parent? with
    | none => exact .inl rfl
    | some parent =>
      refine .inr ⟨?_, _, rfl⟩
      rw [Bool.eq_false_iff, ne_eq, String.isEmpty_iff]
      intro hempty
      obtain rfl : p = ⟨""⟩ := by
        cases p
        exact congrArg mk hempty
      cases hlength

/-- The way to a folder on the way is the start of the way. -/
theorem steps_ancestors {p q : Path} (h : q ∈ p.ancestors) : q.steps <+: p.steps := by
  unfold ancestors at h
  generalize p.components.length = budget at h
  induction budget generalizing p with
  | zero => cases h
  | succ budget ih =>
    rw [ancestorsFrom] at h
    cases hparent : p.parent? with
    | none => simp [hparent] at h
    | some parent =>
      simp only [hparent, List.mem_cons] at h
      rcases h with rfl | h
      · exact List.prefix_rfl
      · obtain ⟨c, more, hsteps⟩ := steps_of_parent? hparent
        rw [hsteps]
        exact (ih h).trans (List.prefix_append _ _)

/-- No `..` takes back a step of the path: wherever the way leads, it goes on from there. -/
def IsDirect (p : Path) : Prop :=
  ∀ front ∈ p.steps.inits, front.foldl foldStep [] <:+ p.place

instance (p : Path) : Decidable p.IsDirect :=
  inferInstanceAs (Decidable (∀ front ∈ p.steps.inits, _))

/-- All that the way of a direct path leads through lies above its place. -/
theorem IsDirect.prefix {p q : Path} (h : p.IsDirect) (hsteps : q.steps <+: p.steps) :
    q.normalize.components <+: p.normalize.components := by
  have hplace := h q.steps ((List.mem_inits _ _).2 hsteps)
  rw [foldl_steps] at hplace
  rw [components_normalize, components_normalize]
  exact List.reverse_prefix.2 hplace

end BlitzDoc.Path
