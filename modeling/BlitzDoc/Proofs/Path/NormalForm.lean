import BlitzDoc.Path
import BlitzDoc.Proofs.Text.Lines
import Mathlib.Data.List.Basic

/-!
# Places of paths

The place of a path is what is left of its steps once every `..` is folded into the name before it.
`normalize` writes the place down, and reading the written form gives the place back
(`components_normalize`), so two paths have one normal form exactly when they have one place
(`normalize_eq_iff`), and a normal form is its own (`normalize_normalize`).
-/

namespace BlitzDoc

/-! ## Steps and pieces -/

namespace Component

/-- The step is written as a piece between slashes that reads as that step. -/
def IsPiece (c : Component) : Prop :=
  ofPiece? c.text.toList = some c ∧ '/' ∉ c.text.toList

theorem ofPiece?_eq_none_iff (piece : List Char) :
    ofPiece? piece = none ↔ Path.isTrivial piece = true := by
  unfold ofPiece? Path.isTrivial
  split <;> simp_all

/-- A piece without slashes, read as a step, is written as it was. -/
theorem isPiece_of_ofPiece? {piece : List Char} {c : Component} (h : ofPiece? piece = some c)
    (hslash : '/' ∉ piece) : c.IsPiece ∧ c.text.toList = piece := by
  have htext : c.text.toList = piece := by
    unfold ofPiece? at h
    split at h <;> cases h
    · decide
    · exact String.toList_ofList
  exact ⟨⟨by rw [htext, h], by rw [htext]; exact hslash⟩, htext⟩

theorem ne_root_of_isPiece {c : Component} (h : c.IsPiece) : c ≠ .root := by
  rintro rfl
  exact h.2 (by decide)

end Component

namespace Path

open Component (ofPiece? IsPiece)

/-- The steps that pieces stand for. -/
def componentsOf : List (List Char) → List Component
  | [] => []
  | first :: rest => leading first rest.isEmpty ++ rest.filterMap ofPiece?

theorem components_eq (p : Path) : p.components = componentsOf p.pieces := by
  unfold components componentsOf
  cases p.pieces <;> rfl

theorem leading_of_not_trivial {first : List Char} (h : isTrivial first = false) (b : Bool) :
    leading first b = (ofPiece? first).toList := by
  simp only [isTrivial, Bool.or_eq_false_iff, decide_eq_false_iff_not] at h
  simp [leading, h.1, h.2]

/-- Pieces, written with slashes between them, are read as they were. -/
theorem pieces_of_intercalate {ps : List (List Char)} (hslash : ∀ p ∈ ps, '/' ∉ p) (hne : ps ≠ []) :
    pieces ⟨String.ofList (['/'].intercalate ps)⟩ = ps := by
  unfold pieces
  rw [String.toList_ofList]
  exact List.splitOn_intercalate '/' hslash hne

/-! ## Places -/

/-- The steps that are left when every `..` is folded, the last one first. -/
def place (p : Path) : List Component :=
  p.components.foldl foldStep []

theorem normalize_eq (p : Path) : p.normalize = ofComponents p.place.reverse := rfl

/-- Steps that can be written down: only the first may be the root. -/
def Writable (cs : List Component) : Prop :=
  ∃ tail, (cs = tail ∨ cs = .root :: tail) ∧ ∀ c ∈ tail, c.IsPiece

theorem writable_append {cs : List Component} {c : Component} (h : Writable cs) (hc : c.IsPiece) :
    Writable (cs ++ [c]) := by
  obtain ⟨tail, htail, hall⟩ := h
  refine ⟨tail ++ [c], ?_, ?_⟩
  · rcases htail with rfl | rfl
    · exact Or.inl rfl
    · exact Or.inr rfl
  · intro d hd
    rcases List.mem_append.1 hd with hd | hd
    · exact hall d hd
    · rw [List.mem_singleton.1 hd]; exact hc

theorem writable_of_prefix {l l' : List Component} (h : l <+: l') (hl : Writable l') : Writable l := by
  obtain ⟨tail, rfl | rfl, hall⟩ := hl
  · exact ⟨l, .inl rfl, fun c hc => hall c (h.subset hc)⟩
  · cases l with
    | nil => exact ⟨[], .inl rfl, by simp⟩
    | cons c l =>
      obtain ⟨rfl, htail⟩ := List.cons_prefix_cons.1 h
      exact ⟨l, .inr rfl, fun c hc => hall c (htail.subset hc)⟩

/-- What is written down is read back. -/
theorem components_ofComponents {cs : List Component} (h : Writable cs) :
    (ofComponents cs).components = cs := by
  obtain ⟨tail, htail, hall⟩ := h
  -- the text of the steps behind the root, and its pieces
  have hread : (tail.map fun c => c.text.toList).filterMap ofPiece? = tail := by
    rw [List.filterMap_map]
    exact (List.filterMap_congr fun c hc => (hall c hc).1).trans List.filterMap_some
  have hslash : ∀ p ∈ tail.map (fun c => c.text.toList), '/' ∉ p := by
    simp only [List.mem_map]
    rintro p ⟨c, hc, rfl⟩
    exact (hall c hc).2
  have htext : ("/".intercalate (tail.map Component.text)).toList =
      ['/'].intercalate (tail.map fun c => c.text.toList) := by
    rw [String.toList_intercalate, List.map_map]
    rfl
  rw [components_eq]
  rcases htail with rfl | rfl
  · have hshape : (ofComponents cs).text = "/".intercalate (cs.map Component.text) := by
      unfold ofComponents
      split
      · exact absurd rfl (Component.ne_root_of_isPiece (hall _ List.mem_cons_self))
      · rfl
    unfold pieces
    rw [hshape, htext]
    cases cs with
    | nil => rfl
    | cons c rest =>
      rw [List.splitOn_intercalate '/' hslash (by simp)]
      have hc : isTrivial c.text.toList = false := by
        rw [← Bool.not_eq_true, ← Component.ofPiece?_eq_none_iff, (hall c (by simp)).1]
        simp
      rw [List.map_cons, componentsOf, leading_of_not_trivial hc]
      rw [List.map_cons, List.filterMap_cons, (hall c (by simp)).1] at hread
      simpa [(hall c (by simp)).1] using hread
  · have hshape : (ofComponents (.root :: tail)).text.toList =
        '/' :: ['/'].intercalate (tail.map fun c => c.text.toList) := by
      unfold ofComponents
      rw [String.toList_append, htext]
      rfl
    unfold pieces
    rw [hshape, List.splitOn_cons_eq_if_modifyHead]
    cases tail with
    | nil => rfl
    | cons c rest =>
      rw [List.splitOn_intercalate '/' hslash (by simp)]
      simpa [componentsOf, leading] using hread

/-- The steps of a path: perhaps the root or a `.` in front, then pieces. -/
theorem components_cases (p : Path) : ∃ tail, (∀ c ∈ tail, c.IsPiece) ∧
    (p.components = tail ∨ p.components = .root :: tail ∨ p.components = .here :: tail) := by
  have hpiece : ∀ ps : List (List Char), (∀ piece ∈ ps, '/' ∉ piece) →
      ∀ c ∈ ps.filterMap ofPiece?, c.IsPiece := by
    intro ps hps c hc
    obtain ⟨piece, hmem, h⟩ := List.mem_filterMap.1 hc
    exact (Component.isPiece_of_ofPiece? h (hps piece hmem)).1
  have hslash : ∀ piece ∈ p.pieces, '/' ∉ piece := fun _ => Text.not_mem_of_mem_splitOn
  rw [components_eq]
  cases hp : p.pieces with
  | nil => exact ⟨[], by simp, Or.inl rfl⟩
  | cons first rest =>
    rw [hp] at hslash
    have hrest := hpiece rest fun piece h => hslash piece (List.mem_cons_of_mem _ h)
    rw [componentsOf, leading]
    split
    · split
      · exact ⟨_, hrest, Or.inl rfl⟩
      · exact ⟨_, hrest, Or.inr (Or.inl rfl)⟩
    · split
      · exact ⟨_, hrest, Or.inr (Or.inr rfl)⟩
      · refine ⟨_, ?_, Or.inl rfl⟩
        have h := hpiece (first :: rest) hslash
        rw [List.filterMap_cons] at h
        split at h <;> rename_i hf <;> simpa [hf] using h

/-! ## Folding steps -/

theorem writable_foldStep {done : List Component} {c : Component} (h : Writable done.reverse)
    (hc : c.IsPiece) : Writable (foldStep done c).reverse := by
  unfold foldStep
  split
  · exact h
  · split
    · rw [List.reverse_cons] at h
      exact writable_of_prefix (List.prefix_append _ _) h
    · rw [List.reverse_cons]
      exact writable_append h hc
  · rw [List.reverse_cons]
    exact writable_append h hc

theorem writable_foldl {cs : List Component} (hcs : ∀ c ∈ cs, c.IsPiece) (done : List Component)
    (h : Writable done.reverse) : Writable (cs.foldl foldStep done).reverse := by
  induction cs generalizing done with
  | nil => exact h
  | cons c cs ih =>
    exact ih (fun d hd => hcs d (by simp [hd])) _ (writable_foldStep h (hcs c List.mem_cons_self))

theorem writable_place (p : Path) : Writable p.place.reverse := by
  unfold place
  obtain ⟨tail, htail, h | h | h⟩ := components_cases p <;> rw [h]
  · exact writable_foldl htail [] ⟨[], Or.inl rfl, by simp⟩
  · exact writable_foldl htail [.root] ⟨[], Or.inr rfl, by simp⟩
  · exact writable_foldl htail [] ⟨[], Or.inl rfl, by simp⟩

/-- The normal form has the steps of the place. -/
theorem components_normalize (p : Path) : p.normalize.components = p.place.reverse :=
  components_ofComponents (writable_place p)

/-- Steps that fold to themselves still do after one more step. -/
theorem foldl_foldStep_reverse {done : List Component}
    (h : done.reverse.foldl foldStep [] = done) (c : Component) :
    (foldStep done c).reverse.foldl foldStep [] = foldStep done c := by
  cases c with
  | here => exact h
  | up =>
    cases done with
    | nil => rfl
    | cons d rest =>
      cases d with
      | name s =>
        rw [List.reverse_cons, List.foldl_append] at h
        simpa [foldStep] using h
      | root | here | up =>
        rw [foldStep, List.reverse_cons, List.foldl_append, h]
        · rfl
        · simp
  | root | name s => rw [foldStep, List.reverse_cons, List.foldl_append, h] <;> simp [foldStep]

theorem place_normalize (p : Path) : p.normalize.place = p.place := by
  have hfold : ∀ (cs done : List Component), done.reverse.foldl foldStep [] = done →
      (cs.foldl foldStep done).reverse.foldl foldStep [] = cs.foldl foldStep done := by
    intro cs
    induction cs with
    | nil => exact fun _ h => h
    | cons c cs ih => exact fun done h => ih _ (foldl_foldStep_reverse h c)
  rw [place, components_normalize]
  exact hfold p.components [] rfl

/-- **Paths have one normal form exactly when they have one place.** -/
theorem normalize_eq_iff (p q : Path) : p.normalize = q.normalize ↔ p.place = q.place := by
  constructor
  · intro h
    rw [← place_normalize p, h, place_normalize]
  · intro h
    rw [normalize_eq, h, normalize_eq]

theorem normalize_normalize (p : Path) : p.normalize.normalize = p.normalize :=
  (normalize_eq_iff _ _).2 (place_normalize p)

/-- Among normal forms, the same steps are the same text. -/
theorem same_normalize_iff (p q : Path) :
    p.normalize.same q.normalize = true ↔ p.normalize = q.normalize := by
  rw [same, beq_iff_eq, components_normalize, components_normalize, List.reverse_inj,
    normalize_eq_iff]

theorem foldl_reverse_place (p : Path) : p.place.reverse.foldl foldStep [] = p.place := by
  have h := place_normalize p
  rwa [place, components_normalize] at h

end Path

end BlitzDoc
