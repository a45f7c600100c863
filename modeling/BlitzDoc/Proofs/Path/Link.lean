import BlitzDoc.Proofs.Path.NormalForm

/-!
# Links between files

A file names another as seen from its own folder. `parent?` drops the last step of a path
(`parent?_of_name`), and `join` takes the steps of its second path from the place of the first
(`place_join`). So the place of a link depends only on the place of the file that holds it
(`linked_normalize`), however the path of that file is spelled.
-/

namespace BlitzDoc.Path

open Component (ofPiece? IsPiece)

/-! ## Joining -/

theorem intercalate_pieces (p : Path) : ['/'].intercalate p.pieces = p.text.toList :=
  List.intercalate_splitOn '/'

theorem pieces_ne_nil (p : Path) : p.pieces ≠ [] := List.splitOn_ne_nil _ _

/-- A path whose first piece is empty is absolute, unless it is empty itself. -/
theorem rest_eq_nil_of_relative {p : Path} (hrel : p.isAbsolute = false) {rest : List (List Char)}
    (hp : p.pieces = [] :: rest) : rest = [] := by
  have htext := intercalate_pieces p
  rw [hp] at htext
  cases rest with
  | nil => rfl
  | cons q qs =>
    rw [List.intercalate_cons_cons] at htext
    simp [isAbsolute, ← htext] at hrel

/-- The steps of a relative path, but for a `.` in front. -/
def innerSteps (p : Path) : List Component :=
  p.pieces.filterMap ofPiece?

theorem components_of_relative {p : Path} (hrel : p.isAbsolute = false) :
    p.components = p.innerSteps ∨ p.components = .here :: p.innerSteps := by
  unfold innerSteps
  rw [components_eq]
  cases hp : p.pieces with
  | nil => exact absurd hp (pieces_ne_nil p)
  | cons first rest =>
    by_cases hempty : first = []
    · subst hempty
      rw [rest_eq_nil_of_relative hrel hp]
      exact Or.inl rfl
    · by_cases hdot : first = ['.']
      · subst hdot
        exact Or.inr rfl
      · have hf : isTrivial first = false := by simp [isTrivial, hempty, hdot]
        rw [componentsOf, leading_of_not_trivial hf, List.filterMap_cons]
        cases ofPiece? first <;> exact Or.inl rfl

theorem componentsOf_append {ps qs : List (List Char)} (hp : ps ≠ []) (hq : qs ≠ []) :
    componentsOf (ps ++ qs) = componentsOf (ps ++ [[]]) ++ qs.filterMap ofPiece? := by
  cases ps with
  | nil => exact absurd rfl hp
  | cons first rest =>
    have hnil : ofPiece? [] = none := rfl
    have hempty : (rest ++ qs).isEmpty = (rest ++ [[]]).isEmpty := by
      cases rest <;> cases qs <;> simp_all
    simp [componentsOf, hnil, hempty]

/-- The pieces of a joined path: those of the first, but for an empty one behind a last slash, then
those of the second. -/
theorem pieces_join {base sub : Path} (hrel : sub.isAbsolute = false) (hbase : base.text ≠ "") :
    ∃ front, front ≠ [] ∧ (base.join sub).pieces = front ++ sub.pieces ∧
      (base.pieces = front ++ [[]] ∨ base.pieces = front ∧ front ≠ [[]]) := by
  unfold join
  simp only [hrel, Bool.false_eq_true, ↓reduceIte]
  split
  · rename_i hslash
    obtain ⟨w, hw⟩ : ∃ w, base.text.toList = w ++ ['/'] := by
      have hlast : base.text.toList.getLast? = some '/' := by simpa [hbase] using hslash
      exact ⟨_, (List.dropLast_append_getLast? '/' hlast).symm⟩
    refine ⟨w.splitOn '/', List.splitOn_ne_nil _ _, ?_, .inl ?_⟩
    · rw [pieces, String.toList_append, hw, List.append_assoc, List.singleton_append,
        List.splitOn_append_cons_self]
      rfl
    · rw [pieces, hw, List.splitOn_append_cons_self]
      rfl
  · refine ⟨base.pieces, pieces_ne_nil base, ?_, .inr ⟨rfl, ?_⟩⟩
    · rw [pieces, String.toList_append, String.toList_append, List.append_assoc]
      exact List.splitOn_append_cons_self _ _
    · intro hempty
      have htext := intercalate_pieces base
      rw [hempty] at htext
      apply hbase
      rw [← String.toList_inj, ← htext]
      rfl

/-- The steps of a joined path: those of the first, then those of the second. -/
theorem components_join {base sub : Path} (hrel : sub.isAbsolute = false) (hbase : base.text ≠ "") :
    (base.join sub).components = base.components ++ sub.innerSteps := by
  obtain ⟨front, hfront, hjoin, hpieces⟩ := pieces_join hrel hbase
  unfold innerSteps
  rw [components_eq, components_eq base, hjoin, componentsOf_append hfront (pieces_ne_nil sub)]
  rcases hpieces with hpieces | ⟨hpieces, hne⟩
  · rw [hpieces]
  · -- only the empty path would change by the slash
    rw [hpieces]
    congr 1
    cases front with
    | nil => exact absurd rfl hfront
    | cons first rest =>
      cases rest with
      | nil =>
        have hf : first ≠ [] := by
          rintro rfl
          exact hne rfl
        simp [componentsOf, leading, hf, Component.ofPiece?]
      | cons q qs => simp [componentsOf, List.filterMap_cons, Component.ofPiece?]

/-- The first piece of an absolute path is empty, and there are others behind it. -/
theorem pieces_of_isAbsolute {p : Path} (h : p.isAbsolute = true) :
    ∃ piece rest, p.pieces = [] :: piece :: rest := by
  cases htext : p.text.toList with
  | nil => simp [isAbsolute, htext] at h
  | cons c cs =>
    obtain rfl : c = '/' := by simpa [isAbsolute, htext] using h
    have hpieces : p.pieces = [] :: cs.splitOn '/' := by
      rw [pieces, htext, List.splitOn_cons_eq_if_modifyHead]
      simp
    cases hrest : cs.splitOn '/' with
    | nil => exact absurd hrest (List.splitOn_ne_nil _ _)
    | cons piece rest => exact ⟨piece, rest, by rw [hpieces, hrest]⟩

/-- The steps of a path with every `.` among them start at the root if the path is absolute. -/
theorem steps_eq (p : Path) :
    p.steps = (if p.isAbsolute then [.root] else []) ++ p.pieces.filterMap stepOf? := by
  unfold steps
  split
  · rename_i piece rest hp
    have habs : p.isAbsolute = true := by
      by_contra hrel
      have hnil := rest_eq_nil_of_relative (by simpa using hrel) hp
      cases hnil
    simp [habs]
  · rename_i hnot
    have hrel : p.isAbsolute = false := by
      rw [Bool.eq_false_iff]
      intro habs
      obtain ⟨piece, rest, hp⟩ := pieces_of_isAbsolute habs
      exact hnot _ _ hp
    simp [hrel]

/-- A single piece is no absolute path. -/
theorem isAbsolute_piece {s : String} (hslash : '/' ∉ s.toList) : isAbsolute ⟨s⟩ = false := by
  cases hhead : s.toList with
  | nil => simp [isAbsolute, hhead]
  | cons c cs =>
    rw [hhead, List.mem_cons, not_or] at hslash
    simpa [isAbsolute, hhead] using Ne.symm hslash.1

/-- The steps of a joined path with every `.` among them. -/
theorem steps_join {base sub : Path} (hrel : sub.isAbsolute = false) :
    (base.join sub).steps = base.steps ++ sub.steps := by
  by_cases hbase : base.text = ""
  · have hjoin : base.join sub = sub := by simp [join, hrel, hbase]
    have hempty : base = ⟨""⟩ := by
      cases base
      subst hbase
      rfl
    rw [hjoin, hempty]
    rfl
  · obtain ⟨front, hfront, hjoin, hpieces⟩ := pieces_join hrel hbase
    have habs : (base.join sub).isAbsolute = base.isAbsolute := by
      have hne : base.text.toList ≠ [] := by simpa using hbase
      simp only [join, hrel, Bool.false_eq_true, ↓reduceIte]
      split <;> simp [isAbsolute, List.head?_append_of_ne_nil _ hne]
    have hfold : base.pieces.filterMap stepOf? = front.filterMap stepOf? := by
      rcases hpieces with hpieces | ⟨hpieces, -⟩
      · have hnil : stepOf? [] = none := rfl
        simp [hpieces, hnil]
      · rw [hpieces]
    simp [steps_eq, habs, hjoin, hrel, hfold]

theorem steps_piece {s : String} (hslash : '/' ∉ s.toList) :
    steps ⟨s⟩ = (stepOf? s.toList).toList := by
  have hpieces : pieces ⟨s⟩ = [s.toList] := List.splitOn_eq_singleton hslash
  rw [steps_eq, isAbsolute_piece hslash, hpieces]
  cases hstep : stepOf? s.toList <;> simp [hstep]

theorem stepOf?_eq_none_iff (piece : List Char) : stepOf? piece = none ↔ piece = [] := by
  unfold stepOf? ofPiece?
  split
  · simp
  · split <;> simp_all

/-- A relative path that is not empty has a step. -/
theorem steps_ne_nil {p : Path} (hrel : p.isAbsolute = false) (hempty : p.text ≠ "") : p.steps ≠ [] := by
  have htext := intercalate_pieces p
  rw [steps_eq, hrel]
  cases hp : p.pieces with
  | nil => exact absurd hp (pieces_ne_nil p)
  | cons first rest =>
    have hfirst : first ≠ [] := by
      rintro rfl
      rw [hp, rest_eq_nil_of_relative hrel hp] at htext
      apply hempty
      rw [← String.toList_inj, ← htext]
      rfl
    cases hstep : stepOf? first with
    | none => exact absurd ((stepOf?_eq_none_iff first).1 hstep) hfirst
    | some c => simp [hstep]

/-- A path that ends in a name has a text. -/
theorem isEmpty_text_name {s : String} (h : (Component.name s).IsPiece) (base : Path) :
    (base / s).text.isEmpty = false := by
  have hslash : '/' ∉ s.toList := h.2
  have hne : s ≠ "" := by
    rintro rfl
    cases h.1
  show (base.join ⟨s⟩).text.isEmpty = false
  unfold join
  rw [isAbsolute_piece hslash]
  simp only [Bool.false_eq_true, ↓reduceIte]
  split <;> simp [hne]

theorem foldl_components_of_relative {p : Path} (hrel : p.isAbsolute = false)
    (done : List Component) : p.components.foldl foldStep done = p.innerSteps.foldl foldStep done := by
  rcases components_of_relative hrel with h | h
  · rw [h]
  · rw [h]
    rfl

/-- **The place of a joined path** is found by taking the steps of the second path from the place of
the first. -/
theorem place_join {base sub : Path} (hrel : sub.isAbsolute = false) :
    (base.join sub).place = sub.innerSteps.foldl foldStep base.place := by
  by_cases hbase : base.text = ""
  · have hjoin : base.join sub = sub := by simp [join, hrel, hbase]
    have hplace : base.place = [] := by
      cases base
      subst hbase
      rfl
    rw [hjoin, hplace, place, foldl_components_of_relative hrel]
  · rw [place, components_join hrel hbase, List.foldl_append, place]

/-- The place of a single piece, seen from a folder. -/
theorem place_piece {s : String} (hslash : '/' ∉ s.toList) (base : Path) :
    (base / s).place = (ofPiece? s.toList).toList.foldl foldStep base.place := by
  have hrel := isAbsolute_piece hslash
  have hpieces : pieces ⟨s⟩ = [s.toList] := List.splitOn_eq_singleton hslash
  have hsteps : innerSteps ⟨s⟩ = (ofPiece? s.toList).toList := by
    rw [innerSteps, hpieces]
    cases hpiece : ofPiece? s.toList <;> simp [hpiece]
  calc (base / s).place = (innerSteps ⟨s⟩).foldl foldStep base.place := place_join hrel
    _ = (ofPiece? s.toList).toList.foldl foldStep base.place := by rw [hsteps]

/-- The place of a name in a folder lies one step below the folder. -/
theorem place_name {s : String} (h : (Component.name s).IsPiece) (base : Path) :
    (base / s).place = .name s :: base.place := by
  have hslash : '/' ∉ s.toList := h.2
  have hpiece : ofPiece? s.toList = some (.name s) := h.1
  rw [place_piece hslash, hpiece]
  rfl

theorem components_normalize_name {s : String} (h : (Component.name s).IsPiece) (base : Path) :
    (base / s).normalize.components = base.normalize.components ++ [.name s] := by
  rw [components_normalize, components_normalize, place_name h, List.reverse_cons]

/-- A joined path ends in the name that its second path ends in, if that one has any steps. -/
theorem fileName?_join {base sub : Path} (hrel : sub.isAbsolute = false) (hsteps : sub.innerSteps ≠ []) :
    (base.join sub).fileName? = sub.fileName? := by
  have hlast : ∀ cs : List Component, (cs ++ sub.innerSteps).getLast? = sub.innerSteps.getLast? := by
    intro cs
    rw [List.getLast?_append]
    cases h : sub.innerSteps.getLast? with
    | none => exact absurd (List.getLast?_eq_none_iff.1 h) hsteps
    | some c => rfl
  by_cases hbase : base.text = ""
  · have hjoin : base.join sub = sub := by simp [join, hrel, hbase]
    rw [hjoin]
  · have hsub : sub.components.getLast? = sub.innerSteps.getLast? := by
      rcases components_of_relative hrel with h | h <;> rw [h]
      exact hlast [.here]
    rw [fileName?, fileName?, components_join hrel hbase, hlast, hsub]

/-! ## The folder of a path -/

theorem dropTrivialEnd_initial (ps : List (List Char)) : dropTrivialEnd ps <+: ps := by
  have h := List.reverse_prefix.2 (List.dropWhile_suffix isTrivial (l := ps.reverse))
  rwa [List.reverse_reverse] at h

theorem filterMap_dropTrivialEnd (ps : List (List Char)) :
    (dropTrivialEnd ps).filterMap ofPiece? = ps.filterMap ofPiece? := by
  conv_rhs => rw [← List.reverse_reverse ps]
  rw [dropTrivialEnd, List.filterMap_reverse, List.filterMap_reverse, List.reverse_inj]
  induction ps.reverse with
  | nil => rfl
  | cons q qs ih =>
    rw [List.dropWhile_cons]
    split
    · rename_i hq
      rw [ih, List.filterMap_cons, (Component.ofPiece?_eq_none_iff q).2 hq]
    · rfl

/-- Either no piece is a step, or what is left without the trivial end ends in one. -/
theorem dropTrivialEnd_cases (ps : List (List Char)) : dropTrivialEnd ps = [] ∨
    ∃ ds last c, dropTrivialEnd ps = ds ++ [last] ∧ ofPiece? last = some c := by
  unfold dropTrivialEnd
  cases h : ps.reverse.dropWhile isTrivial with
  | nil => exact Or.inl rfl
  | cons last ds =>
    have hlast : isTrivial last = false := by
      have := List.head?_dropWhile_not isTrivial ps.reverse
      simpa [h] using this
    cases hc : ofPiece? last with
    | none => rw [(Component.ofPiece?_eq_none_iff last).1 hc] at hlast; cases hlast
    | some c => exact Or.inr ⟨ds.reverse, last, c, List.reverse_cons, hc⟩

theorem dropTrivialEnd_ne_nil {first : List Char} (hfirst : isTrivial first = false)
    (rest : List (List Char)) : dropTrivialEnd (first :: rest) ≠ [] := by
  unfold dropTrivialEnd
  rw [ne_eq, List.reverse_eq_nil_iff, List.dropWhile_eq_nil_iff]
  intro hall
  rw [hall first (by simp)] at hfirst
  cases hfirst

/-- Pieces without their last step and the trivial pieces before it. -/
def front (qs : List (List Char)) : List (List Char) :=
  dropTrivialEnd (dropTrivialEnd qs).dropLast

theorem front_initial (qs : List (List Char)) : front qs <+: qs :=
  (dropTrivialEnd_initial _).trans ((List.dropLast_prefix _).trans (dropTrivialEnd_initial qs))

theorem not_mem_of_mem_front {qs : List (List Char)} (hslash : ∀ piece ∈ qs, '/' ∉ piece) :
    ∀ piece ∈ front qs, '/' ∉ piece :=
  fun piece hpiece => hslash piece ((front_initial qs).subset hpiece)

/-- The steps of a front are those before the last one, if that is a name. -/
theorem front_of_name {qs : List (List Char)} {ds : List Component} {s : String}
    (h : qs.filterMap ofPiece? = ds ++ [.name s]) :
    dropTrivialEnd qs ≠ [] ∧ (front qs).filterMap ofPiece? = ds := by
  rw [← filterMap_dropTrivialEnd] at h
  rcases dropTrivialEnd_cases qs with hq | ⟨ps, last, c, hq, hc⟩
  · simp [hq] at h
  · rw [hq, List.filterMap_append] at h
    simp only [List.filterMap_cons, hc, List.filterMap_nil] at h
    refine ⟨by simp [hq], ?_⟩
    rw [front, hq, List.dropLast_concat, filterMap_dropTrivialEnd]
    exact (List.append_inj' h rfl).1

/-- Pieces with slashes between them. -/
def ofPieces (ps : List (List Char)) : Path :=
  ⟨String.ofList (['/'].intercalate ps)⟩

/-! ### The four ways a path begins

A path is empty, or it begins with a slash, with a `.` or with a step. `parent?` keeps the beginning
and the front of what follows. -/

theorem pieces_cases (p : Path) : p.pieces = [[]] ∨ (∃ piece rest, p.pieces = [] :: piece :: rest) ∨
    (∃ rest, p.pieces = ['.'] :: rest) ∨
      ∃ first rest, p.pieces = first :: rest ∧ isTrivial first = false := by
  cases hp : p.pieces with
  | nil => exact absurd hp (pieces_ne_nil p)
  | cons first rest =>
    cases hfirst : isTrivial first with
    | false => exact .inr (.inr (.inr ⟨first, rest, rfl, hfirst⟩))
    | true =>
      obtain rfl | rfl : first = [] ∨ first = ['.'] := by simpa [isTrivial] using hfirst
      · cases rest with
        | nil => exact .inl rfl
        | cons piece rest => exact .inr (.inl ⟨piece, rest, rfl⟩)
      · exact .inr (.inr (.inl ⟨rest, rfl⟩))

section
variable {p : Path} {first piece : List Char} {rest : List (List Char)}

theorem parent?_of_empty (hp : p.pieces = [[]]) : p.parent? = none := by
  unfold parent?
  rw [hp]
  rfl

theorem parent?_of_slash (hp : p.pieces = [] :: piece :: rest) :
    p.parent? = if dropTrivialEnd (piece :: rest) = [] then none
      else some ⟨"/" ++ (ofPieces (front (piece :: rest))).text⟩ := by
  unfold parent? front
  rw [hp]
  cases h : dropTrivialEnd (piece :: rest) <;> simp [h, ofPieces]

theorem parent?_of_dot (hp : p.pieces = ['.'] :: rest) :
    p.parent? = some (if dropTrivialEnd rest = [] then ⟨""⟩ else ofPieces (['.'] :: front rest)) := by
  unfold parent? front
  rw [hp]
  cases h : dropTrivialEnd rest <;> simp [h, ofPieces]

theorem parent?_of_step (hp : p.pieces = first :: rest) (hfirst : isTrivial first = false) :
    p.parent? = some (ofPieces (front (first :: rest))) := by
  have hbody := dropTrivialEnd_ne_nil hfirst rest
  simp only [isTrivial, Bool.or_eq_false_iff, decide_eq_false_iff_not] at hfirst
  unfold parent? front
  rw [hp]
  cases h : dropTrivialEnd (first :: rest) with
  | nil => exact absurd h hbody
  | cons d ds => simp [h, hfirst.1, hfirst.2, ofPieces]

end

/-- Pieces behind a slash, read again. -/
theorem pieces_slash {ds : List (List Char)} (hslash : ∀ d ∈ ds, '/' ∉ d) :
    pieces ⟨"/" ++ (ofPieces ds).text⟩ = [] :: if ds = [] then [[]] else ds := by
  have htext : ("/" ++ (ofPieces ds).text).toList = '/' :: ['/'].intercalate ds := by
    simp [ofPieces]
  rw [pieces, htext, List.splitOn_cons_eq_if_modifyHead]
  cases ds with
  | nil => rfl
  | cons d ds =>
    rw [List.splitOn_intercalate '/' hslash (by simp)]
    simp

/-- A front that begins with a step, read again. -/
theorem pieces_front {first : List Char} {rest : List (List Char)}
    (hslash : ∀ piece ∈ first :: rest, '/' ∉ piece) :
    front (first :: rest) = [] ∧ ofPieces (front (first :: rest)) = ⟨""⟩ ∨
      ∃ ds, front (first :: rest) = first :: ds ∧
        (ofPieces (front (first :: rest))).pieces = first :: ds := by
  have hread := pieces_of_intercalate (not_mem_of_mem_front hslash)
  have hinitial := front_initial (first :: rest)
  cases hfront : front (first :: rest) with
  | nil => exact .inl ⟨rfl, rfl⟩
  | cons d ds =>
    rw [hfront] at hread hinitial
    obtain rfl : d = first := (List.cons_prefix_cons.1 hinitial).1
    exact .inr ⟨ds, rfl, hread (by simp)⟩

/-- A `.` and a front, read again. -/
theorem pieces_dot {rest : List (List Char)} (hslash : ∀ piece ∈ rest, '/' ∉ piece) :
    (ofPieces (['.'] :: front rest)).pieces = ['.'] :: front rest := by
  refine pieces_of_intercalate ?_ (by simp)
  intro d hd
  rcases List.mem_cons.1 hd with rfl | hd
  · decide
  · exact not_mem_of_mem_front hslash d hd

/-! ### The steps of a folder -/

theorem componentsOf_of_step {first : List Char} (hfirst : isTrivial first = false)
    (rest : List (List Char)) :
    componentsOf (first :: rest) = (first :: rest).filterMap ofPiece? := by
  rw [componentsOf, leading_of_not_trivial hfirst, List.filterMap_cons]
  cases ofPiece? first <;> rfl

/-- Pieces behind a slash are the steps behind the root. -/
theorem components_slash {ds : List (List Char)} (hslash : ∀ d ∈ ds, '/' ∉ d) :
    components ⟨"/" ++ (ofPieces ds).text⟩ = .root :: ds.filterMap ofPiece? := by
  rw [components_eq, pieces_slash hslash]
  cases ds <;> rfl

/-- **The folder of a path that ends in a name** has its steps but the last. -/
theorem parent?_of_name {p : Path} {cs : List Component} {s : String}
    (h : p.components = cs ++ [.name s]) : ∃ base, p.parent? = some base ∧ base.components = cs := by
  have hslash : ∀ piece ∈ p.pieces, '/' ∉ piece := fun _ => Text.not_mem_of_mem_splitOn
  rw [components_eq] at h
  rcases pieces_cases p with hp | ⟨piece, rest, hp⟩ | ⟨rest, hp⟩ | ⟨first, rest, hp, hfirst⟩
  · rw [hp] at h
    simp [componentsOf, leading] at h
  · rw [hp] at h hslash
    rw [List.forall_mem_cons] at hslash
    obtain ⟨-, hroot⟩ | ⟨ds, rfl, hds⟩ := List.cons_eq_append_iff.1 h
    · cases hroot
    obtain ⟨hbody, hfront⟩ := front_of_name hds
    refine ⟨_, by rw [parent?_of_slash hp, if_neg hbody], ?_⟩
    rw [components_slash (not_mem_of_mem_front hslash.2), hfront]
  · rw [hp] at h hslash
    rw [List.forall_mem_cons] at hslash
    obtain ⟨-, hhere⟩ | ⟨ds, rfl, hds⟩ := List.cons_eq_append_iff.1 h
    · cases hhere
    obtain ⟨hbody, hfront⟩ := front_of_name hds
    refine ⟨_, by rw [parent?_of_dot hp, if_neg hbody], ?_⟩
    rw [components_eq, pieces_dot hslash.2, ← hfront]
    rfl
  · rw [hp] at h hslash
    rw [componentsOf_of_step hfirst] at h
    refine ⟨_, parent?_of_step hp hfirst, ?_⟩
    rw [← (front_of_name h).2]
    rcases pieces_front hslash with ⟨hfront, hempty⟩ | ⟨ds, hfront, hread⟩
    · rw [hempty, hfront]
      rfl
    · rw [components_eq, hread, hfront, componentsOf_of_step hfirst]

/-! ### The way to a folder -/

theorem steps_of_pieces {p : Path} {first : List Char} {rest : List (List Char)}
    (hp : p.pieces = first :: rest) (hfirst : first ≠ []) :
    p.steps = (first :: rest).filterMap stepOf? := by
  unfold steps
  rw [hp]
  split
  · rename_i heq
    exact absurd (List.cons.inj heq).1 hfirst
  · rfl

/-- Pieces behind a slash, with every `.` among them. -/
theorem steps_slash {ds : List (List Char)} (hslash : ∀ d ∈ ds, '/' ∉ d) :
    steps ⟨"/" ++ (ofPieces ds).text⟩ = .root :: ds.filterMap stepOf? := by
  unfold steps
  rw [pieces_slash hslash]
  cases ds <;> rfl

/-- There is a step behind the front of pieces. -/
theorem exists_steps_behind {qs : List (List Char)} (h : dropTrivialEnd qs ≠ []) :
    ∃ c more, qs.filterMap stepOf? = (front qs).filterMap stepOf? ++ c :: more := by
  obtain hnil | ⟨ds, last, c, hq, hc⟩ := dropTrivialEnd_cases qs
  · exact absurd hnil h
  obtain ⟨behind, hbehind⟩ := dropTrivialEnd_initial qs
  obtain ⟨trivial, htrivial⟩ := dropTrivialEnd_initial ds
  rw [hq] at hbehind
  rw [front, hq, List.dropLast_concat]
  have hqs : qs = dropTrivialEnd ds ++ (trivial ++ last :: behind) := by
    rw [← hbehind, List.append_assoc, List.singleton_append, ← List.append_assoc, htrivial]
  have hstep : stepOf? last ≠ none := by
    rw [ne_eq, stepOf?_eq_none_iff]
    rintro rfl
    cases hc
  have hmore : (trivial ++ last :: behind).filterMap stepOf? ≠ [] := by
    rw [ne_eq, List.filterMap_eq_nil_iff]
    exact fun hall => hstep (hall last (by simp))
  obtain ⟨c', more, heq⟩ := List.exists_cons_of_ne_nil hmore
  exact ⟨c', more, by rw [← heq, ← List.filterMap_append, ← hqs]⟩

/-- **The way to a path leads through its folder**, and there is a step behind it. -/
theorem steps_of_parent? {p base : Path} (h : p.parent? = some base) :
    ∃ c more, p.steps = base.steps ++ c :: more := by
  have hslash : ∀ piece ∈ p.pieces, '/' ∉ piece := fun _ => Text.not_mem_of_mem_splitOn
  rcases pieces_cases p with hp | ⟨piece, rest, hp⟩ | ⟨rest, hp⟩ | ⟨first, rest, hp, hfirst⟩
  · rw [parent?_of_empty hp] at h
    cases h
  · rw [hp, List.forall_mem_cons] at hslash
    rw [parent?_of_slash hp] at h
    split at h
    · cases h
    · rename_i hbody
      cases h
      obtain ⟨c, more, hsteps⟩ := exists_steps_behind hbody
      refine ⟨c, more, ?_⟩
      rw [steps_slash (not_mem_of_mem_front hslash.2), List.cons_append, ← hsteps]
      simp only [steps, hp]
      rfl
  · rw [hp, List.forall_mem_cons] at hslash
    rw [parent?_of_dot hp] at h
    have hsteps : p.steps = .here :: rest.filterMap stepOf? := steps_of_pieces hp (by simp)
    split at h
    · cases h
      exact ⟨.here, _, hsteps⟩
    · rename_i hbody
      cases h
      obtain ⟨c, more, hrest⟩ := exists_steps_behind hbody
      refine ⟨c, more, ?_⟩
      rw [hsteps, steps_of_pieces (pieces_dot hslash.2) (by simp), hrest]
      rfl
  · rw [hp] at hslash
    rw [parent?_of_step hp hfirst] at h
    cases h
    have hne : first ≠ [] := by
      rintro rfl
      cases hfirst
    obtain ⟨c, more, hsteps⟩ := exists_steps_behind (dropTrivialEnd_ne_nil hfirst rest)
    refine ⟨c, more, ?_⟩
    rw [steps_of_pieces hp hne, hsteps]
    rcases pieces_front hslash with ⟨hfront, hempty⟩ | ⟨ds, hfront, hread⟩
    · rw [hempty, hfront]
      rfl
    · rw [steps_of_pieces hread hne, hfront]

/-! ## Links -/

/-- A file that is named in another one, as seen from the folder of that one. -/
def linked (file : Path) (target : String) : Path :=
  (file.parent?.getD ⟨""⟩).join ⟨target⟩

/-- A path that ends in a name has that name on top of the place of its folder, and so has its normal
form. -/
theorem folders_of_name {p : Path} {cs : List Component} {s : String}
    (h : p.components = cs ++ [.name s]) : ∃ base base', p.parent? = some base ∧
      p.normalize.parent? = some base' ∧ base'.place = base.place ∧
      p.place = .name s :: base.place := by
  obtain ⟨base, hbase, hcs⟩ := parent?_of_name h
  have hplace : p.place = .name s :: base.place := by
    rw [place, h, List.foldl_append, ← hcs]
    rfl
  have hnormal : p.normalize.components = base.place.reverse ++ [.name s] := by
    rw [components_normalize, hplace, List.reverse_cons]
  obtain ⟨base', hbase', hcs'⟩ := parent?_of_name hnormal
  refine ⟨base, base', hbase, hbase', ?_, hplace⟩
  rw [place, hcs', foldl_reverse_place]

/-- **Links do not depend on how a path is spelled.** From two spellings of a file, a link leads to
one place. It also ends in one name, unless it leads to the folder that the file lies in. -/
theorem linked_normalize {p : Path} {cs : List Component} {s : String}
    (h : p.components = cs ++ [.name s]) (target : String) :
    (p.normalize.linked target).place = (p.linked target).place ∧
      ((p.normalize.linked target).fileName? = (p.linked target).fileName? ∨
        p.place = .name s :: (p.linked target).place) := by
  obtain ⟨base, base', hbase, hbase', hsame, hplace⟩ := folders_of_name h
  unfold linked
  rw [hbase, hbase', Option.getD_some, Option.getD_some]
  cases habs : isAbsolute ⟨target⟩ with
  | true =>
    have hjoin : ∀ b : Path, b.join ⟨target⟩ = ⟨target⟩ := by intro b; simp [join, habs]
    rw [hjoin, hjoin]
    exact ⟨rfl, Or.inl rfl⟩
  | false =>
    refine ⟨by rw [place_join habs, place_join habs, hsame], ?_⟩
    by_cases hsteps : innerSteps ⟨target⟩ = []
    · right
      rw [place_join habs, hsteps, hplace]
      rfl
    · left
      rw [fileName?_join habs hsteps, fileName?_join habs hsteps]

end BlitzDoc.Path
