import BlitzDoc.Proofs.Path.Link

/-!
# Where paths lead

A relative path is a way through folders: a name goes into one, `..` goes out of one, and `.` stays.
`destination` takes the steps of a path one after the other. What `normalize` folds away makes no
difference to it (`destination_eq_foldr`), and a normal form has a shape, first the root if there is one,
then folders to leave, then names to enter (`isFolded_place`), that can be told from where it leads
(`ups_le_of_append_eq`). The main statement is `normalize_canonical`: the normal form of a path is a
canonical one, it goes with `join`, and relative paths have it in common exactly when they lead to the
same place from every folder that they do not lead out of.
-/

namespace BlitzDoc

/-- The folder that a step leads to. Folders are given by the names on the way to them, the innermost
first. -/
def Component.enter : Component → List String → List String
  | .root, _ => []
  | .here, folder => folder
  | .up, folder => folder.tail
  | .name s, folder => s :: folder

theorem Component.ofPiece?_cases {piece : List Char} {c : Component} (h : ofPiece? piece = some c) :
    c = .up ∨ ∃ s, c = .name s := by
  unfold ofPiece? at h
  split at h <;> cases h
  · exact .inl rfl
  · exact .inr ⟨_, rfl⟩

namespace Path

/-- Where the steps of a path lead from a folder. -/
def destination (p : Path) (folder : List String) : List String :=
  p.components.foldl (fun folder c => c.enter folder) folder

/-! ## The shape of a normal form -/

theorem mem_innerSteps {p : Path} {c : Component} (h : c ∈ p.innerSteps) :
    c = .up ∨ ∃ s, c = .name s := by
  obtain ⟨piece, -, hpiece⟩ := List.mem_filterMap.1 h
  exact Component.ofPiece?_cases hpiece

theorem components_of_absolute {p : Path} (h : p.isAbsolute = true) :
    p.components = .root :: p.innerSteps := by
  obtain ⟨piece, rest, hpieces⟩ := pieces_of_isAbsolute h
  rw [components_eq, innerSteps, hpieces]
  rfl

/-- The steps in front of all others: the root of an absolute path. -/
def rootSteps (p : Path) : List Component :=
  if p.isAbsolute then [.root] else []

theorem place_eq_foldl (p : Path) : p.place = p.innerSteps.foldl foldStep p.rootSteps := by
  unfold place rootSteps
  cases h : p.isAbsolute with
  | true =>
    rw [components_of_absolute h]
    rfl
  | false => exact foldl_components_of_relative h []

/-- Steps, the last one first, that are nothing but names behind folders to leave behind `root`. -/
def IsFolded (root done : List Component) : Prop :=
  ∃ (names : List String) (ups : Nat), done = names.map .name ++ (List.replicate ups .up ++ root)

theorem isFolded_foldStep {root done : List Component} (hroot : root = [] ∨ root = [.root])
    (h : IsFolded root done) {c : Component} (hc : c = .up ∨ ∃ s, c = .name s) :
    IsFolded root (foldStep done c) := by
  obtain ⟨names, ups, rfl⟩ := h
  rcases hc with rfl | ⟨s, rfl⟩
  · cases names with
    | cons s names => exact ⟨names, ups, rfl⟩
    | nil =>
      -- there is no name to undo, so there is one folder more to leave
      refine ⟨[], ups + 1, ?_⟩
      cases ups with
      | zero => rcases hroot with rfl | rfl <;> rfl
      | succ ups => rfl
  · exact ⟨s :: names, ups, rfl⟩

theorem isFolded_foldl {root : List Component} (hroot : root = [] ∨ root = [.root])
    {cs : List Component} (hcs : ∀ c ∈ cs, c = .up ∨ ∃ s, c = .name s) {done : List Component}
    (h : IsFolded root done) : IsFolded root (cs.foldl foldStep done) := by
  induction cs generalizing done with
  | nil => exact h
  | cons c cs ih =>
    simp only [List.forall_mem_cons] at hcs
    exact ih hcs.2 (isFolded_foldStep hroot h hcs.1)

/-- **The shape of a place**: names behind folders to leave behind the root. -/
theorem isFolded_place (p : Path) : IsFolded p.rootSteps p.place := by
  have hroot : p.rootSteps = [] ∨ p.rootSteps = [.root] := by
    unfold rootSteps
    split
    · exact .inr rfl
    · exact .inl rfl
  rw [place_eq_foldl]
  exact isFolded_foldl hroot (fun c hc => mem_innerSteps hc) ⟨[], 0, rfl⟩

/-! ## Joining -/

/-- **Joining goes by places**: the spelling of the first path is of no account. -/
theorem normalize_join (base sub : Path) :
    (base.join sub).normalize = (base.normalize.join sub).normalize := by
  cases habs : sub.isAbsolute with
  | true => simp only [join, habs, if_true]
  | false => rw [normalize_eq_iff, place_join habs, place_join habs, place_normalize]

/-! ## Destinations -/

/-- To fold a step is to take it. -/
theorem foldr_enter_foldStep (done : List Component) (c : Component) (folder : List String) :
    (foldStep done c).foldr Component.enter folder =
      c.enter (done.foldr Component.enter folder) := by
  cases c with
  | root | here | name s => rfl
  | up =>
    cases done with
    | nil => rfl
    | cons d done => cases d <;> rfl

/-- **A path leads where its place is.** -/
theorem destination_eq_foldr (p : Path) (folder : List String) :
    p.destination folder = p.place.foldr Component.enter folder := by
  have hfold : ∀ (cs done : List Component),
      cs.foldl (fun folder c => c.enter folder) (done.foldr Component.enter folder) =
        (cs.foldl foldStep done).foldr Component.enter folder := by
    intro cs
    induction cs with
    | nil => exact fun _ => rfl
    | cons c cs ih =>
      intro done
      rw [List.foldl_cons, List.foldl_cons, ← foldr_enter_foldStep, ih]
  exact hfold p.components []

/-- A way out of some folders and into others. -/
theorem foldr_enter_append (names : List String) (ups : Nat) (folder : List String) :
    (names.map Component.name ++ List.replicate ups Component.up).foldr Component.enter folder =
      names ++ folder.drop ups := by
  have hups : (List.replicate ups Component.up).foldr Component.enter folder =
      folder.drop ups := by
    induction ups with
    | zero => rfl
    | succ ups ih => rw [List.replicate_succ, List.foldr_cons, ih, Component.enter, List.tail_drop]
  induction names with
  | nil => exact hups
  | cons s names ih => rw [List.map_cons, List.cons_append, List.foldr_cons, ih]; rfl

/-- A relative path leads out of as many folders as there are to leave, and into its names. -/
theorem exists_destination {p : Path} (hrel : p.isAbsolute = false) :
    ∃ (names : List String) (ups : Nat), p.place = names.map .name ++ List.replicate ups .up ∧
      ∀ folder, p.destination folder = names ++ folder.drop ups := by
  obtain ⟨names, ups, hplace⟩ := isFolded_place p
  have hroot : p.rootSteps = [] := by simp [rootSteps, hrel]
  rw [hroot, List.append_nil] at hplace
  refine ⟨names, ups, hplace, fun folder => ?_⟩
  rw [destination_eq_foldr, hplace, foldr_enter_append]

/-- Of two ways that meet, from folders all named `a` and from folders all named `b`, the second leaves no
more folders than the first: the folder that it leaves and the other does not would have to be named by
one of its own names, once `a` and once `b`. -/
theorem ups_le_of_append_eq {names names' : List String} {ups ups' depth : Nat} (hdepth : ups' ≤ depth)
    (ha : names ++ (List.replicate depth "a").drop ups = names' ++ (List.replicate depth "a").drop ups')
    (hb : names ++ (List.replicate depth "b").drop ups = names' ++ (List.replicate depth "b").drop ups') :
    ups' ≤ ups := by
  by_contra hlt
  have hlength := congrArg List.length ha
  simp only [List.length_append, List.length_drop, List.length_replicate] at hlength
  have hinside : names.length < names'.length := by omega
  have hname : ∀ s, names ++ (List.replicate depth s).drop ups =
      names' ++ (List.replicate depth s).drop ups' → names'[names.length]? = some s := by
    intro s h
    rw [← List.getElem?_append_left hinside, ← h, List.getElem?_append_right (Nat.le_refl _),
      Nat.sub_self, List.drop_replicate, List.getElem?_replicate, if_pos (by omega)]
  have hboth := (hname "a" ha).symm.trans (hname "b" hb)
  simp at hboth

/-- **Where a relative path leads tells its normal form.** -/
theorem normalize_eq_iff_destination {p q : Path} (hp : p.isAbsolute = false)
    (hq : q.isAbsolute = false) :
    p.normalize = q.normalize ↔ ∀ folder : List String, (∀ s ∈ folder, (Component.name s).IsPiece) →
      p.components.count .up ≤ folder.length → q.components.count .up ≤ folder.length →
      p.destination folder = q.destination folder := by
  constructor
  · intro h folder _ _ _
    rw [destination_eq_foldr, destination_eq_foldr, (normalize_eq_iff p q).1 h]
  · intro h
    obtain ⟨names, ups, hplace, hleads⟩ := exists_destination hp
    obtain ⟨names', ups', hplace', hleads'⟩ := exists_destination hq
    let depth := p.components.count .up + q.components.count .up + ups + ups'
    have hmeet : ∀ s, (Component.name s).IsPiece →
        names ++ (List.replicate depth s).drop ups = names' ++ (List.replicate depth s).drop ups' := by
      intro s hs
      rw [← hleads, ← hleads']
      refine h _ (fun n hn => ?_) ?_ ?_
      · rw [List.eq_of_mem_replicate hn]
        exact hs
      · simp only [List.length_replicate, depth]
        omega
      · simp only [List.length_replicate, depth]
        omega
    have ha := hmeet "a" ⟨by decide, by decide⟩
    have hb := hmeet "b" ⟨by decide, by decide⟩
    have hups : ups = ups' :=
      Nat.le_antisymm (ups_le_of_append_eq (by omega) ha.symm hb.symm)
        (ups_le_of_append_eq (by omega) ha hb)
    subst hups
    rw [normalize_eq_iff, hplace, hplace', List.append_cancel_right ha]

/-! ## Normal forms -/

/-- **The normal form of a path is canonical.** It is its own normal form; its steps are the root, if the
path is absolute, then folders to leave, then names, with no `.` among them; joining may start from it as
well as from the path; and two relative paths have one normal form exactly when they lead to the same
place from every folder that is as deep as the paths have steps `..`. -/
theorem normalize_canonical (p q : Path) :
    p.normalize.normalize = p.normalize ∧
      (∃ (ups : Nat) (names : List String), p.normalize.components =
        (if p.isAbsolute then [.root] else []) ++ List.replicate ups .up ++ names.map .name) ∧
      (p.join q).normalize = (p.normalize.join q).normalize ∧
      (p.isAbsolute = false → q.isAbsolute = false →
        (p.normalize = q.normalize ↔
          ∀ folder : List String, (∀ s ∈ folder, (Component.name s).IsPiece) →
            p.components.count .up ≤ folder.length → q.components.count .up ≤ folder.length →
            p.destination folder = q.destination folder)) := by
  refine ⟨normalize_normalize p, ?_, normalize_join p q, normalize_eq_iff_destination⟩
  obtain ⟨names, ups, hplace⟩ := isFolded_place p
  refine ⟨ups, names.reverse, ?_⟩
  have hroot : p.rootSteps.reverse = if p.isAbsolute then [.root] else [] := by
    unfold rootSteps
    split <;> rfl
  rw [components_normalize, hplace, List.reverse_append, List.reverse_append, List.reverse_replicate,
    hroot, List.map_reverse]

/-- A detour that leads out of a folder, and the way without it. -/
theorem normalize_detour :
    (⟨"a/../../b/./c"⟩ : Path).normalize = ⟨"../b/c"⟩ ∧
      (⟨"..//b/c/"⟩ : Path).normalize = ⟨"../b/c"⟩ ∧
      (⟨"a/../../b/./c"⟩ : Path).destination ["x", "y"] = ["c", "b", "y"] ∧
      (⟨"..//b/c/"⟩ : Path).destination ["x", "y"] = ["c", "b", "y"] := by
  have hlead : (⟨"a/../../b/./c"⟩ : Path).destination ["x", "y"] = ["c", "b", "y"] := by decide +kernel
  have hsame : (⟨"a/../../b/./c"⟩ : Path).normalize = (⟨"..//b/c/"⟩ : Path).normalize := by
    decide +kernel
  refine ⟨by decide +kernel, by decide +kernel, hlead, ?_⟩
  obtain ⟨-, -, -, hiff⟩ := normalize_canonical ⟨"a/../../b/./c"⟩ ⟨"..//b/c/"⟩
  rw [← (hiff (by decide) (by decide)).1 hsame ["x", "y"] ?_ (by decide +kernel) (by decide +kernel)]
  · exact hlead
  · intro s hs
    simp only [List.mem_cons, List.not_mem_nil, or_false] at hs
    rcases hs with rfl | rfl
    · exact ⟨by decide, by decide⟩
    · exact ⟨by decide, by decide⟩

end Path

end BlitzDoc
