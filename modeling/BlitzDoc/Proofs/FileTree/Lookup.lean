import BlitzDoc.Imports
import BlitzDoc.Proofs.Path.Way

/-!
# Looking things up

What look-ups depend on. A folder lists the next steps of what lies below it, each name once and in
increasing order (`mem_namesIn`, `nodup_namesIn`). Step by step, a path that could be walked has a folder
at every step (`folderAt_of_walk`), and it leads to its place (`walk_eq`).

Two relations say that trees look alike. Times, locks and the room there is have no part in any look-up
but that of a time, so trees that differ in nothing else are told apart by times alone (`SameEntries`).
Trees that differ in the file at one place alone give the same for all that stays away from the place and
from the folders above it (`SameBut`).
-/

namespace BlitzDoc.FileTree

/-- Steps that both have to succeed. -/
theorem bind_eq_ok {ε α β : Type} {x : Except ε α} {f : α → Except ε β} {b : β} :
    (x >>= f) = .ok b ↔ ∃ a, x = .ok a ∧ f a = .ok b := by
  cases x with
  | error e => simp [bind, Except.bind]
  | ok a => simp [bind, Except.bind]

/-! ## Names in a folder -/

theorem mem_insertName {name n : String} {ns : List String} :
    n ∈ insertName name ns ↔ n = name ∨ n ∈ ns := by
  induction ns with
  | nil => simp [insertName]
  | cons m ms ih =>
    rw [insertName]
    split
    · simp
    · split
      · rename_i h
        simp [h]
      · rw [List.mem_cons, ih, List.mem_cons]
        tauto

theorem pairwise_insertName {ns : List String} (h : ns.Pairwise (· < ·)) (name : String) :
    (insertName name ns).Pairwise (· < ·) := by
  induction ns with
  | nil => exact List.pairwise_singleton _ _
  | cons m ms ih =>
    obtain ⟨hhead, htail⟩ := List.pairwise_cons.1 h
    rw [insertName]
    split
    · rename_i hlt
      refine List.pairwise_cons.2 ⟨fun n hn => ?_, h⟩
      rcases List.mem_cons.1 hn with rfl | hn
      · exact hlt
      · exact String.lt_trans hlt (hhead n hn)
    · rename_i hnot
      split
      · exact h
      · rename_i hne
        have hlt : m < name := by
          by_contra hnlt
          exact hne (String.le_antisymm (String.not_lt.1 hnlt) (String.not_lt.1 hnot))
        refine List.pairwise_cons.2 ⟨fun n hn => ?_, ih htail⟩
        rcases mem_insertName.1 hn with rfl | hn
        · exact hlt
        · exact hhead n hn

/-- No name is listed twice. -/
theorem nodup_namesIn (t : FileTree) (place : Path) : (t.namesIn place).Nodup := by
  have hfold : ∀ (cs : List Component) (ns : List String), ns.Pairwise (· < ·) →
      (cs.foldl (fun ns c => insertName c.text ns) ns).Pairwise (· < ·) := by
    intro cs
    induction cs with
    | nil => exact fun ns hns => hns
    | cons c cs ih => exact fun ns hns => ih _ (pairwise_insertName hns c.text)
  refine (hfold _ [] List.Pairwise.nil).imp ?_
  rintro a b hlt rfl
  exact String.lt_irrefl a hlt

theorem mem_foldl_insertName {n : String} {cs : List Component} {ns : List String} :
    n ∈ cs.foldl (fun ns c => insertName c.text ns) ns ↔ n ∈ ns ∨ ∃ c ∈ cs, c.text = n := by
  induction cs generalizing ns with
  | nil => simp
  | cons c cs ih =>
    rw [List.foldl_cons, ih, mem_insertName]
    simp only [List.mem_cons, exists_eq_or_imp]
    tauto

theorem mem_namesIn {t : FileTree} {place : Path} {n : String} :
    n ∈ t.namesIn place ↔ ∃ target ∈ t.files.map (·.1) ++ t.folders, ∃ c,
      stepBelow? place target = some c ∧ c.text = n := by
  rw [namesIn, mem_foldl_insertName]
  simp only [List.not_mem_nil, false_or, List.mem_filterMap]
  constructor
  · rintro ⟨c, ⟨target, hmem, hstep⟩, htext⟩
    exact ⟨target, hmem, c, hstep, htext⟩
  · rintro ⟨target, hmem, c, hstep, htext⟩
    exact ⟨c, ⟨target, hmem, hstep⟩, htext⟩

theorem stepBelow?_eq_none {place target : Path}
    (h : ¬place.components <+: target.components) : stepBelow? place target = none := by
  rw [stepBelow?, if_neg]
  rwa [List.isPrefixOf_iff_prefix]

/-- A listed name that is none of the marks of a path is a piece of one. -/
theorem isPiece_of_mem_namesIn {t : FileTree} {place : Path} {n : String} (h : n ∈ t.namesIn place)
    (hn : n ∉ ["/", ".", ".."]) : (Component.name n).IsPiece := by
  obtain ⟨target, -, c, hstep, rfl⟩ := mem_namesIn.1 h
  have hmem : c ∈ target.components := by
    unfold stepBelow? at hstep
    split at hstep
    · exact List.mem_of_mem_drop (List.mem_of_mem_head? hstep)
    · cases hstep
  have hpiece : c.IsPiece := by
    obtain ⟨tail, htail, hcases⟩ := Path.components_cases target
    rcases hcases with hc | hc | hc <;> rw [hc] at hmem
    · exact htail c hmem
    · rcases List.mem_cons.1 hmem with rfl | hmem
      · exact absurd (by decide) hn
      · exact htail c hmem
    · rcases List.mem_cons.1 hmem with rfl | hmem
      · exact absurd (by decide) hn
      · exact htail c hmem
  cases c with
  | root => exact absurd (by decide) hn
  | here => exact absurd (by decide) hn
  | up => exact absurd (by decide) hn
  | name s => exact hpiece

/-! ## A file that is put -/

theorem lookup_put {α : Type} (key : Path) (value : α) (xs : List (Path × α)) (q : Path) :
    (put key value xs).lookup q = if q = key then some value else xs.lookup q := by
  have hcons (k : Path) (v : α) (ys : List (Path × α)) :
      ((k, v) :: ys).lookup q = if q = k then some v else ys.lookup q := by
    rw [List.lookup_cons]
    by_cases h : q = k
    · simp [h]
    · have hne : (q == k) = false := beq_eq_false_iff_ne.2 h
      simp [h, hne]
  induction xs with
  | nil => rw [put, hcons]
  | cons x xs ih =>
    obtain ⟨k, v⟩ := x
    rw [put]
    split
    · rename_i hk
      subst hk
      rw [hcons, hcons]
      split <;> rfl
    · rename_i hk
      rw [hcons, hcons, ih]
      by_cases hq : q = k
      · simp [hq, hk]
      · simp [hq]

theorem map_fst_put {α : Type} (key : Path) (value : α) (xs : List (Path × α)) :
    (put key value xs).map Prod.fst = xs.map Prod.fst ∨
      (put key value xs).map Prod.fst = xs.map Prod.fst ++ [key] := by
  induction xs with
  | nil => exact Or.inr rfl
  | cons x xs ih =>
    obtain ⟨k, v⟩ := x
    rw [put]
    split
    · rename_i hk
      exact Or.inl (by simp [hk])
    · rcases ih with h | h
      · exact Or.inl (by simp [h])
      · exact Or.inr (by simp [h])

section
variable (t : FileTree) (p : Path) (content : Content)

theorem fileAt?_putFile (q : Path) :
    (t.putFile p content).fileAt? q = if q = p.normalize then some content else t.fileAt? q :=
  lookup_put p.normalize content t.files q

theorem namesIn_putFile {q : Path} (hq : stepBelow? q p.normalize = none) :
    (t.putFile p content).namesIn q = t.namesIn q := by
  have hplaces : (((t.putFile p content).files.map (·.1)) ++ t.folders).filterMap (stepBelow? q) =
      ((t.files.map (·.1)) ++ t.folders).filterMap (stepBelow? q) := by
    rcases map_fst_put p.normalize content t.files with h | h
    · rw [putFile, h]
    · rw [putFile, h]
      simp [List.filterMap_append, hq]
  simp only [namesIn, ← hplaces]
  rfl

theorem folderAt_putFile {q : Path} (hq : stepBelow? q p.normalize = none) (hne : q ≠ p.normalize) :
    (t.putFile p content).folderAt q = t.folderAt q := by
  unfold folderAt
  rw [fileAt?_putFile, if_neg hne, namesIn_putFile t p content hq]
  rfl

end

/-- A text that can be read stands at the place of its path. -/
theorem fileAt?_of_read {t : FileTree} {p : Path} {s : String} (h : t.read p = .ok s) :
    t.fileAt? p.normalize = some (.text s) := by
  rw [read, bind_eq_ok] at h
  obtain ⟨place, hl, h⟩ := h
  rw [← Imports.locate_eq_normalize hl]
  split at h
  · rename_i hfile
    cases h
    exact hfile
  · cases h
  · split at h <;> cases h

/-- A folder is what can be listed, by the names in it. -/
theorem list_eq_ok_iff {t : FileTree} {p : Path} {names : List String} :
    t.list p = .ok names ↔ t.isFolder p = true ∧ names = t.namesIn p.normalize := by
  unfold list isFolder
  cases hl : t.locate p with
  | error e => simp [bind, Except.bind]
  | ok place =>
    obtain rfl := Imports.locate_eq_normalize hl
    simp only [bind, Except.bind]
    cases hfile : (t.fileAt? p.normalize).isSome with
    | true =>
      have hfolder : t.folderAt p.normalize = false := by
        obtain ⟨content, hcontent⟩ := Option.isSome_iff_exists.1 hfile
        simp [folderAt, hcontent]
      simp [hfolder]
    | false =>
      cases hfolder : t.folderAt p.normalize with
      | true =>
        simp only [Bool.false_eq_true, if_false, if_true, true_and]
        exact ⟨fun h => by cases h; rfl, fun h => by rw [h]⟩
      | false => simp

/-! ## Walking -/

theorem walk_eq {t : FileTree} {cs done d : List Component} (h : t.walk done cs = .ok d) :
    d = cs.foldl Path.foldStep done := by
  induction cs generalizing done with
  | nil =>
    rw [walk] at h
    cases h
    rfl
  | cons c cs ih =>
    rw [walk] at h
    split at h
    · exact ih h
    · split at h <;> cases h

theorem foldStep_cases (done : List Component) (c : Component) :
    Path.foldStep done c <:+ done ∨ ∃ d, Path.foldStep done c = d :: done := by
  cases c with
  | root => exact Or.inr ⟨_, rfl⟩
  | here => exact Or.inl (List.suffix_refl _)
  | name s => exact Or.inr ⟨_, rfl⟩
  | up =>
    cases done with
    | nil => exact Or.inr ⟨_, rfl⟩
    | cons d done =>
      cases d with
      | name s => exact Or.inl (List.suffix_cons _ _)
      | _ => exact Or.inr ⟨_, rfl⟩

/-- Every step of a walk started in a folder, so all that lie above the end of it are folders. -/
theorem folderAt_of_walk {t : FileTree} {cs done d : List Component} (h : t.walk done cs = .ok d)
    (hdone : ∀ q, q <:+ done → q ≠ done → t.folderAt (Path.ofComponents q.reverse) = true) :
    ∀ q, q <:+ d → q ≠ d → t.folderAt (Path.ofComponents q.reverse) = true := by
  induction cs generalizing done with
  | nil =>
    rw [walk] at h
    cases h
    exact hdone
  | cons c cs ih =>
    rw [walk] at h
    split at h
    · rename_i hfolder
      refine ih h fun q hq hne => ?_
      have hbelow : q <:+ done := by
        rcases foldStep_cases done c with hstep | ⟨d, hstep⟩
        · exact hq.trans hstep
        · rw [hstep] at hq hne
          exact (List.suffix_cons_iff.1 hq).resolve_left hne
      by_cases heq : q = done
      · exact heq ▸ hfolder
      · exact hdone q hbelow heq
    · split at h <;> cases h

section
variable {t t' : FileTree}
  (hfolder : ∀ l, Path.Writable l → t'.folderAt (Path.ofComponents l) = t.folderAt (Path.ofComponents l))

include hfolder in
theorem toOption_walk {cs : List Component} (hcs : ∀ c ∈ cs, c = .here ∨ c.IsPiece)
    {done : List Component} (hdone : Path.Writable done.reverse) :
    (t'.walk done cs).toOption = (t.walk done cs).toOption := by
  induction cs generalizing done with
  | nil => rfl
  | cons c cs ih =>
    simp only [List.forall_mem_cons] at hcs
    have hnext : Path.Writable (Path.foldStep done c).reverse := by
      rcases hcs.1 with rfl | hc
      · exact hdone
      · exact Path.writable_foldStep hdone hc
    rw [walk, walk, hfolder _ hdone]
    split
    · exact ih hcs.2 hnext
    · split <;> split <;> rfl

include hfolder in
/-- Where folders are the same, a path can be walked in both trees or in none. -/
theorem toOption_walk_steps (p : Path) :
    (t'.walk [] p.steps).toOption = (t.walk [] p.steps).toOption := by
  have hnil : Path.Writable ([] : List Component).reverse := ⟨[], Or.inl rfl, by simp⟩
  have hroot : Path.Writable [Component.root].reverse := ⟨[], Or.inr rfl, by simp⟩
  have htail : ∀ c ∈ p.pieces.filterMap Path.stepOf?, c = .here ∨ c.IsPiece := by
    intro c hc
    obtain ⟨piece, hpiece, hstep⟩ := List.mem_filterMap.1 hc
    exact Path.isPiece_of_stepOf? hstep (Text.not_mem_of_mem_splitOn hpiece)
  unfold Path.steps
  split
  · rw [walk, walk, hfolder _ hnil]
    split
    · exact toOption_walk hfolder htail hroot
    · split <;> split <;> rfl
  · exact toOption_walk hfolder htail hnil

end

/-- Where folders are the same, a path finds its place in both trees or in none. -/
theorem toOption_locate {t t' : FileTree} (haddr : t'.addressing = t.addressing)
    (hfolder : t.addressing = .stepwise → ∀ l, Path.Writable l →
      t'.folderAt (Path.ofComponents l) = t.folderAt (Path.ofComponents l))
    {p : Path} (hfile : t'.fileAt? p.normalize = t.fileAt? p.normalize) :
    (t'.locate p).toOption = (t.locate p).toOption := by
  unfold locate
  rw [haddr]
  cases hstep : t.addressing with
  | normalForm => rfl
  | stepwise =>
    have hsame := toOption_walk_steps (hfolder hstep) p
    simp only [hfile]
    split
    · rfl
    · cases hwalk' : t'.walk [] p.steps <;> cases hwalk : t.walk [] p.steps <;>
        simp_all [Except.toOption, bind, Except.bind]

/-! ## Trees with the same files and folders -/

/-- The trees have the same files and folders and follow paths alike. They may differ in their times, in
what is locked, in the room there is and in the time of day. -/
structure SameEntries (t t' : FileTree) : Prop where
  files : t'.files = t.files
  folders : t'.folders = t.folders
  addressing : t'.addressing = t.addressing

namespace SameEntries

variable {t t' t'' : FileTree} (h : SameEntries t t')

theorem refl (t : FileTree) : SameEntries t t := ⟨rfl, rfl, rfl⟩

include h in
theorem trans (h' : SameEntries t' t'') : SameEntries t t'' where
  files := h'.files.trans h.files
  folders := h'.folders.trans h.folders
  addressing := h'.addressing.trans h.addressing

include h in
theorem fileAt?_eq (q : Path) : t'.fileAt? q = t.fileAt? q := by
  rw [fileAt?, h.files, fileAt?]

include h in
theorem namesIn_eq (q : Path) : t'.namesIn q = t.namesIn q := by
  rw [namesIn, h.files, h.folders, namesIn]

include h in
theorem folderAt_eq (q : Path) : t'.folderAt q = t.folderAt q := by
  rw [folderAt, h.fileAt?_eq, h.namesIn_eq, h.folders, h.addressing, folderAt]

include h in
theorem walk_eq (done cs : List Component) : t'.walk done cs = t.walk done cs := by
  induction cs generalizing done with
  | nil => rfl
  | cons c cs ih => rw [walk, walk, h.folderAt_eq, h.fileAt?_eq, ih]

include h in
theorem locate_eq (p : Path) : t'.locate p = t.locate p := by
  rw [locate, locate, h.addressing, h.walk_eq]
  simp only [h.fileAt?_eq]

include h in
theorem isFolder_eq (p : Path) : t'.isFolder p = t.isFolder p := by
  simp only [isFolder, h.locate_eq, h.folderAt_eq]

include h in
theorem exists?_eq (p : Path) : t'.exists? p = t.exists? p := by
  simp only [exists?, isFile, h.isFolder_eq, h.locate_eq, h.fileAt?_eq]

include h in
theorem read_eq (p : Path) : t'.read p = t.read p := by
  simp only [read, h.locate_eq, h.fileAt?_eq, h.folderAt_eq]

include h in
theorem list_eq (p : Path) : t'.list p = t.list p := by
  simp only [list, h.locate_eq, h.fileAt?_eq, h.folderAt_eq, h.namesIn_eq]

include h in
/-- Only times can tell the trees apart. -/
theorem modified_eq {p : Path} (htime : t'.times.lookup p.normalize = t.times.lookup p.normalize) :
    t'.modified p = t.modified p := by
  rw [modified, modified, h.locate_eq]
  cases hlocate : t.locate p with
  | error e => rfl
  | ok place =>
    obtain rfl := Imports.locate_eq_normalize hlocate
    simp only [bind, Except.bind, h.fileAt?_eq, h.folderAt_eq, htime]

end SameEntries

/-! ## Trees that differ in one file -/

/-- The trees are the same but for the file at a place and for the folders above it: those are listed
with another name and have another time, and a tree that goes by normal forms has them only while there
is a file below. -/
structure SameBut (place : Path) (t t' : FileTree) : Prop where
  locate : ∀ p, p.normalize ≠ place → (t'.locate p).toOption = (t.locate p).toOption
  fileAt? : ∀ q, q ≠ place → t'.fileAt? q = t.fileAt? q
  namesIn : ∀ q, ¬q.components <+: place.components → t'.namesIn q = t.namesIn q
  folderAt : ∀ q, ¬q.components <+: place.components → t'.folderAt q = t.folderAt q
  times : ∀ q, ¬q.components <+: place.components → t'.times.lookup q = t.times.lookup q

namespace SameBut

variable {place : Path} {t t' : FileTree} (h : SameBut place t t') {p : Path}

theorem ne_of_not_above (hp : ¬p.normalize.components <+: place.components) : p.normalize ≠ place := by
  rintro rfl
  exact hp (List.prefix_refl _)

include h in
/-- A path finds the same place in both trees or none in either. -/
theorem locate_cases (hp : p.normalize ≠ place) :
    (t'.locate p = .ok p.normalize ∧ t.locate p = .ok p.normalize) ∨
      ∃ e e', t'.locate p = .error e' ∧ t.locate p = .error e := by
  have hsame := h.locate p hp
  cases hl : t.locate p with
  | ok q =>
    cases hl' : t'.locate p with
    | ok q' =>
      rw [Imports.locate_eq_normalize hl, Imports.locate_eq_normalize hl']
      exact Or.inl ⟨rfl, rfl⟩
    | error e' => simp [hl, hl', Except.toOption] at hsame
  | error e =>
    cases hl' : t'.locate p with
    | ok q' => simp [hl, hl', Except.toOption] at hsame
    | error e' => exact Or.inr ⟨e, e', rfl, rfl⟩

include h in
theorem toOption_read (hp : p.normalize ≠ place) : (t'.read p).toOption = (t.read p).toOption := by
  rcases h.locate_cases hp with ⟨hl', hl⟩ | ⟨e, e', hl', hl⟩
  · simp only [read, hl, hl', bind, Except.bind, h.fileAt? _ hp]
    cases t.fileAt? p.normalize with
    | none => simp only; split <;> split <;> rfl
    | some content => cases content <;> rfl
  · simp [read, hl, hl', bind, Except.bind, Except.toOption]

include h in
theorem toOption_list (hp : ¬p.normalize.components <+: place.components) :
    (t'.list p).toOption = (t.list p).toOption := by
  rcases h.locate_cases (ne_of_not_above hp) with ⟨hl', hl⟩ | ⟨e, e', hl', hl⟩
  · simp only [list, hl, hl', bind, Except.bind, h.fileAt? _ (ne_of_not_above hp), h.folderAt _ hp,
      h.namesIn _ hp]
  · simp [list, hl, hl', bind, Except.bind, Except.toOption]

include h in
theorem toOption_modified (hp : ¬p.normalize.components <+: place.components) :
    (t'.modified p).toOption = (t.modified p).toOption := by
  rcases h.locate_cases (ne_of_not_above hp) with ⟨hl', hl⟩ | ⟨e, e', hl', hl⟩
  · simp only [modified, hl, hl', bind, Except.bind, h.fileAt? _ (ne_of_not_above hp), h.folderAt _ hp,
      h.times _ hp]
  · simp [modified, hl, hl', bind, Except.bind, Except.toOption]

include h in
theorem isFolder_eq (hp : ¬p.normalize.components <+: place.components) :
    t'.isFolder p = t.isFolder p := by
  rcases h.locate_cases (ne_of_not_above hp) with ⟨hl', hl⟩ | ⟨e, e', hl', hl⟩
  · simp only [isFolder, hl, hl', h.folderAt _ hp]
  · simp only [isFolder, hl, hl']

include h in
theorem exists?_eq (hp : ¬p.normalize.components <+: place.components) :
    t'.exists? p = t.exists? p := by
  rcases h.locate_cases (ne_of_not_above hp) with ⟨hl', hl⟩ | ⟨e, e', hl', hl⟩
  · simp only [exists?, isFile, isFolder, hl, hl', h.fileAt? _ (ne_of_not_above hp), h.folderAt _ hp]
  · simp only [exists?, isFile, isFolder, hl, hl']

end SameBut

end BlitzDoc.FileTree
