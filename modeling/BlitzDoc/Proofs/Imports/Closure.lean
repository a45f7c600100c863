import BlitzDoc.Proofs.Imports.Search
import BlitzDoc.Proofs.Source.Links
import Mathlib.Order.Bounds.Defs

/-!
# Which files a search scans

The files that an analysis scans are told apart by their places. A search scans every place at most
once, none that was marked beforehand but the root, and in the end exactly the least set of places
that holds the root and, with a file, every readable file that it names (`analyze_scans_closure`).

A file names others as seen from the spelling under which it was first reached. That the spelling
makes no difference is `pullsIn_of_target` and `target_of_pullsIn`: they lead from the targets of a
scan to the links of a place and back. The invariant of the search is `Inv`.
-/

namespace BlitzDoc.Imports

open Source (Options Scanned scan exists_links)

/-! ## Places in a tree -/

/-- No file lies below another file. -/
def NoFileBelow (t : FileTree) : Prop :=
  ∀ f ∈ t.files, ∀ g ∈ t.files, FileTree.stepBelow? f.1 g.1 = none

/-- A tree that goes by normal forms gives one text for all spellings of a place. -/
theorem read_congr {t : FileTree} (hform : t.addressing = .normalForm) {p q : Path}
    (h : p.normalize = q.normalize) : t.read p = t.read q := by
  unfold FileTree.read FileTree.locate
  rw [hform, h]

theorem read_normalize {t : FileTree} (hform : t.addressing = .normalForm) (p : Path) :
    t.read p.normalize = t.read p :=
  read_congr hform (Path.normalize_normalize p)

/-- Of two files that can be read, neither lies in a folder at the place of the other. -/
theorem not_below {t : FileTree} (hbelow : NoFileBelow t) {p q : Path} {u v : String} {s : String}
    (hp : t.read p = .ok u) (hq : t.read q = .ok v) : p.place ≠ .name s :: q.place := by
  intro h
  have hnone := hbelow _ (mem_files_of_read hq) _ (mem_files_of_read hp)
  simp only [FileTree.stepBelow?, Path.components_normalize, h, List.reverse_cons] at hnone
  simp at hnone

/-! ## Marks -/

theorem isVisited_iff {visited : List Path} (hnormal : ∀ v ∈ visited, v.normalize = v) (p : Path) :
    isVisited visited p.normalize = true ↔ p.normalize ∈ visited := by
  simp only [isVisited, List.any_eq_true]
  constructor
  · rintro ⟨v, hv, hsame⟩
    rw [← hnormal v hv, Path.same_normalize_iff, hnormal v hv] at hsame
    exact hsame ▸ hv
  · intro h
    exact ⟨p.normalize, h, (Path.same_normalize_iff p p).2 rfl⟩

theorem mem_mark {visited : List Path} (hnormal : ∀ v ∈ visited, v.normalize = v) (p m : Path) :
    m ∈ mark visited p.normalize ↔ m ∈ visited ∨ m = p.normalize := by
  unfold mark
  split
  · rename_i h
    have hp := (isVisited_iff hnormal p).1 h
    exact ⟨Or.inl, fun hm => hm.elim id fun e => e ▸ hp⟩
  · simp

theorem normal_mark {visited : List Path} (hnormal : ∀ v ∈ visited, v.normalize = v) (p : Path) :
    ∀ v ∈ mark visited p.normalize, v.normalize = v := by
  intro v hv
  rcases (mem_mark hnormal p v).1 hv with hv | rfl
  · exact hnormal v hv
  · exact Path.normalize_normalize p

/-! ## The graph of files -/

section
variable (t : FileTree) (options : Options) (source : String) (file : Path) (marked : List Path)

/-- The files that the file at a place names. The root has its text from elsewhere and is scanned
under the path that was given for it. -/
def linksAt (place : Path) : List Path :=
  if place = file.normalize then (scan source file options).targets
  else
    match t.read place with
    | .ok text => (scan text place { options with isModuleEntry := false }).targets
    | .error _ => []

/-- The file at the place `f` names a readable file at the place `g`, by a path with the right
extension, and `g` was not marked beforehand. -/
def PullsIn (f g : Path) : Prop :=
  ∃ q ∈ linksAt t options source file f, q.hasExtension options.extension = true ∧
    (∃ text, t.read q = .ok text) ∧ q.normalize = g ∧ g ∉ marked

/-- The set of places holds the root and, with a file, every file that it pulls in. -/
def Closed (S : Set Path) : Prop :=
  file.normalize ∈ S ∧ ∀ f ∈ S, ∀ g, PullsIn t options source file marked f g → g ∈ S

end

/-- The places that were scanned, in order. -/
def Search.places (s : Search) : List Path :=
  s.scanned.map Reading.place

/-- The reading of a file that was pulled in: it is not the root, and its text is that of the tree. -/
structure Pulled (t : FileTree) (options : Options) (file : Path) (r : Reading) : Prop where
  ext : r.file.hasExtension options.extension = true
  text : t.read r.file = .ok r.text
  options : r.options = { options with isModuleEntry := false }
  place : r.place ≠ file.normalize

/-- A path with an extension ends in a name. -/
theorem ends_in_name {p : Path} {e : String} (h : p.hasExtension e = true) :
    ∃ cs s, p.components = cs ++ [.name s] := by
  unfold Path.hasExtension Path.extension? Path.fileName? at h
  cases hlast : p.components.getLast? with
  | none => simp [hlast] at h
  | some c =>
    cases c with
    | name s => exact ⟨_, s, (List.dropLast_append_getLast? _ hlast).symm⟩
    | root | here | up => simp [hlast] at h

section
variable {t : FileTree} {options : Options} {source : String} {file : Path} {marked : List Path}

theorem linksAt_root :
    linksAt t options source file file.normalize = (scan source file options).targets := by
  simp [linksAt]

/-- The links of a place, and the targets of its file under any spelling, are the same names. -/
theorem linksAt_place (source : String) (hform : t.addressing = .normalForm) {r : Reading}
    (hr : Pulled t options file r) :
    ∃ names : List String, r.scanned.targets = names.map r.file.linked ∧
      linksAt t options source file r.place = names.map r.file.normalize.linked := by
  obtain ⟨names, h1, h2⟩ := exists_links r.text r.options r.file r.file.normalize
  refine ⟨names, h1, ?_⟩
  have hread : t.read r.place = .ok r.text := (read_normalize hform r.file).trans hr.text
  rw [← h2, linksAt, if_neg hr.place, hread, hr.options]
  rfl

/-- Under another spelling of its file, a link leads to the same place. -/
theorem normalize_linked {r : Reading} (hr : Pulled t options file r) (name : String) :
    (r.file.normalize.linked name).normalize = (r.file.linked name).normalize := by
  obtain ⟨cs, s, hname⟩ := ends_in_name hr.ext
  exact (Path.normalize_eq_iff _ _).2 (Path.linked_normalize hname name).1

/-- A link to a readable file has the same extension under another spelling. Only a link to the
folder of the file could lose it, and no file lies at the place of a folder. -/
theorem hasExtension_linked (hbelow : NoFileBelow t) {r : Reading} (hr : Pulled t options file r)
    {name text : String} (hread : t.read (r.file.linked name) = .ok text) (e : String) :
    (r.file.normalize.linked name).hasExtension e = (r.file.linked name).hasExtension e := by
  obtain ⟨cs, s, hname⟩ := ends_in_name hr.ext
  rcases (Path.linked_normalize hname name).2 with hlast | hfolder
  · unfold Path.hasExtension Path.extension?
    rw [hlast]
  · exact absurd hfolder (not_below hbelow hr.text hread)

theorem pullsIn_of_target (hform : t.addressing = .normalForm) (hbelow : NoFileBelow t)
    {r : Reading} (hr : r = ⟨source, file, options⟩ ∨ Pulled t options file r) {q : Path}
    (hq : q ∈ r.scanned.targets) (hext : q.hasExtension options.extension = true) {text : String}
    (hread : t.read q = .ok text) (hnew : q.normalize ∉ marked) :
    PullsIn t options source file marked r.place q.normalize := by
  rcases hr with rfl | hr
  · exact ⟨q, linksAt_root ▸ hq, hext, ⟨text, hread⟩, rfl, hnew⟩
  · obtain ⟨names, htargets, hlinks⟩ := linksAt_place source hform hr
    rw [htargets] at hq
    obtain ⟨name, hname, rfl⟩ := List.mem_map.1 hq
    have hplace := normalize_linked hr name
    refine ⟨r.file.normalize.linked name, ?_, ?_, ⟨text, ?_⟩, hplace, hnew⟩
    · rw [hlinks]
      exact List.mem_map_of_mem hname
    · rw [hasExtension_linked hbelow hr hread, hext]
    · rw [read_congr hform hplace, hread]

theorem target_of_pullsIn (hform : t.addressing = .normalForm) (hbelow : NoFileBelow t)
    {r : Reading} (hr : r = ⟨source, file, options⟩ ∨ Pulled t options file r) {g : Path}
    (h : PullsIn t options source file marked r.place g) :
    ∃ q ∈ r.scanned.targets, q.hasExtension options.extension = true ∧
      (∃ text, t.read q = .ok text) ∧ q.normalize = g := by
  obtain ⟨q, hq, hext, ⟨text, hread⟩, hg, -⟩ := h
  rcases hr with rfl | hr
  · exact ⟨q, linksAt_root.symm ▸ hq, hext, ⟨text, hread⟩, hg⟩
  · obtain ⟨names, htargets, hlinks⟩ := linksAt_place source hform hr
    rw [hlinks] at hq
    obtain ⟨name, hname, rfl⟩ := List.mem_map.1 hq
    have hplace := normalize_linked hr name
    rw [read_congr hform hplace] at hread
    rw [hasExtension_linked hbelow hr hread] at hext
    refine ⟨r.file.linked name, ?_, hext, ⟨text, hread⟩, hplace.symm.trans hg⟩
    rw [htargets]
    exact List.mem_map_of_mem hname

/-! ## The invariant of the search -/

/-- What holds between two turns. -/
structure Inv (t : FileTree) (options : Options) (source : String) (file : Path)
    (marked : List Path) (s : Search) : Prop where
  normal : ∀ v ∈ s.outcome.visited, v.normalize = v
  /-- A mark was there before, or it is that of a scanned file, or nothing can be read there. -/
  why : ∀ v ∈ s.outcome.visited, v ∈ marked ∨ v ∈ s.places ∨ ∀ text, t.read v ≠ .ok text
  kept : ∀ v ∈ marked, v ∈ s.outcome.visited
  scanned : ∀ p ∈ s.places, p ∈ s.outcome.visited
  nodup : s.places.Nodup
  fresh : ∀ p ∈ s.places, p ∈ marked → p = file.normalize
  root : file.normalize ∈ s.places
  pulled : ∀ r ∈ s.scanned, r = ⟨source, file, options⟩ ∨ Pulled t options file r
  /-- Every target of a scanned file waits, or is done with. -/
  handled : ∀ r ∈ s.scanned, ∀ q ∈ r.scanned.targets,
    q ∈ s.stack ∨ q.hasExtension options.extension = false ∨ q.normalize ∈ s.outcome.visited
  named : ∀ q ∈ s.stack, ∃ r ∈ s.scanned, q ∈ r.scanned.targets
  within : ∀ S, Closed t options source file marked S → ∀ p ∈ s.places, p ∈ S

theorem inv_start (hmarked : ∀ v ∈ marked, v.normalize = v) :
    Inv t options source file marked (.start source file options marked) := by
  have hplaces : (Search.start source file options marked).places = [file.normalize] := rfl
  refine ⟨normal_mark hmarked file, ?_, ?_, ?_, ?_, ?_, ?_, ?_, ?_, ?_, ?_⟩
  · intro v hv
    rcases (mem_mark hmarked file v).1 hv with hv | rfl
    · exact Or.inl hv
    · exact Or.inr (Or.inl (by simp [hplaces]))
  · exact fun v hv => (mem_mark hmarked file v).2 (Or.inl hv)
  · intro p hp
    rw [hplaces, List.mem_singleton] at hp
    exact (mem_mark hmarked file p).2 (Or.inr hp)
  · simp [hplaces]
  · intro p hp _
    simpa [hplaces] using hp
  · simp [hplaces]
  · intro r hr
    exact Or.inl (List.mem_singleton.1 hr)
  · intro r hr q hq
    rw [List.mem_singleton.1 hr] at hq
    exact Or.inl hq
  · exact fun q hq => ⟨_, List.mem_singleton_self _, hq⟩
  · intro S hS p hp
    rw [hplaces, List.mem_singleton] at hp
    exact hp ▸ hS.1

/-- Passing over a target keeps the invariant: the target is foreign or marked. -/
theorem inv_skip {s : Search} {target : Path} {rest : List Path} (I : Inv t options source file marked s)
    (hs : s.stack = target :: rest) (hdone : target.hasExtension options.extension = false ∨
      isVisited s.outcome.visited target.normalize = true) (e : Event) :
    Inv t options source file marked (s.skip rest e) := by
  refine ⟨I.normal, I.why, I.kept, I.scanned, I.nodup, I.fresh, I.root, I.pulled, ?_, ?_, I.within⟩
  · intro r hr q hq
    rcases I.handled r hr q hq with hstack | h
    · rw [hs] at hstack
      rcases List.mem_cons.1 hstack with rfl | hrest
      · rw [isVisited_iff I.normal] at hdone
        exact Or.inr hdone
      · exact Or.inl hrest
    · exact Or.inr h
  · intro q hq
    exact I.named q (by rw [hs]; exact List.mem_cons_of_mem _ hq)

/-- The targets that were waiting still wait when the one on top has been marked. -/
theorem handled_mark {s : Search} {target : Path} {rest : List Path}
    (I : Inv t options source file marked s) (hs : s.stack = target :: rest) {r : Reading}
    (hr : r ∈ s.scanned) {q : Path} (hq : q ∈ r.scanned.targets) :
    q ∈ rest ∨ q.hasExtension options.extension = false ∨
      q.normalize ∈ mark s.outcome.visited target.normalize := by
  rcases I.handled r hr q hq with hstack | hext | hvis
  · rw [hs] at hstack
    rcases List.mem_cons.1 hstack with rfl | hrest
    · exact Or.inr (Or.inr ((mem_mark I.normal q _).2 (Or.inr rfl)))
    · exact Or.inl hrest
  · exact Or.inr (Or.inl hext)
  · exact Or.inr (Or.inr ((mem_mark I.normal target _).2 (Or.inl hvis)))

/-- Marking a target that cannot be read keeps the invariant. -/
theorem inv_miss (hform : t.addressing = .normalForm) {s : Search} {target : Path} {rest : List Path}
    (I : Inv t options source file marked s) (hs : s.stack = target :: rest)
    (hread : ∀ text, t.read target ≠ .ok text) (e : Event) :
    Inv t options source file marked (s.miss target rest e) := by
  refine ⟨normal_mark I.normal target, ?_, ?_, ?_, I.nodup, I.fresh, I.root, I.pulled, ?_, ?_, I.within⟩
  · intro v hv
    rcases (mem_mark I.normal target v).1 hv with hv | rfl
    · exact I.why v hv
    · right
      right
      intro text
      rw [read_normalize hform]
      exact hread text
  · exact fun v hv => (mem_mark I.normal target v).2 (Or.inl (I.kept v hv))
  · exact fun p hp => (mem_mark I.normal target p).2 (Or.inl (I.scanned p hp))
  · exact fun r hr q hq => handled_mark I hs hr hq
  · exact fun q hq => I.named q (by rw [hs]; exact List.mem_cons_of_mem _ hq)

/-! ### The target is scanned -/

theorem places_take (s : Search) (r : Reading) (rest : List Path) :
    (s.take r rest).places = s.places ++ [r.place] := by
  simp [Search.places, Search.take]

theorem mem_places_take (s : Search) (r : Reading) (rest : List Path) (p : Path) :
    p ∈ (s.take r rest).places ↔ p ∈ s.places ∨ p = r.place := by
  rw [places_take, List.mem_append, List.mem_singleton]

theorem nodup_take {s : Search} {r : Reading} (I : Inv t options source file marked s)
    (hnew : r.place ∉ s.outcome.visited) (rest : List Path) : (s.take r rest).places.Nodup := by
  rw [places_take, List.nodup_append]
  refine ⟨I.nodup, by simp, ?_⟩
  rintro p hp q hq rfl
  exact hnew (List.mem_singleton.1 hq ▸ I.scanned p hp)

/-- The targets of the scanned file wait on top of those that were waiting. -/
theorem handled_take {s : Search} {r : Reading} {rest : List Path}
    (I : Inv t options source file marked s) (hs : s.stack = r.file :: rest) :
    ∀ r' ∈ (s.take r rest).scanned, ∀ q ∈ r'.scanned.targets, q ∈ (s.take r rest).stack ∨
      q.hasExtension options.extension = false ∨ q.normalize ∈ (s.take r rest).outcome.visited := by
  intro r' hr q hq
  rcases List.mem_append.1 hr with hr | hr
  · rcases handled_mark I hs hr hq with hrest | hdone
    · exact Or.inl (List.mem_append_right _ hrest)
    · exact Or.inr hdone
  · rw [List.mem_singleton.1 hr] at hq
    exact Or.inl (List.mem_append_left _ hq)

theorem named_take {s : Search} {r : Reading} {rest : List Path}
    (I : Inv t options source file marked s) (hs : s.stack = r.file :: rest) :
    ∀ q ∈ (s.take r rest).stack, ∃ r' ∈ (s.take r rest).scanned, q ∈ r'.scanned.targets := by
  intro q hq
  rcases List.mem_append.1 hq with hq | hq
  · exact ⟨r, List.mem_append_right _ (List.mem_singleton_self _), hq⟩
  · obtain ⟨r', hr, hqr⟩ := I.named q (by rw [hs]; exact List.mem_cons_of_mem _ hq)
    exact ⟨r', List.mem_append_left _ hr, hqr⟩

/-- A closed set holds the place of a target that can be read: the file that named it was scanned, so
its place is in the set already. -/
theorem mem_of_closed (hform : t.addressing = .normalForm) (hbelow : NoFileBelow t) {s : Search}
    {target : Path} (I : Inv t options source file marked s) (htarget : target ∈ s.stack)
    (hext : target.hasExtension options.extension = true) {text : String}
    (hread : t.read target = .ok text) (hnew : target.normalize ∉ s.outcome.visited) {S : Set Path}
    (hS : Closed t options source file marked S) : target.normalize ∈ S := by
  obtain ⟨r, hr, hnamed⟩ := I.named target htarget
  have hin : r.place ∈ S := I.within S hS _ (List.mem_map_of_mem hr)
  exact hS.2 _ hin _ (pullsIn_of_target hform hbelow (I.pulled r hr) hnamed hext hread
    fun hmarked => hnew (I.kept _ hmarked))

/-- Scanning a target keeps the invariant. -/
theorem inv_take (hform : t.addressing = .normalForm) (hbelow : NoFileBelow t) {s : Search}
    {r : Reading} {rest : List Path} (I : Inv t options source file marked s)
    (hs : s.stack = r.file :: rest) (hnew : r.place ∉ s.outcome.visited)
    (hr : Pulled t options file r) : Inv t options source file marked (s.take r rest) := by
  have hmem := mem_places_take s r rest
  have hmark := mem_mark I.normal r.file
  refine ⟨normal_mark I.normal r.file, ?_, ?_, ?_, nodup_take I hnew rest, ?_, ?_, ?_,
    handled_take I hs, named_take I hs, ?_⟩
  · intro v hv
    rw [hmem]
    rcases (hmark v).1 hv with hv | rfl
    · rcases I.why v hv with h | h | h
      · exact Or.inl h
      · exact Or.inr (Or.inl (Or.inl h))
      · exact Or.inr (Or.inr h)
    · exact Or.inr (Or.inl (Or.inr rfl))
  · exact fun v hv => (hmark v).2 (Or.inl (I.kept v hv))
  · exact fun p hp => (hmark p).2 (((hmem p).1 hp).imp_left (I.scanned p))
  · intro p hp hmarked
    rcases (hmem p).1 hp with hp | rfl
    · exact I.fresh p hp hmarked
    · exact absurd (I.kept _ hmarked) hnew
  · exact (hmem _).2 (Or.inl I.root)
  · intro r' hr'
    rcases List.mem_append.1 hr' with hr' | hr'
    · exact I.pulled r' hr'
    · rw [List.mem_singleton.1 hr']
      exact Or.inr hr
  · intro S hS p hp
    rcases (hmem p).1 hp with hp | rfl
    · exact I.within S hS p hp
    · exact mem_of_closed hform hbelow I (by rw [hs]; exact List.mem_cons_self) hr.ext hr.text hnew hS

/-- **One turn keeps the invariant.** -/
theorem inv_turn (hform : t.addressing = .normalForm) (hbelow : NoFileBelow t) {s s' : Search}
    (I : Inv t options source file marked s)
    (h : s.turn t { options with isModuleEntry := false } = some s') :
    Inv t options source file marked s' := by
  obtain ⟨target, rest, hs, h⟩ := Search.turn_cases h
  rcases h with ⟨e, hdone, rfl⟩ | ⟨hext, hnew, ⟨e, hread, rfl⟩ | ⟨text, hread, rfl⟩⟩
  · exact inv_skip I hs hdone e
  · exact inv_miss hform I hs hread e
  · have hunmarked : target.normalize ∉ s.outcome.visited := by
      rw [← isVisited_iff I.normal, hnew]
      simp
    -- the root is marked from the start
    have hplace : target.normalize ≠ file.normalize := fun hroot =>
      hunmarked (hroot ▸ I.scanned _ I.root)
    exact inv_take hform hbelow I hs hunmarked ⟨hext, hread, rfl, hplace⟩

/-! ## The files that are scanned -/

/-- At the end of a search the scanned places are closed. -/
theorem closed_of_final (hform : t.addressing = .normalForm) (hbelow : NoFileBelow t) {s : Search}
    (I : Inv t options source file marked s) (hend : s.stack = []) :
    Closed t options source file marked { p | p ∈ s.places } := by
  refine ⟨I.root, ?_⟩
  intro f hf g hpull
  obtain ⟨r, hr, rfl⟩ := List.mem_map.1 hf
  obtain ⟨q, hq, hext, ⟨text, hread⟩, rfl⟩ := target_of_pullsIn hform hbelow (I.pulled r hr) hpull
  obtain ⟨-, -, -, -, -, hnew⟩ := hpull
  rcases I.handled r hr q hq with hstack | hforeign | hvis
  · rw [hend] at hstack
    cases hstack
  · rw [hforeign] at hext
    cases hext
  · rcases I.why _ hvis with h | h | h
    · exact absurd h hnew
    · exact h
    · rw [read_normalize hform] at h
      exact absurd hread (h text)

theorem isLeast_of_final (hform : t.addressing = .normalForm) (hbelow : NoFileBelow t) {s : Search}
    (I : Inv t options source file marked s) (hend : s.stack = []) :
    IsLeast { S | Closed t options source file marked S } { p | p ∈ s.places } :=
  ⟨closed_of_final hform hbelow I hend, fun S hS p hp => I.within S hS p hp⟩

/-- Two projects with the same graph of files: every file names the same files, in any order, and the
same files can be read. -/
def SameGraph (t t' : FileTree) (options : Options) (source source' : String) (file : Path) : Prop :=
  (∀ f q, q ∈ linksAt t' options source' file f ↔ q ∈ linksAt t options source file f) ∧
    ∀ q, (∃ text, t'.read q = .ok text) ↔ ∃ text, t.read q = .ok text

theorem closed_congr {t' : FileTree} {source' : String}
    (hsame : SameGraph t t' options source source' file) (S : Set Path) :
    Closed t' options source' file marked S ↔ Closed t options source file marked S := by
  unfold Closed PullsIn
  simp only [hsame.1, hsame.2]

/-- **The files that an analysis scans.** The search of `analyze` comes to an end with its outcome. It
has scanned no place twice, none that was marked beforehand but the root, and exactly the least closed
set of places. A project with the same graph, however its links are ordered, has the same places
scanned. -/
theorem analyze_scans_closure (t : FileTree) (source : String) (file : Path) (options : Options)
    (marked : List Path) (hform : t.addressing = .normalForm) (hbelow : NoFileBelow t)
    (hmarked : ∀ v ∈ marked, v.normalize = v) (hfollow : options.followImports = true) :
    ∃ final : Search,
      (Search.start source file options marked).Reaches t { options with isModuleEntry := false } final ∧
      final.stack = [] ∧ final.outcome = analyze t source file options marked ∧
      final.places.Nodup ∧ (∀ p ∈ final.places, p ∈ marked → p = file.normalize) ∧
      IsLeast { S | Closed t options source file marked S } { p | p ∈ final.places } ∧
      ∀ (t' : FileTree) (source' : String) (final' : Search), t'.addressing = .normalForm →
        NoFileBelow t' → SameGraph t t' options source source' file →
        (Search.start source' file options marked).Reaches t' { options with isModuleEntry := false }
          final' → final'.stack = [] → ∀ p, p ∈ final'.places ↔ p ∈ final.places := by
  -- what the run of any such project gives
  have hrun : ∀ {t : FileTree} {source : String} {final : Search}, t.addressing = .normalForm →
      NoFileBelow t → (Search.start source file options marked).Reaches t
        { options with isModuleEntry := false } final → Inv t options source file marked final :=
    fun hform hbelow hreach =>
      Search.reaches_induction (fun _ _ I h => inv_turn hform hbelow I h) hreach (inv_start hmarked)
  obtain ⟨final, hreach, houtcome, hend, -⟩ := exists_search t source file options marked
  have hend := hend hfollow
  have I := hrun hform hbelow hreach
  have hleast := isLeast_of_final hform hbelow I hend
  refine ⟨final, hreach, hend, houtcome, I.nodup, I.fresh, hleast, ?_⟩
  intro t' source' final' hform' hbelow' hsame hreach' hend' p
  have hleast' := isLeast_of_final hform' hbelow' (hrun hform' hbelow' hreach') hend'
  simp only [closed_congr hsame] at hleast'
  exact ⟨fun h => hleast'.2 hleast.1 h, fun h => hleast.2 hleast'.1 h⟩

end

/-- A file that pulls in itself under another spelling, two that pull in each other, and one that was
marked beforehand. -/
def ring : FileTree :=
  { files := [
      (⟨"p/loop.bmx"⟩, .text "Import \"q/../loop.bmx\"\nImport \"sub/b.bmx\"\nImport \"old.bmx\"\n"),
      (⟨"p/sub/b.bmx"⟩, .text "Import \"../sub/./c.bmx\"\n"),
      (⟨"p/sub/c.bmx"⟩, .text "Import \"b.bmx\"\nInclude \"gone.bmx\"\n"),
      (⟨"p/old.bmx"⟩, .text "Import \"sub/c.bmx\"\n")] }

theorem ring_scans_closure :
    ∃ final : Search,
      (Search.start "Import \"loop.bmx\"\n" ⟨"p/main.bmx"⟩ { followImports := true }
        [⟨"p/old.bmx"⟩]).Reaches ring { followImports := true } final ∧
      final.stack = [] ∧
      IsLeast { S | Closed ring { followImports := true } "Import \"loop.bmx\"\n" ⟨"p/main.bmx"⟩
        [⟨"p/old.bmx"⟩] S } { p | p ∈ final.places } := by
  obtain ⟨final, hreach, hend, -, -, -, hleast, -⟩ :=
    analyze_scans_closure ring "Import \"loop.bmx\"\n" ⟨"p/main.bmx"⟩ { followImports := true }
      [⟨"p/old.bmx"⟩] rfl (by unfold NoFileBelow; decide +kernel) (by decide +kernel) rfl
  exact ⟨final, hreach, hend, hleast⟩

end BlitzDoc.Imports
