import BlitzDoc.Proofs.Session.Rescan

/-!
# Rendered pages

A module keeps its page once it was rendered, and keeps it through rescans that find the module
unchanged. The page is never out of date (`html_upToDate`): whatever is done with a session and
whatever happens to the files meanwhile, a page that is kept is the rendering of the module it is kept
with.

The reason is that a page comes with the module it was made from: a module that is scanned or read from
the cache has none, and nothing else replaces a module (`rendered_apply`, one case per operation).
-/

namespace BlitzDoc

/-- The page that is kept with the module, if one is, is its page. -/
def Module.IsRendered (m : Module) : Prop :=
  ∀ html, m.html = some html → html = Page.Html.render (Page.ofModule m)

theorem Module.isRendered_of_none {m : Module} (h : m.html = none) : m.IsRendered := by
  intro html hhtml
  rw [h] at hhtml
  cases hhtml

/-- A cache has no pages. -/
theorem Module.html_of_ofJson? {v : Json} {m : Module} (h : ofJson? v = some m) : m.html = none := by
  unfold ofJson? at h
  obtain ⟨fields, -, h⟩ := Option.bind_eq_some_iff.1 h
  split at h
  · simp only [Option.bind_eq_bind, Option.bind_eq_some_iff] at h
    obtain ⟨_, -, _, -, _, -, _, -, _, -, _, -, _, -, h⟩ := h
    cases h
    rfl
  · cases h

namespace Session

/-! ## Operations -/

/-- A call on a session, or a change of its files by someone else. -/
inductive Operation where
  | load
  | rescan (force : Bool)
  | clear
  | moduleHtml (key : String)
  | loadIndex
  | helpDocs (key : String)
  /-- Any files may be changed, the cache too. -/
  | edit (files : FileTree)

/-- The session and its files after an operation. -/
def Operation.apply : Session × FileTree → Operation → Session × FileTree
  | (s, t), .load => ((s.load t).session, (s.load t).tree)
  | (s, t), .rescan force => ((s.rescan t force).session, (s.rescan t force).tree)
  | (s, t), .clear => (s.clear, t)
  | (s, t), .moduleHtml key => ((s.moduleHtml key).2, t)
  | (s, t), .loadIndex => ((s.loadIndex t).session, (s.loadIndex t).tree)
  | (s, t), .helpDocs key => ((s.helpDocs t key).session, (s.helpDocs t key).tree)
  | (s, _), .edit files => (s, files)

/-- The session and its files after some operations. -/
def Operation.applyAll (start : Session × FileTree) (operations : List Operation) :
    Session × FileTree :=
  operations.foldl Operation.apply start

/-! ## What becomes of the modules -/

/-- All pages that are kept are right. -/
def Rendered (modules : Catalog Module) : Prop :=
  ∀ e ∈ modules, e.2.IsRendered

section
variable {s : Session} {t : FileTree} {config : Config} {force : Bool} {modules : Catalog Module}

theorem Rendered.insert (h : Rendered modules) (key : String) {m : Module} (hm : m.IsRendered) :
    Rendered (modules.insert key m) := by
  intro e he
  rcases Catalog.mem_insert he with rfl | he
  · exact hm
  · exact h e he

theorem Rendered.filter (h : Rendered modules) (p : String × Module → Bool) :
    Rendered (modules.filter p) :=
  fun e he => h e (List.mem_of_mem_filter he)

/-- A module is looked at and left alone, scanned or lost. -/
theorem rendered_visit {p : Progress} (h : Rendered p.modules) (f : String × String) :
    Rendered (visit t config force p f).modules := by
  cases hentry : hasEntry t config f with
  | false => rwa [(visit_of_no_entry hentry).1]
  | true =>
    obtain ⟨-, ⟨-, hmodules, -⟩ | ⟨-, hmodules⟩⟩ := visit_of_entry force p hentry
    · rwa [hmodules]
    · rw [hmodules]
      split
      · rename_i m hscan
        have hnone : m.html = none := (congrArg Module.html (scanned?_eq_some hscan).2).symm
        exact h.insert _ (Module.isRendered_of_none hnone)
      · exact h.filter _

theorem rendered_foldl_visit (fs : List (String × String)) {p : Progress} (h : Rendered p.modules) :
    Rendered (fs.foldl (visit t config force) p).modules := by
  induction fs generalizing p with
  | nil => exact h
  | cons f fs ih => exact ih (rendered_visit h f)

theorem rendered_rescan (h : Rendered s.modules) (t : FileTree) (force : Bool) :
    Rendered (s.rescan t force).session.modules := by
  cases hfolder : t.isFolder s.config.modFolder with
  | false => rwa [rescan_of_no_folder s t force hfolder]
  | true =>
    rw [(rescan_of_folder s t force hfolder).1]
    exact (rendered_foldl_visit _ h).filter _

/-- Whatever the file holds. -/
theorem rendered_readCache (h : Rendered s.modules) (t : FileTree) :
    Rendered (s.readCache t).1.modules := by
  simp only [readCache]
  split
  · exact h
  · split
    · rename_i text _ entries hentries
      obtain ⟨v, -, hv⟩ := Option.bind_eq_some_iff.1 hentries
      intro e he
      have hnone := Cache.forall_of_ofJson? (fun _ _ => Module.html_of_ofJson?) hv
      exact Module.isRendered_of_none (hnone e (Catalog.mem_of_mem_ofList he))
    · exact fun e he => absurd he List.not_mem_nil

theorem moduleHtml_of_find? {key : String} {m : Module} (hfind : s.modules.find? key = some m) :
    s.moduleHtml key =
      let html := m.html.getD (Page.Html.render (Page.ofModule m))
      (some html, { s with modules := s.modules.insert key { m with html := some html } }) := by
  simp only [moduleHtml, hfind]

/-- A page is the same whether it was kept or not. -/
theorem Rendered.page (h : Rendered s.modules) {key : String} {m : Module}
    (hfind : s.modules.find? key = some m) :
    m.html.getD (Page.Html.render (Page.ofModule m)) = Page.Html.render (Page.ofModule m) := by
  cases hhtml : m.html with
  | none => rfl
  | some html => exact h (key, m) (Catalog.mem_of_find? hfind) html hhtml

theorem rendered_moduleHtml (h : Rendered s.modules) (key : String) :
    Rendered (s.moduleHtml key).2.modules := by
  cases hfind : s.modules.find? key with
  | none => simpa only [moduleHtml, hfind] using h
  | some m =>
    rw [moduleHtml_of_find? hfind]
    refine h.insert key fun html hhtml => ?_
    have hpage := h.page hfind
    exact (Option.some.inj hhtml).symm.trans hpage

theorem modules_loadIndex (s : Session) (t : FileTree) :
    (s.loadIndex t).session.modules = s.modules := by
  simp only [loadIndex]
  split
  · rfl
  · split <;> rfl

theorem modules_helpDocs (s : Session) (t : FileTree) (key : String) :
    (s.helpDocs t key).session.modules = s.modules := by
  simp only [helpDocs]
  split
  · rfl
  · split <;> rfl

/-- **Every operation keeps the pages right.** -/
theorem rendered_apply {w : Session × FileTree} (h : Rendered w.1.modules) (o : Operation) :
    Rendered (o.apply w).1.modules := by
  obtain ⟨s, t⟩ := w
  cases o with
  | load => exact rendered_rescan (rendered_readCache h t) t false
  | rescan force => exact rendered_rescan h t force
  | clear => exact fun e he => absurd he List.not_mem_nil
  | moduleHtml key => exact rendered_moduleHtml h key
  | loadIndex => exact modules_loadIndex s t ▸ h
  | helpDocs key => exact modules_helpDocs s t key ▸ h
  | edit files => exact h

theorem rendered_applyAll {w : Session × FileTree} (h : Rendered w.1.modules)
    (operations : List Operation) : Rendered (Operation.applyAll w operations).1.modules := by
  induction operations generalizing w with
  | nil => exact h
  | cons o operations ih => exact ih (rendered_apply h o)

end

/-- **Pages are never out of date.** After any operations on a session that started empty, with files
that may change in between, every page that is kept is the rendering of its module, and to ask for the
page of a module gives this rendering, and nothing where there is no module. -/
theorem html_upToDate (config : Config) (t : FileTree) (operations : List Operation) :
    let s := (Operation.applyAll ({ config }, t) operations).1
    (∀ e ∈ s.modules, ∀ html, e.2.html = some html →
      html = Page.Html.render (Page.ofModule e.2)) ∧
    ∀ key, (s.moduleHtml key).1 =
      (s.module? key).map fun m => Page.Html.render (Page.ofModule m) := by
  intro s
  have hempty : Rendered ({ config } : Session).modules := fun e he => absurd he List.not_mem_nil
  have hs : Rendered s.modules := rendered_applyAll hempty operations
  refine ⟨hs, fun key => ?_⟩
  cases hfind : s.modules.find? key with
  | none => simp only [moduleHtml, module?, hfind, Option.map_none]
  | some m =>
    rw [moduleHtml_of_find? hfind, module?, hfind, Option.map_some]
    exact congrArg some (hs.page hfind)

end Session

end BlitzDoc
