import BlitzDoc.Proofs.Source.Turn

/-!
# Parents in a scan

The parent of an entry is a place in the list of entries. In what a scan finds, that place comes
before the entry, and the entry that stands there opens an aggregate of the same file
(`scan_parents`). The entry of a keyword has no parent, whatever aggregate it stands in
(`scan_keywordPlaces`).

The invariant of the lines is `State.Rooted`: besides the entries themselves it speaks of the open
aggregates, since those become the parents of what is to come.
-/

namespace BlitzDoc

open Source

/-! ## Lists of entries -/

/-- The declaration of the entry at place `j` has the property. -/
def DeclaredAt (docs : List DocEntry) (j : Nat) (P : Declaration → Prop) : Prop :=
  ∃ e, docs[j]? = some e ∧ P e.declaration

/-- The entry at place `j` opens an aggregate of the file. -/
def IsOwner (docs : List DocEntry) (file : Path) (j : Nat) : Prop :=
  DeclaredAt docs j fun d => d.file = file ∧ Line.opensAggregate d.raw.toList = true

/-- The entry at place `j` is that of a keyword, and a member of nothing. -/
def IsKeyword (docs : List DocEntry) (j : Nat) : Prop :=
  DeclaredAt docs j fun d => d.kind = .keyword ∧ d.parent = none

/-- Every parent comes before its member, and opens an aggregate of the same file. -/
def ValidParents (docs : List DocEntry) : Prop :=
  ∀ i e, docs[i]? = some e → ∀ j, e.declaration.parent = some j →
    j < i ∧ IsOwner docs e.declaration.file j

section
variable {docs : List DocEntry} {j : Nat} {P : Declaration → Prop}

theorem DeclaredAt.lt (h : DeclaredAt docs j P) : j < docs.length := by
  obtain ⟨e, he, -⟩ := h
  exact (List.getElem?_eq_some_iff.1 he).1

theorem DeclaredAt.append (h : DeclaredAt docs j P) (more : List DocEntry) :
    DeclaredAt (docs ++ more) j P := by
  have hlt := h.lt
  obtain ⟨e, he, hP⟩ := h
  exact ⟨e, by rw [List.getElem?_append_left hlt, he], hP⟩

/-- What becomes of an entry while its declaration stays does not matter. -/
theorem DeclaredAt.map (h : DeclaredAt docs j P) {f : DocEntry → DocEntry}
    (hf : ∀ e, (f e).declaration = e.declaration) : DeclaredAt (docs.map f) j P := by
  obtain ⟨e, he, hP⟩ := h
  exact ⟨f e, by rw [List.getElem?_map, he]; rfl, by rw [hf]; exact hP⟩

end

theorem validParents_nil : ValidParents [] := by
  intro i e he
  simp at he

theorem validParents_push {docs : List DocEntry} (h : ValidParents docs) {e : DocEntry}
    (he : ∀ j, e.declaration.parent = some j → IsOwner docs e.declaration.file j) :
    ValidParents (docs ++ [e]) := by
  intro i x hx j hj
  by_cases hi : i < docs.length
  · rw [List.getElem?_append_left hi] at hx
    obtain ⟨hlt, howner⟩ := h i x hx j hj
    exact ⟨hlt, howner.append [e]⟩
  · have hlast : i = docs.length := by
      have := (List.getElem?_eq_some_iff.1 hx).1
      simp only [List.length_append, List.length_singleton] at this
      omega
    subst hlast
    rw [List.getElem?_concat_length, Option.some.injEq] at hx
    subst hx
    exact ⟨(he j hj).lt, (he j hj).append _⟩

theorem validParents_map {docs : List DocEntry} (h : ValidParents docs) {f : DocEntry → DocEntry}
    (hf : ∀ e, (f e).declaration = e.declaration) : ValidParents (docs.map f) := by
  intro i x hx j hj
  rw [List.getElem?_map, Option.map_eq_some_iff] at hx
  obtain ⟨e, he, rfl⟩ := hx
  rw [hf] at hj ⊢
  obtain ⟨hlt, howner⟩ := h i e he j hj
  exact ⟨hlt, howner.map hf⟩

namespace Source.State

/-! ## The invariant of the lines -/

/-- What holds between two lines. -/
structure Rooted (s : State) : Prop where
  parents : ValidParents s.result.docs
  files : ∀ e ∈ s.result.docs, e.declaration.file = s.file
  /-- An open aggregate that has an entry owns what comes next. -/
  opened : ∀ j, some j ∈ s.aggregates → IsOwner s.result.docs s.file j

theorem Rooted.same {s s' : State} (R : Rooted s) (h : SameFindings s s') : Rooted s' := by
  refine ⟨?_, ?_, ?_⟩
  · rw [h.result]
    exact R.parents
  · rw [h.result, h.file]
    exact R.files
  · rw [h.aggregates, h.result, h.file]
    exact R.opened

/-- An entry of the file whose parent, if any, is an owner may be added. -/
theorem Rooted.push {s s' : State} (R : Rooted s) {e : DocEntry} (hfile : s'.file = s.file)
    (hdocs : s'.result.docs = s.result.docs ++ [e]) (haggregates : s'.aggregates = s.aggregates)
    (hin : e.declaration.file = s.file)
    (hparent : ∀ j, e.declaration.parent = some j → IsOwner s.result.docs s.file j) : Rooted s' := by
  refine ⟨?_, ?_, ?_⟩
  · rw [hdocs]
    exact validParents_push R.parents (by rw [hin]; exact hparent)
  · rw [hdocs, hfile]
    intro x hx
    rcases List.mem_append.1 hx with hx | hx
    · exact R.files x hx
    · rw [List.mem_singleton.1 hx, hin]
  · rw [haggregates, hdocs, hfile]
    exact fun j hj => (R.opened j hj).append [e]

theorem Rooted.bind {s : State} (R : Rooted s) (doc : OpenDoc) (n : Nat) (text : List Char) :
    Rooted (s.bind doc n text) := by
  refine R.push (e := entryOf doc (s.declared n text)) rfl rfl rfl rfl ?_
  intro j hj
  have hhead : s.aggregates.head?.join = some j := hj
  obtain ⟨a, ha, rfl⟩ : ∃ a, s.aggregates.head? = some a ∧ a = some j := by
    simpa [Option.join_eq_some_iff] using hhead
  exact R.opened j (List.mem_of_mem_head? ha)

/-- The raw text of a bound declaration is the line that opens the aggregate. -/
theorem isOwner_bind (s : State) (doc : OpenDoc) (n : Nat) {text : List Char}
    (hopens : Line.opensAggregate text = true) :
    IsOwner (s.bind doc n text).result.docs (s.bind doc n text).file s.result.docs.length := by
  have hraw : (s.declared n text).raw.toList = text := String.toList_ofList
  rw [bind_result]
  refine ⟨entryOf doc (s.declared n text), List.getElem?_concat_length, rfl, ?_⟩
  exact (congrArg Line.opensAggregate hraw).trans hopens

/-- The structure of a line keeps the invariant, if what it is said to open is an owner. -/
theorem Rooted.structureLine {s : State} (R : Rooted s) (n : Nat) (code : List Char)
    (entry : Option Nat)
    (hentry : Line.opensAggregate code = true → ∀ j, entry = some j →
      IsOwner s.result.docs s.file j) :
    Rooted (s.structureLine n code entry) := by
  have S := structureLine_structured s n code entry
  refine ⟨by rw [S.docs]; exact R.parents, by rw [S.docs, S.file]; exact R.files, ?_⟩
  rw [S.aggregates, S.docs, S.file]
  intro j hj
  split at hj
  · rename_i hopens
    rcases List.mem_cons.1 hj with hj | hj
    · exact hentry hopens j hj.symm
    · exact R.opened j hj
  · split at hj
    · exact R.opened j (List.mem_of_mem_tail hj)
    · exact R.opened j hj

/-- **One line keeps the invariant.** -/
theorem rooted_turn {s s' : State} (R : Rooted s) (h : Turn s s') : Rooted s' := by
  cases h with
  | quiet h => exact R.same h
  | keyword h doc k =>
    rename_i s₁
    refine (R.same h).push (e := entryOf doc (s₁.keywordDeclaration doc k)) rfl rfl rfl rfl ?_
    intro j hj
    cases hj
  | declaration h doc n text =>
    rename_i s₁
    refine ((R.same h).bind doc n text).structureLine n text _ ?_
    intro hopens j hj
    rw [← Option.some.inj hj]
    exact isOwner_bind s₁ doc n hopens
  | code h n code =>
    refine (R.same h).structureLine n code none ?_
    rintro - j ⟨⟩

/-- The end of a source adds a declaration at most, and what it tags keeps its declaration. -/
theorem rooted_finish {s : State} (R : Rooted s) :
    ValidParents s.finish.result.docs ∧ ∀ e ∈ s.finish.result.docs, e.declaration.file = s.file := by
  have hsettled : Rooted s.settled ∧ s.settled.file = s.file := by
    obtain ⟨s', hsame, hs | ⟨doc, n, text, hs⟩⟩ := settled_cases s
    · rw [hs]
      exact ⟨R.same hsame, hsame.file⟩
    · rw [hs]
      exact ⟨(R.same hsame).bind doc n text, hsame.file⟩
  rw [finish_eq, ← hsettled.2]
  unfold tagged
  split
  · rename_i name _
    refine ⟨validParents_map hsettled.1.parents fun _ => rfl, ?_⟩
    intro e he
    obtain ⟨e', he', rfl⟩ := List.mem_map.1 he
    exact hsettled.1.files e' he'
  · exact ⟨hsettled.1.parents, hsettled.1.files⟩

/-! ## Keywords -/

/-- The line ends a documentation text that has a keyword. -/
def endsKeyword (s : State) (l : List Char) : Bool :=
  s.blocks.head? == some .doc && Line.isEndRem l && (s.openDoc.bind OpenDoc.keyword).isSome

/-- The places of the entries that are made from keywords. -/
def keywordPlaces (s : State) (n : Nat) : List (List Char) → List Nat
  | [] => []
  | l :: ls =>
    if s.endsKeyword l then s.result.docs.length :: (s.line n l).keywordPlaces (n + 1) ls
    else (s.line n l).keywordPlaces (n + 1) ls

theorem line_endsKeyword {s : State} {l : List Char} (h : s.endsKeyword l = true) (n : Nat) :
    ∃ doc keyword, (s.line n l).result.docs =
      s.result.docs ++ [entryOf doc (s.keywordDeclaration doc keyword)] := by
  simp only [endsKeyword, Bool.and_eq_true, beq_iff_eq] at h
  obtain ⟨⟨hblock, hend⟩, hkeyword⟩ := h
  obtain ⟨keyword, hkeyword⟩ := Option.isSome_iff_exists.1 hkeyword
  obtain ⟨doc, hdoc, hkeyword⟩ := Option.bind_eq_some_iff.1 hkeyword
  obtain ⟨rest, hblocks⟩ : ∃ rest, s.blocks = .doc :: rest := by
    cases hs : s.blocks with
    | nil => simp [hs] at hblock
    | cons b rest => exact ⟨rest, by simpa [hs] using hblock⟩
  refine ⟨doc, keyword, ?_⟩
  simp only [line, hblocks, blockLine, hend, ↓reduceIte, closeBlock, List.head?_cons, hdoc, hkeyword]
  rfl

/-- Entries stay where they are. -/
theorem turn_docs {s s' : State} (h : Turn s s') : ∃ more, s'.result.docs = s.result.docs ++ more := by
  cases h with
  | quiet h => exact ⟨[], by rw [h.result, List.append_nil]⟩
  | keyword h doc k => exact ⟨_, by rw [pushKeyword_eq, h.result]⟩
  | declaration h doc n text =>
    exact ⟨_, by rw [(structureLine_structured _ _ _ _).docs, bind_result, h.result]⟩
  | code h n code =>
    exact ⟨[], by rw [(structureLine_structured _ _ _ _).docs, h.result, List.append_nil]⟩

theorem lines_docs (s : State) (n : Nat) (ls : List (List Char)) :
    ∃ more, (s.lines n ls).result.docs = s.result.docs ++ more := by
  refine lines_induction (P := fun s' => ∃ more, s'.result.docs = s.result.docs ++ more) ?_ ls s n
    ⟨[], by rw [List.append_nil]⟩
  rintro s₁ s₂ ⟨more, h₁⟩ hturn
  obtain ⟨more', h₂⟩ := turn_docs hturn
  exact ⟨more ++ more', by rw [h₂, h₁, List.append_assoc]⟩

theorem declaredAt_lines {s : State} {k : Nat} {P : Declaration → Prop}
    (h : DeclaredAt s.result.docs k P) (n : Nat) (ls : List (List Char)) :
    DeclaredAt (s.lines n ls).result.docs k P := by
  obtain ⟨more, hmore⟩ := lines_docs s n ls
  rw [hmore]
  exact h.append more

theorem lines_keywordPlaces (s : State) (n : Nat) (ls : List (List Char)) :
    ∀ k ∈ s.keywordPlaces n ls, IsKeyword (s.lines n ls).result.docs k := by
  induction ls generalizing s n with
  | nil => simp [keywordPlaces]
  | cons l ls ih =>
    intro k hk
    unfold keywordPlaces at hk
    split at hk
    · rename_i hends
      rcases List.mem_cons.1 hk with rfl | hk
      · obtain ⟨doc, keyword, hline⟩ := line_endsKeyword hends n
        have hmade : IsKeyword (s.line n l).result.docs s.result.docs.length := by
          rw [hline]
          exact ⟨_, List.getElem?_concat_length, rfl, rfl⟩
        exact declaredAt_lines hmade (n + 1) ls
      · exact ih _ _ k hk
    · exact ih _ _ k hk

/-- The end of a source moves no entry. -/
theorem declaredAt_finish {s : State} {k : Nat} {P : Declaration → Prop}
    (h : DeclaredAt s.result.docs k P) : DeclaredAt s.finish.result.docs k P := by
  have hsettled : DeclaredAt s.settled.result.docs k P := by
    obtain ⟨s', hsame, hs | ⟨doc, n, text, hs⟩⟩ := settled_cases s
    · rw [hs, hsame.result]
      exact h
    · rw [hs, bind_result, hsame.result]
      exact h.append _
  rw [finish_eq]
  unfold tagged
  split
  · exact hsettled.map fun _ => rfl
  · exact hsettled

end State

/-! ## Scans -/

/-- **Parents in a scan** are valid, and all entries are of the file. -/
theorem scan_parents (source : String) (file : Path) (options : Options) :
    ValidParents (scan source file options).analysis.docs ∧
      ∀ e ∈ (scan source file options).analysis.docs, e.declaration.file = file := by
  have hstart : State.Rooted { file, options } :=
    ⟨validParents_nil, by rintro e ⟨⟩, by rintro j ⟨⟩⟩
  have hlast : State.Rooted (lastState source file options) :=
    State.lines_induction (fun _ _ => State.rooted_turn) _ _ _ hstart
  have hfile : (lastState source file options).file = file := State.lines_file _ _ _
  have hfinish := State.rooted_finish hlast
  rwa [hfile] at hfinish

/-- The places of the entries that a source makes from keywords. -/
def keywordPlaces (source : String) (file : Path) (options : Options) : List Nat :=
  State.keywordPlaces { file, options } 1 (Text.lines source.toList)

/-- **Keywords in a scan** have no parent. -/
theorem scan_keywordPlaces (source : String) (file : Path) (options : Options) :
    ∀ k ∈ keywordPlaces source file options,
      IsKeyword (scan source file options).analysis.docs k := by
  intro k hk
  exact State.declaredAt_finish (State.lines_keywordPlaces _ _ _ k hk)

/-- A keyword and a method inside a type. -/
example :
    let source := "Rem\nbbdoc: A shape\nEnd Rem\nType TShape\nRem\nbbdoc: Draws\nkeyword: Draw\nEnd Rem\n"
      ++ "Rem\nbbdoc: Its area\nEnd Rem\nMethod Area:Int()\nEnd Type\n"
    keywordPlaces source ⟨"shape.bmx"⟩ {} = [1] ∧
      (scan source ⟨"shape.bmx"⟩ {}).analysis.docs.map (·.declaration.parent) = [none, none, some 0] := by
  decide +kernel

end Source

end BlitzDoc
