import BlitzDoc.Module
import BlitzDoc.Proofs.Json.RoundTrip

/-!
# Records in the cache

Arguments, declarations, entries and modules are written as objects in which absent fields are left
out, and the cache as a list of keys with their modules. Reading gives back the record that was
written (`Module.ofJson?_toJson`), and so does reading the text of a whole cache
(`Cache.read?_compact`). Numbers are written as words of 64 bits, so the records are those whose
numbers are such words (`Module.InWords`); a rendered page is not written at all. Whatever is read from
a text has such numbers (`Cache.inWords_of_ofJson?`).
-/

namespace BlitzDoc

namespace Json

/-! ## Members of an object -/

theorem map_fst_member? (name : String) (value : Option Json) :
    ((member? name value).map Prod.fst).Sublist [name] := by
  cases value with
  | none => exact List.nil_sublist _
  | some v => exact List.Sublist.refl _

@[simp] theorem lookup_member? (name key : String) (value : Option Json) :
    (member? name value).lookup key = if key = name then value else none := by
  cases value with
  | none => simp [member?]
  | some v =>
    by_cases h : key = name <;> simp [member?, h]

/-- The names of the members of an object. -/
def names : Json → List String
  | .obj members => members.map Prod.fst
  | _ => []

/-- The fields of an object in which no name is repeated. -/
theorem fields?_of_nodup {v : Json} (h : v.names.Nodup) {members : List (String × Json)}
    (hv : v = .obj members) (fields : List String) (mayEndEarly : Bool) :
    v.fields? fields mayEndEarly = some (fields.map fun name => members.lookup name) := by
  subst hv
  have hcount (name : String) : (members.filter fun m => m.1 == name).length ≤ 1 := by
    have hmap : members.countP (fun m => m.1 == name) = (members.map Prod.fst).count name := by
      rw [List.count, List.countP_map]
      rfl
    rw [← List.countP_eq_length_filter, hmap]
    exact List.nodup_iff_count.1 h name
  have hall : (fields.all fun name => (members.filter fun m => m.1 == name).length ≤ 1) = true := by
    rw [List.all_eq_true]
    intro name _
    exact decide_eq_true (hcount name)
  simp only [fields?, hall, if_true]

/-! ## Readers of fields -/

@[simp] theorem optional_str (o : Option String) : optional str? (o.map Json.str) = some o := by
  cases o <;> rfl

@[simp] theorem required_str (s : String) : required str? (some (.str s)) = some s := rfl

theorem word?_word {n : Nat} (h : n < UInt64.size) : word? (word n) = some n := by
  simp [word, word?, Nat.mod_eq_of_lt h, h]

theorem optional_word {o : Option Nat} (h : ∀ n ∈ o, n < UInt64.size) :
    optional word? (o.map word) = some o := by
  cases o with
  | none => rfl
  | some n => simpa [optional, word] using congrArg (Option.map some) (word?_word (h n rfl))

theorem list?_map {α : Type} {read : Json → Option α} {write : α → Json} {xs : List α}
    (h : ∀ x ∈ xs, read (write x) = some x) : list? read (.arr (xs.map write)) = some xs := by
  rw [list?]
  induction xs with
  | nil => rfl
  | cons x xs ih =>
    simp only [List.forall_mem_cons] at h
    simp [h.1, ih h.2]

/-! ## Fields that were read -/

theorem lt_of_word? {v : Json} {n : Nat} (h : word? v = some n) : n < UInt64.size := by
  unfold word? at h
  split at h
  · split at h
    · rename_i hn
      cases h
      exact hn
    · cases h
  · cases h

section
variable {α : Type} {read : Json → Option α} {P : α → Prop} (hread : ∀ v x, read v = some x → P x)

include hread in
theorem forall_of_required {field : Option Json} {x : α} (h : required read field = some x) : P x := by
  obtain ⟨v, -, hv⟩ := Option.bind_eq_some_iff.1 h
  exact hread v x hv

include hread in
theorem forall_of_optional {field : Option Json} {o : Option α} (h : optional read field = some o) :
    ∀ x ∈ o, P x := by
  intro x hx
  unfold optional at h
  split at h
  · cases h
    cases hx
  · cases h
    cases hx
  · rename_i v _
    obtain ⟨y, hy, rfl⟩ := Option.map_eq_some_iff.1 h
    cases hx
    exact hread v x hy

include hread in
theorem forall_of_list? {v : Json} {xs : List α} (h : list? read v = some xs) : ∀ x ∈ xs, P x := by
  unfold list? at h
  split at h
  · rename_i items
    induction items generalizing xs with
    | nil =>
      obtain rfl : xs = [] := by simpa using h.symm
      simp
    | cons item items ih =>
      simp only [List.mapM_cons, Option.bind_eq_bind, Option.bind_eq_some_iff] at h
      obtain ⟨y, hy, ys, hys, h⟩ := h
      cases h
      exact List.forall_mem_cons.2 ⟨hread item y hy, ih hys⟩
  · cases h

include hread in
theorem forall_of_defaulted {field : Option Json} {xs : List α}
    (h : defaulted [] (list? read) field = some xs) : ∀ x ∈ xs, P x := by
  cases field with
  | none =>
    cases h
    simp
  | some v => exact forall_of_list? hread h

end

/-! ## Plain records -/

theorem membersPlain_append (ms ns : List (String × Json)) :
    membersPlain (ms ++ ns) = (membersPlain ms && membersPlain ns) := by
  induction ms with
  | nil => rfl
  | cons m ms ih => simp [membersPlain, ih, Bool.and_assoc]

@[simp] theorem membersPlain_member?_str (name : String) (o : Option String) :
    membersPlain (member? name (o.map Json.str)) = true := by
  cases o <;> rfl

@[simp] theorem membersPlain_member?_word (name : String) (o : Option Nat) :
    membersPlain (member? name (o.map word)) = true := by
  cases o <;> rfl

theorem allPlain_map {α : Type} {write : α → Json} (h : ∀ x, isPlain (write x) = true)
    (xs : List α) : allPlain (xs.map write) = true := by
  induction xs with
  | nil => rfl
  | cons x xs ih => simp [allPlain, h x, ih]

end Json

/-! ## Declarations -/

theorem Kind.ofJson?_toJson (k : Kind) : ofJson? k.toJson = some k := by
  cases k <;> rfl

namespace Argument

theorem isPlain_toJson (a : Argument) : a.toJson.isPlain = true := by
  simp [toJson, Json.isPlain, Json.membersPlain]

theorem nodup_names (a : Argument) : a.toJson.names.Nodup := by
  have hsub : a.toJson.names.Sublist ["name", "type", "default"] := by
    simp only [toJson, Json.names, List.map_append]
    exact (List.Sublist.refl _).append (Json.map_fst_member? ..)
  exact hsub.nodup (by decide)

theorem ofJson?_toJson (a : Argument) : ofJson? a.toJson = some a := by
  simp only [ofJson?, Json.fields?_of_nodup a.nodup_names rfl]
  simp [List.lookup_cons]

end Argument

namespace Declaration

/-- The numbers of a declaration are words. -/
structure InWords (d : Declaration) : Prop where
  line : d.line < UInt64.size
  parent : ∀ n ∈ d.parent, n < UInt64.size

instance (d : Declaration) : Decidable d.InWords :=
  decidable_of_iff (d.line < UInt64.size ∧ ∀ n ∈ d.parent, n < UInt64.size)
    ⟨fun h => ⟨h.1, h.2⟩, fun h => ⟨h.line, h.parent⟩⟩

theorem isPlain_toJson (d : Declaration) : d.toJson.isPlain = true := by
  simp [toJson, Json.isPlain, Json.membersPlain_append, Json.membersPlain, Json.word, Kind.toJson,
    Json.allPlain_map Argument.isPlain_toJson]

theorem nodup_names (d : Declaration) : d.toJson.names.Nodup := by
  have hsub : d.toJson.names.Sublist
      ["raw", "file", "line", "kind", "name", "returns", "args", "default", "parent", "pretty"] := by
    simp only [toJson, Json.names, List.map_append]
    exact (((List.Sublist.refl _).append (Json.map_fst_member? ..)).append
      (Json.map_fst_member? ..)).append (List.Sublist.refl _)
  exact hsub.nodup (by decide)

theorem ofJson?_toJson {d : Declaration} (h : d.InWords) : ofJson? d.toJson = some d := by
  have hline : Json.required Json.word? (some (Json.word d.line)) = some d.line :=
    Json.word?_word h.line
  have hkind : Json.required Kind.ofJson? (some d.kind.toJson) = some d.kind :=
    d.kind.ofJson?_toJson
  have hargs : Json.defaulted [] (Json.list? Argument.ofJson?)
      (some (.arr (d.args.map Argument.toJson))) = some d.args :=
    Json.list?_map fun a _ => a.ofJson?_toJson
  -- the fields come first, so that no field is looked up under the readers of the others
  rw [ofJson?, Json.fields?_of_nodup d.nodup_names rfl]
  simp only [List.map_cons, List.map_nil, List.lookup_append, List.lookup_cons, List.lookup_nil,
    Json.lookup_member?, String.reduceBEq, String.reduceEq, BEq.rfl, if_false, if_true, Option.none_or,
    Option.or_none]
  rw [Option.bind_eq_bind, Option.bind_some]
  simp only [hline, hkind, hargs, Json.optional_str, Json.optional_word h.parent]
  rfl

end Declaration

/-! ## Entries -/

namespace DocEntry

theorem isPlain_toJson (e : DocEntry) : e.toJson.isPlain = true := by
  simp [toJson, Json.isPlain, Json.membersPlain_append, Json.membersPlain,
    Declaration.isPlain_toJson]

theorem nodup_names (e : DocEntry) : e.toJson.names.Nodup := by
  have hsub : e.toJson.names.Sublist
      ["info", "about", "aboutMarkdown", "aboutPlain", "returns", "declaration", "searchKey",
        "module"] := by
    simp only [toJson, Json.names, List.map_append]
    exact ((((((List.Sublist.refl _).append (Json.map_fst_member? ..)).append
      (Json.map_fst_member? ..)).append (Json.map_fst_member? ..)).append
      (Json.map_fst_member? ..)).append (List.Sublist.refl _)).append (Json.map_fst_member? ..)
  exact hsub.nodup (by decide)

theorem ofJson?_toJson {e : DocEntry} (h : e.declaration.InWords) : ofJson? e.toJson = some e := by
  have hdeclaration : Json.required Declaration.ofJson? (some e.declaration.toJson) = some e.declaration :=
    Declaration.ofJson?_toJson h
  rw [ofJson?, Json.fields?_of_nodup e.nodup_names rfl]
  simp only [List.map_cons, List.map_nil, List.lookup_append, List.lookup_cons, List.lookup_nil,
    Json.lookup_member?, String.reduceBEq, String.reduceEq, BEq.rfl, if_false, if_true, Option.none_or,
    Option.or_none]
  rw [Option.bind_eq_bind, Option.bind_some]
  simp only [hdeclaration, Json.optional_str]
  rfl

end DocEntry

/-! ## Modules -/

namespace Module

/-- The numbers of a module are words. -/
structure InWords (m : Module) : Prop where
  lastModified : m.lastModified < UInt64.size
  commands : ∀ e ∈ m.commands, e.declaration.InWords

instance (m : Module) : Decidable m.InWords :=
  decidable_of_iff (m.lastModified < UInt64.size ∧ ∀ e ∈ m.commands, e.declaration.InWords)
    ⟨fun h => ⟨h.1, h.2⟩, fun h => ⟨h.lastModified, h.commands⟩⟩

/-- The module without its rendered page. -/
def withoutHtml (m : Module) : Module :=
  { m with html := none }

theorem withoutHtml_eq {m : Module} (h : m.html = none) : m.withoutHtml = m := by
  cases m
  simp_all [withoutHtml]

/-- The commands of a module as a member, left out when there are none. -/
theorem commands_eq (m : Module) :
    (if m.commands.isEmpty then [] else [("commands", Json.arr (m.commands.map DocEntry.toJson))]) =
      Json.member? "commands" (if m.commands = [] then none else
        some (Json.arr (m.commands.map DocEntry.toJson))) := by
  cases m.commands <;> rfl

theorem isPlain_toJson (m : Module) : m.toJson.isPlain = true := by
  simp only [toJson, Json.isPlain, Json.membersPlain_append]
  split <;> simp [Json.membersPlain, Json.isPlain, Json.word, Json.allPlain_map DocEntry.isPlain_toJson]

theorem nodup_names (m : Module) : m.toJson.names.Nodup := by
  have hsub : m.toJson.names.Sublist
      ["parent", "folderName", "file", "lastModified", "name", "commands", "intro"] := by
    simp only [toJson, Json.names, List.map_append, commands_eq]
    exact (((List.Sublist.refl _).append (Json.map_fst_member? ..)).append
      (Json.map_fst_member? ..)).append (Json.map_fst_member? ..)
  exact hsub.nodup (by decide)

/-- A module is read back without its rendered page. -/
theorem ofJson?_toJson {m : Module} (h : m.InWords) : ofJson? m.toJson = some m.withoutHtml := by
  have hcommands : Json.defaulted [] (Json.list? DocEntry.ofJson?) (if m.commands = [] then none else
      some (Json.arr (m.commands.map DocEntry.toJson))) = some m.commands := by
    by_cases hempty : m.commands = []
    · simp [hempty, Json.defaulted]
    · rw [if_neg hempty]
      exact Json.list?_map fun e he => DocEntry.ofJson?_toJson (h.commands e he)
  have hlastModified : Json.required Json.word? (some (Json.word m.lastModified)) = some m.lastModified :=
    Json.word?_word h.lastModified
  rw [ofJson?, Json.fields?_of_nodup m.nodup_names rfl, commands_eq]
  simp only [List.map_cons, List.map_nil, List.lookup_append, List.lookup_cons, List.lookup_nil,
    Json.lookup_member?, String.reduceBEq, String.reduceEq, BEq.rfl, if_false, if_true, Option.none_or,
    Option.or_none]
  rw [Option.bind_eq_bind, Option.bind_some]
  simp only [hlastModified, hcommands, Json.optional_str]
  rfl

end Module

/-! ## The cache -/

namespace Cache

theorem isPlain_toJson (entries : List (String × Module)) : (toJson entries).isPlain = true := by
  have hpair (entry : String × Module) : (pairToJson entry).isPlain = true := by
    simp [pairToJson, Json.isPlain, Json.allPlain, Module.isPlain_toJson]
  exact Json.allPlain_map hpair entries

theorem pairOfJson?_pairToJson {entry : String × Module} (h : entry.2.InWords) :
    pairOfJson? (pairToJson entry) = some (entry.1, entry.2.withoutHtml) := by
  simp [pairOfJson?, pairToJson, Module.ofJson?_toJson h, Json.str?]

/-- **A cache is read back from its text**, without the rendered pages. -/
theorem read?_compact {entries : List (String × Module)} (h : ∀ e ∈ entries, e.2.InWords) :
    (Json.read? (toJson entries).compact).bind ofJson? =
      some (entries.map fun e => (e.1, e.2.withoutHtml)) := by
  rw [Json.read?_compact (isPlain_toJson entries), Option.bind_some, ofJson?, toJson, Json.list?]
  induction entries with
  | nil => rfl
  | cons entry entries ih =>
    simp only [List.forall_mem_cons] at h
    simp [pairOfJson?_pairToJson h.1, ih h.2]

end Cache

/-! ## Records that were read -/

theorem Declaration.inWords_of_ofJson? {v : Json} {d : Declaration} (h : ofJson? v = some d) :
    d.InWords := by
  unfold ofJson? at h
  obtain ⟨fields, -, h⟩ := Option.bind_eq_some_iff.1 h
  split at h
  · simp only [Option.bind_eq_bind, Option.bind_eq_some_iff] at h
    obtain ⟨_, -, _, -, line, hline, _, -, _, -, _, -, _, -, _, -, parent, hparent, _, -, h⟩ := h
    cases h
    exact ⟨Json.forall_of_required (fun _ _ => Json.lt_of_word?) hline,
      Json.forall_of_optional (fun _ _ => Json.lt_of_word?) hparent⟩
  · cases h

theorem DocEntry.inWords_of_ofJson? {v : Json} {e : DocEntry} (h : ofJson? v = some e) :
    e.declaration.InWords := by
  unfold ofJson? at h
  obtain ⟨fields, -, h⟩ := Option.bind_eq_some_iff.1 h
  split at h
  · simp only [Option.bind_eq_bind, Option.bind_eq_some_iff] at h
    obtain ⟨_, -, _, -, _, -, _, -, _, -, d, hd, _, -, _, -, h⟩ := h
    cases h
    exact Json.forall_of_required (fun _ _ => Declaration.inWords_of_ofJson?) hd
  · cases h

theorem Module.inWords_of_ofJson? {v : Json} {m : Module} (h : ofJson? v = some m) : m.InWords := by
  unfold ofJson? at h
  obtain ⟨fields, -, h⟩ := Option.bind_eq_some_iff.1 h
  split at h
  · simp only [Option.bind_eq_bind, Option.bind_eq_some_iff] at h
    obtain ⟨_, -, _, -, _, -, time, htime, _, -, commands, hcommands, _, -, h⟩ := h
    cases h
    exact ⟨Json.forall_of_required (fun _ _ => Json.lt_of_word?) htime,
      Json.forall_of_defaulted (fun _ _ => DocEntry.inWords_of_ofJson?) hcommands⟩
  · cases h

/-- What holds of every module that is read holds of all modules of a cache. -/
theorem Cache.forall_of_ofJson? {P : Module → Prop} (hread : ∀ v m, Module.ofJson? v = some m → P m)
    {v : Json} {entries : List (String × Module)} (h : ofJson? v = some entries) :
    ∀ e ∈ entries, P e.2 := by
  have hpair : ∀ (v : Json) (e : String × Module), pairOfJson? v = some e → P e.2 := by
    intro v e he
    unfold pairOfJson? at he
    split at he
    · simp only [Option.bind_eq_bind, Option.bind_eq_some_iff] at he
      obtain ⟨key, -, m, hm, he⟩ := he
      cases he
      exact hread _ m hm
    · cases he
  exact Json.forall_of_list? hpair h

/-- What is read from a cache has words for its numbers. -/
theorem Cache.inWords_of_ofJson? {v : Json} {entries : List (String × Module)}
    (h : ofJson? v = some entries) : ∀ e ∈ entries, e.2.InWords :=
  Cache.forall_of_ofJson? (fun _ _ => Module.inWords_of_ofJson?) h

end BlitzDoc
