import BlitzDoc.HelpEntry
import BlitzDoc.Proofs.Json.Records

/-!
# Records in their texts

Every record of the library is read back from the compact text that is written for it
(`records_readBack`): arguments, declarations, entries, long texts, entries of the command index,
modules and whole caches. What was absent is absent again, an empty text is an empty text, and a
module without commands has none.

Records are written as objects, so two things are asked of each: that its object is plain, since the
text of a plain value reads back (`Json.read?_compact`), and that its fields are found in the object
by their names. The entries of the command index and their long texts are treated here, the rest
where the cache is.
-/

namespace BlitzDoc

namespace Json

/-- The record is read back from its text. -/
def ReadsBack {α : Type} (write : α → Json) (read : Json → Option α) (x : α) : Prop :=
  (read? (write x).compact).bind read = some x

theorem readsBack_of_isPlain {α : Type} {write : α → Json} {read : Json → Option α} {x : α}
    (hplain : (write x).isPlain = true) (hread : read (write x) = some x) : ReadsBack write read x := by
  rw [ReadsBack, read?_compact hplain, Option.bind_some, hread]

theorem membersPlain_member? {name : String} {value : Option Json}
    (h : ∀ v ∈ value, v.isPlain = true) : membersPlain (member? name value) = true := by
  cases value with
  | none => rfl
  | some v => simp [member?, membersPlain, h v rfl]

/-- A field that may be absent is read back where no value of it is written as null. -/
theorem optional_map {α : Type} {read : Json → Option α} {write : α → Json} {o : Option α}
    (hread : ∀ x ∈ o, read (write x) = some x) (hnull : ∀ x ∈ o, write x ≠ .null) :
    optional read (o.map write) = some o := by
  cases o with
  | none => rfl
  | some x =>
    rw [Option.map_some, optional.eq_3 _ _ (hnull x rfl), hread x rfl]
    rfl

end Json

/-! ## Long texts -/

namespace LongDocs

/-- An absent text is written as null, and read back as absent. -/
@[simp] theorem optional_textToJson (o : Option String) :
    Json.optional Json.str? (some (textToJson o)) = some o := by
  cases o <;> rfl

theorem isPlain_toJson (d : LongDocs) : d.toJson.isPlain = true := by
  have htext (o : Option String) : (textToJson o).isPlain = true := by cases o <;> rfl
  simp [toJson, Json.isPlain, Json.membersPlain, htext]

theorem ofJson?_toJson (d : LongDocs) : ofJson? d.toJson = some d := by
  have hnames : d.toJson.names.Nodup := by
    have heq : d.toJson.names = ["title", "information", "example"] := rfl
    rw [heq]
    decide
  simp only [ofJson?, Json.fields?_of_nodup hnames rfl]
  simp [List.lookup_cons]

end LongDocs

/-! ## Entries of the command index -/

theorem CompletionKind.ofJson?_toJson (k : CompletionKind) : ofJson? k.toJson = some k := by
  cases k <;> rfl

namespace HelpEntry

theorem isPlain_toJson (e : HelpEntry) : e.toJson.isPlain = true := by
  have hlong : ∀ v ∈ e.long.map LongDocs.toJson, v.isPlain = true := by
    intro v hv
    obtain ⟨d, -, rfl⟩ := Option.map_eq_some_iff.1 hv
    exact d.isPlain_toJson
  simp [toJson, Json.isPlain, Json.membersPlain_append, Json.membersPlain, CompletionKind.toJson,
    Json.allPlain_map Argument.isPlain_toJson, Json.membersPlain_member? hlong]

theorem nodup_names (e : HelpEntry) : e.toJson.names.Nodup := by
  have hsub : e.toJson.names.Sublist
      ["name", "searchKey", "returns", "default", "args", "extends", "description", "docsPath",
        "section", "template", "kind", "long"] := by
    simp only [toJson, Json.names, List.map_append]
    exact ((((((((List.Sublist.refl _).append (Json.map_fst_member? ..)).append
      (List.Sublist.refl _)).append (Json.map_fst_member? ..)).append (List.Sublist.refl _)).append
      (Json.map_fst_member? ..)).append (Json.map_fst_member? ..)).append
      (List.Sublist.refl _)).append (Json.map_fst_member? ..)
  exact hsub.nodup (by decide)

/-- An entry is read back as one whose page was not asked for. -/
theorem ofJson?_toJson (e : HelpEntry) : ofJson? e.toJson = some { e with hasScraped := false } := by
  have hargs : Json.defaulted [] (Json.list? Argument.ofJson?)
      (some (.arr (e.args.map Argument.toJson))) = some e.args :=
    Json.list?_map fun a _ => a.ofJson?_toJson
  have hkind : Json.required CompletionKind.ofJson? (some e.kind.toJson) = some e.kind :=
    e.kind.ofJson?_toJson
  have hlong : Json.optional LongDocs.ofJson? (e.long.map LongDocs.toJson) = some e.long :=
    Json.optional_map (fun d _ => d.ofJson?_toJson) fun _ _ => nofun
  -- the fields come first, so that no field is looked up under the readers of the others
  rw [ofJson?, Json.fields?_of_nodup e.nodup_names rfl]
  simp only [List.map_cons, List.map_nil, List.lookup_append, List.lookup_cons, List.lookup_nil,
    Json.lookup_member?, String.reduceBEq, String.reduceEq, BEq.rfl, if_false, if_true, Option.none_or,
    Option.or_none]
  rw [Option.bind_eq_bind, Option.bind_some]
  simp only [hargs, hkind, hlong, Json.optional_str]
  rfl

end HelpEntry

/-! ## All records -/

/-- **Every record is read back from its text.** Numbers are words of 64 bits; a rendered page and the
mark of an asked-for page are not written, so the records are those without them. -/
theorem records_readBack :
    (∀ a : Argument, Json.ReadsBack Argument.toJson Argument.ofJson? a) ∧
      (∀ d : Declaration, d.InWords → Json.ReadsBack Declaration.toJson Declaration.ofJson? d) ∧
      (∀ e : DocEntry, e.declaration.InWords → Json.ReadsBack DocEntry.toJson DocEntry.ofJson? e) ∧
      (∀ d : LongDocs, Json.ReadsBack LongDocs.toJson LongDocs.ofJson? d) ∧
      (∀ e : HelpEntry, e.hasScraped = false → Json.ReadsBack HelpEntry.toJson HelpEntry.ofJson? e) ∧
      (∀ m : Module, m.InWords → m.html = none → Json.ReadsBack Module.toJson Module.ofJson? m) ∧
      ∀ entries : List (String × Module), (∀ e ∈ entries, e.2.InWords ∧ e.2.html = none) →
        Json.ReadsBack Cache.toJson Cache.ofJson? entries := by
  refine ⟨fun a => ?_, fun d hd => ?_, fun e he => ?_, fun d => ?_, fun e he => ?_, fun m hm hhtml => ?_,
    fun entries h => ?_⟩
  · exact Json.readsBack_of_isPlain a.isPlain_toJson a.ofJson?_toJson
  · exact Json.readsBack_of_isPlain d.isPlain_toJson (Declaration.ofJson?_toJson hd)
  · exact Json.readsBack_of_isPlain e.isPlain_toJson (DocEntry.ofJson?_toJson he)
  · exact Json.readsBack_of_isPlain d.isPlain_toJson d.ofJson?_toJson
  · have hback := e.ofJson?_toJson
    rw [← he] at hback
    exact Json.readsBack_of_isPlain e.isPlain_toJson hback
  · have hback := Module.ofJson?_toJson hm
    rw [Module.withoutHtml_eq hhtml] at hback
    exact Json.readsBack_of_isPlain m.isPlain_toJson hback
  · have hsame : (entries.map fun e => (e.1, e.2.withoutHtml)) = entries := by
      have hid : (entries.map fun e => (e.1, e.2.withoutHtml)) = entries.map id :=
        List.map_congr_left fun e he => by rw [Module.withoutHtml_eq (h e he).2, id]
      rw [hid, List.map_id]
    have hback := Cache.read?_compact fun e he => (h e he).1
    rwa [hsame] at hback

/-- An entry with texts that have to be escaped, empty texts and the largest number. -/
def oddEntry : DocEntry :=
  { info := "", about := some "", returns := some "\"\\/\x00\x1f\x7f\r\n"
    declaration :=
      { raw := "Field \t😀", file := ⟨"a b/c\\d.bmx"⟩, line := 18446744073709551615, kind := .field
        args := [{ name := "ſ", default := some "" }, { type := "Int" }], parent := some 0 } }

/-- A module with that entry. -/
def oddModule : Module :=
  { parent := "a.mod", lastModified := 18446744073709551615, name := some "", commands := [oddEntry] }

/-- An entry of the command index with long texts of which one is absent. -/
def oddHelp : HelpEntry :=
  { name := "null", args := [{}], anchor := some "", kind := .classType
    long := some { title := some "", example? := some "\x08\x0c" } }

theorem odd_records_readBack :
    (oddEntry.declaration.InWords ∧ oddModule.InWords) ∧
      Json.ReadsBack DocEntry.toJson DocEntry.ofJson? oddEntry ∧
      Json.ReadsBack HelpEntry.toJson HelpEntry.ofJson? oddHelp ∧
      Json.ReadsBack Module.toJson Module.ofJson? oddModule ∧
      Json.ReadsBack Cache.toJson Cache.ofJson? [("k", oddModule), ("k", {})] := by
  obtain ⟨-, -, hentry, -, hhelp, hmodule, hcache⟩ := records_readBack
  have hwords : oddEntry.declaration.InWords ∧ oddModule.InWords := by decide
  refine ⟨hwords, hentry _ hwords.1, hhelp _ rfl, hmodule _ hwords.2 rfl, hcache _ ?_⟩
  decide

end BlitzDoc
