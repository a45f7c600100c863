import BlitzDoc.Proofs.CommandPage.HtmlText
import BlitzDoc.Proofs.Text.Balanced

/-!
# Pages of commands

A page as it is written, one table a command (`page`), and what is read from it again. Every text is
escaped, so angle brackets stand in the marks of the page only, and a search for one of the marks passes
over all texts (`Text.Avoids`). The name of a command is found in the mark that opens its table and
nowhere else (`avoids_isAnchor`): up to a closing bracket, only that mark ends in a key, an equals sign
and a name.

Inside a table the title is found by the class of its cell and the example by its element. The
information, however, is looked for behind the first text `>Information<`, which need not be the label
of its row: a title can read so as well, and then the next label is taken for the information
(`information?_block`). The main statement is `scrape_page`: what is read for each command of a page,
when this is what was written, and that nothing is read for any other name.
-/

namespace BlitzDoc.CommandPage

open Markup.Html (escape)
open Text (Avoids)

/-! ## Writing a page -/

/-- A command with its texts, none of which is blank. -/
structure Command where
  name : String
  title : String
  information : Option String := none
  example? : Option String := none
  isName : Text.IsName name.toList := by decide +kernel
  -- the title is the cell behind the first mention of this class, be it in the name
  name_free : ¬ "docright".toList <:+: name.toList := by decide +kernel
  title_ne : Text.trim title ≠ "" := by decide +kernel
  information_ne : ∀ s ∈ information, Text.trim s ≠ "" := by decide +kernel
  example_ne : ∀ s ∈ example?, Text.trim s ≠ "" := by decide +kernel

/-- A row of a table: a label and a cell. -/
def row (label cell : String) : String :=
  "<tr><td class=docleft>" ++ label ++ "</td><td class=docright>" ++ cell ++ "</td></tr>"

namespace Command

/-- The row of the information, if there is any. -/
def informationRow (c : Command) : String :=
  c.information.elim "" fun s => row "Information" (escape s)

/-- The row of the example, if there is any. -/
def exampleRow (c : Command) : String :=
  c.example?.elim "" fun s => row "Example" ("<pre>" ++ escape s ++ "</pre>")

section
variable {c : Command} {s : String}

theorem informationRow_of_some (h : c.information = some s) :
    c.informationRow = row "Information" (escape s) := by
  rw [informationRow, h, Option.elim_some]

theorem informationRow_of_none (h : c.information = none) : c.informationRow = "" := by
  rw [informationRow, h, Option.elim_none]

theorem exampleRow_of_some (h : c.example? = some s) :
    c.exampleRow = row "Example" ("<pre>" ++ escape s ++ "</pre>") := by
  rw [exampleRow, h, Option.elim_some]

theorem exampleRow_of_none (h : c.example? = none) : c.exampleRow = "" := by
  rw [exampleRow, h, Option.elim_none]

end

/-- The table of a command. -/
def table (c : Command) : String :=
  "<table class=doc id=" ++ c.name ++ ">" ++ row "Function" (escape c.title) ++ c.informationRow ++
    c.exampleRow ++ "</table>"

/-- The documentation that the table gives. -/
def docs (c : Command) : LongDocs :=
  { title := some (Text.trim c.title)
    information := c.information.map Text.trim
    example? := c.example?.map Text.trim }

end Command

/-- The tables of the commands, one behind the other. -/
def page (cs : List Command) : String :=
  String.join (cs.map Command.table)

/-! ## Pages as lists of characters -/

theorem toList_row (label cell : String) :
    (row label cell).toList =
      "<tr><td class=docleft>".toList ++ (label.toList ++ ("</td><td class=docright>".toList ++
        (cell.toList ++ "</td></tr>".toList))) := by
  unfold row
  simp only [String.toList_append, List.append_assoc]

namespace Command

/-- The table from the name of the command on, without the example. -/
def upper (c : Command) : List Char :=
  "id=".toList ++ (c.name.toList ++ '>' :: ((row "Function" (escape c.title)).toList ++
    c.informationRow.toList))

/-- The table from the name of the command on. -/
def block (c : Command) : List Char :=
  c.upper ++ c.exampleRow.toList

theorem toList_table (c : Command) :
    c.table.toList = "<table class=doc ".toList ++ (c.block ++ "</table>".toList) := by
  unfold table block upper
  simp

end Command

theorem toList_page (cs : List Command) : (page cs).toList = cs.flatMap fun c => c.table.toList := by
  rw [page, String.toList_join, List.flatMap_map]

/-! ## Anchors -/

/-- The name's anchor stands at the front of the text. -/
def isAnchor (name : String) (rest : List Char) : Bool :=
  (anchors name).any (·.isPrefixOf rest)

/-- The keys of anchors. -/
def anchorKeys : List (List Char) :=
  ["id".toList, "name".toList]

theorem isAnchor_cases {name : String} {rest : List Char} (h : isAnchor name rest = true) :
    ∃ key ∈ anchorKeys, key ++ '=' :: (name.toList ++ ['>']) <+: rest ∨
      key ++ '=' :: '"' :: (name.toList ++ ['"']) <+: rest := by
  simp only [isAnchor, anchors, List.map_cons, List.map_nil, String.toList_append, List.any_cons,
    List.any_nil, Bool.or_false, Bool.or_eq_true, List.isPrefixOf_iff_prefix] at h
  rcases h with h | h | h | h
  · exact ⟨"id".toList, by decide, .inl (by simpa using h)⟩
  · exact ⟨"id".toList, by decide, .inr (by simpa using h)⟩
  · exact ⟨"name".toList, by decide, .inl (by simpa using h)⟩
  · exact ⟨"name".toList, by decide, .inr (by simpa using h)⟩

/-- The characters that the marks of a page are told by. -/
def pageMarks : List Char :=
  ['<', '>', '"', '=', '/']

theorem isNameChar_of_pageMarks : ∀ d ∈ pageMarks, TypeName.isNameChar d = false := by decide

theorem not_mem_of_isNameChar {name : List Char} (h : ∀ c ∈ name, TypeName.isNameChar c = true) {d : Char}
    (hd : d ∈ pageMarks) : d ∉ name := by
  intro hmem
  have hname := h d hmem
  rw [isNameChar_of_pageMarks d hd] at hname
  cases hname

/-- Up to a closing bracket, an anchor is a key and the name and no more. -/
theorem eq_of_isAnchor {name : String} (hname : Text.IsName name.toList) {stem rest : List Char}
    (hclose : '>' ∉ stem) (hquote : '"' ∉ stem) (h : isAnchor name (stem ++ '>' :: rest) = true) :
    ∃ key ∈ anchorKeys, key ++ '=' :: name.toList = stem := by
  have hbracket : '>' ∉ name.toList := not_mem_of_isNameChar hname.2 (by decide)
  have hkeys : ∀ key ∈ anchorKeys, '>' ∉ key := by decide
  obtain ⟨key, hkey, hplain | hquoted⟩ := isAnchor_cases h
  · have hmarked : (key ++ '=' :: name.toList) ++ ['>'] <+: stem ++ '>' :: rest := by
      simpa using hplain
    exact ⟨key, hkey, Text.eq_of_prefix_mark (by simp [hkeys key hkey, hbracket]) hclose hmarked⟩
  · have hstem := Text.prefix_of_prefix_mark (by simp [hkeys key hkey, hbracket]) hquoted
    exact absurd (hstem.subset (by simp)) hquote

/-- A mark that ends in a closing bracket is passed over in the search for a name, if its last word is
another or does not follow a key. -/
theorem avoids_isAnchor {name : String} (hname : Text.IsName name.toList) {x y : List Char} {d : Char}
    (hd : d ∈ ['<', '=', '/']) (hx : '>' ∉ x ∧ '"' ∉ x) (hy : y.all TypeName.isNameChar = true)
    (h : y = name.toList → d = '=' → ∀ key ∈ anchorKeys, ¬ key <:+ x) :
    Avoids (isAnchor name) (x ++ d :: (y ++ ['>'])) := by
  have hmarks : ∀ d ∈ ['<', '=', '/'], d ≠ '>' ∧ d ≠ '"' ∧ d ∈ pageMarks := by decide
  obtain ⟨hclose, hquote, hmark⟩ := hmarks d hd
  rw [List.all_eq_true] at hy
  have hstem : '>' ∉ x ++ d :: y ∧ '"' ∉ x ++ d :: y := by
    simp [hx, hclose.symm, hquote.symm, not_mem_of_isNameChar hy (d := '>') (by decide),
      not_mem_of_isNameChar hy (d := '"') (by decide)]
  have hshape : x ++ d :: (y ++ ['>']) = (x ++ d :: y) ++ ['>'] := by simp
  rw [hshape]
  intro t ht hne rest
  rcases List.suffix_concat_iff.1 ht with rfl | ⟨stem, rfl, hsuffix⟩
  · exact absurd rfl hne
  rw [Bool.eq_false_iff]
  intro hanchor
  rw [List.append_assoc, List.singleton_append] at hanchor
  obtain ⟨key, hkey, rfl⟩ := eq_of_isAnchor hname (fun hmem => hstem.1 (hsuffix.subset hmem))
    (fun hmem => hstem.2 (hsuffix.subset hmem)) hanchor
  -- read backwards, both texts begin with a run of name characters
  have hreverse : name.toList.reverse ++ '=' :: key.reverse <+: y.reverse ++ d :: x.reverse := by
    rw [← List.reverse_prefix] at hsuffix
    simpa using hsuffix
  obtain ⟨hlast, hequals, hkeyx⟩ := Text.prefix_run (p := TypeName.isNameChar)
    (by simpa using hname.2) (by simpa using hy) (isNameChar_of_pageMarks '=' (by decide))
    (isNameChar_of_pageMarks d hmark) hreverse
  exact h (List.reverse_injective hlast).symm hequals.symm key hkey (List.reverse_prefix.1 hkeyx)

/-- The words that the marks of a page end in. -/
def markWords : List String :=
  ["tr", "td", "pre", "table", "docleft", "docright"]

theorem all_isNameChar_of_markWords : ∀ w ∈ markWords, w.toList.all TypeName.isNameChar = true := by
  decide

theorem unmarked_escape (s : String) : '>' ∉ (escape s).toList ∧ '"' ∉ (escape s).toList :=
  ⟨not_mem_escape (by decide) s, not_mem_escape (by decide) s⟩

section
variable {name : String} (hname : Text.IsName name.toList)
include hname

/-- A tag that opens without a key is passed over. -/
theorem avoids_isAnchor_open {w : String} (hw : w ∈ markWords) :
    Avoids (isAnchor name) ('<' :: (w.toList ++ ['>'])) :=
  avoids_isAnchor hname (x := []) (by decide) (by simp) (all_isNameChar_of_markWords w hw)
    fun _ hequals => absurd hequals (by decide)

/-- A text without marks is passed over up to the tag that closes it. -/
theorem avoids_isAnchor_closed {w : String} (hw : w ∈ markWords) {x : List Char}
    (hx : '>' ∉ x ∧ '"' ∉ x) : Avoids (isAnchor name) (x ++ '<' :: '/' :: (w.toList ++ ['>'])) := by
  have hclosed := avoids_isAnchor hname (x := x ++ ['<']) (d := '/') (by decide)
    (by simpa using hx) (all_isNameChar_of_markWords w hw) fun _ hslash => absurd hslash (by decide)
  simpa using hclosed

/-- The class of a cell is no anchor, even if its name is the one looked for. -/
theorem avoids_isAnchor_class {w : String} (hw : w ∈ markWords) :
    Avoids (isAnchor name) ("<td class".toList ++ '=' :: (w.toList ++ ['>'])) := by
  refine avoids_isAnchor hname (by decide) (by simp) (all_isNameChar_of_markWords w hw) fun _ _ => ?_
  simp [anchorKeys, ← List.isSuffixOf_iff_suffix, List.isSuffixOf]

/-- A row is passed over if its cell is, up to the end of the cell. -/
theorem avoids_isAnchor_row {label cell : String} (hlabel : '>' ∉ label.toList ∧ '"' ∉ label.toList)
    (hcell : Avoids (isAnchor name) (cell.toList ++ "</td>".toList)) :
    Avoids (isAnchor name) (row label cell).toList := by
  have hopen := avoids_isAnchor_open hname (w := "tr") (by simp [markWords])
  have hleft := avoids_isAnchor_class hname (w := "docleft") (by simp [markWords])
  have hword := avoids_isAnchor_closed hname (w := "td") (by simp [markWords]) hlabel
  have hright := avoids_isAnchor_class hname (w := "docright") (by simp [markWords])
  have hclose := avoids_isAnchor_closed hname (w := "tr") (by simp [markWords]) (x := []) (by simp)
  have hall := hopen.append (hleft.append (hword.append (hright.append (hcell.append hclose))))
  simpa [toList_row] using hall

/-- An escaped text is passed over in its cell. -/
theorem avoids_isAnchor_escape (s : String) :
    Avoids (isAnchor name) ((escape s).toList ++ "</td>".toList) := by
  have hclosed := avoids_isAnchor_closed hname (w := "td") (by simp [markWords]) (unmarked_escape s)
  simpa using hclosed

theorem avoids_isAnchor_pre (s : String) :
    Avoids (isAnchor name) (("<pre>" ++ escape s ++ "</pre>").toList ++ "</td>".toList) := by
  have hopen := avoids_isAnchor_open hname (w := "pre") (by simp [markWords])
  have hclose := avoids_isAnchor_closed hname (w := "pre") (by simp [markWords]) (unmarked_escape s)
  have hcell := avoids_isAnchor_closed hname (w := "td") (by simp [markWords]) (x := []) (by simp)
  simpa using hopen.append (hclose.append hcell)

/-- The search for a name passes over the tables of other commands. -/
theorem avoids_isAnchor_table {c : Command} (hc : c.name ≠ name) :
    Avoids (isAnchor name) c.table.toList := by
  have hhead := avoids_isAnchor hname (x := "<table class=doc id".toList) (d := '=')
    (y := c.name.toList) (by decide) (by simp) (List.all_eq_true.2 c.isName.2)
    fun heq => absurd (String.toList_inj.1 heq) hc
  have htitle : Avoids (isAnchor name) (row "Function" (escape c.title)).toList :=
    avoids_isAnchor_row hname (by simp) (avoids_isAnchor_escape hname c.title)
  have hinformation : Avoids (isAnchor name) c.informationRow.toList := by
    cases h : c.information with
    | none =>
      rw [Command.informationRow_of_none h]
      exact Text.avoids_nil _
    | some s =>
      rw [Command.informationRow_of_some h]
      exact avoids_isAnchor_row hname (by simp) (avoids_isAnchor_escape hname s)
  have hexample : Avoids (isAnchor name) c.exampleRow.toList := by
    cases h : c.example? with
    | none =>
      rw [Command.exampleRow_of_none h]
      exact Text.avoids_nil _
    | some s =>
      rw [Command.exampleRow_of_some h]
      exact avoids_isAnchor_row hname (by simp) (avoids_isAnchor_pre hname s)
  have hclose := avoids_isAnchor_closed hname (w := "table") (by simp [markWords]) (x := []) (by simp)
  have hall := hhead.append (htitle.append (hinformation.append (hexample.append hclose)))
  simpa [Command.toList_table, Command.block, Command.upper] using hall

end

/-! ## The table of a command -/

/-- The marks around the label and the cell of a row. -/
def rowMarks : List String :=
  ["<tr><td class=docleft>", "</td><td class=docright>", "</td></tr>"]

section
variable {mark : List Char} (hhead : mark.head? = some '<')
include hhead

theorem avoids_escape (s : String) : Avoids mark.isPrefixOf (escape s).toList :=
  Text.avoids_of_head hhead (not_mem_escape (by decide) s)

variable (hmarks : (rowMarks.all fun s => Text.isFree mark s.toList) = true)
include hmarks

/-- A mark that does not occur around cells is not found in a row, unless in its cell. -/
theorem avoids_row {label cell : String} (hlabel : '<' ∉ label.toList)
    (hcell : Avoids mark.isPrefixOf cell.toList) : Avoids mark.isPrefixOf (row label cell).toList := by
  simp only [rowMarks, List.all_cons, List.all_nil, Bool.and_true, Bool.and_eq_true] at hmarks
  obtain ⟨hopen, hmiddle, hend⟩ := hmarks
  rw [toList_row]
  refine (Text.avoids_of_isFree hopen).append ((Text.avoids_of_head hhead hlabel).append ?_)
  exact (Text.avoids_of_isFree hmiddle).append (hcell.append (Text.avoids_of_isFree hend))

theorem avoids_upper (c : Command) : Avoids mark.isPrefixOf c.upper := by
  have hname : '<' ∉ c.name.toList := not_mem_of_isNameChar c.isName.2 (by decide)
  have hopen : Avoids mark.isPrefixOf ("id=".toList ++ (c.name.toList ++ ['>'])) :=
    Text.avoids_of_head hhead (by simp [hname])
  have htitle : Avoids mark.isPrefixOf (row "Function" (escape c.title)).toList :=
    avoids_row hhead hmarks (by simp) (avoids_escape hhead c.title)
  have hinformation : Avoids mark.isPrefixOf c.informationRow.toList := by
    cases h : c.information with
    | none =>
      rw [Command.informationRow_of_none h]
      exact Text.avoids_nil _
    | some s =>
      rw [Command.informationRow_of_some h]
      exact avoids_row hhead hmarks (by simp) (avoids_escape hhead s)
  simpa [Command.upper] using hopen.append (htitle.append hinformation)

end

/-- The end of a table is not found inside of it. -/
theorem avoids_block (c : Command) : Avoids "</table>".toList.isPrefixOf c.block := by
  have hhead : "</table>".toList.head? = some '<' := by simp
  have hmarks : (rowMarks.all fun s => Text.isFree "</table>".toList s.toList) = true := by cbv
  refine (avoids_upper hhead hmarks c).append ?_
  cases h : c.example? with
  | none =>
    rw [Command.exampleRow_of_none h]
    exact Text.avoids_nil _
  | some s =>
    rw [Command.exampleRow_of_some h]
    refine avoids_row hhead hmarks (by simp) ?_
    rw [String.toList_append, String.toList_append]
    refine Avoids.append (Avoids.append ?_ (avoids_escape hhead s)) ?_
    · exact Text.avoids_of_isFree (by cbv)
    · exact Text.avoids_of_isFree (by cbv)

/-- The table of a command is found by its name, whatever tables stand before and behind it. -/
theorem block?_page {before behind : List Command} {c : Command}
    (hbefore : ∀ d ∈ before, d.name ≠ c.name) :
    block? (page (before ++ c :: behind)).toList c.name = some c.block := by
  have hpass : Avoids (isAnchor c.name) (before.flatMap fun d => d.table.toList) :=
    Text.avoids_flatMap fun d hd => avoids_isAnchor_table c.isName (hbefore d hd)
  -- every anchor begins with one of two letters
  have hopen : Avoids (isAnchor c.name) "<table class=doc ".toList := by
    have hletters : ∀ d ∈ "<table class=doc ".toList, d ≠ 'i' ∧ d ≠ 'n' := by simp
    refine Text.avoids_of_forall fun d hd rest => ?_
    simp [isAnchor, anchors, List.isPrefixOf, (hletters d hd).1.symm, (hletters d hd).2.symm]
  have hpage : (page (before ++ c :: behind)).toList =
      ((before.flatMap fun d => d.table.toList) ++ "<table class=doc ".toList) ++
        (c.block ++ ("</table>".toList ++ (page behind).toList)) := by
    simp [toList_page, Command.toList_table]
  have hanchor : isAnchor c.name (c.block ++ ("</table>".toList ++ (page behind).toList)) = true := by
    simp [isAnchor, anchors, Command.block, Command.upper]
  have hcut := Text.cutAt?_of_avoids (hpass.append hopen) hanchor
  change (Text.cutAt? (isAnchor c.name) _).map _ = _
  rw [hpage, hcut, Option.map_some]
  simp only [Text.before?_of_avoids (avoids_block c), Option.getD_some]

/-- No table is found for a name that no command has. -/
theorem block?_eq_none {cs : List Command} {name : String} (hname : Text.IsName name.toList)
    (h : ∀ c ∈ cs, c.name ≠ name) : block? (page cs).toList name = none := by
  have hpass : Avoids (isAnchor name) (page cs).toList := by
    rw [toList_page]
    exact Text.avoids_flatMap fun c hc => avoids_isAnchor_table hname (h c hc)
  have hcut := Text.cutAt?_eq_none hpass (by simp [isAnchor, anchors])
  change (Text.cutAt? (isAnchor name) (page cs).toList).map _ = none
  rw [hcut]
  rfl

/-! ## Title, information and example -/

theorem cellBody?_of_cell {x y : List Char} (hx : '>' ∉ x) (hy : '<' ∉ y) (rest : List Char) :
    cellBody? (x ++ '>' :: (y ++ ("</td>".toList ++ rest))) = some y := by
  have hopen : Avoids ['>'].isPrefixOf x := Text.avoids_of_head rfl hx
  have hclose : Avoids "</td>".toList.isPrefixOf y := Text.avoids_of_head (by simp) hy
  have hafter := Text.after?_of_avoids hopen (y ++ ("</td>".toList ++ rest))
  rw [List.singleton_append] at hafter
  rw [cellBody?, hafter, Option.bind_some, Text.before?_of_avoids hclose]

/-- The table up to the bracket behind which the title stands. -/
def Command.lead (c : Command) : List Char :=
  "id=".toList ++ (c.name.toList ++ "><tr><td class=docleft>Function</td><td class=docright".toList)

theorem Command.block_eq (c : Command) :
    c.block = c.lead ++ '>' :: ((escape c.title).toList ++ ("</td>".toList ++ ("</tr>".toList ++
      (c.informationRow.toList ++ c.exampleRow.toList)))) := by
  simp [Command.block, Command.upper, Command.lead, toList_row]

theorem title?_block (c : Command) : title? c.block = some (escape c.title).toList := by
  have hkey : Avoids "docright".toList.isPrefixOf "id=".toList := Text.avoids_of_isFree (by cbv)
  have hname : Avoids "docright".toList.isPrefixOf (c.name.toList ++ ['>']) :=
    Text.avoids_of_not_infix (by simp) c.name_free
  have hlabel : Avoids "docright".toList.isPrefixOf
      "<tr><td class=docleft>Function</td><td class=".toList :=
    Text.avoids_of_isFree (by cbv)
  have hlead : c.lead = ("id=".toList ++ ((c.name.toList ++ ['>']) ++
      "<tr><td class=docleft>Function</td><td class=".toList)) ++ "docright".toList := by
    simp [Command.lead]
  rw [title?, Command.block_eq, hlead, List.append_assoc,
    Text.from?_of_avoids (hkey.append (hname.append hlabel)), Option.bind_some]
  exact cellBody?_of_cell (by simp) (not_mem_escape (by decide) c.title) _

theorem avoids_lead (c : Command) : Avoids ">Information<".toList.isPrefixOf c.lead := by
  have hname : '>' ∉ c.name.toList := not_mem_of_isNameChar c.isName.2 (by decide)
  have hopen : Avoids ">Information<".toList.isPrefixOf ("id=".toList ++ c.name.toList) :=
    Text.avoids_of_head (p := '>') (by simp) (by simp [hname])
  have hlabel : Avoids ">Information<".toList.isPrefixOf
      "><tr><td class=docleft>Function</td><td class=docright".toList :=
    Text.avoids_of_isFree (by cbv)
  simpa [Command.lead] using hopen.append hlabel

theorem escape_inj {s t : String} (h : escape s = escape t) : s = t := by
  have hs := decodeEntities_of_coded (coded_escape s)
  rw [h, decodeEntities_of_coded (coded_escape t)] at hs
  exact (String.toList_inj.1 hs).symm

theorem escape_label : escape "Information" = "Information" := by decide

/-- A title is passed over in the search for the label of the information, unless it reads like it. -/
theorem avoids_title {s : String} (hs : s ≠ "Information") :
    Avoids ">Information<".toList.isPrefixOf ('>' :: ((escape s).toList ++ "</td".toList)) := by
  have hclose : '>' ∉ (escape s).toList := not_mem_escape (by decide) s
  have hbehind : Avoids ">Information<".toList.isPrefixOf ((escape s).toList ++ "</td".toList) :=
    Text.avoids_of_head (p := '>') (by simp) (by simp [hclose])
  refine Text.avoids_cons.2 ⟨fun rest => ?_, hbehind⟩
  rw [Bool.eq_false_iff]
  intro hbegins
  have hlabel : "Information".toList ++ ['<'] <+: (escape s).toList ++ '<' :: ("/td".toList ++ rest) := by
    simpa using hbegins
  have heq := Text.eq_of_prefix_mark (by simp) (not_mem_escape (by decide) s) hlabel
  exact hs (escape_inj ((String.toList_inj.1 heq.symm).trans escape_label.symm))

/-- The label of the row behind the title. -/
def Command.nextLabel (c : Command) : Option String :=
  if c.information.isSome then some "Information" else if c.example?.isSome then some "Example" else none

/-- The cell that opens behind a title is the label of the next row. -/
theorem label_behind_title (label cell : String) (hlabel : '<' ∉ label.toList) (rest : List Char) :
    (Text.from? "<td".toList ("/td></tr>".toList ++ ((row label cell).toList ++ rest))).bind cellBody? =
      some label.toList := by
  have hpass : Avoids "<td".toList.isPrefixOf "/td></tr><tr>".toList :=
    Text.avoids_of_isFree (by cbv)
  have htext : "/td></tr>".toList ++ ((row label cell).toList ++ rest) =
      "/td></tr><tr>".toList ++ ("<td".toList ++ (" class=docleft".toList ++ '>' :: (label.toList ++
        ("</td>".toList ++ ("<td class=docright>".toList ++ (cell.toList ++ ("</td></tr>".toList ++
          rest))))))) := by
    simp [toList_row]
  rw [htext, Text.from?_of_avoids hpass, Option.bind_some, ← List.append_assoc]
  exact cellBody?_of_cell (by simp) hlabel _

theorem information?_of_title {c : Command} (htitle : c.title = "Information") :
    information? c.block = c.nextLabel.map String.toList := by
  have hblock : c.block = c.lead ++ (">Information<".toList ++ ("/td></tr>".toList ++
      (c.informationRow.toList ++ c.exampleRow.toList))) := by
    simp [Command.block_eq, htitle, escape_label]
  rw [information?, hblock, Text.after?_of_avoids (avoids_lead c), Option.bind_some]
  cases hinformation : c.information with
  | some s =>
    have hnext : c.nextLabel = some "Information" := by simp [Command.nextLabel, hinformation]
    rw [Command.informationRow_of_some hinformation, hnext, Option.map_some]
    exact label_behind_title "Information" (escape s) (by simp) _
  | none =>
    rw [Command.informationRow_of_none hinformation, String.toList_empty, List.nil_append]
    cases hexample : c.example? with
    | some s =>
      have hnext : c.nextLabel = some "Example" := by
        simp [Command.nextLabel, hinformation, hexample]
      have hlabel := label_behind_title "Example" ("<pre>" ++ escape s ++ "</pre>") (by simp) []
      rw [List.append_nil] at hlabel
      rw [Command.exampleRow_of_some hexample, hnext, Option.map_some, hlabel]
    | none =>
      have hnext : c.nextLabel = none := by simp [Command.nextLabel, hinformation, hexample]
      have hpass : Avoids "<td".toList.isPrefixOf "/td></tr>".toList := Text.avoids_of_isFree (by cbv)
      rw [Command.exampleRow_of_none hexample, hnext, String.toList_empty, List.append_nil,
        Text.from?_eq_none hpass (by simp)]
      rfl

theorem information?_of_row {c : Command} (htitle : c.title ≠ "Information") {s : String}
    (hinformation : c.information = some s) : information? c.block = some (escape s).toList := by
  have hlabel : Avoids ">Information<".toList.isPrefixOf "></tr><tr><td class=docleft".toList :=
    Text.avoids_of_isFree (by cbv)
  have hblock : c.block = (c.lead ++ (('>' :: ((escape c.title).toList ++ "</td".toList)) ++
      "></tr><tr><td class=docleft".toList)) ++ (">Information<".toList ++ ("/td>".toList ++
        ("<td".toList ++ (" class=docright".toList ++ '>' :: ((escape s).toList ++ ("</td>".toList ++
          ("</tr>".toList ++ c.exampleRow.toList))))))) := by
    simp [Command.block_eq, Command.informationRow_of_some hinformation, toList_row]
  have hcell : Avoids "<td".toList.isPrefixOf "/td>".toList :=
    Text.avoids_of_isFree (by cbv)
  rw [information?, hblock,
    Text.after?_of_avoids ((avoids_lead c).append ((avoids_title htitle).append hlabel)),
    Option.bind_some, Text.from?_of_avoids hcell, Option.bind_some, ← List.append_assoc]
  exact cellBody?_of_cell (by simp) (not_mem_escape (by decide) s) _

/-- Without its row there is no information: a text that reads like the label can only be the last one of
the table, and no cell opens behind it. -/
theorem information?_eq_none {c : Command} (htitle : c.title ≠ "Information")
    (hinformation : c.information = none) : information? c.block = none := by
  have hescape (s : String) : Avoids "<td".toList.isPrefixOf (escape s).toList :=
    avoids_escape (by simp) s
  -- only the last text needs to be searched, and it has no further cell
  suffices h : ∃ x y : List Char, c.block = x ++ y ∧ Avoids ">Information<".toList.isPrefixOf x ∧
      Avoids "<td".toList.isPrefixOf y by
    obtain ⟨x, y, hblock, hx, hy⟩ := h
    have hnone := Text.bind_from?_eq_none hy (by simp)
      fun z (hz : Text.after? ">Information<".toList y = some z) => Text.suffix_of_after? hz
    rw [information?, hblock, Text.after?_append hx, hnone]
    rfl
  cases hexample : c.example? with
  | none =>
    refine ⟨c.lead, ['>'] ++ ((escape c.title).toList ++ "</td></tr>".toList), ?_, avoids_lead c, ?_⟩
    · simp [Command.block_eq, Command.informationRow_of_none hinformation,
        Command.exampleRow_of_none hexample]
    · have hopen : Avoids "<td".toList.isPrefixOf ['>'] := Text.avoids_of_isFree (by cbv)
      exact hopen.append ((hescape c.title).append (Text.avoids_of_isFree (by cbv)))
  | some s =>
    have hrow : Avoids ">Information<".toList.isPrefixOf
        "></tr><tr><td class=docleft>Example</td><td class=docright><pre".toList :=
      Text.avoids_of_isFree (by cbv)
    refine ⟨_, ['>'] ++ ((escape s).toList ++ "</pre></td></tr>".toList), ?_,
      (avoids_lead c).append ((avoids_title htitle).append hrow), ?_⟩
    · simp [Command.block_eq, Command.informationRow_of_none hinformation,
        Command.exampleRow_of_some hexample, toList_row]
    · have hopen : Avoids "<td".toList.isPrefixOf ['>'] := Text.avoids_of_isFree (by cbv)
      exact hopen.append ((hescape s).append (Text.avoids_of_isFree (by cbv)))

/-- **The information of a table.** It is the cell behind its label, unless the title reads like the
label: then it is the label of the next row. -/
theorem information?_block (c : Command) :
    information? c.block =
      if c.title = "Information" then c.nextLabel.map String.toList
      else c.information.map fun s => (escape s).toList := by
  by_cases htitle : c.title = "Information"
  · rw [if_pos htitle, information?_of_title htitle]
  · rw [if_neg htitle]
    cases hinformation : c.information with
    | some s => exact information?_of_row htitle hinformation
    | none => exact information?_eq_none htitle hinformation

/-- The example of a table. There may be a text that reads like its label before it, but its element is
the only one of its kind. -/
theorem example?_block (c : Command) :
    example? c.block = c.example?.map fun s => (escape s).toList := by
  have hhead : "<pre".toList.head? = some '<' := by simp
  have hmarks : (rowMarks.all fun s => Text.isFree "<pre".toList s.toList) = true := by cbv
  have hupper := avoids_upper hhead hmarks c
  cases hexample : c.example? with
  | none =>
    have hblock : c.block = c.upper := by simp [Command.block, Command.exampleRow_of_none hexample]
    have hnone : (Text.from? ">Example<".toList c.upper).bind (Text.from? "<pre".toList) = none :=
      Text.bind_from?_eq_none hupper (by simp) fun y hy => Text.suffix_of_from? hy
    rw [example?, hblock, hnone]
    rfl
  | some s =>
    have hrow : Avoids "<pre".toList.isPrefixOf
        "<tr><td class=docleft>Example</td><td class=docright>".toList :=
      Text.avoids_of_isFree (by cbv)
    have hlabel : ">Example<".toList <:+:
        c.upper ++ "<tr><td class=docleft>Example</td><td class=docright>".toList :=
      ⟨c.upper ++ "<tr><td class=docleft".toList, "/td><td class=docright>".toList, by simp⟩
    have hblock : c.block =
        (c.upper ++ "<tr><td class=docleft>Example</td><td class=docright>".toList) ++
          ("<pre".toList ++ (['>'] ++ ((escape s).toList ++ ("</pre>".toList ++ "</td></tr>".toList)))) := by
      simp [Command.block, Command.exampleRow_of_some hexample, toList_row]
    have hopen : Avoids "</pre>".toList.isPrefixOf "<pre>".toList :=
      Text.avoids_of_isFree (by cbv)
    have hclose : Avoids "</pre>".toList.isPrefixOf (escape s).toList :=
      avoids_escape (by simp) s
    have hbracket : Avoids ['>'].isPrefixOf "<pre".toList := Text.avoids_of_head rfl (by simp)
    have hpre : "<pre".toList ++ (['>'] ++ ((escape s).toList ++ ("</pre>".toList ++ "</td></tr>".toList))) =
        ("<pre>".toList ++ (escape s).toList) ++ ("</pre>".toList ++ "</td></tr>".toList) := by simp
    have hcontent : "<pre>".toList ++ (escape s).toList =
        "<pre".toList ++ (['>'] ++ (escape s).toList) := by simp
    rw [example?, hblock, Text.from?_bind_from? hlabel (hupper.append hrow), Option.bind_some, hpre,
      Text.before?_of_avoids (hopen.append hclose), Option.bind_some, hcontent,
      Text.after?_of_avoids hbracket, Option.map_some]

/-! ## Reading a page -/

theorem part_map_escape {o : Option String} (h : ∀ s ∈ o, Text.trim s ≠ "") :
    part (o.map fun s => (escape s).toList) = o.map Text.trim := by
  cases o with
  | none => rfl
  | some s =>
    rw [Option.map_some, Option.map_some, part, Option.bind_some, stripTags_escape]
    exact Text.nonEmpty?_of_ne (h s rfl)

theorem part_nextLabel (c : Command) : part (c.nextLabel.map String.toList) = c.nextLabel := by
  have hlabels : ∀ label ∈ [none, some "Information", some "Example"],
      part (label.map String.toList) = label := by decide
  refine hlabels c.nextLabel ?_
  unfold Command.nextLabel
  split_ifs <;> simp

/-- What is read from the table of a command: all that was written, and the next label for the
information if the title reads like its label. -/
theorem scrape_of_block {html : String} {c : Command} (h : block? html.toList c.name = some c.block) :
    scrape html c.name = some { c.docs with
      information := if c.title = "Information" then c.nextLabel else c.docs.information } := by
  have htitle : part (title? c.block) = some (Text.trim c.title) := by
    rw [title?_block]
    exact part_map_escape (o := some c.title) (by simpa using c.title_ne)
  have hinformation : part (information? c.block) =
      if c.title = "Information" then c.nextLabel else c.information.map Text.trim := by
    rw [information?_block]
    split_ifs
    · exact part_nextLabel c
    · exact part_map_escape c.information_ne
  have hexample : part (example? c.block) = c.example?.map Text.trim := by
    rw [example?_block]
    exact part_map_escape c.example_ne
  simp only [scrape, h, Option.bind_some, htitle, hinformation, hexample, Command.docs]
  rw [if_neg]
  intro hempty
  cases congrArg LongDocs.title hempty

/-- **Reading a page.** From a page of differently named commands the documentation of each is read as
it was written, but for a title that reads like the label of the information: then the next label is
taken for the information, so what was written is read only if it is this label. For every other name
there is nothing to read. -/
theorem scrape_page {cs : List Command} (h : (cs.map Command.name).Nodup) :
    (∀ c ∈ cs, scrape (page cs) c.name = some c.docs ↔
      (c.title = "Information" → c.docs.information = c.nextLabel)) ∧
    (∀ c ∈ cs, scrape (page cs) c.name = some { c.docs with
      information := if c.title = "Information" then c.nextLabel else c.docs.information }) ∧
    ∀ name : String, Text.IsName name.toList → name ∉ cs.map Command.name →
      scrape (page cs) name = none := by
  have hread : ∀ c ∈ cs, scrape (page cs) c.name = some { c.docs with
      information := if c.title = "Information" then c.nextLabel else c.docs.information } := by
    intro c hc
    obtain ⟨before, behind, rfl⟩ := List.append_of_mem hc
    rw [List.map_append, List.map_cons, List.nodup_append] at h
    refine scrape_of_block (block?_page fun d hd => ?_)
    exact h.2.2 d.name (List.mem_map_of_mem hd) c.name List.mem_cons_self
  refine ⟨fun c hc => ?_, hread, fun name hname hother => ?_⟩
  · rw [hread c hc, Option.some_inj]
    constructor
    · intro hdocs htitle
      have hinformation := congrArg LongDocs.information hdocs
      rw [← hinformation]
      exact if_pos htitle
    · intro hlabel
      split_ifs with htitle
      · rw [← hlabel htitle]
      · rfl
  · have hnames : ∀ c ∈ cs, c.name ≠ name := by
      rintro c hc rfl
      exact hother (List.mem_map_of_mem hc)
    rw [scrape, block?_eq_none hname hnames]
    rfl

/-- Commands whose names are parts of each other and whose texts read like the marks of a page. -/
def awkwardCommands : List Command :=
  [{ name := "AMax", title := "id=Max></table>", information := some ">Information<td name=\"Max\"" },
    { name := "Max", title := " Example ", example? := some "<pre> & </pre>" },
    { name := "Max2", title := "docright", information := some "Information",
      example? := some "</table><table id=Ma>" },
    { name := "id", title := "Information" }]

theorem scrape_awkwardPage :
    (∀ c ∈ awkwardCommands, scrape (page awkwardCommands) c.name = some c.docs) ∧
      awkwardCommands.map Command.docs =
        [{ title := some "id=Max></table>", information := some ">Information<td name=\"Max\"" },
          { title := some "Example", example? := some "<pre> & </pre>" },
          { title := some "docright", information := some "Information",
            example? := some "</table><table id=Ma>" },
          { title := some "Information" }] ∧
      scrape (page awkwardCommands) "Ma" = none := by
  have hnames : (awkwardCommands.map Command.name).Nodup := by decide +kernel
  have hlabels : ∀ c ∈ awkwardCommands, c.title = "Information" → c.docs.information = c.nextLabel := by
    decide +kernel
  obtain ⟨hdocs, -, hother⟩ := scrape_page hnames
  refine ⟨fun c hc => (hdocs c hc).2 (hlabels c hc), by decide +kernel, ?_⟩
  exact hother "Ma" (by decide +kernel) (by decide +kernel)

/-- A command that is titled like the label of its information. -/
def titledInformation : Command :=
  { name := "Foo", title := "Information", information := some "some text" }

theorem scrape_titledInformation :
    scrape (page [titledInformation]) "Foo" =
        some { title := some "Information", information := some "Information" } ∧
      titledInformation.docs = { title := some "Information", information := some "some text" } := by
  have hread := scrape_of_block (@block?_page [] [] titledInformation (by simp))
  refine ⟨hread.trans ?_, ?_⟩
  · decide +kernel
  · decide +kernel

end BlitzDoc.CommandPage
