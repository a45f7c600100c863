import BlitzDoc.Proofs.CommandIndex.Lines
import BlitzDoc.Proofs.Text.Escapes
import BlitzDoc.Text.Digits

/-!
# Templates as snippets

An editor reads a template as literal text with numbered places between, written `${n:body}`. A body
goes up to the first brace that is bare, so the texts of arguments and defaults, which may hold anything,
are escaped in it. `Snippet.read` is such a reader. Whatever stands behind an escaped text and
its brace, the reader finds the text and goes on behind the brace (`body?_escaped`), so it goes through
the places of a template one after the other (`read_places`). The main statement is `read_template`: what
it reads of a command is the signature of the command.
-/

namespace BlitzDoc

/-! ## Snippets -/

/-- A part of a snippet. The body of a place is kept as it is written. -/
inductive Snippet.Item where
  | char (c : Char)
  | place (number : Nat) (body : List Char)
deriving DecidableEq, Repr

namespace Snippet

/-- The text up to the first closing brace that is not escaped, and the text behind the brace. -/
def body? : List Char → Option (List Char × List Char)
  | '\\' :: c :: cs => (body? cs).map fun (body, rest) => ('\\' :: c :: body, rest)
  | '\x7d' :: cs => some ([], cs)
  | c :: cs => (body? cs).map fun (body, rest) => (c :: body, rest)
  | [] => none

/-- A place whose dollar sign was read, and the text behind it. -/
def place? : List Char → Option (Item × List Char)
  | '\x7b' :: cs =>
    match cs.takeWhile Char.isDigit, cs.dropWhile Char.isDigit with
    | d :: ds, ':' :: cs =>
      (body? cs).map fun (body, rest) => (.place (Text.digitsValue (d :: ds)) body, rest)
    | _, _ => none
  | _ => none

theorem length_body?_lt {cs : List Char} {found : List Char × List Char} (h : body? cs = some found) :
    found.2.length < cs.length := by
  fun_induction body? cs generalizing found with
  | case1 c cs ih =>
    obtain ⟨inner, hinner, rfl⟩ := Option.map_eq_some_iff.1 h
    have hlt := ih hinner
    simp only [List.length_cons]
    omega
  | case2 cs =>
    cases h
    simp
  | case3 c cs _ _ ih =>
    obtain ⟨inner, hinner, rfl⟩ := Option.map_eq_some_iff.1 h
    have hlt := ih hinner
    simp only [List.length_cons]
    omega
  | case4 => cases h

theorem length_place?_lt {cs : List Char} {found : Item × List Char} (h : place? cs = some found) :
    found.2.length < cs.length := by
  unfold place? at h
  split at h
  · rename_i cs
    split at h
    · rename_i d ds behind hdigits hbehind
      obtain ⟨inner, hinner, rfl⟩ := Option.map_eq_some_iff.1 h
      have hlt := length_body?_lt hinner
      have hle := Text.length_dropWhile_le Char.isDigit cs
      rw [hbehind] at hle
      simp only [List.length_cons] at hle ⊢
      omega
    · cases h
  · cases h

/-- Reads a snippet. A dollar sign that starts no place is literal, and so is an escaped character. -/
def read : List Char → List Item
  | '\\' :: c :: cs => .char c :: read cs
  | '$' :: cs =>
    match h : place? cs with
    | some found =>
      have := length_place?_lt h
      found.1 :: read found.2
    | none => .char '$' :: read cs
  | c :: cs => .char c :: read cs
  | [] => []
termination_by cs => cs.length
decreasing_by
  all_goals simp only [List.length_cons]; omega

theorem read_nil : read [] = [] := by
  rw [read]

theorem read_cons {c : Char} (hdollar : c ≠ '$') (hbackslash : c ≠ '\\') (cs : List Char) :
    read (c :: cs) = .char c :: read cs := by
  rw [read]
  · exact fun _ _ hc _ => hbackslash hc
  · exact hdollar

/-- Literal text is read as it stands. -/
theorem read_append {cs : List Char} (h : ∀ c ∈ cs, c ≠ '$' ∧ c ≠ '\\') (rest : List Char) :
    read (cs ++ rest) = cs.map .char ++ read rest := by
  induction cs with
  | nil => rfl
  | cons c cs ih =>
    simp only [List.forall_mem_cons] at h
    rw [List.cons_append, read_cons h.1.1 h.1.2, ih h.2]
    rfl

theorem read_of_place? {cs : List Char} {found : Item × List Char} (h : place? cs = some found) :
    read ('$' :: cs) = found.1 :: read found.2 := by
  rw [read]
  split
  · rename_i other hother
    rw [h, Option.some.injEq] at hother
    rw [hother]
  · rename_i hnone
    rw [h] at hnone
    cases hnone

end Snippet

namespace CommandIndex

/-! ## Escaped texts -/

/-- A text as it stands inside a placeholder, character by character. -/
def escaped (cs : List Char) : List Char :=
  cs.flatMap fun c => if isSpecial c then ['\\', c] else [c]

theorem escaped_cons (c : Char) (cs : List Char) :
    escaped (c :: cs) = if isSpecial c then '\\' :: c :: escaped cs else c :: escaped cs := by
  unfold escaped
  rw [List.flatMap_cons]
  split <;> rfl

theorem ne_of_isSpecial_eq_false {c : Char} (h : isSpecial c = false) :
    c ≠ '$' ∧ c ≠ '\x7d' ∧ c ≠ '\\' := by
  simpa [isSpecial, and_assoc] using h

theorem unescape_escaped (cs : List Char) : Text.unescape (escaped cs) = cs := by
  induction cs with
  | nil => rfl
  | cons c cs ih =>
    rw [escaped_cons]
    split
    · rw [Text.unescape, ih]
    · rename_i hc
      rw [Text.unescape_cons (ne_of_isSpecial_eq_false (by simpa using hc)).2.2, ih]

theorem dollar_not_mem_bare_escaped (cs : List Char) : '$' ∉ Text.bare (escaped cs) := by
  induction cs with
  | nil => simp [escaped, Text.bare]
  | cons c cs ih =>
    rw [escaped_cons]
    split
    · rw [Text.bare]
      exact ih
    · rename_i hc
      obtain ⟨hdollar, -, hbackslash⟩ := ne_of_isSpecial_eq_false (by simpa using hc)
      rw [Text.bare_cons hbackslash]
      simp [hdollar.symm, ih]

/-- **An escaped text is read up to its brace**, whatever stands behind it. -/
theorem body?_escaped (cs rest : List Char) :
    Snippet.body? (escaped cs ++ '\x7d' :: rest) = some (escaped cs, rest) := by
  induction cs with
  | nil => rfl
  | cons c cs ih =>
    rw [escaped_cons]
    split
    · rw [List.cons_append, List.cons_append, Snippet.body?, ih]
      rfl
    · rename_i hc
      obtain ⟨-, hbrace, hbackslash⟩ := ne_of_isSpecial_eq_false (by simpa using hc)
      rw [List.cons_append, Snippet.body?, ih]
      · rfl
      · exact fun _ _ h _ => hbackslash h
      · exact hbrace

/-! ## Placeholders -/

theorem toList_placeholder (n : Nat) (body : String) :
    (placeholder n body).toList =
      '$' :: '\x7b' :: (Nat.toDigits 10 n ++ ':' :: (escaped body.toList ++ ['\x7d'])) := by
  simp [placeholder, escapePlaceholder, escaped]

theorem place?_toDigits (n : Nat) (body rest : List Char) :
    Snippet.place? ('\x7b' :: (Nat.toDigits 10 n ++ ':' :: (escaped body ++ '\x7d' :: rest))) =
      some (.place n (escaped body), rest) := by
  have hdigits : ∀ d ∈ Nat.toDigits 10 n, d.isDigit = true := by
    intro d hd
    exact Nat.isDigit_of_mem_toDigits (by decide) (by decide) hd
  have hvalue : Text.digitsValue (Nat.toDigits 10 n) = n := Nat.ofDigitChars_ten_toDigits
  have hcolon : ':'.isDigit = false := by decide
  simp only [Snippet.place?, List.takeWhile_append_of_pos hdigits, List.dropWhile_append_of_pos hdigits,
    List.takeWhile_cons, List.dropWhile_cons, hcolon, List.append_nil, Bool.false_eq_true, if_false]
  cases hn : Nat.toDigits 10 n with
  | nil => exact absurd hn Nat.toDigits_ne_nil
  | cons d ds =>
    rw [hn] at hvalue
    simp only [body?_escaped, Option.map_some, hvalue]

theorem read_placeholder (n : Nat) (body : String) (rest : List Char) :
    Snippet.read ((placeholder n body).toList ++ rest) =
      .place n (escaped body.toList) :: Snippet.read rest := by
  have hplace := place?_toDigits n body.toList rest
  rw [toList_placeholder]
  simp only [List.cons_append, List.append_assoc, List.nil_append]
  exact Snippet.read_of_place? hplace

/-- **Places are read one after the other.** The induction is on the arguments; the number of the first
place goes up with each. -/
theorem read_places (args : List Argument) (first : Nat) (rest : List Char) :
    Snippet.read ((", ".intercalate
        (args.mapIdx fun i a => placeholder (i + first) a.render)).toList ++ rest) =
      [.char ',', .char ' '].intercalate
          ((args.map fun a => escaped a.render.toList).mapIdx fun i body => [.place (i + first) body]) ++
        Snippet.read rest := by
  rw [String.toList_intercalate]
  induction args generalizing first with
  | nil => rfl
  | cons a args ih =>
    have hnumber : ∀ i, i + 1 + first = i + (first + 1) := by omega
    simp only [List.map_cons, List.mapIdx_cons, hnumber, Nat.zero_add]
    cases args with
    | nil => simp [read_placeholder]
    | cons b args =>
      rw [List.intercalate_cons_of_ne_nil (by simp), List.append_assoc, List.append_assoc,
        read_placeholder, Snippet.read_append (by decide), ih,
        List.intercalate_cons_of_ne_nil (by simp)]
      simp

/-! ## Templates -/

theorem template_of_finish {s : State} {e : HelpEntry} (h : s.finish = some e) :
    e.template = template e.name e.kind e.args e.default := by
  obtain ⟨-, -, -, -, -, htemplate⟩ := finish_spec h
  exact htemplate

/-- **A template reads back as the signature.** For a function that is its name, an opening parenthesis,
the places `1`, `2` and so on with the texts of its arguments, divided by commas, and a closing
parenthesis; for a variable with a default its name, an equals sign and the place `0` with the default.
No place has another one inside. -/
theorem read_template {text : String} {e : HelpEntry} (he : e ∈ (parse text).1)
    (hname : ∀ c ∈ e.name.toList, c ≠ '$' ∧ c ≠ '\x7d' ∧ c ≠ '\\') :
    (e.kind = .function → ∃ bodies : List (List Char),
        bodies.map Text.unescape = e.args.map (fun a => a.render.toList) ∧
        (∀ body ∈ bodies, '$' ∉ Text.bare body) ∧
        Snippet.read e.template.toList = (e.name ++ "(").toList.map .char ++
          [.char ',', .char ' '].intercalate (bodies.mapIdx fun i body => [.place (i + 1) body]) ++
          [.char ')']) ∧
      ∀ value, e.kind = .value → e.default = some value → ∃ body : List Char,
        Text.unescape body = value.toList ∧ '$' ∉ Text.bare body ∧
        Snippet.read e.template.toList =
          (e.name ++ " = ").toList.map .char ++ [.place 0 body] := by
  obtain ⟨s, hs⟩ := (keyed_finish text).holds e he
  have hliteral : ∀ mark : String, (∀ c ∈ mark.toList, c ≠ '$' ∧ c ≠ '\\') →
      ∀ c ∈ (e.name ++ mark).toList, c ≠ '$' ∧ c ≠ '\\' := by
    intro mark hmark c hc
    rw [String.toList_append] at hc
    rcases List.mem_append.1 hc with hc | hc
    · exact ⟨(hname c hc).1, (hname c hc).2.2⟩
    · exact hmark c hc
  refine ⟨fun hkind => ?_, fun value hkind hvalue => ?_⟩
  · refine ⟨e.args.map fun a => escaped a.render.toList, ?_, ?_, ?_⟩
    · simp [unescape_escaped]
    · intro body hbody
      obtain ⟨a, -, rfl⟩ := List.mem_map.1 hbody
      exact dollar_not_mem_bare_escaped _
    · have hclose : Snippet.read [')'] = [.char ')'] := by
        rw [Snippet.read_cons (by decide) (by decide), Snippet.read_nil]
      have hplaces := read_places e.args 1 [')']
      rw [template_of_finish hs, hkind, template, String.append_assoc, String.toList_append,
        Snippet.read_append (hliteral "(" (by decide)), List.append_assoc, ← hclose, ← hplaces]
      simp only [String.toList_append]
      rfl
  · refine ⟨escaped value.toList, unescape_escaped _, dollar_not_mem_bare_escaped _, ?_⟩
    have hplace := read_placeholder 0 value []
    rw [List.append_nil, Snippet.read_nil] at hplace
    rw [template_of_finish hs, hkind, hvalue, template, String.toList_append,
      Snippet.read_append (hliteral " = " (by decide)), hplace]

/-- Dollar signs, braces and backslashes in the defaults, one of them at the end. -/
def awkwardIndex : String :=
  "Fmt$( s$=\"$\x7bx\x7d\", sep$=\"\\\", n%=1\\ )|Format|\nMark$=\"\x7d\\$\"|Mark|"

theorem read_awkwardIndex :
    ∃ fmt mark, (parse awkwardIndex).1 = [fmt, mark] ∧
      (∃ bodies : List (List Char),
        bodies.map Text.unescape = ["s:String = \"$\x7bx\x7d\"".toList, "sep:String = \"\\\"".toList,
          "n:Int = 1\\".toList] ∧
        (∀ body ∈ bodies, '$' ∉ Text.bare body) ∧
        Snippet.read fmt.template.toList = "Fmt(".toList.map .char ++
          [.char ',', .char ' '].intercalate (bodies.mapIdx fun i body => [.place (i + 1) body]) ++
          [.char ')']) ∧
      ∃ body : List Char, Text.unescape body = "\"\x7d\\$\"".toList ∧ '$' ∉ Text.bare body ∧
        Snippet.read mark.template.toList = "Mark = ".toList.map .char ++ [.place 0 body] := by
  have hparse : (parse awkwardIndex).1.map (fun e => (e.name, e.kind, e.default)) =
      [("Fmt", .function, none), ("Mark", .value, some "\"\x7d\\$\"")] := by
    decide +kernel
  have hargs : (parse awkwardIndex).1.head?.map (fun e => e.args.map fun a => a.render.toList) =
      some ["s:String = \"$\x7bx\x7d\"".toList, "sep:String = \"\\\"".toList, "n:Int = 1\\".toList] := by
    decide +kernel
  obtain ⟨fmt, behind, hentries, hfmt, hbehind⟩ := List.map_eq_cons_iff.1 hparse
  obtain ⟨mark, behind, rfl, hmark, hnil⟩ := List.map_eq_cons_iff.1 hbehind
  rw [List.map_eq_nil_iff] at hnil
  subst hnil
  simp only [Prod.mk.injEq] at hfmt hmark
  rw [hentries, List.head?_cons, Option.map_some, Option.some.injEq] at hargs
  refine ⟨fmt, mark, hentries, ?_, ?_⟩
  · have hmem : fmt ∈ (parse awkwardIndex).1 := by simp [hentries]
    obtain ⟨hfunction, -⟩ := read_template hmem (by rw [hfmt.1]; decide)
    obtain ⟨bodies, htexts, hdollar, hitems⟩ := hfunction hfmt.2.1
    exact ⟨bodies, htexts.trans hargs, hdollar, by rw [hitems, hfmt.1]; rfl⟩
  · have hmem : mark ∈ (parse awkwardIndex).1 := by simp [hentries]
    obtain ⟨-, hvariable⟩ := read_template hmem (by rw [hmark.1]; decide)
    obtain ⟨body, hvalue, hdollar, hitems⟩ := hvariable _ hmark.2.1 hmark.2.2
    exact ⟨body, hvalue, hdollar, by rw [hitems, hmark.1]; rfl⟩

end CommandIndex

end BlitzDoc
