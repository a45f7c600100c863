import BlitzDoc.Json.Printer
import BlitzDoc.Json.Reader
import Mathlib.Data.List.TakeWhile

/-!
# Reading what was written

The reader of JSON undoes its compact printer: `read?_compact`. The values are those without `number`
and `torn` in them (`isPlain`), which the printer writes as they are found and as null.

The proof follows the printer. Each kind of token is read back with any text behind it that cannot go
on with the token (`Ends`), and `reads_arr` and `reads_obj` put the values together that `Reads` holds
of. The budget of the reader is spent at most twice for every character.
-/

namespace BlitzDoc.Json

/-! ## Values that are written in full -/

mutual

/-- The value holds no number as it was written and no torn string. -/
def isPlain : Json → Bool
  | .number _ => false
  | .torn => false
  | .arr items => allPlain items
  | .obj members => membersPlain members
  | _ => true

/-- All of the items are plain. -/
def allPlain : List Json → Bool
  | [] => true
  | v :: rest => isPlain v && allPlain rest

/-- The values of all members are plain. -/
def membersPlain : List (String × Json) → Bool
  | [] => true
  | (_, v) :: rest => isPlain v && membersPlain rest

end

theorem isPlain_of_mem {items : List Json} (h : isPlain (.arr items) = true) {w : Json}
    (hw : w ∈ items) : isPlain w = true := by
  rw [isPlain] at h
  induction items with
  | nil => cases hw
  | cons v vs ih =>
    simp only [allPlain, Bool.and_eq_true] at h
    rcases List.mem_cons.1 hw with rfl | hw
    · exact h.1
    · exact ih h.2 hw

theorem isPlain_of_member {members : List (String × Json)} (h : isPlain (.obj members) = true)
    {name : String} {w : Json} (hw : (name, w) ∈ members) : isPlain w = true := by
  rw [isPlain] at h
  induction members with
  | nil => cases hw
  | cons m ms ih =>
    obtain ⟨n, v⟩ := m
    simp only [membersPlain, Bool.and_eq_true] at h
    rcases List.mem_cons.1 hw with hw | hw
    · cases hw
      exact h.1
    · exact ih h.2 hw

/-- What may follow a value. -/
def Ends (rest : List Char) : Prop :=
  ∀ c ∈ rest.head?, c = ',' ∨ c = ']' ∨ c = '\x7d'

theorem Ends.head {c : Char} {cs : List Char} (h : Ends (c :: cs)) : c = ',' ∨ c = ']' ∨ c = '\x7d' := by
  simpa [Ends] using h

theorem ends_cons {c : Char} (hc : c = ',' ∨ c = ']' ∨ c = '\x7d') (cs : List Char) : Ends (c :: cs) := by
  simpa [Ends] using hc

theorem skipBlanks_cons {c : Char} (hc : c ∉ [' ', '\n', '\t', '\r']) (cs : List Char) :
    skipBlanks (c :: cs) = c :: cs := by
  simp only [List.mem_cons, List.not_mem_nil, or_false, not_or] at hc
  simp [skipBlanks, hc]

/-! ## Strings -/

/-- The unit that a character is read back as. -/
def unitOf (c : Char) : StringUnit :=
  if c.toNat < 0x20 ∧ c ∉ ['\x08', '\x0c', '\n', '\r', '\t'] then .escaped c.toNat else .char c

theorem hex4?_control : ∀ n < 0x20, hex4? '0' '0' (hexDigit (n / 16)) (hexDigit (n % 16)) = some n := by
  decide

theorem stringUnits_plain {c : Char} (hlow : ¬c.toNat < 0x20) (hquote : c ≠ '"') (hslash : c ≠ '\\')
    (cs : List Char) :
    stringUnits (c :: cs) = (stringUnits cs).map fun r => (.char c :: r.1, r.2) := by
  rw [stringUnits.eq_5 _ _ hquote (fun _ _ _ _ _ h => absurd h hslash) (fun _ _ h => absurd h hslash)]
  simp only [hlow, if_false]
  cases stringUnits cs <;> rfl

theorem stringUnits_simple {e d : Char} (hd : simpleEscape? e = some d) (cs : List Char) :
    stringUnits ('\\' :: e :: cs) = (stringUnits cs).map fun r => (.char d :: r.1, r.2) := by
  have he : e ≠ 'u' := by
    rintro rfl
    simp [simpleEscape?] at hd
  rw [stringUnits.eq_4 _ _ (fun _ _ _ _ _ h => absurd h he), hd]
  cases stringUnits cs <;> rfl

/-- A character is read back from the way it is escaped. -/
theorem stringUnits_escapeChar (c : Char) (cs : List Char) :
    stringUnits (escapeChar c ++ cs) = (stringUnits cs).map fun r => (unitOf c :: r.1, r.2) := by
  unfold escapeChar
  split
  · exact stringUnits_simple rfl cs
  · exact stringUnits_simple rfl cs
  · exact stringUnits_simple rfl cs
  · exact stringUnits_simple rfl cs
  · exact stringUnits_simple rfl cs
  · exact stringUnits_simple rfl cs
  · exact stringUnits_simple rfl cs
  · rename_i hquote hslash h1 h2 h3 h4 h5
    split
    · rename_i hlow
      have hunit : unitOf c = .escaped c.toNat := by
        refine if_pos ⟨hlow, ?_⟩
        simp only [List.mem_cons, List.not_mem_nil, or_false, not_or]
        exact ⟨h1, h2, h3, h4, h5⟩
      rw [hunit]
      simp only [List.cons_append, List.nil_append, stringUnits, hex4?_control _ hlow]
      cases stringUnits cs <;> rfl
    · rename_i hlow
      have hunit : unitOf c = .char c := by simp [unitOf, hlow]
      rw [hunit]
      exact stringUnits_plain hlow hquote hslash cs

theorem stringUnits_quote (cs rest : List Char) :
    stringUnits (cs.flatMap escapeChar ++ '"' :: rest) = some (cs.map unitOf, rest) := by
  induction cs with
  | nil => rfl
  | cons c cs ih => simp [stringUnits_escapeChar, ih]

theorem unitsText_map_unitOf (cs : List Char) : unitsText (cs.map unitOf) = some cs := by
  induction cs with
  | nil => rfl
  | cons c cs ih =>
    rw [List.map_cons]
    by_cases hc : c.toNat < 0x20 ∧ c ∉ ['\x08', '\x0c', '\n', '\r', '\t']
    · have hunit : unitOf c = .escaped c.toNat := if_pos hc
      have hhigh : isHighHalf c.toNat = false := by simp [isHighHalf]; omega
      have hlow : isLowHalf c.toNat = false := by simp [isLowHalf]; omega
      -- what follows is no second half, whether it was escaped or not
      have hstep (us : List StringUnit) :
          unitsText (.escaped c.toNat :: us) = (unitsText us).map (c :: ·) := by
        cases us with
        | nil => simp [unitsText, hhigh, hlow, Char.ofNat_toNat]
        | cons u us => cases u <;> simp [unitsText, hhigh, hlow, Char.ofNat_toNat]
      rw [hunit, hstep, ih, Option.map_some]
    · have hunit : unitOf c = .char c := if_neg hc
      simp [hunit, unitsText, ih]

/-- A string is read back from behind its opening quote. -/
theorem stringBody_quote (s : String) (rest : List Char) :
    stringBody (s.toList.flatMap escapeChar ++ '"' :: rest) = some (some s, rest) := by
  simp [stringBody, stringUnits_quote, unitsText_map_unitOf]

theorem toList_quote (s : String) :
    (quote s).toList = '"' :: (s.toList.flatMap escapeChar ++ ['"']) := by
  simp [quote]

/-! ## Numbers -/

theorem head?_toDigits (n : Nat) (hn : 0 < n) : (Nat.toDigits 10 n).head? ≠ some '0' := by
  induction n using Nat.strongRecOn with
  | _ n ih =>
    rw [Nat.toDigits_eq_if (by decide)]
    by_cases hsmall : n < 10
    · have hdigits : ∀ k < 10, 0 < k → k.digitChar ≠ '0' := by decide
      simpa [hsmall] using hdigits n hsmall hn
    · have hne : Nat.toDigits 10 (n / 10) ≠ [] := Nat.toDigits_ne_nil
      have hhead := ih (n / 10) (by omega) (by omega)
      simp only [hsmall, if_false, List.head?_append]
      cases hdigits : (Nat.toDigits 10 (n / 10)) with
      | nil => exact absurd hdigits hne
      | cons d ds => simpa [hdigits] using hhead

theorem digits1?_append {ds rest : List Char} (hds : ∀ c ∈ ds, c.isDigit = true) (hne : ds ≠ [])
    (hrest : Ends rest) : digits1? (ds ++ rest) = some (ds, rest) := by
  have hstop : rest.takeWhile Char.isDigit = [] ∧ rest.dropWhile Char.isDigit = rest := by
    cases rest with
    | nil => exact ⟨rfl, rfl⟩
    | cons c cs =>
      have hdigit : c.isDigit = false := by rcases hrest.head with rfl | rfl | rfl <;> decide
      simp [hdigit]
  have htake : (ds ++ rest).takeWhile Char.isDigit = ds := by
    rw [List.takeWhile_append_of_pos hds, hstop.1, List.append_nil]
  have hdrop : (ds ++ rest).dropWhile Char.isDigit = rest := by
    rw [List.dropWhile_append_of_pos hds, hstop.2]
  unfold digits1?
  rw [htake, hdrop]
  cases ds with
  | nil => exact absurd rfl hne
  | cons d ds => rfl

theorem wholePart?_toDigits (n : Nat) {rest : List Char} (hrest : Ends rest) :
    wholePart? (Nat.toDigits 10 n ++ rest) = some (Nat.toDigits 10 n, rest) := by
  rcases Nat.eq_zero_or_pos n with rfl | hn
  · cases rest with
    | nil => rfl
    | cons c cs =>
      have hdigit : c.isDigit = false := by rcases hrest.head with rfl | rfl | rfl <;> decide
      simp [Nat.toDigits_zero, wholePart?, hdigit]
  · have hall : ∀ c ∈ Nat.toDigits 10 n, c.isDigit = true := fun c hc =>
      Nat.isDigit_of_mem_toDigits (by decide) (by decide) hc
    have hread := digits1?_append hall Nat.toDigits_ne_nil hrest
    have hhead := head?_toDigits n hn
    cases hdigits : Nat.toDigits 10 n with
    | nil => exact absurd hdigits Nat.toDigits_ne_nil
    | cons d ds =>
      rw [hdigits] at hread hhead
      have hd : d ≠ '0' := by simpa using hhead
      rw [← hread, List.cons_append, wholePart?.eq_def]
      split <;> simp_all

/-- A natural number is read back from its digits. -/
theorem numberBody?_toDigits (n : Nat) {rest : List Char} (hrest : Ends rest) :
    numberBody? (Nat.toDigits 10 n ++ rest) = some (.nat n, rest) := by
  have hvalue : Text.digitsValue (Nat.toDigits 10 n) = n := Nat.ofDigitChars_ten_toDigits
  have hwhole := wholePart?_toDigits n hrest
  have hfraction : fraction? rest = some ([], rest) := by
    cases rest with
    | nil => rfl
    | cons c cs => rcases hrest.head with rfl | rfl | rfl <;> rfl
  have hexponent : exponent? rest = some ([], rest) := by
    cases rest with
    | nil => rfl
    | cons c cs => rcases hrest.head with rfl | rfl | rfl <;> rfl
  cases hdigits : Nat.toDigits 10 n with
  | nil => exact absurd hdigits Nat.toDigits_ne_nil
  | cons d ds =>
    have hd : d ≠ '-' := by
      rintro rfl
      have hdigit : '-'.isDigit = true :=
        Nat.isDigit_of_mem_toDigits (b := 10) (n := n) (by decide) (by decide) (by simp [hdigits])
      revert hdigit
      decide
    rw [hdigits] at hvalue hwhole
    rw [List.cons_append] at hwhole ⊢
    unfold numberBody?
    split
    rename_i sign after hsign
    split at hsign
    · rename_i hminus
      exact absurd (List.cons.inj hminus).1 hd
    · cases hsign
      simp [hwhole, hfraction, hexponent, hvalue]

/-! ## Whole values -/

/-- The text of a value. -/
def chars (v : Json) : List Char :=
  v.compact.toList

/-- The text of items that follow each other. -/
def itemChars : Json → List Json → List Char
  | v, [] => chars v
  | v, w :: rest => chars v ++ ',' :: itemChars w rest

/-- The text of a member. -/
def memberText (name : String) (v : Json) : List Char :=
  (quote name).toList ++ ':' :: chars v

/-- The text of members that follow each other. -/
def memberChars : String → Json → List (String × Json) → List Char
  | name, v, [] => memberText name v
  | name, v, (n, w) :: rest => memberText name v ++ ',' :: memberChars n w rest

theorem chars_nat (n : Nat) : chars (.nat n) = Nat.toDigits 10 n := by
  simp [chars, compact]

theorem chars_str (s : String) : chars (.str s) = '"' :: (s.toList.flatMap escapeChar ++ ['"']) := by
  rw [chars, compact, toList_quote]

theorem chars_arr (v : Json) (rest : List Json) :
    chars (.arr (v :: rest)) = '[' :: (itemChars v rest ++ [']']) := by
  have hitems (v : Json) (rest : List Json) :
      [','].intercalate ((compactItems (v :: rest)).map String.toList) = itemChars v rest := by
    induction rest generalizing v with
    | nil => simp [compactItems, itemChars, chars]
    | cons w rest ih =>
      have hw := ih w
      simp only [compactItems, List.map_cons] at hw ⊢
      simp [itemChars, chars, ← hw]
  simp [chars, compact, String.toList_intercalate, ← hitems]

theorem chars_obj (name : String) (v : Json) (rest : List (String × Json)) :
    chars (.obj ((name, v) :: rest)) = '\x7b' :: (memberChars name v rest ++ ['\x7d']) := by
  have hmembers (name : String) (v : Json) (rest : List (String × Json)) :
      [','].intercalate ((compactMembers ((name, v) :: rest)).map String.toList) =
        memberChars name v rest := by
    induction rest generalizing name v with
    | nil => simp [compactMembers, memberChars, memberText, chars]
    | cons w rest ih =>
      have hw := ih w.1 w.2
      simp only [compactMembers, List.map_cons] at hw ⊢
      simp [memberChars, memberText, chars, ← hw]
  simp [chars, compact, String.toList_intercalate, ← hmembers]

/-- The first character of a value. -/
theorem exists_head {v : Json} (h : isPlain v = true) :
    ∃ c cs, chars v = c :: cs ∧ c ∉ [' ', '\n', '\t', '\r'] ∧ c ≠ ']' := by
  cases v with
  | number lexeme => simp [isPlain] at h
  | torn => simp [isPlain] at h
  | null => exact ⟨'n', _, rfl, by decide, by decide⟩
  | bool b =>
    cases b
    · exact ⟨'f', _, rfl, by decide, by decide⟩
    · exact ⟨'t', _, rfl, by decide, by decide⟩
  | nat n =>
    cases hdigits : Nat.toDigits 10 n with
    | nil => exact absurd hdigits Nat.toDigits_ne_nil
    | cons d ds =>
      have hdigit : d.isDigit = true :=
        Nat.isDigit_of_mem_toDigits (b := 10) (n := n) (by decide) (by decide) (by simp [hdigits])
      refine ⟨d, ds, (chars_nat n).trans hdigits, ?_, ?_⟩
      · intro hd
        simp only [List.mem_cons, List.not_mem_nil, or_false] at hd
        rcases hd with rfl | rfl | rfl | rfl <;> revert hdigit <;> decide
      · rintro rfl
        revert hdigit
        decide
  | str s => exact ⟨'"', _, chars_str s, by decide, by decide⟩
  | arr items =>
    refine ⟨'[', (",".intercalate (compactItems items)).toList ++ [']'], ?_, by decide, by decide⟩
    simp [chars, compact]
  | obj members =>
    refine ⟨'\x7b', (",".intercalate (compactMembers members)).toList ++ ['\x7d'], ?_, by decide,
      by decide⟩
    simp [chars, compact]

theorem ofMembers_map (members : List (String × Json)) :
    ofMembers (members.map fun m => (some m.1, m.2)) = .obj members := by
  have hnamed : (members.map fun m => (some m.1, m.2)).mapM
      (fun m : Option String × Json => m.1.map fun name => (name, m.2)) = some members := by
    induction members with
    | nil => rfl
    | cons m rest ih => simp [ih]
  rw [ofMembers, hnamed]

theorem exists_head_items {v : Json} (h : isPlain v = true) (rest : List Json) :
    ∃ c cs, itemChars v rest = c :: cs ∧ c ∉ [' ', '\n', '\t', '\r'] ∧ c ≠ ']' := by
  obtain ⟨c, cs, hchars, hc⟩ := exists_head h
  cases rest with
  | nil => exact ⟨c, cs, hchars, hc⟩
  | cons w rest => exact ⟨c, cs ++ ',' :: itemChars w rest, by simp [itemChars, hchars], hc⟩

theorem exists_head_members (name : String) (v : Json) (rest : List (String × Json)) :
    ∃ cs, memberChars name v rest = '"' :: cs := by
  cases rest with
  | nil => exact ⟨_, by rw [memberChars, memberText, toList_quote, List.cons_append]⟩
  | cons w rest =>
    exact ⟨_, by rw [memberChars, memberText, toList_quote, List.cons_append, List.cons_append]⟩

theorem value?_nat (n budget : Nat) {rest : List Char} (hrest : Ends rest) :
    value? (budget + 1) (chars (.nat n) ++ rest) = some (.nat n, rest) := by
  have hread := numberBody?_toDigits n hrest
  rw [chars_nat]
  cases hdigits : Nat.toDigits 10 n with
  | nil => exact absurd hdigits Nat.toDigits_ne_nil
  | cons d ds =>
    have hdigit : d.isDigit = true :=
      Nat.isDigit_of_mem_toDigits (b := 10) (n := n) (by decide) (by decide) (by simp [hdigits])
    rw [hdigits, List.cons_append] at hread
    have hblank : skipBlanks (d :: (ds ++ rest)) = d :: (ds ++ rest) := by
      apply skipBlanks_cons
      intro hd
      simp only [List.mem_cons, List.not_mem_nil, or_false] at hd
      rcases hd with rfl | rfl | rfl | rfl <;> revert hdigit <;> decide
    rw [List.cons_append, value?, hblank]
    split
    all_goals first
      | exact hread
      | (rename_i heq; cases heq; exact absurd hdigit (by decide))

/-- The value is read back from its text, whatever follows that cannot belong to it. -/
def Reads (v : Json) : Prop :=
  ∀ (budget : Nat) (rest : List Char), 2 * (chars v).length ≤ budget → Ends rest →
    value? budget (chars v ++ rest) = some (v, rest)

/-- Items are read back up to the closing bracket. -/
theorem items?_of_reads {v : Json} {vs : List Json} (h : ∀ w ∈ v :: vs, Reads w) (budget : Nat)
    (rest : List Char) (hbudget : 2 * (itemChars v vs).length < budget) :
    items? budget (itemChars v vs ++ ']' :: rest) = some (v :: vs, rest) := by
  induction vs generalizing v budget with
  | nil =>
    obtain ⟨budget, rfl⟩ : ∃ n, budget = n + 1 := ⟨budget - 1, by omega⟩
    simp only [itemChars] at hbudget ⊢
    have hvalue := h v (by simp) budget (']' :: rest) (by omega) (ends_cons (by simp) rest)
    rw [items?, hvalue]
    simp [skipBlanks_cons]
  | cons w vs ih =>
    obtain ⟨budget, rfl⟩ : ∃ n, budget = n + 1 := ⟨budget - 1, by omega⟩
    simp only [itemChars, List.length_append, List.length_cons] at hbudget
    have hvalue := h v (by simp) budget (',' :: (itemChars w vs ++ ']' :: rest)) (by omega)
      (ends_cons (by simp) _)
    have hitems := ih (fun u hu => h u (List.mem_cons_of_mem _ hu)) budget (by omega)
    rw [items?, itemChars, List.append_assoc, List.cons_append, hvalue]
    simp [skipBlanks_cons, hitems]

/-- Members are read back up to the closing brace. -/
theorem members?_of_reads {name : String} {v : Json} {ms : List (String × Json)}
    (h : ∀ m ∈ (name, v) :: ms, Reads m.2) (budget : Nat) (rest : List Char)
    (hbudget : 2 * (memberChars name v ms).length < budget) :
    members? budget (memberChars name v ms ++ '\x7d' :: rest) =
      some (((name, v) :: ms).map fun m => (some m.1, m.2), rest) := by
  induction ms generalizing name v budget with
  | nil =>
    obtain ⟨budget, rfl⟩ : ∃ n, budget = n + 1 := ⟨budget - 1, by omega⟩
    simp only [memberChars, memberText, List.length_append, List.length_cons] at hbudget
    have hvalue := h (name, v) (by simp) budget ('\x7d' :: rest) (by simp only; omega)
      (ends_cons (by simp) rest)
    have hname := stringBody_quote name (':' :: (chars v ++ '\x7d' :: rest))
    rw [members?, memberChars, memberText, toList_quote]
    simp [skipBlanks_cons, hname, hvalue]
  | cons m ms ih =>
    obtain ⟨budget, rfl⟩ : ∃ n, budget = n + 1 := ⟨budget - 1, by omega⟩
    simp only [memberChars, memberText, List.length_append, List.length_cons] at hbudget
    have hvalue := h (name, v) (by simp) budget (',' :: (memberChars m.1 m.2 ms ++ '\x7d' :: rest))
      (by simp only; omega) (ends_cons (by simp) _)
    have hmembers := ih (fun u hu => h u (List.mem_cons_of_mem _ hu)) budget (by omega)
    have hname := stringBody_quote name
      (':' :: (chars v ++ ',' :: (memberChars m.1 m.2 ms ++ '\x7d' :: rest)))
    rw [members?, memberChars, memberText, toList_quote]
    simp [skipBlanks_cons, hname, hvalue, hmembers]

theorem reads_arr {items : List Json} (hplain : isPlain (.arr items) = true)
    (h : ∀ w ∈ items, Reads w) : Reads (.arr items) := by
  intro budget rest hbudget _
  obtain ⟨budget, rfl⟩ : ∃ n, budget = n + 1 := by
    obtain ⟨c, cs, hchars, -⟩ := exists_head hplain
    exact ⟨budget - 1, by rw [hchars, List.length_cons] at hbudget; omega⟩
  cases items with
  | nil =>
    have hchars : chars (.arr []) = ['[', ']'] := by decide
    simp [hchars, value?, skipBlanks_cons]
  | cons v vs =>
    simp only [isPlain, allPlain, Bool.and_eq_true] at hplain
    simp only [chars_arr, List.length_cons, List.length_append, List.length_nil] at hbudget
    have hitems := items?_of_reads h budget rest (by omega)
    obtain ⟨c, cs, hhead, hblank, hclose⟩ := exists_head_items hplain.1 vs
    rw [chars_arr, List.cons_append, List.append_assoc, value?, skipBlanks_cons (by decide)]
    rw [hhead, List.cons_append] at hitems ⊢
    simp [skipBlanks_cons hblank, hclose, hitems]

theorem reads_obj {members : List (String × Json)} (hplain : isPlain (.obj members) = true)
    (h : ∀ m ∈ members, Reads m.2) : Reads (.obj members) := by
  intro budget rest hbudget _
  obtain ⟨budget, rfl⟩ : ∃ n, budget = n + 1 := by
    obtain ⟨c, cs, hchars, -⟩ := exists_head hplain
    exact ⟨budget - 1, by rw [hchars, List.length_cons] at hbudget; omega⟩
  cases members with
  | nil =>
    have hchars : chars (.obj []) = ['\x7b', '\x7d'] := by decide
    simp [hchars, value?, skipBlanks_cons]
  | cons m ms =>
    obtain ⟨name, v⟩ := m
    simp only [chars_obj, List.length_cons, List.length_append, List.length_nil] at hbudget
    have hmembers := members?_of_reads h budget rest (by omega)
    have hobject := ofMembers_map ((name, v) :: ms)
    obtain ⟨cs, hhead⟩ := exists_head_members name v ms
    rw [chars_obj, List.cons_append, List.append_assoc, value?, skipBlanks_cons (by decide)]
    rw [hhead, List.cons_append] at hmembers ⊢
    simp only [List.map_cons] at hobject
    simp [skipBlanks_cons, hmembers, hobject]

theorem reads_word {v : Json} {c : Char} {word : List Char} (hchars : chars v = c :: word)
    (hvalue : ∀ budget rest, value? (budget + 1) (c :: word ++ rest) = some (v, rest)) : Reads v := by
  intro budget rest hbudget _
  rw [hchars, List.length_cons] at hbudget
  obtain ⟨budget, rfl⟩ : ∃ n, budget = n + 1 := ⟨budget - 1, by omega⟩
  rw [hchars]
  exact hvalue budget rest

/-- **A value is read back from its text.** -/
theorem reads_of_isPlain : ∀ v : Json, isPlain v = true → Reads v
  | .number _, h => by simp [isPlain] at h
  | .torn, h => by simp [isPlain] at h
  | .null, _ => by
    have hchars : chars .null = ['n', 'u', 'l', 'l'] := by decide
    exact reads_word hchars fun _ _ => by simp [value?, skipBlanks_cons, afterWord?]
  | .bool true, _ => by
    have hchars : chars (.bool true) = ['t', 'r', 'u', 'e'] := by decide
    exact reads_word hchars fun _ _ => by simp [value?, skipBlanks_cons, afterWord?]
  | .bool false, _ => by
    have hchars : chars (.bool false) = ['f', 'a', 'l', 's', 'e'] := by decide
    exact reads_word hchars fun _ _ => by simp [value?, skipBlanks_cons, afterWord?]
  | .nat n, h => by
    intro budget rest hbudget hrest
    obtain ⟨c, cs, hchars, -⟩ := exists_head h
    obtain ⟨budget, rfl⟩ : ∃ n, budget = n + 1 := ⟨budget - 1, by
      rw [hchars, List.length_cons] at hbudget
      omega⟩
    exact value?_nat n budget hrest
  | .str s, _ => by
    refine reads_word (chars_str s) fun budget rest => ?_
    rw [List.cons_append, List.append_assoc, value?, skipBlanks_cons (by decide)]
    simp [stringBody_quote]
  | .arr items, h => reads_arr h fun w hw => by
    have hsize := List.sizeOf_lt_of_mem hw
    exact reads_of_isPlain w (isPlain_of_mem h hw)
  | .obj members, h => reads_obj h fun (name, w) hm => by
    have hw : sizeOf w < sizeOf members := by
      have hpair := List.sizeOf_lt_of_mem hm
      rw [Prod.mk.sizeOf_spec] at hpair
      omega
    exact reads_of_isPlain w (isPlain_of_member h hm)
termination_by v => sizeOf v

/-- **The reader undoes the compact printer.** -/
theorem read?_compact {v : Json} (h : isPlain v = true) : read? v.compact = some v := by
  have hends : Ends [] := by simp [Ends]
  have hvalue := reads_of_isPlain v h (2 * (chars v).length + 2) [] (by omega) hends
  rw [List.append_nil, chars] at hvalue
  simp only [read?, hvalue, Option.bind_eq_bind, Option.bind_some]
  rfl

end BlitzDoc.Json
