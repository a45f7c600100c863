import BlitzDoc.Proofs.Json.Records

/-!
# Texts that are cut short

The reader of JSON goes through a text from left to right, so what it has read stays read when the text
goes on (`Lasting`). Only a number at the very end of a text could go on with it. An array ends
with its bracket; so no text that an array was written as starts with another array
(`read?_ne_arr_of_prefix`), and a cache that was cut short does not decode (`Cache.read?_of_prefix`).

There is one lemma for each kind of token, and then one induction on the budget for values, items and
members together.
-/

namespace BlitzDoc.Json

section
variable {cs rest : List Char} (more : List Char)

theorem skipBlanks_more (h : skipBlanks cs ≠ []) :
    skipBlanks (cs ++ more) = skipBlanks cs ++ more := by
  unfold skipBlanks at h ⊢
  rw [List.dropWhile_append, if_neg (by simpa using h)]

/-! ## Strings -/

theorem stringUnits_more {units : List StringUnit} (h : stringUnits cs = some (units, rest)) :
    stringUnits (cs ++ more) = some (units, rest ++ more) := by
  fun_induction stringUnits cs generalizing units rest with
  | case1 => cases h
  | case2 rest' =>
    cases h
    rfl
  | case3 a b c d rest' ih =>
    simp only [Option.bind_eq_bind, Option.bind_eq_some_iff] at h
    obtain ⟨n, hn, ⟨units', after⟩, hread, h⟩ := h
    cases h
    simp [stringUnits, hn, ih hread]
  | case4 e rest' hu ih =>
    simp only [Option.bind_eq_bind, Option.bind_eq_some_iff] at h
    obtain ⟨c, hc, ⟨units', after⟩, hread, h⟩ := h
    cases h
    simp [stringUnits_simple hc, ih hread]
  | case5 => cases h
  | case6 =>
    rename_i c rest' hquote hnumber hescape _ hlow ih
    obtain ⟨⟨units', after⟩, hread, h⟩ := Option.bind_eq_some_iff.1 h
    cases h
    have hslash : c ≠ '\\' := by
      rintro rfl
      cases rest' with
      | nil => cases hread
      | cons e rest' => exact hescape e rest' rfl rfl
    rw [List.cons_append, stringUnits_plain hlow hquote hslash, ih hread]
    rfl

theorem stringBody_more {text : Option String} (h : stringBody cs = some (text, rest)) :
    stringBody (cs ++ more) = some (text, rest ++ more) := by
  simp only [stringBody, Option.bind_eq_bind, Option.bind_eq_some_iff] at h ⊢
  obtain ⟨⟨units, after⟩, hread, h⟩ := h
  cases h
  exact ⟨_, stringUnits_more more hread, rfl⟩

/-! ## Numbers

A number is known to have ended where something follows it that does not belong to it. -/

theorem digits1?_more {ds : List Char} (h : digits1? cs = some (ds, rest)) (hrest : rest ≠ []) :
    digits1? (cs ++ more) = some (ds, rest ++ more) := by
  unfold digits1? at h ⊢
  have hstop : cs.dropWhile Char.isDigit ≠ [] := by
    split at h
    · cases h
    · cases h
      exact hrest
  have hdigits : (cs ++ more).takeWhile Char.isDigit = cs.takeWhile Char.isDigit := by
    rw [List.takeWhile_append, if_neg]
    intro hlength
    apply hstop
    have hsplit := congrArg List.length (List.takeWhile_append_dropWhile (p := Char.isDigit) (l := cs))
    rw [List.length_append, hlength] at hsplit
    exact List.eq_nil_of_length_eq_zero (by omega)
  have hafter : (cs ++ more).dropWhile Char.isDigit = cs.dropWhile Char.isDigit ++ more := by
    rw [List.dropWhile_append, if_neg (by simpa using hstop)]
  rw [hdigits, hafter]
  split at h
  · cases h
  · cases h
    rfl

theorem wholePart?_more {ds : List Char} (h : wholePart? cs = some (ds, rest)) (hrest : rest ≠ []) :
    wholePart? (cs ++ more) = some (ds, rest ++ more) := by
  unfold wholePart? at h
  split at h
  · split at h
    · rename_i d _
      split at h
      · cases h
      · rename_i hdigit
        cases h
        simp [wholePart?, hdigit]
    · cases h
      exact absurd rfl hrest
  · rename_i hzero
    have hread := digits1?_more more h hrest
    cases cs with
    | nil => cases h
    | cons c cs =>
      have hc : c ≠ '0' := fun hc => hzero cs (by rw [hc])
      rw [List.cons_append] at hread ⊢
      unfold wholePart?
      split
      · rename_i heq
        exact absurd (List.cons.inj heq).1 hc
      · exact hread

theorem fraction?_more {ds : List Char} (h : fraction? cs = some (ds, rest)) (hrest : rest ≠ []) :
    fraction? (cs ++ more) = some (ds, rest ++ more) := by
  unfold fraction? at h
  split at h
  · obtain ⟨⟨digits, after⟩, hread, h⟩ := Option.map_eq_some_iff.1 h
    cases h
    simp [fraction?, digits1?_more more hread hrest]
  · rename_i hpoint
    cases h
    cases cs with
    | nil => exact absurd rfl hrest
    | cons c cs =>
      have hc : c ≠ '.' := fun hc => hpoint cs (by rw [hc])
      rw [List.cons_append]
      unfold fraction?
      split
      · rename_i heq
        exact absurd (List.cons.inj heq).1 hc
      · rfl

theorem exponent?_more {ds : List Char} (h : exponent? cs = some (ds, rest)) (hrest : rest ≠ []) :
    exponent? (cs ++ more) = some (ds, rest ++ more) := by
  have hdigits (mark : List Char) {cs : List Char}
      (hread : (digits1? cs).map (fun r => (mark ++ r.1, r.2)) = some (ds, rest)) :
      (digits1? (cs ++ more)).map (fun r => (mark ++ r.1, r.2)) = some (ds, rest ++ more) := by
    obtain ⟨⟨digits, after⟩, hdigits, heq⟩ := Option.map_eq_some_iff.1 hread
    cases heq
    rw [digits1?_more more hdigits hrest]
    rfl
  cases cs with
  | nil =>
    cases h
    exact absurd rfl hrest
  | cons e cs =>
    by_cases he : (e == 'e' || e == 'E') = true
    · simp only [exponent?, he, if_true, List.cons_append] at h ⊢
      split at h
      · exact hdigits [e, '+'] h
      · exact hdigits [e, '-'] h
      · rename_i hplus hminus
        cases cs with
        | nil => cases h
        | cons c cs =>
          have hplus' : c ≠ '+' := fun hc => hplus cs (by rw [hc])
          have hminus' : c ≠ '-' := fun hc => hminus cs (by rw [hc])
          rw [List.cons_append]
          split
          · rename_i heq
            exact absurd (List.cons.inj heq).1 hplus'
          · rename_i heq
            exact absurd (List.cons.inj heq).1 hminus'
          · exact hdigits [e] h
    · simp only [exponent?, he, List.cons_append] at h ⊢
      cases h
      rfl

/-- What a number goes on with behind its sign. -/
def unsigned? (sign cs : List Char) : Option (Json × List Char) := do
  let (whole, afterWhole) ← wholePart? cs
  let (frac, afterFrac) ← fraction? afterWhole
  let (exp, rest) ← exponent? afterFrac
  if sign.isEmpty && frac.isEmpty && exp.isEmpty then
    return (.nat (Text.digitsValue whole), rest)
  else
    return (.number (String.ofList (sign ++ whole ++ frac ++ exp)), rest)

theorem numberBody?_minus (cs : List Char) : numberBody? ('-' :: cs) = unsigned? ['-'] cs := rfl

theorem numberBody?_of_ne {c : Char} (hc : c ≠ '-') (cs : List Char) :
    numberBody? (c :: cs) = unsigned? [] (c :: cs) := by
  simp [numberBody?, unsigned?, hc]

theorem unsigned?_more {sign : List Char} {v : Json} (h : unsigned? sign cs = some (v, rest))
    (hrest : rest ≠ []) : unsigned? sign (cs ++ more) = some (v, rest ++ more) := by
  simp only [unsigned?, Option.bind_eq_bind, Option.bind_eq_some_iff] at h ⊢
  obtain ⟨⟨whole, afterWhole⟩, hwhole, ⟨frac, afterFrac⟩, hfrac, ⟨exp, after⟩, hexp, h⟩ := h
  obtain rfl : after = rest := by split at h <;> cases h <;> rfl
  -- where nothing is left, no later part reads anything either
  have hafterFrac : afterFrac ≠ [] := by
    rintro rfl
    cases hexp
    exact hrest rfl
  have hafterWhole : afterWhole ≠ [] := by
    rintro rfl
    cases hfrac
    exact hafterFrac rfl
  refine ⟨_, wholePart?_more more hwhole hafterWhole, _, fraction?_more more hfrac hafterFrac, _,
    exponent?_more more hexp hrest, ?_⟩
  split at h <;> cases h <;> simp_all

theorem numberBody?_more {v : Json} (h : numberBody? cs = some (v, rest)) (hrest : rest ≠ []) :
    numberBody? (cs ++ more) = some (v, rest ++ more) := by
  cases cs with
  | nil => cases h
  | cons c cs =>
    by_cases hsign : c = '-'
    · subst hsign
      rw [numberBody?_minus] at h
      rw [List.cons_append, numberBody?_minus]
      exact unsigned?_more more h hrest
    · rw [numberBody?_of_ne hsign] at h
      rw [List.cons_append, numberBody?_of_ne hsign]
      exact unsigned?_more more h hrest

theorem afterWord?_more {word : String} (h : afterWord? word cs = some rest) :
    afterWord? word (cs ++ more) = some (rest ++ more) := by
  unfold afterWord? at h ⊢
  split at h
  · rename_i hprefix
    cases h
    obtain ⟨after, rfl⟩ := List.isPrefixOf_iff_prefix.1 hprefix
    rw [if_pos (List.isPrefixOf_iff_prefix.2 ⟨after ++ more, by simp⟩)]
    simp
  · cases h

/-! ## Values -/

/-- With this budget, what is read stays read when the text goes on, and with more budget too. -/
structure Lasting (budget : Nat) : Prop where
  value : ∀ {cs rest : List Char} {v : Json} {budget' : Nat} (more : List Char), budget ≤ budget' →
    value? budget cs = some (v, rest) → (rest ≠ [] ∨ ∃ items, v = .arr items) →
    value? budget' (cs ++ more) = some (v, rest ++ more)
  items : ∀ {cs rest : List Char} {vs : List Json} {budget' : Nat} (more : List Char),
    budget ≤ budget' → items? budget cs = some (vs, rest) →
    items? budget' (cs ++ more) = some (vs, rest ++ more)
  members : ∀ {cs rest : List Char} {ms : List (Option String × Json)} {budget' : Nat}
    (more : List Char), budget ≤ budget' → members? budget cs = some (ms, rest) →
    members? budget' (cs ++ more) = some (ms, rest ++ more)

theorem skipBlanks_ne_nil_of_value? {budget : Nat} {r : Json × List Char}
    (h : value? budget cs = some r) : skipBlanks cs ≠ [] := by
  intro hnil
  cases budget with
  | zero => cases h
  | succ budget =>
    rw [value?, hnil] at h
    cases h

theorem skipBlanks_ne_nil_of_items? {budget : Nat} {r : List Json × List Char}
    (h : items? budget cs = some r) : skipBlanks cs ≠ [] := by
  cases budget with
  | zero => cases h
  | succ budget =>
    rw [items?] at h
    obtain ⟨_, hvalue, -⟩ := Option.bind_eq_some_iff.1 h
    exact skipBlanks_ne_nil_of_value? hvalue

theorem skipBlanks_ne_nil_of_members? {budget : Nat} {r : List (Option String × Json) × List Char}
    (h : members? budget cs = some r) : skipBlanks cs ≠ [] := by
  intro hnil
  cases budget with
  | zero => cases h
  | succ budget =>
    rw [members?, hnil] at h
    cases h

/-- What does not start with a mark does not start with it when it goes on. -/
theorem ne_cons_more {mark : Char} (hne : cs ≠ []) (hmark : ∀ after, cs ≠ mark :: after)
    (after : List Char) : cs ++ more ≠ mark :: after := by
  cases cs with
  | nil => exact absurd rfl hne
  | cons c cs =>
    intro heq
    obtain ⟨rfl, -⟩ := List.cons.inj heq
    exact hmark cs rfl

theorem numberBody?_ne_arr {items : List Json} : numberBody? cs ≠ some (.arr items, rest) := by
  have hunsigned (sign : List Char) {cs : List Char} :
      unsigned? sign cs ≠ some (.arr items, rest) := by
    intro h
    simp only [unsigned?, Option.bind_eq_bind, Option.bind_eq_some_iff] at h
    obtain ⟨_, -, _, -, _, -, h⟩ := h
    split at h <;> cases h
  intro h
  cases cs with
  | nil => cases h
  | cons c cs =>
    by_cases hsign : c = '-'
    · subst hsign
      exact hunsigned _ h
    · rw [numberBody?_of_ne hsign] at h
      exact hunsigned _ h

section
variable {budget budget' : Nat} (ih : Lasting budget) (hle : budget ≤ budget')

include ih hle in
theorem value?_succ_more {v : Json} (h : value? (budget + 1) cs = some (v, rest))
    (hends : rest ≠ [] ∨ ∃ items, v = .arr items) :
    value? (budget' + 1) (cs ++ more) = some (v, rest ++ more) := by
  have hstart := skipBlanks_ne_nil_of_value? h
  rw [value?] at h
  rw [value?, skipBlanks_more more hstart]
  split at h
  · rename_i inside heq
    obtain ⟨⟨text, after⟩, hread, h⟩ := Option.bind_eq_some_iff.1 h
    cases h
    simp [heq, stringBody_more more hread]
  · rename_i inside heq
    simp only [heq, List.cons_append]
    split at h
    · rename_i after hclose
      cases h
      have hne : skipBlanks inside ≠ [] := by simp [hclose]
      have hgoes := skipBlanks_more more hne
      simp [hgoes, hclose]
    · rename_i hopen
      obtain ⟨⟨items, after⟩, hread, h⟩ := Option.bind_eq_some_iff.1 h
      cases h
      have hne := skipBlanks_ne_nil_of_items? hread
      rw [skipBlanks_more more hne, ih.items more hle hread]
      split
      · rename_i heq'
        exact absurd heq' (ne_cons_more more hne hopen _)
      · rfl
  · rename_i inside heq
    simp only [heq, List.cons_append]
    split at h
    · rename_i after hclose
      cases h
      have hne : skipBlanks inside ≠ [] := by simp [hclose]
      have hgoes := skipBlanks_more more hne
      simp [hgoes, hclose]
    · rename_i hopen
      obtain ⟨⟨members, after⟩, hread, h⟩ := Option.bind_eq_some_iff.1 h
      cases h
      have hne := skipBlanks_ne_nil_of_members? hread
      rw [skipBlanks_more more hne, ih.members more hle hread]
      split
      · rename_i heq'
        exact absurd heq' (ne_cons_more more hne hopen _)
      · rfl
  · rename_i inside heq
    obtain ⟨after, hread, h⟩ := Option.map_eq_some_iff.1 h
    cases h
    simp [heq, afterWord?_more more hread]
  · rename_i inside heq
    obtain ⟨after, hread, h⟩ := Option.map_eq_some_iff.1 h
    cases h
    simp [heq, afterWord?_more more hread]
  · rename_i inside heq
    obtain ⟨after, hread, h⟩ := Option.map_eq_some_iff.1 h
    cases h
    simp [heq, afterWord?_more more hread]
  · rename_i hquote hbracket hbrace hn ht hf
    have hrest : rest ≠ [] := by
      rcases hends with hrest | ⟨items, rfl⟩
      · exact hrest
      · exact absurd h numberBody?_ne_arr
    have hread := numberBody?_more more h hrest
    split
    · rename_i heq
      exact absurd heq (ne_cons_more more hstart hquote _)
    · rename_i heq
      exact absurd heq (ne_cons_more more hstart hbracket _)
    · rename_i heq
      exact absurd heq (ne_cons_more more hstart hbrace _)
    · rename_i heq
      exact absurd heq (ne_cons_more more hstart hn _)
    · rename_i heq
      exact absurd heq (ne_cons_more more hstart ht _)
    · rename_i heq
      exact absurd heq (ne_cons_more more hstart hf _)
    · exact hread

include ih hle in
theorem items?_succ_more {vs : List Json} (h : items? (budget + 1) cs = some (vs, rest)) :
    items? (budget' + 1) (cs ++ more) = some (vs, rest ++ more) := by
  rw [items?] at h ⊢
  obtain ⟨⟨v, behind⟩, hvalue, h⟩ := Option.bind_eq_some_iff.1 h
  have hbehind : skipBlanks behind ≠ [] := by
    intro hnil
    simp only [hnil] at h
    cases h
  have hne : behind ≠ [] := by
    rintro rfl
    exact hbehind rfl
  simp only [ih.value more hle hvalue (.inl hne), Option.bind_eq_bind, Option.bind_some,
    skipBlanks_more more hbehind]
  simp only at h
  split at h
  · rename_i inside heq
    obtain ⟨⟨vs', after⟩, hread, h⟩ := Option.bind_eq_some_iff.1 h
    cases h
    simp [heq, ih.items more hle hread]
  · rename_i after heq
    cases h
    simp [heq]
  · cases h

include ih hle in
theorem members?_succ_more {ms : List (Option String × Json)}
    (h : members? (budget + 1) cs = some (ms, rest)) :
    members? (budget' + 1) (cs ++ more) = some (ms, rest ++ more) := by
  have hstart := skipBlanks_ne_nil_of_members? h
  rw [members?] at h ⊢
  rw [skipBlanks_more more hstart]
  split at h
  · rename_i inName hopen
    obtain ⟨⟨name, behindName⟩, hname, h⟩ := Option.bind_eq_some_iff.1 h
    simp only [hopen, List.cons_append, stringBody_more more hname, Option.bind_eq_bind,
      Option.bind_some]
    simp only at h
    split at h
    · rename_i afterColon hcolon
      obtain ⟨⟨v, behind⟩, hvalue, h⟩ := Option.bind_eq_some_iff.1 h
      have hbehind : skipBlanks behind ≠ [] := by
        intro hnil
        simp only [hnil] at h
        cases h
      have hne : behind ≠ [] := by
        rintro rfl
        exact hbehind rfl
      have hbehindName : skipBlanks behindName ≠ [] := by simp [hcolon]
      have hcolon' := skipBlanks_more more hbehindName
      simp only [hcolon', hcolon, List.cons_append, ih.value more hle hvalue (.inl hne),
        Option.bind_some, skipBlanks_more more hbehind]
      simp only at h
      split at h
      · rename_i inside heq
        obtain ⟨⟨ms', after⟩, hread, h⟩ := Option.bind_eq_some_iff.1 h
        cases h
        simp [heq, ih.members more hle hread]
      · rename_i after heq
        cases h
        simp [heq]
      · cases h
    · cases h
  · cases h

end

/-- **What is read stays read when the text goes on.** -/
theorem lasting (budget : Nat) : Lasting budget := by
  induction budget with
  | zero => constructor <;> (intros; contradiction)
  | succ budget ih =>
    constructor
    · intro cs rest v budget' more hle h hends
      obtain ⟨budget', rfl⟩ : ∃ n, budget' = n + 1 := ⟨budget' - 1, by omega⟩
      exact value?_succ_more more ih (by omega) h hends
    · intro cs rest vs budget' more hle h
      obtain ⟨budget', rfl⟩ : ∃ n, budget' = n + 1 := ⟨budget' - 1, by omega⟩
      exact items?_succ_more more ih (by omega) h
    · intro cs rest ms budget' more hle h
      obtain ⟨budget', rfl⟩ : ∃ n, budget' = n + 1 := ⟨budget' - 1, by omega⟩
      exact members?_succ_more more ih (by omega) h

end

/-! ## Arrays -/

/-- **No array starts with another one.** What comes before the end of a written array is not read as an
array. -/
theorem read?_ne_arr_of_prefix {v : Json} (hplain : isPlain v = true) {s : String} {more : List Char}
    (hmore : more ≠ []) (htext : v.compact.toList = s.toList ++ more) (items : List Json) :
    read? s ≠ some (.arr items) := by
  intro h
  simp only [read?, Option.bind_eq_bind, Option.bind_eq_some_iff] at h
  obtain ⟨⟨w, rest⟩, hvalue, h⟩ := h
  obtain rfl : w = .arr items := by
    split at h
    · exact Option.some.inj h
    · cases h
  -- the whole text is read to its end, and the array would leave some of it
  have hlength : 2 * s.toList.length + 2 ≤ 2 * (chars v).length + 2 := by
    rw [chars, htext, List.length_append]
    omega
  have hpart := (lasting _).value more hlength hvalue (.inr ⟨items, rfl⟩)
  have hwhole := reads_of_isPlain v hplain (2 * (chars v).length + 2) [] (by omega) (by simp [Ends])
  rw [List.append_nil] at hwhole
  rw [← htext, ← chars, hwhole] at hpart
  simp only [Option.some.injEq, Prod.mk.injEq] at hpart
  exact hmore (List.append_eq_nil_iff.1 hpart.2.symm).2

end BlitzDoc.Json

namespace BlitzDoc.Cache

/-- **A cache that was cut short does not decode.** -/
theorem read?_of_prefix {entries : List (String × Module)} {s : String} {more : List Char}
    (hmore : more ≠ []) (htext : (toJson entries).compact.toList = s.toList ++ more) :
    (Json.read? s).bind ofJson? = none := by
  cases hread : Json.read? s with
  | none => rfl
  | some v =>
    cases v with
    | arr items =>
      exact absurd hread (Json.read?_ne_arr_of_prefix (isPlain_toJson entries) hmore htext items)
    | _ => rfl

end BlitzDoc.Cache
