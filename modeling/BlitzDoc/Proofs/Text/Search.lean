import BlitzDoc.Text.Cut
import Mathlib.Data.List.Infix

/-!
# Passing over a text

Searches and replacements go through a text from the left and do nothing until they come to a place
where their pattern stands. `Avoids` says of a stretch of text that no such place is in it, whatever
follows; so a search passes over it (`cutAt?_append`), and a replacement leaves it alone
(`replaceMatches_append`). A stretch avoids a pattern if the first character of the pattern does not
occur in it (`avoids_of_head`) or, for a given text, if none of its ends agrees with the pattern as far
as both go, which can be computed (`avoids_of_isFree`).
-/

namespace BlitzDoc.Text

/-! ## Stretches without a match -/

/-- Inside the text there is no place where `here` holds, whatever comes behind the text. -/
def Avoids (here : List Char → Bool) (x : List Char) : Prop :=
  ∀ t, t <:+ x → t ≠ [] → ∀ rest, here (t ++ rest) = false

theorem avoids_nil (here : List Char → Bool) : Avoids here [] := by
  intro t ht hne
  exact absurd (List.suffix_nil.1 ht) hne

theorem avoids_cons {here : List Char → Bool} {c : Char} {x : List Char} :
    Avoids here (c :: x) ↔ (∀ rest, here (c :: (x ++ rest)) = false) ∧ Avoids here x := by
  constructor
  · intro h
    refine ⟨fun rest => h (c :: x) List.suffix_rfl (List.cons_ne_nil c x) rest, ?_⟩
    intro t ht
    exact h t (ht.trans (List.suffix_cons c x))
  · rintro ⟨hhead, htail⟩ t ht hne rest
    rcases List.suffix_cons_iff.1 ht with rfl | ht
    · exact hhead rest
    · exact htail t ht hne rest

theorem Avoids.suffix {here : List Char → Bool} {x y : List Char} (h : Avoids here x) (hy : y <:+ x) :
    Avoids here y :=
  fun t ht => h t (ht.trans hy)

theorem Avoids.append {here : List Char → Bool} {x y : List Char} (hx : Avoids here x)
    (hy : Avoids here y) : Avoids here (x ++ y) := by
  induction x with
  | nil => exact hy
  | cons c x ih =>
    obtain ⟨hhead, htail⟩ := avoids_cons.1 hx
    rw [List.cons_append, avoids_cons]
    refine ⟨fun rest => ?_, ih htail⟩
    rw [List.append_assoc]
    exact hhead (y ++ rest)

theorem avoids_flatMap {α : Type} {here : List Char → Bool} {f : α → List Char} {as : List α}
    (h : ∀ a ∈ as, Avoids here (f a)) : Avoids here (as.flatMap f) := by
  induction as with
  | nil => exact avoids_nil here
  | cons a as ih =>
    simp only [List.forall_mem_cons] at h
    exact (h.1).append (ih h.2)

/-! ## Patterns -/

/-- Neither of the two texts begins with the other. -/
def isApart (x y : List Char) : Bool :=
  !x.isPrefixOf y && !y.isPrefixOf x

theorem isPrefixOf_append_eq_false {pattern x : List Char} (h : isApart pattern x = true)
    (rest : List Char) : pattern.isPrefixOf (x ++ rest) = false := by
  simp only [isApart, Bool.and_eq_true, Bool.not_eq_true'] at h
  rw [Bool.eq_false_iff]
  intro hbegins
  rw [List.isPrefixOf_iff_prefix] at hbegins
  rcases List.prefix_or_prefix_of_prefix hbegins (List.prefix_append x rest) with hle | hle
  · rw [← List.isPrefixOf_iff_prefix, h.1] at hle
    cases hle
  · rw [← List.isPrefixOf_iff_prefix, h.2] at hle
    cases hle

/-- All ends of the text are apart from the pattern. -/
def isFree (pattern x : List Char) : Bool :=
  x.tails.all fun t => t.isEmpty || isApart pattern t

theorem avoids_of_isFree {pattern x : List Char} (h : isFree pattern x = true) :
    Avoids pattern.isPrefixOf x := by
  intro t ht hne rest
  have hend := List.all_eq_true.1 h t ((List.mem_tails t x).2 ht)
  have hempty : t.isEmpty = false := by simpa using hne
  rw [hempty, Bool.false_or] at hend
  exact isPrefixOf_append_eq_false hend rest

/-- A text avoids what begins with none of its characters. -/
theorem avoids_of_forall {here : List Char → Bool} {x : List Char}
    (h : ∀ c ∈ x, ∀ rest, here (c :: rest) = false) : Avoids here x := by
  induction x with
  | nil => exact avoids_nil here
  | cons c x ih =>
    simp only [List.forall_mem_cons] at h
    exact avoids_cons.2 ⟨fun rest => h.1 _, ih h.2⟩

theorem avoids_of_head {pattern x : List Char} {p : Char} (hp : pattern.head? = some p) (h : p ∉ x) :
    Avoids pattern.isPrefixOf x := by
  obtain ⟨rest, rfl⟩ := List.head?_eq_some_iff.1 hp
  refine avoids_of_forall fun c hc behind => ?_
  have hne : p ≠ c := by
    rintro rfl
    exact h hc
  simp [List.isPrefixOf, hne]

/-- Where two texts begin alike, so do their runs of characters of one kind. -/
theorem prefix_run {p : Char → Bool} {v w x y : List Char} {c d : Char} (hv : ∀ a ∈ v, p a = true)
    (hw : ∀ a ∈ w, p a = true) (hc : p c = false) (hd : p d = false)
    (h : v ++ c :: x <+: w ++ d :: y) : v = w ∧ c = d ∧ x <+: y := by
  induction v generalizing w with
  | nil =>
    cases w with
    | nil => exact ⟨rfl, List.cons_prefix_cons.1 h⟩
    | cons b w =>
      have hb := hw b List.mem_cons_self
      rw [← (List.cons_prefix_cons.1 h).1, hc] at hb
      cases hb
  | cons a v ih =>
    simp only [List.forall_mem_cons] at hv
    cases w with
    | nil =>
      have ha := hv.1
      rw [(List.cons_prefix_cons.1 h).1, hd] at ha
      cases ha
    | cons b w =>
      simp only [List.forall_mem_cons] at hw
      obtain ⟨rfl, hrest⟩ := List.cons_prefix_cons.1 h
      obtain ⟨rfl, hmark, hbehind⟩ := ih hv.2 hw.2 hrest
      exact ⟨rfl, hmark, hbehind⟩

/-- What begins with `v` and a mark, in a text whose first mark stands behind `w`, begins with `w`. -/
theorem eq_of_prefix_mark {mark : Char} {v w rest : List Char} (hv : mark ∉ v) (hw : mark ∉ w)
    (h : v ++ [mark] <+: w ++ mark :: rest) : v = w := by
  have hne {x : List Char} (hx : mark ∉ x) : ∀ a ∈ x, (a != mark) = true := by
    intro a ha
    rw [bne_iff_ne]
    rintro rfl
    exact hx ha
  exact (prefix_run (p := (· != mark)) (hne hv) (hne hw) (by simp) (by simp) h).1

/-- What has no mark in it and stands at the front of a text ends before the first mark. -/
theorem prefix_of_prefix_mark {mark : Char} {v w rest : List Char} (hv : mark ∉ v)
    (h : v <+: w ++ mark :: rest) : v <+: w := by
  have hmarked : w ++ [mark] <+: w ++ mark :: rest := ⟨rest, by simp⟩
  rcases List.prefix_or_prefix_of_prefix h hmarked with hle | hle
  · rcases List.prefix_concat_iff.1 hle with rfl | hle
    · simp at hv
    · exact hle
  · exact absurd (hle.subset (by simp)) hv

/-- A text avoids a pattern that does not occur in it, up to a mark that is not in the pattern. -/
theorem avoids_of_not_infix {mark : Char} {pattern x : List Char} (hmark : mark ∉ pattern)
    (h : ¬ pattern <:+: x) : Avoids pattern.isPrefixOf (x ++ [mark]) := by
  intro t ht hne rest
  rcases List.suffix_concat_iff.1 ht with rfl | ⟨t, rfl, hsuffix⟩
  · exact absurd rfl hne
  rw [Bool.eq_false_iff]
  intro hbegins
  rw [List.isPrefixOf_iff_prefix, List.append_assoc, List.singleton_append] at hbegins
  exact h ((prefix_of_prefix_mark hmark hbegins).isInfix.trans hsuffix.isInfix)

/-! ## Searching -/

theorem cutAt?_append {here : List Char → Bool} {x : List Char} (h : Avoids here x)
    (rest : List Char) :
    cutAt? here (x ++ rest) = (cutAt? here rest).map fun cut => (x ++ cut.1, cut.2) := by
  induction x with
  | nil => simp
  | cons c x ih =>
    obtain ⟨hhead, htail⟩ := avoids_cons.1 h
    rw [List.cons_append, cutAt?, hhead, ih htail]
    simp [Option.map_map, Function.comp_def]

theorem cutAt?_of_here {here : List Char → Bool} {rest : List Char} (h : here rest = true) :
    cutAt? here rest = some ([], rest) := by
  cases rest with
  | nil => simp [cutAt?, h]
  | cons c rest => simp [cutAt?, h]

/-- A search ends behind what it passes over. -/
theorem cutAt?_of_avoids {here : List Char → Bool} {x rest : List Char} (hx : Avoids here x)
    (hrest : here rest = true) : cutAt? here (x ++ rest) = some (x, rest) := by
  rw [cutAt?_append hx, cutAt?_of_here hrest]
  simp

theorem cutAt?_eq_none {here : List Char → Bool} {x : List Char} (hx : Avoids here x)
    (hend : here [] = false) : cutAt? here x = none := by
  have hcut := cutAt?_append hx []
  rw [List.append_nil] at hcut
  rw [hcut, cutAt?, hend]
  rfl

section
variable {pattern x : List Char} (hx : Avoids pattern.isPrefixOf x)
include hx

theorem from?_append (rest : List Char) : from? pattern (x ++ rest) = from? pattern rest := by
  simp [from?, cutAt?_append hx, Function.comp_def]

theorem from?_of_avoids (rest : List Char) :
    from? pattern (x ++ (pattern ++ rest)) = some (pattern ++ rest) := by
  rw [from?, cutAt?_of_avoids hx (by simp)]
  rfl

theorem before?_of_avoids (rest : List Char) : before? pattern (x ++ (pattern ++ rest)) = some x := by
  rw [before?, cutAt?_of_avoids hx (by simp)]
  rfl

theorem after?_append (rest : List Char) : after? pattern (x ++ rest) = after? pattern rest := by
  rw [after?, after?, from?_append hx]

theorem after?_of_avoids (rest : List Char) :
    after? pattern (x ++ (pattern ++ rest)) = some rest := by
  rw [after?, from?_of_avoids hx]
  simp

theorem from?_eq_none (hne : pattern ≠ []) : from? pattern x = none := by
  have hend : pattern.isPrefixOf [] = false := by
    cases pattern with
    | nil => exact absurd rfl hne
    | cons => rfl
  rw [from?, cutAt?_eq_none hx hend]
  rfl

end

theorem suffix_of_from? {pattern x y : List Char} (h : from? pattern x = some y) : y <:+ x := by
  induction x with
  | nil =>
    simp only [from?, cutAt?] at h
    split at h
    · simp_all
    · cases h
  | cons c x ih =>
    simp only [from?, cutAt?] at h
    split at h
    · simp_all
    · refine (ih ?_).trans (List.suffix_cons c x)
      simpa [from?, Function.comp_def] using h

theorem suffix_of_after? {pattern x y : List Char} (h : after? pattern x = some y) : y <:+ x := by
  obtain ⟨z, hz, rfl⟩ := Option.map_eq_some_iff.1 h
  exact (List.drop_suffix _ z).trans (suffix_of_from? hz)

/-- Behind a first pattern there is no more to find than in the whole text. -/
theorem bind_from?_eq_none {found : List Char → Option (List Char)} {second x : List Char}
    (hx : Avoids second.isPrefixOf x) (hne : second ≠ []) (hfound : ∀ y, found x = some y → y <:+ x) :
    (found x).bind (from? second) = none := by
  cases hy : found x with
  | none => rfl
  | some y => exact from?_eq_none (hx.suffix (hfound y hy)) hne

/-- A pattern is found in the part of a text that it occurs in. -/
theorem exists_from?_append {pattern x : List Char} (h : pattern <:+: x) (rest : List Char) :
    ∃ y, y <:+ x ∧ from? pattern (x ++ rest) = some (y ++ rest) := by
  induction x with
  | nil =>
    obtain rfl := List.infix_nil.1 h
    refine ⟨[], List.suffix_rfl, ?_⟩
    rw [from?, cutAt?_of_here (by simp)]
    rfl
  | cons c x ih =>
    by_cases hhere : pattern.isPrefixOf (c :: x ++ rest) = true
    · refine ⟨c :: x, List.suffix_rfl, ?_⟩
      rw [from?, cutAt?_of_here hhere]
      rfl
    · have hinfix : pattern <:+: x := by
        rcases List.infix_cons_iff.1 h with hbegins | hinfix
        · refine absurd (List.isPrefixOf_iff_prefix.2 ?_) hhere
          exact hbegins.trans (List.prefix_append _ rest)
        · exact hinfix
      obtain ⟨y, hy, hfrom⟩ := ih hinfix
      refine ⟨y, hy.trans (List.suffix_cons c x), ?_⟩
      rw [from?, List.cons_append, cutAt?, if_neg (by simpa using hhere), ← hfrom]
      simp [from?, Function.comp_def]

/-- A second pattern is found behind the part of a text that the first occurs in, as long as this part
avoids it. -/
theorem from?_bind_from? {first second x rest : List Char} (hfirst : first <:+: x)
    (hsecond : Avoids second.isPrefixOf x) :
    (from? first (x ++ (second ++ rest))).bind (from? second) = some (second ++ rest) := by
  obtain ⟨y, hy, hfrom⟩ := exists_from?_append hfirst (second ++ rest)
  rw [hfrom, Option.bind_some, from?_of_avoids (hsecond.suffix hy)]

/-! ## Replacing -/

theorem replaceMatches_append {matched : List Char → Option Nat} {x : List Char}
    (h : Avoids (fun t => (matched t).isSome) x) (new rest : List Char) :
    replaceMatches matched new 0 (x ++ rest) = x ++ replaceMatches matched new 0 rest := by
  induction x with
  | nil => rfl
  | cons c x ih =>
    obtain ⟨hhead, htail⟩ := avoids_cons.1 h
    have hnone : matched (c :: (x ++ rest)) = none := by simpa using hhead rest
    rw [List.cons_append, replaceMatches, hnone, ih htail]
    rfl

/-- The rest of a match is passed over. -/
theorem replaceMatches_skip (matched : List Char → Option Nat) (new x rest : List Char) :
    replaceMatches matched new x.length (x ++ rest) = replaceMatches matched new 0 rest := by
  induction x with
  | nil => rfl
  | cons c x ih =>
    rw [List.length_cons, List.cons_append, replaceMatches]
    exact ih

theorem replaceMatches_of_avoids {matched : List Char → Option Nat} {x : List Char}
    (h : Avoids (fun t => (matched t).isSome) x) (new : List Char) :
    replaceMatches matched new 0 x = x := by
  have happend := replaceMatches_append h new []
  rwa [List.append_nil, replaceMatches, List.append_nil] at happend

theorem replaceAll_append {pattern x : List Char} (h : Avoids pattern.isPrefixOf x)
    (new rest : List Char) :
    replaceAll pattern new (x ++ rest) = x ++ replaceAll pattern new rest := by
  refine replaceMatches_append (fun t ht hne rest => ?_) new rest
  simp [h t ht hne rest]

theorem replaceAll_pattern {pattern : List Char} (hne : pattern ≠ []) (new rest : List Char) :
    replaceAll pattern new (pattern ++ rest) = new ++ replaceAll pattern new rest := by
  cases pattern with
  | nil => exact absurd rfl hne
  | cons c pattern =>
    have hhere : (c :: pattern).isPrefixOf (c :: (pattern ++ rest)) = true := by simp
    have hskip := replaceMatches_skip
      (fun t => if (c :: pattern).isPrefixOf t then some (c :: pattern).length else none) new pattern rest
    rw [replaceAll, List.cons_append, replaceMatches, hhere, if_pos rfl]
    exact congrArg (new ++ ·) hskip

/-- A single character is replaced wherever it stands. -/
theorem replaceAll_singleton (p : Char) (new x : List Char) :
    replaceAll [p] new x = x.flatMap fun c => if c = p then new else [c] := by
  induction x with
  | nil => rfl
  | cons c x ih =>
    rw [List.flatMap_cons, ← ih]
    by_cases hc : c = p
    · rw [if_pos hc, hc]
      exact replaceAll_pattern (List.cons_ne_nil p []) new x
    · have hmem : p ∉ [c] := fun h => hc (List.mem_singleton.1 h).symm
      rw [if_neg hc]
      exact replaceAll_append (avoids_of_head rfl hmem) new x

end BlitzDoc.Text
