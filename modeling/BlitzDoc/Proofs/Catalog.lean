import BlitzDoc.Catalog
import Mathlib.Data.List.Sort

/-!
# Catalogs as maps

A catalog whose keys are in increasing order is known by its look-ups: `ext`. Every operation keeps
the order and is told by what it does to look-ups (`find?_insert`, `find?_erase`, `find?_filter`,
`find?_mapValues`).
-/

namespace BlitzDoc.Catalog

variable {α β : Type}

/-- The keys are in increasing order. -/
def Ordered (c : Catalog α) : Prop :=
  c.Pairwise fun a b => a.1 < b.1

/-! ## Look-ups -/

theorem find?_cons (k : String) (v : α) (c : Catalog α) (key : String) :
    find? ((k, v) :: c) key = if key = k then some v else find? c key := by
  rw [find?, List.lookup_cons]
  by_cases h : key = k
  · simp [h]
  · have hne : (key == k) = false := beq_eq_false_iff_ne.2 h
    simp [h, hne, find?]

theorem mem_of_find? {c : Catalog α} {key : String} {v : α} (h : c.find? key = some v) :
    (key, v) ∈ c := by
  induction c with
  | nil => cases h
  | cons e c ih =>
    obtain ⟨k, w⟩ := e
    rw [find?_cons] at h
    split at h
    · rename_i hkey
      cases h
      exact hkey ▸ List.mem_cons_self
    · exact List.mem_cons_of_mem _ (ih h)

theorem find?_insert (c : Catalog α) (k : String) (v : α) (key : String) :
    (insert k v c).find? key = if key = k then some v else c.find? key := by
  induction c with
  | nil => rw [insert, find?_cons]
  | cons e c ih =>
    obtain ⟨k', v'⟩ := e
    rw [insert]
    split
    · rw [find?_cons]
    · split
      · rename_i h
        subst h
        rw [find?_cons, find?_cons]
        split <;> rfl
      · rename_i h
        rw [find?_cons, ih, find?_cons]
        by_cases hkey : key = k'
        · simp [hkey, Ne.symm h]
        · simp [hkey]

theorem find?_filter (c : Catalog α) (p : String → Bool) (key : String) :
    find? (c.filter fun e => p e.1) key = if p key then c.find? key else none := by
  induction c with
  | nil => simp [find?]
  | cons e c ih =>
    obtain ⟨k, v⟩ := e
    rw [List.filter_cons]
    by_cases hp : p k = true
    · rw [if_pos hp, find?_cons, ih, find?_cons]
      by_cases hkey : key = k
      · simp [hkey, hp]
      · simp [hkey]
    · rw [if_neg hp, ih, find?_cons]
      by_cases hkey : key = k
      · simp [hkey, hp]
      · simp [hkey]

theorem find?_erase (c : Catalog α) (k key : String) :
    (c.erase k).find? key = if key = k then none else c.find? key := by
  have hfilter := find?_filter c (fun s => s != k) key
  rw [erase, hfilter]
  by_cases h : key = k <;> simp [h]

/-- The catalog with every value changed. -/
def mapValues (f : α → β) (c : Catalog α) : Catalog β :=
  c.map fun e => (e.1, f e.2)

theorem find?_mapValues (f : α → β) (c : Catalog α) (key : String) :
    (mapValues f c).find? key = (c.find? key).map f := by
  induction c with
  | nil => rfl
  | cons e c ih =>
    obtain ⟨k, v⟩ := e
    have hcons : mapValues f ((k, v) :: c) = (k, f v) :: mapValues f c := rfl
    rw [hcons, find?_cons, ih, find?_cons]
    split <;> rfl

/-! ## Order -/

theorem ordered_nil : Ordered ([] : Catalog α) :=
  List.Pairwise.nil

theorem ordered_filter {c : Catalog α} (h : Ordered c) (p : String × α → Bool) :
    Ordered (c.filter p) :=
  List.Pairwise.filter p h

theorem ordered_mapValues {c : Catalog α} (h : Ordered c) (f : α → β) : Ordered (mapValues f c) :=
  List.Pairwise.map _ (fun _ _ hlt => hlt) h

theorem mem_insert {c : Catalog α} {k : String} {v : α} {e : String × α} (h : e ∈ insert k v c) :
    e = (k, v) ∨ e ∈ c := by
  induction c with
  | nil => simpa [insert] using h
  | cons d c ih =>
    obtain ⟨k', v'⟩ := d
    rw [insert] at h
    split at h
    · simpa using h
    · split at h
      · rcases List.mem_cons.1 h with h | h
        · exact .inl h
        · exact .inr (List.mem_cons_of_mem _ h)
      · rcases List.mem_cons.1 h with h | h
        · exact .inr (h ▸ List.mem_cons_self)
        · exact (ih h).imp_right (List.mem_cons_of_mem _)

theorem ordered_insert {c : Catalog α} (h : Ordered c) (k : String) (v : α) :
    Ordered (insert k v c) := by
  induction c with
  | nil => exact List.pairwise_singleton _ _
  | cons d c ih =>
    obtain ⟨k', v'⟩ := d
    obtain ⟨hhead, htail⟩ := List.pairwise_cons.1 h
    rw [insert]
    split
    · rename_i hlt
      refine List.pairwise_cons.2 ⟨fun e he => ?_, h⟩
      rcases List.mem_cons.1 he with rfl | he
      · exact hlt
      · exact String.lt_trans hlt (hhead e he)
    · rename_i hnot
      split
      · rename_i heq
        subst heq
        exact List.pairwise_cons.2 ⟨hhead, htail⟩
      · rename_i hne
        have hlt : k' < k := by
          by_contra hnlt
          exact hne (String.le_antisymm (String.not_lt.1 hnlt) (String.not_lt.1 hnot))
        refine List.pairwise_cons.2 ⟨fun e he => ?_, ih htail⟩
        rcases mem_insert he with rfl | he
        · exact hlt
        · exact hhead e he

theorem ordered_ofList (entries : List (String × α)) : Ordered (ofList entries) := by
  have hfold : ∀ c : Catalog α, Ordered c →
      Ordered (entries.foldl (fun c e => insert e.1 e.2 c) c) := by
    induction entries with
    | nil => exact fun c hc => hc
    | cons e entries ih => exact fun c hc => ih _ (ordered_insert hc _ _)
  exact hfold [] ordered_nil

theorem mem_of_mem_ofList {entries : List (String × α)} {e : String × α} (h : e ∈ ofList entries) :
    e ∈ entries := by
  have hfold : ∀ c : Catalog α, e ∈ entries.foldl (fun c e => insert e.1 e.2 c) c →
      e ∈ c ∨ e ∈ entries := by
    clear h
    induction entries with
    | nil => exact fun c hc => .inl hc
    | cons d entries ih =>
      intro c hc
      rcases ih _ hc with hc | hc
      · rcases mem_insert hc with rfl | hc
        · exact .inr List.mem_cons_self
        · exact .inl hc
      · exact .inr (List.mem_cons_of_mem _ hc)
  exact (hfold [] h).resolve_left List.not_mem_nil

/-! ## Catalogs by their look-ups -/

theorem mem_iff_find? {c : Catalog α} (h : Ordered c) (k : String) (v : α) :
    (k, v) ∈ c ↔ c.find? k = some v := by
  induction c with
  | nil => simp [find?]
  | cons d c ih =>
    obtain ⟨k', v'⟩ := d
    obtain ⟨hhead, htail⟩ := List.pairwise_cons.1 h
    rw [find?_cons, List.mem_cons, ih htail]
    by_cases hk : k = k'
    · subst hk
      -- a key stands at one place only
      have hnone : find? c k ≠ some v := fun hfind =>
        String.lt_irrefl k (hhead (k, v) ((ih htail).2 hfind))
      simp [hnone, eq_comm]
    · simp [hk]

/-- Every key stands once. -/
theorem nodup_keys {c : Catalog α} (h : Ordered c) : (c.map Prod.fst).Nodup := by
  refine List.Pairwise.map _ ?_ h
  intro a b hlt heq
  rw [heq] at hlt
  exact String.lt_irrefl _ hlt

theorem mem_keys_iff {c : Catalog α} (h : Ordered c) (key : String) :
    key ∈ c.map Prod.fst ↔ (c.find? key).isSome = true := by
  rw [List.mem_map, Option.isSome_iff_exists]
  constructor
  · rintro ⟨⟨k, v⟩, hmem, rfl⟩
    exact ⟨v, (mem_iff_find? h k v).1 hmem⟩
  · rintro ⟨v, hv⟩
    exact ⟨(key, v), mem_of_find? hv, rfl⟩

/-- **Two catalogs with the same look-ups are the same.** -/
theorem ext {c d : Catalog α} (hc : Ordered c) (hd : Ordered d)
    (h : ∀ key, c.find? key = d.find? key) : c = d := by
  have hantisymm : Std.Antisymm fun a b : String × α => a.1 < b.1 :=
    ⟨fun a b hab hba => absurd (String.lt_trans hab hba) (String.lt_irrefl _)⟩
  have hirrefl : Std.Irrefl fun a b : String × α => a.1 < b.1 := ⟨fun a => String.lt_irrefl _⟩
  refine List.Pairwise.eq_of_mem_iff hc hd fun e => ?_
  rw [mem_iff_find? hc, mem_iff_find? hd, h]

/-- Entries in order are the catalog of themselves. -/
theorem ofList_of_ordered {c : Catalog α} (h : Ordered c) : ofList c = c := by
  have hfold : ∀ (d : Catalog α), Ordered (d ++ c) →
      c.foldl (fun c e => insert e.1 e.2 c) d = d ++ c := by
    clear h
    induction c with
    | nil => intro d _; simp
    | cons e c ih =>
      intro d hd
      have hlast : insert e.1 e.2 d = d ++ [e] := by
        have hbefore : ∀ a ∈ d, a.1 < e.1 := fun a ha =>
          (List.pairwise_append.1 hd).2.2 a ha e List.mem_cons_self
        clear hd
        induction d with
        | nil => rfl
        | cons a d ihd =>
          obtain ⟨k, v⟩ := a
          simp only [List.forall_mem_cons] at hbefore
          have hnot : ¬e.1 < k := fun hlt =>
            String.lt_irrefl k (String.lt_trans hbefore.1 hlt)
          have hne : e.1 ≠ k := fun heq => String.lt_irrefl k (heq ▸ hbefore.1)
          simp [insert, hnot, hne, ihd hbefore.2]
      rw [List.foldl_cons, hlast, ih (d ++ [e]) (by simpa using hd)]
      simp
  simpa [ofList] using hfold [] (by simpa using h)

end BlitzDoc.Catalog
