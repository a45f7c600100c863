import BlitzDoc.Analysis

/-!
# Merging analyses

`addOnce` collects values without repeats, and `Analysis.append` puts the entries of one analysis
behind those of another. The main statement is `append_assoc`: it makes no difference whether a
followed file is merged into its importer first, or straight into what the importer is merged into.
That needs the one in the middle to declare no module, since a module is stamped on what comes
behind it.
-/

namespace BlitzDoc

/-! ## Collecting without repeats -/

section
variable {α : Type} [BEq α] [LawfulBEq α]

theorem mem_addOnce (xs : List α) (x y : α) : y ∈ addOnce xs x ↔ y ∈ xs ∨ y = x := by
  unfold addOnce
  split
  · rename_i h
    have hx : x ∈ xs := by simpa using h
    exact ⟨Or.inl, fun hy => hy.elim id fun e => e ▸ hx⟩
  · simp

theorem mem_foldl_addOnce (xs ys : List α) (y : α) :
    y ∈ ys.foldl addOnce xs ↔ y ∈ xs ∨ y ∈ ys := by
  induction ys generalizing xs with
  | nil => simp
  | cons z zs ih => rw [List.foldl_cons, ih, mem_addOnce, List.mem_cons, or_assoc]

/-- Adding a list that was itself extended by one value is adding the list, then the value. -/
theorem foldl_addOnce_addOnce (xs ys : List α) (y : α) :
    (addOnce ys y).foldl addOnce xs = addOnce (ys.foldl addOnce xs) y := by
  by_cases h : y ∈ ys
  · have hys : addOnce ys y = ys := by simp [addOnce, h]
    have hin : y ∈ ys.foldl addOnce xs := (mem_foldl_addOnce xs ys y).2 (Or.inr h)
    rw [hys]
    simp [addOnce, hin]
  · have hys : addOnce ys y = ys ++ [y] := by simp [addOnce, h]
    rw [hys, List.foldl_append]
    rfl

theorem foldl_addOnce_assoc (xs ys zs : List α) :
    (zs.foldl addOnce ys).foldl addOnce xs = zs.foldl addOnce (ys.foldl addOnce xs) := by
  induction zs generalizing ys with
  | nil => rfl
  | cons z zs ih => rw [List.foldl_cons, ih, foldl_addOnce_addOnce, List.foldl_cons]

end

namespace Analysis

/-! ## Appending -/

@[simp] theorem append_moduleName (a b : Analysis) : (a.append b).moduleName = a.moduleName := rfl

@[simp] theorem append_docs (a b : Analysis) :
    (a.append b).docs = a.docs ++ b.docs.map (adopt a.moduleName a.docs.length) := rfl

theorem length_append_docs (a b : Analysis) :
    (a.append b).docs.length = a.docs.length + b.docs.length := by simp

@[simp] theorem adopt_parent (m : Option String) (n : Nat) (e : DocEntry) :
    (adopt m n e).declaration.parent = e.declaration.parent.map (· + n) := rfl

/-- An entry that moves twice moves by the sum; the outer module wins. -/
theorem adopt_adopt (m : Option String) (n k : Nat) (e : DocEntry) :
    adopt m n (adopt none k e) = adopt m (n + k) e := by
  simp only [adopt, Option.map_map, Option.none_or]
  congr 3
  funext j
  simp only [Function.comp]
  omega

/-- **Merging is associative** as long as the analysis in the middle declares no module. -/
theorem append_assoc (a b c : Analysis) (hb : b.moduleName = none) :
    (a.append b).append c = a.append (b.append c) := by
  have hdocs : ((a.append b).append c).docs = (a.append (b.append c)).docs := by
    rw [append_docs (a.append b), length_append_docs]
    simp only [append_docs, append_moduleName, List.append_assoc, List.map_append, List.map_map, hb]
    congr 2
    apply List.map_congr_left
    intro e _
    exact (adopt_adopt a.moduleName a.docs.length b.docs.length e).symm
  have hmodules : ((a.append b).append c).moduleImports = (a.append (b.append c)).moduleImports :=
    (foldl_addOnce_assoc a.moduleImports b.moduleImports c.moduleImports).symm
  -- every other field comes from `a`
  cases ha : a
  subst ha
  simp only [append] at hdocs hmodules ⊢
  rw [hdocs, hmodules]

end Analysis

end BlitzDoc
