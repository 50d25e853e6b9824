import ShaderTree.Proofs.StructTable

namespace ShaderTree

namespace Glsl.StructTable

/-- Every struct stands once, and behind all structs inside it. -/
inductive Ordered : StructTable → Prop
  | nil : Ordered []
  | concat {ds : StructTable} {ms : List Ty} (hds : Ordered ds) (hm : ms ∉ ds)
      (hin : Ty.structsOf ms ⊆ ds) : Ordered (ds ++ [ms])

theorem Ordered.nodup {ds : StructTable} (h : Ordered ds) : ds.Nodup := by
  induction h with
  | nil => exact List.nodup_nil
  | concat _ hm _ ih =>
    rw [← List.concat_eq_append]
    exact ih.concat hm

theorem Ordered.complete {ds : StructTable} (h : Ordered ds) : Complete ds := by
  induction h with
  | nil => simp [Complete]
  | concat _ _ hin ih =>
    intro ns hn
    obtain hn | hn := List.mem_append.mp hn
    · exact List.subset_append_of_subset_left _ (ih ns hn)
    · rw [List.mem_singleton.mp hn]
      exact List.subset_append_of_subset_left _ hin

mutual

/-- Defining a type adds exactly the structs inside it, and keeps the order. -/
theorem defineTy_ordered {ds : StructTable} (h : Ordered ds) (t : Ty) :
    Ordered (defineTy ds t) ∧ ∀ ms, ms ∈ defineTy ds t ↔ ms ∈ ds ∨ ms ∈ t.structs := by
  cases t with
  | basic b => exact ⟨h, by simp [defineTy, Ty.structs]⟩
  | struct ns =>
    rw [defineTy, Ty.structs]
    by_cases hn : ns ∈ ds
    · have hin : ns :: Ty.structsOf ns ⊆ ds := List.cons_subset.mpr ⟨hn, h.complete ns hn⟩
      rw [if_pos hn]
      exact ⟨h, fun ms => ⟨Or.inl, fun hm => hm.elim id (hin ·)⟩⟩
    · obtain ⟨ho, hmem⟩ := defineTys_ordered h ns
      have hfresh : ns ∉ defineTys ds ns := by
        rw [hmem]
        exact not_or.mpr ⟨hn, Ty.not_mem_structsOf ns⟩
      rw [if_neg hn]
      refine ⟨ho.concat hfresh fun ms hm => (hmem ms).mpr (Or.inr hm), fun ms => ?_⟩
      rw [List.mem_append, hmem, List.mem_singleton, List.mem_cons]
      tauto

theorem defineTys_ordered {ds : StructTable} (h : Ordered ds) (ts : List Ty) :
    Ordered (defineTys ds ts) ∧ ∀ ms, ms ∈ defineTys ds ts ↔ ms ∈ ds ∨ ms ∈ Ty.structsOf ts := by
  cases ts with
  | nil => exact ⟨h, by simp [defineTys, Ty.structsOf]⟩
  | cons t ts =>
    obtain ⟨ho, hmem⟩ := defineTy_ordered h t
    obtain ⟨ho', hmem'⟩ := defineTys_ordered ho ts
    refine ⟨ho', fun ms => ?_⟩
    rw [defineTys, hmem', hmem, Ty.structsOf, List.mem_append, or_assoc]

end

theorem definitions_ordered {ds : StructTable} (h : Ordered ds) (table : StructTable) :
    let order := table.foldl (fun defined ms => defineTy defined (.struct ms)) ds
    Ordered order ∧
      ∀ ms, ms ∈ order ↔ ms ∈ ds ∨ ms ∈ table.flatMap fun ns => (Ty.struct ns).structs := by
  induction table generalizing ds with
  | nil => exact ⟨h, by simp⟩
  | cons ns table ih =>
    obtain ⟨ho, hmem⟩ := defineTy_ordered h (.struct ns)
    obtain ⟨ho', hmem'⟩ := ih ho
    refine ⟨ho', fun ms => ?_⟩
    rw [List.foldl_cons, hmem', hmem, List.flatMap_cons, List.mem_append, or_assoc]

theorem definitionOrder_ordered (table : StructTable) : Ordered table.definitionOrder :=
  (definitions_ordered Ordered.nil table).1

/-- The definitions are those of the structs of the table, no more and no fewer. -/
theorem mem_definitionOrder {table : StructTable} (h : Complete table) {ms : List Ty} :
    ms ∈ table.definitionOrder ↔ ms ∈ table := by
  rw [definitionOrder, (definitions_ordered Ordered.nil table).2, List.mem_flatMap]
  constructor
  · rintro (hm | ⟨ns, hn, hm⟩)
    · cases hm
    · obtain rfl | hm := List.mem_cons.mp hm
      · exact hn
      · exact h ns hn hm
  · exact fun hm => Or.inr ⟨ms, hm, List.mem_cons_self⟩

end Glsl.StructTable

end ShaderTree
