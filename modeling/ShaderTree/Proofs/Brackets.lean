namespace ShaderTree

structure IsNested {α : Type} [DecidableEq α] (opening closing : α) (s : List α) : Prop where
  above : ∀ front, front <+: s → front.count closing ≤ front.count opening
  level : s.count opening = s.count closing

namespace IsNested

variable {α : Type} [DecidableEq α] {opening closing : α} {s t r front : List α}

theorem of_not_mem (hopening : opening ∉ s) (hclosing : closing ∉ s) :
    IsNested opening closing s where
  above := fun front hfront => by
    rw [List.count_eq_zero.mpr fun h => hclosing (hfront.subset h)]
    exact Nat.zero_le _
  level := by rw [List.count_eq_zero.mpr hopening, List.count_eq_zero.mpr hclosing]

theorem append (hs : IsNested opening closing s) (ht : IsNested opening closing t) :
    IsNested opening closing (s ++ t) where
  above := fun front hfront => by
    obtain hs' | ⟨u, rfl⟩ := List.prefix_or_prefix_of_prefix hfront (List.prefix_append s t)
    · exact hs.above front hs'
    · have hu := ht.above u ((List.prefix_append_right_inj s).mp hfront)
      rw [List.count_append, List.count_append, hs.level]
      exact Nat.add_le_add_left hu _
  level := by rw [List.count_append, List.count_append, hs.level, ht.level]

theorem of_append (hs : IsNested opening closing s) (h : IsNested opening closing (s ++ t)) :
    IsNested opening closing t where
  above := fun front hfront => by
    have hle := h.above _ ((List.prefix_append_right_inj s).mpr hfront)
    rw [List.count_append, List.count_append, hs.level] at hle
    exact Nat.add_le_add_iff_left.mp hle
  level := by
    have hlevel := h.level
    rw [List.count_append, List.count_append, hs.level] at hlevel
    exact Nat.add_left_cancel hlevel

theorem wrap (hne : opening ≠ closing) (hs : IsNested opening closing s) :
    IsNested opening closing (opening :: (s ++ [closing])) where
  above := fun front hfront => by
    obtain rfl | ⟨u, rfl, hu⟩ := List.prefix_cons_iff.mp hfront
    · exact Nat.le_refl 0
    · rw [List.count_cons_of_ne hne, List.count_cons_self]
      obtain rfl | hu := List.prefix_concat_iff.mp hu
      · simp [hs.level]
      · exact Nat.le_succ_of_le (hs.above u hu)
  level := by simp [hne, hne.symm, hs.level]

theorem of_filter {isBracket : α → Bool} (hopening : isBracket opening = true)
    (hclosing : isBracket closing = true) (h : IsNested opening closing (s.filter isBracket)) :
    IsNested opening closing s where
  above := fun front hfront => by
    have hle := h.above _ (hfront.filter isBracket)
    rwa [List.count_filter hopening, List.count_filter hclosing] at hle
  level := by
    have hlevel := h.level
    rwa [List.count_filter hopening, List.count_filter hclosing] at hlevel

/-- A nested front that begins with a bracket goes on to where that one is closed. -/
theorem closed (hne : opening ≠ closing) (hs : IsNested opening closing s)
    (hfront : IsNested opening closing front) (hnil : front ≠ [])
    (h : front <+: opening :: (s ++ closing :: r)) : opening :: (s ++ [closing]) <+: front := by
  have hwhole : opening :: (s ++ [closing]) <+: opening :: (s ++ closing :: r) := ⟨r, by simp⟩
  obtain hclosed | hopen := List.prefix_or_prefix_of_prefix hwhole h
  · exact hclosed
  obtain rfl | ⟨u, rfl, hu⟩ := List.prefix_cons_iff.mp hopen
  · exact absurd rfl hnil
  obtain rfl | hu := List.prefix_concat_iff.mp hu
  · exact List.prefix_rfl
  · have hlevel := hfront.level
    have habove := hs.above u hu
    rw [List.count_cons_self, List.count_cons_of_ne hne] at hlevel
    omega

end IsNested

end ShaderTree
