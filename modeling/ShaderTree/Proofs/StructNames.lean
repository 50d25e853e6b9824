import ShaderTree.Proofs.Clauses

namespace ShaderTree

theorem BasicTy.token_injective : Function.Injective BasicTy.token := by
  intro a b h
  cases a <;> cases b <;> first | rfl | simp [token] at h

namespace Glsl

theorem indexed_toList (letter : Char) (i : Nat) :
    (indexed letter i).toList = letter :: Nat.toDigits 10 i := by
  simp [indexed, Char.toString]

theorem indexed_injective (letter : Char) : Function.Injective (indexed letter) := by
  intro i j h
  have hl := congrArg String.toList h
  rw [indexed_toList, indexed_toList, List.cons.injEq] at hl
  have hd := congrArg (Nat.ofDigitChars 10 · 0) hl.2
  simpa only [Nat.ofDigitChars_ten_toDigits] using hd

theorem token_ne_structName (b : BasicTy) (i : Nat) : b.token ≠ structName i := by
  intro h
  have hl := congrArg (·.toList.head?) h
  rw [structName, indexed_toList] at hl
  cases b <;> simp [BasicTy.token] at hl

theorem TypeName.text_injective : Function.Injective TypeName.text := by
  intro n m h
  cases n with
  | basic b =>
    cases m with
    | basic c => exact congrArg basic (BasicTy.token_injective h)
    | struct j => exact absurd h (token_ne_structName b j)
  | struct i =>
    cases m with
    | basic c => exact absurd h.symm (token_ne_structName c i)
    | struct j => exact congrArg struct (indexed_injective 'S' h)

namespace StructTable

variable {table : StructTable}

theorem nameOf_eq_iff {t u : Ty} (ht : t.structs ⊆ table) :
    table.nameOf t = table.nameOf u ↔ t = u := by
  refine ⟨fun h => ?_, congrArg _⟩
  cases t with
  | basic b =>
    cases u with
    | basic c => exact congrArg Ty.basic (TypeName.basic.inj h)
    | struct ns => cases h
  | struct ms =>
    cases u with
    | basic c => cases h
    | struct ns =>
      have hi := TypeName.struct.inj h
      exact congrArg Ty.struct ((List.idxOf_inj (ht List.mem_cons_self)).mp hi)

theorem idxOf_of_getElem? {ms : List Ty} {i : Nat} (h : table.Nodup) (hi : table[i]? = some ms) :
    table.idxOf ms = i := by
  obtain ⟨hlt, rfl⟩ := List.getElem?_eq_some_iff.mp hi
  exact h.idxOf_getElem i hlt

theorem getElem?_idxOf {ms : List Ty} (h : ms ∈ table) : table[table.idxOf ms]? = some ms := by
  rw [List.getElem?_eq_getElem (List.idxOf_lt_length_of_mem h), List.getElem_idxOf]

end StructTable

end Glsl

end ShaderTree
