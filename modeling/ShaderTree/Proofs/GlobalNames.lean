import ShaderTree.Proofs.StructNames

namespace ShaderTree

namespace Glsl

/-- The names that the clause declares for all of the text. -/
def Clause.globalNames : Clause → List String
  | structOpen i => [structName i]
  | global c _ i => [variableName c i]
  | funcOpen name _ => [name]
  | _ => []

def globalNames (cs : List Placed) : List String := cs.flatMap (·.clause.globalNames)

def numbered (letter : Char) (n : Nat) : List String := (List.range n).map (indexed letter)

section

variable {cs ds : List Placed} {table : StructTable}

theorem globalNames_append : globalNames (cs ++ ds) = globalNames cs ++ globalNames ds :=
  List.flatMap_append

theorem globalNames_cons (c : Placed) :
    globalNames (c :: cs) = c.clause.globalNames ++ globalNames cs := rfl

theorem globalNames_eq_nil (h : ∀ c ∈ cs, c.clause.globalNames = []) : globalNames cs = [] :=
  List.flatMap_eq_nil_iff.mpr h

theorem nodup_numbered (letter : Char) (n : Nat) : (numbered letter n).Nodup :=
  List.nodup_range.map (indexed_injective letter)

theorem disjoint_numbered {a b : Char} (h : a ≠ b) (m n : Nat) :
    (numbered a m).Disjoint (numbered b n) := by
  intro name ha hb
  obtain ⟨i, -, rfl⟩ := List.mem_map.mp ha
  obtain ⟨j, -, hj⟩ := List.mem_map.mp hb
  have hlists := congrArg String.toList hj
  rw [indexed_toList, indexed_toList] at hlists
  exact h (List.cons.inj hlists).1.symm

section

variable (table)

theorem globalNames_definition (ms : List Ty) :
    globalNames (definition table ms) = [structName (table.idxOf ms)] := by
  have hmembers : globalNames (memberClauses table 0 ms) = [] := by
    apply globalNames_eq_nil
    intro c hc
    obtain ⟨⟨t, i⟩, -, rfl⟩ := List.mem_map.mp hc
    rfl
  rw [definition, globalNames_append, globalNames_cons, hmembers]
  rfl

theorem globalNames_globalClauses (c : Category) (i : Nat) (ts : List Ty) :
    globalNames (globalClauses table c i ts) =
      (List.range' i ts.length).map (variableName c) := by
  induction ts generalizing i with
  | nil => rfl
  | cons t ts ih => exact congrArg (variableName c i :: ·) (ih (i + 1))

theorem Clause.globalNames_of_isInner {c : Clause} (h : c.IsInner) : c.globalNames = [] := by
  cases c with
  | structOpen | global | funcOpen => exact h.elim
  | _ => rfl

theorem globalNames_funcClauses (f : Func) : globalNames (funcClauses table f) = [f.name] := by
  have hbody : globalNames (bodyClauses table f) = [] :=
    globalNames_eq_nil fun c hc => Clause.globalNames_of_isInner (isInner_bodyClauses table f c hc)
  rw [funcClauses_eq, globalNames_cons, hbody]
  rfl

end

/-- Every struct of the table is defined once, though in another order. -/
theorem globalNames_definitions (hnodup : table.Nodup) (hcomplete : StructTable.Complete table) :
    (globalNames (definitions table)).Perm (numbered 'S' table.length) := by
  have hnames : globalNames (definitions table) =
      (table.definitionOrder.map table.idxOf).map structName := by
    rw [definitions, globalNames, List.flatMap_assoc, List.map_map, List.map_eq_flatMap]
    exact List.flatMap_congr fun ms _ => globalNames_definition table ms
  have horder : table.definitionOrder.Perm table :=
    (List.perm_ext_iff_of_nodup (StructTable.definitionOrder_ordered table).nodup hnodup).mpr
      fun ms => StructTable.mem_definitionOrder hcomplete
  have hindices : table.map table.idxOf = List.range table.length := by
    apply List.ext_getElem
    · simp
    · intro i h₁ h₂
      rw [List.getElem_map, List.getElem_range, hnodup.idxOf_getElem]
  rw [hnames, numbered, ← hindices]
  exact (horder.map _).map _

end

end Glsl

namespace Program

/-- The names that the program's structs and global variables get. -/
def synthesizedNames (p : Program) : List String :=
  Glsl.numbered 'S' (Glsl.StructTable.ofProgram p).length ++
    Glsl.numbered 'U' p.uniforms.length ++ Glsl.numbered 'A' p.attributes.length ++
      Glsl.numbered 'V' p.varyings.length

theorem nodup_synthesizedNames (p : Program) : p.synthesizedNames.Nodup := by
  have hdisjoint {a b : Char} (h : a ≠ b) {m n : Nat} :
      (Glsl.numbered a m).Disjoint (Glsl.numbered b n) := Glsl.disjoint_numbered h m n
  simp only [synthesizedNames, List.nodup_append', List.disjoint_append_left]
  refine ⟨⟨⟨?_, ?_, ?_⟩, ?_, ?_, ?_⟩, ?_, ⟨?_, ?_⟩, ?_⟩
  all_goals first | exact Glsl.nodup_numbered _ _ | exact hdisjoint (by decide)

theorem globalNames_clauses (p : Program) :
    (Glsl.globalNames p.clauses).Perm (p.synthesizedNames ++ p.funcs.map Func.name) := by
  have hstructs := Glsl.globalNames_definitions (Glsl.StructTable.nodup_ofProgram p)
    (Glsl.StructTable.complete_ofProgram p)
  have hfuncs : Glsl.globalNames (p.funcs.flatMap (Glsl.funcClauses (.ofProgram p))) =
      p.funcs.map Func.name := by
    rw [Glsl.globalNames, List.flatMap_assoc, List.map_eq_flatMap]
    exact List.flatMap_congr fun f _ => Glsl.globalNames_funcClauses _ f
  simp only [clauses, Glsl.headClauses, Glsl.globalNames_append, hfuncs,
    Glsl.globalNames_globalClauses, ← List.range_eq_range']
  exact (((hstructs.append_right _).append_right _).append_right _).append_right _

end Program

end ShaderTree
