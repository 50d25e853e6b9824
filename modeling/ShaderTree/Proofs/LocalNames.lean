import ShaderTree.Proofs.GlslDeclarations
import ShaderTree.Proofs.LocalNumbering

namespace ShaderTree

namespace Glsl

theorem Clause.names_of_isInner {c : Clause} (h : c.IsInner) :
    c.declarations.map (·.2) = c.declares.map localName := by
  cases c with
  | member | global | funcOpen => exact h.elim
  | structOpen => exact h.elim
  | _ => rfl

/-- The names that a function declares behind its own are those of its locals in order. -/
theorem names_func (table : StructTable) (f : Func) :
    ((paramsOf table 0 f.params).map Param.declaration ++
      (bodyClauses table f).flatMap (·.clause.declarations)).map (·.2) =
        (List.range f.localCount).map localName := by
  have hbody : ((bodyClauses table f).flatMap (·.clause.declarations)).map (·.2) =
      ((bodyClauses table f).flatMap (·.clause.declares)).map localName := by
    rw [List.map_flatMap, List.map_flatMap]
    exact List.flatMap_congr fun c hc => Clause.names_of_isInner (isInner_bodyClauses table f c hc)
  have hdeclares : (funcClauses table f).flatMap (·.clause.declares) = List.range f.localCount :=
    declares_funcClauses f
  rw [← hdeclares, funcClauses_eq, List.flatMap_cons, List.map_append, List.map_append, hbody,
    List.map_map, Clause.declares, List.map_map]
  rfl

theorem signature_paramsOf (table : StructTable) (next : Nat) {ps : List (Direction × Ty)}
    (h : Ty.structsOf (ps.map (·.2)) ⊆ table) :
    (paramsOf table next ps).map (fun q => (q.direction, Except.ok q.type)) =
      ps.map fun q => (q.1, typeName table q.2) := by
  induction ps generalizing next with
  | nil => rfl
  | cons q ps ih =>
    obtain ⟨ht, hps⟩ := List.append_subset.mp h
    rw [List.map_cons, ← ih (next + 1) hps, typeName_eq ht]
    rfl

/-- The lines are those of the function. What is declared on them behind its name are its locals in
order, and the counts at the statements are those of the parameters and of what is declared
before. -/
structure NumbersLocals (p : Program) (table : StructTable) (f : Func) (lines : List String) :
    Prop where
  rendered : (renderFunc p table f).map lineTexts = .ok lines
  declared : ∃ ps body ds, lines = ("void " ++ f.name ++ signatureText ps) :: body ∧
    ps.map (·.index) = List.range f.paramCount ∧
    ps.map (fun q => (q.direction, Except.ok q.type)) =
      f.params.map (fun q => (q.1, typeName table q.2)) ∧
    declarationsOn (signatureText ps :: body) = some ds ∧
    ds.map (·.2) = (List.range f.localCount).map fun i => "l" ++ toString i
  visited : visitFunc p table f =
    f.body.spots.map fun (before, s) => (f.paramCount + before.localCount, s)
  checked : f.body.checked p f.name f.paramCount =
    f.body.spots.map fun (before, s) => (f.paramCount + before.localCount, s)

theorem numbersLocals {p : Program} {table : StructTable} {f : Func}
    (h : Ty.structsOf f.declared ⊆ table)
    (hok : (f.bodyIssues p).findSome? Issue.outOfRange? = none) :
    NumbersLocals p table f (lineTexts (funcClauses table f)) where
  rendered := by
    rw [renderFunc_eq p h, unlessRefused, hok]
    rfl
  declared := by
    rw [Func.declared, Ty.structsOf_append] at h
    refine ⟨_, _, _, lineTexts_funcClauses table f, ?_,
      signature_paramsOf table 0 (List.append_subset.mp h).1, declarationsOn_func table f,
      names_func table f⟩
    rw [index_paramsOf, Func.length_params, List.range_eq_range']
  visited := by
    rw [Func.declared, Ty.structsOf_append] at h
    obtain ⟨hps, hbody⟩ := List.append_subset.mp h
    rw [visitFunc, declareParams_eq hps, Func.length_params, Nat.zero_add]
    dsimp only
    rw [visitBlock_eq 1 _ hbody hok, Block.checked_eq]
  checked := Block.checked_eq p f.name f.paramCount f.body

end Glsl

open Glsl in
/-- On the lines of a function the locals `l0`, `l1` and so on are declared, each once and in order,
and the counters of the renderer and of the checker agree at every statement. -/
theorem Program.locals_numbered_in_order (p : Program) (text : String) (h : p.render = .ok text) :
    let table := StructTable.ofProgram p
    (∃ (head : List String) (lines : Func → List String),
      (renderHead p table).map lineTexts = .ok head ∧
      text = "\n".intercalate (head ++ p.funcs.flatMap lines) ++ "\n" ∧
      ∀ f ∈ p.funcs, NumbersLocals p table f (lines f)) ∧
    ∀ depth next b cs last, renderBlock p table depth next b = .ok (cs, last) →
      last = next + b.localCount := by
  intro table
  obtain ⟨hnone, htext⟩ := render_ok_iff.mp h
  refine ⟨⟨lineTexts (headClauses table p), fun f => lineTexts (funcClauses table f),
    by rw [renderHead_eq]; rfl, ?_, fun f hf => numbersLocals (structsOf_declared_func hf)
      (List.findSome?_eq_none_iff.mpr fun issue hi => ?_)⟩,
    fun depth next b cs last => renderBlock_last⟩
  · rw [htext, ← lineTexts_flatMap, ← lineTexts_append]
    rfl
  · have hin : issue ∈ p.issues := List.mem_append_right _ (List.mem_flatMap.mpr ⟨f, hf, hi⟩)
    exact List.findSome?_eq_none_iff.mp hnone issue hin

def Program.withLoop : Program where
  funcs := [{
    name := "f"
    inParams := [.basic .float]
    body := ⟨[.struct []],
      [.forRange 0 4 1 ⟨[.basic .vec2], [.assign (.var ⟨.local, 3⟩) (.num .infinity)]⟩]⟩ }]

def Program.withLoopText : String :=
  "struct S0 \x7b\n\x7d;\nvoid f(in float l0) \x7b\n\tS0 l1;\n" ++
    "\tfor (int l2 = 0; l2 < 4; l2++) \x7b\n\t\tvec2 l3;\n\t\tl3 = inf;\n\t\x7d\n\x7d\n"

theorem Program.withLoop_locals :
    withLoop.render = .ok withLoopText ∧ withLoop.funcs.map Func.localCount = [4] ∧
    ∃ (head : List String) (lines : Func → List String),
      withLoopText = "\n".intercalate (head ++ withLoop.funcs.flatMap lines) ++ "\n" ∧
      ∀ f ∈ withLoop.funcs,
        Glsl.NumbersLocals withLoop (.ofProgram withLoop) f (lines f) := by
  have h : withLoop.render = .ok withLoopText := by rfl
  obtain ⟨⟨head, lines, -, htext, hnumbers⟩, -⟩ := locals_numbered_in_order withLoop _ h
  exact ⟨h, by decide, head, lines, htext, hnumbers⟩

end ShaderTree
