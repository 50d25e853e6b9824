import ShaderTree.Proofs.TextLines

namespace ShaderTree

mutual

def Stmt.SameText : Stmt → Stmt → Prop
  | .block b, .block c => Block.SameText b c
  | .assign t v, .assign u w => t.SameText u ∧ v.SameText w
  | .ifElse p b c, .ifElse q d e => p.SameText q ∧ Block.SameText b d ∧ Block.SameText c e
  | .forRange i l s b, .forRange j m t c => i = j ∧ l = m ∧ s = t ∧ Block.SameText b c
  | _, _ => False

def Block.SameText : Block Stmt → Block Stmt → Prop
  | ⟨ts, ss⟩, ⟨us, rs⟩ => ts = us ∧ Stmt.SameTexts ss rs

def Stmt.SameTexts : List Stmt → List Stmt → Prop
  | [], [] => True
  | s :: ss, t :: ts => s.SameText t ∧ Stmt.SameTexts ss ts
  | _, _ => False

end

structure Func.SameText (f g : Func) : Prop where
  name : f.name = g.name
  inParams : f.inParams = g.inParams
  inoutParams : f.inoutParams = g.inoutParams
  outParams : f.outParams = g.outParams
  body : f.body.SameText g.body

/-- The programs are the same but for numbers that have one text. -/
structure Program.SameText (p q : Program) : Prop where
  uniforms : p.uniforms = q.uniforms
  attributes : p.attributes = q.attributes
  varyings : p.varyings = q.varyings
  funcs : List.Forall₂ Func.SameText p.funcs q.funcs

theorem Expr.SameText.glsl_eq {e e' : Expr} (h : e.SameText e') : e.glsl = e'.glsl := by
  induction e generalizing e' with
  | num x =>
    cases e' with
    | num y => exact h
    | _ => cases h
  | var v =>
    cases e' with
    | var w => exact congrArg Variable.glslName h
    | _ => cases h
  | binary op lhs rhs ihl ihr =>
    cases e' with
    | binary op' lhs' rhs' =>
      obtain ⟨rfl, hl, hr⟩ := h
      rw [glsl, glsl, ihl hl, ihr hr]
    | _ => cases h

mutual

theorem Stmt.SameText.locals_eq {s t : Stmt} (h : s.SameText t) :
    s.localCount = t.localCount ∧ s.declared = t.declared := by
  cases s with
  | block b =>
    cases t with
    | block c => exact Block.SameText.locals_eq h
    | _ => cases h
  | assign target value =>
    cases t with
    | assign target' value' => exact ⟨rfl, rfl⟩
    | _ => cases h
  | ifElse cond b c =>
    cases t with
    | ifElse cond' b' c' =>
      obtain ⟨-, hb, hc⟩ := h
      obtain ⟨hbcount, hbtypes⟩ := Block.SameText.locals_eq hb
      obtain ⟨hccount, hctypes⟩ := Block.SameText.locals_eq hc
      exact ⟨congrArg₂ (· + ·) hbcount hccount, congrArg₂ (· ++ ·) hbtypes hctypes⟩
    | _ => cases h
  | forRange init limit step b =>
    cases t with
    | forRange init' limit' step' c =>
      obtain ⟨-, -, -, hb⟩ := h
      obtain ⟨hcount, htypes⟩ := Block.SameText.locals_eq hb
      exact ⟨congrArg (1 + ·) hcount, htypes⟩
    | _ => cases h

theorem Block.SameText.locals_eq {b c : Block Stmt} (h : b.SameText c) :
    b.localCount = c.localCount ∧ b.declared = c.declared := by
  cases b with
  | mk ts ss =>
    cases c with
    | mk us rs =>
      obtain ⟨rfl, hss⟩ := h
      obtain ⟨hcount, htypes⟩ := Stmt.SameTexts.locals_eq hss
      exact ⟨congrArg (ts.length + ·) hcount, congrArg (ts ++ ·) htypes⟩

theorem Stmt.SameTexts.locals_eq {ss ts : List Stmt} (h : Stmt.SameTexts ss ts) :
    Stmt.localCounts ss = Stmt.localCounts ts ∧ Stmt.declaredBy ss = Stmt.declaredBy ts := by
  cases ss with
  | nil =>
    cases ts with
    | nil => exact ⟨rfl, rfl⟩
    | cons t ts => cases h
  | cons s ss =>
    cases ts with
    | nil => cases h
    | cons t ts =>
      obtain ⟨hcount, htypes⟩ := Stmt.SameText.locals_eq h.1
      obtain ⟨hcounts, hall⟩ := Stmt.SameTexts.locals_eq h.2
      exact ⟨congrArg₂ (· + ·) hcount hcounts, congrArg₂ (· ++ ·) htypes hall⟩

end

theorem Func.SameText.params_eq {f g : Func} (h : f.SameText g) : f.params = g.params := by
  rw [params, params, h.inParams, h.inoutParams, h.outParams]

theorem declared_eq_of_sameText {fs gs : List Func} (h : List.Forall₂ Func.SameText fs gs) :
    fs.flatMap Func.declared = gs.flatMap Func.declared := by
  induction h with
  | nil => rfl
  | cons hf _ ih =>
    rw [List.flatMap_cons, List.flatMap_cons, ih, Func.declared, Func.declared, hf.params_eq,
      (Block.SameText.locals_eq hf.body).2]

theorem Expr.sameText_refl (e : Expr) : e.SameText e := by
  induction e with
  | num x => rfl
  | var v => rfl
  | binary op lhs rhs ihl ihr => exact ⟨rfl, ihl, ihr⟩

namespace Glsl

theorem Clause.SameText.text_eq {c d : Clause} (h : c.SameText d) : c.text = d.text := by
  cases c with
  | assign target value =>
    cases d with
    | assign target' value' =>
      change target.glsl ++ " = " ++ value.glsl ++ ";" = _
      rw [h.1.glsl_eq, h.2.glsl_eq]
      rfl
    | _ => cases h
  | ifOpen cond =>
    cases d with
    | ifOpen cond' => exact congrArg ("if (" ++ · ++ ") \x7b") (Expr.SameText.glsl_eq h)
    | _ => cases h
  | _ => exact congrArg text h

theorem text_eq_of_sameText {cs ds : List Placed} (h : List.Forall₂ Placed.SameText cs ds) :
    text cs = text ds := by
  have hlines : cs.map (·.line.indented "\t") = ds.map (·.line.indented "\t") := by
    induction h with
    | nil => rfl
    | cons h _ ih =>
      rw [List.map_cons, List.map_cons, ih, Placed.line, Placed.line, h.1, h.2.text_eq]
  rw [text, text, hlines]

variable {table : StructTable}

theorem Clause.sameText_refl (c : Clause) : c.SameText c := by
  cases c with
  | assign target value => exact ⟨target.sameText_refl, value.sameText_refl⟩
  | ifOpen cond => exact cond.sameText_refl
  | _ => rfl

theorem sameText_refl (cs : List Placed) : List.Forall₂ Placed.SameText cs cs :=
  List.forall₂_same.mpr fun c _ => ⟨rfl, c.clause.sameText_refl⟩

mutual

theorem sameText_stmt {depth next : Nat} {s t : Stmt} (h : s.SameText t) :
    List.Forall₂ Placed.SameText (stmtClauses table depth next s)
      (stmtClauses table depth next t) := by
  cases s with
  | block b =>
    cases t with
    | block c =>
      exact .cons ⟨rfl, rfl⟩ (List.rel_append (sameText_block h) (.cons ⟨rfl, rfl⟩ .nil))
    | _ => cases h
  | assign target value =>
    cases t with
    | assign target' value' => exact .cons ⟨rfl, h⟩ .nil
    | _ => cases h
  | ifElse cond b c =>
    cases t with
    | ifElse cond' b' c' =>
      obtain ⟨hcond, hb, hc⟩ := h
      rw [stmtClauses, stmtClauses, (Block.SameText.locals_eq hb).1]
      refine List.rel_append (List.rel_append ?_ ?_) (sameText_refl _)
      · exact .cons ⟨rfl, hcond⟩ (sameText_block hb)
      · exact .cons ⟨rfl, rfl⟩ (sameText_block hc)
    | _ => cases h
  | forRange init limit step b =>
    cases t with
    | forRange init' limit' step' c =>
      obtain ⟨rfl, rfl, rfl, hb⟩ := h
      exact .cons ⟨rfl, rfl⟩ (List.rel_append (sameText_block hb) (.cons ⟨rfl, rfl⟩ .nil))
    | _ => cases h

theorem sameText_block {depth next : Nat} {b c : Block Stmt} (h : b.SameText c) :
    List.Forall₂ Placed.SameText (blockClauses table depth next b)
      (blockClauses table depth next c) := by
  cases b with
  | mk ts ss =>
    cases c with
    | mk us rs =>
      obtain ⟨rfl, hss⟩ := h
      exact List.rel_append (sameText_refl _) (sameText_stmts hss)

theorem sameText_stmts {depth next : Nat} {ss ts : List Stmt} (h : Stmt.SameTexts ss ts) :
    List.Forall₂ Placed.SameText (stmtsClauses table depth next ss)
      (stmtsClauses table depth next ts) := by
  cases ss with
  | nil =>
    cases ts with
    | nil => exact .nil
    | cons t ts => cases h
  | cons s ss =>
    cases ts with
    | nil => cases h
    | cons t ts =>
      rw [stmtsClauses, stmtsClauses, (Stmt.SameText.locals_eq h.1).1]
      exact List.rel_append (sameText_stmt h.1) (sameText_stmts h.2)

end

theorem sameText_funcs {fs gs : List Func} (h : List.Forall₂ Func.SameText fs gs) :
    List.Forall₂ Placed.SameText (fs.flatMap (funcClauses table))
      (gs.flatMap (funcClauses table)) := by
  induction h with
  | nil => exact .nil
  | @cons f g _ _ hf _ ih =>
    refine List.rel_append ?_ ih
    rw [funcClauses, funcClauses, hf.name, hf.params_eq, Func.paramCount, Func.paramCount,
      hf.inParams, hf.inoutParams, hf.outParams]
    exact List.rel_append (.cons ⟨rfl, rfl⟩ (sameText_block hf.body)) (sameText_refl _)

/-- Programs that are the same but for their numbers have clauses that are. -/
theorem sameText_clauses {p q : Program} (h : p.SameText q) :
    List.Forall₂ Placed.SameText p.clauses q.clauses := by
  have hdeclared : p.declared = q.declared := by
    rw [Program.declared, Program.declared, h.uniforms, h.attributes, h.varyings,
      declared_eq_of_sameText h.funcs]
  rw [Program.clauses, Program.clauses, StructTable.ofProgram_eq, StructTable.ofProgram_eq,
    hdeclared, headClauses, headClauses, h.uniforms, h.attributes, h.varyings]
  exact List.rel_append (sameText_refl _) (sameText_funcs h.funcs)

end Glsl

end ShaderTree
