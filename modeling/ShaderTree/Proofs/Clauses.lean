import ShaderTree.Check.Issues
import ShaderTree.Glsl.Render
import ShaderTree.Proofs.DefinitionOrder

namespace ShaderTree

def Issue.outOfRange? : Issue → Option (Variable × Nat)
  | outOfRange _ v available => some (v, available)
  | _ => none

namespace Glsl

def StructTable.nameOf (table : StructTable) : Ty → TypeName
  | .basic b => .basic b
  | .struct ms => .struct (table.idxOf ms)

section

variable (table : StructTable)

def localClauses (depth next : Nat) (ts : List Ty) : List Placed :=
  (ts.zipIdx next).map fun (t, i) => ⟨depth, .local (table.nameOf t) i⟩

def paramsOf (next : Nat) (ps : List (Direction × Ty)) : List Param :=
  (ps.zipIdx next).map fun ((d, t), i) => ⟨d, table.nameOf t, i⟩

mutual

/-- The clauses of the statement, with `next` locals declared before it. -/
def stmtClauses (depth next : Nat) : Stmt → List Placed
  | .block b => ⟨depth, .blockOpen⟩ :: blockClauses (depth + 1) next b ++ [⟨depth, .close⟩]
  | .assign target value => [⟨depth, .assign target value⟩]
  | .ifElse cond t e =>
    ⟨depth, .ifOpen cond⟩ :: blockClauses (depth + 1) next t ++
      ⟨depth, .elseOpen⟩ :: blockClauses (depth + 1) (next + t.localCount) e ++ [⟨depth, .close⟩]
  | .forRange init limit step b =>
    ⟨depth, .forOpen next init limit step⟩ :: blockClauses (depth + 1) (next + 1) b ++
      [⟨depth, .close⟩]

def blockClauses (depth next : Nat) : Block Stmt → List Placed
  | ⟨ts, ss⟩ => localClauses table depth next ts ++ stmtsClauses depth (next + ts.length) ss

def stmtsClauses (depth next : Nat) : List Stmt → List Placed
  | [] => []
  | s :: ss => stmtClauses depth next s ++ stmtsClauses depth (next + s.localCount) ss

end

def funcClauses (f : Func) : List Placed :=
  ⟨0, .funcOpen f.name (paramsOf table 0 f.params)⟩ :: blockClauses table 1 f.paramCount f.body ++
    [⟨0, .close⟩]

def memberClauses (i : Nat) (ts : List Ty) : List Placed :=
  (ts.zipIdx i).map fun (t, j) => ⟨1, .member (table.nameOf t) j⟩

def definition (ms : List Ty) : List Placed :=
  ⟨0, .structOpen (table.idxOf ms)⟩ :: memberClauses table 0 ms ++ [⟨0, .structClose⟩]

def definitions : List Placed := table.definitionOrder.flatMap (definition table)

def globalClauses (c : Category) (i : Nat) (ts : List Ty) : List Placed :=
  (ts.zipIdx i).map fun (t, j) => ⟨0, .global c (table.nameOf t) j⟩

def headClauses (p : Program) : List Placed :=
  definitions table ++ globalClauses table .uniform 0 p.uniforms ++
    globalClauses table .attribute 0 p.attributes ++ globalClauses table .varying 0 p.varyings

end

end Glsl

def Program.clauses (p : Program) : List Glsl.Placed :=
  let table := Glsl.StructTable.ofProgram p
  Glsl.headClauses table p ++ p.funcs.flatMap (Glsl.funcClauses table)

section

variable (p : Program) (func : String)

mutual

theorem Stmt.issues_locals (locals : Nat) (s : Stmt) :
    (s.issues p func locals).2 = locals + s.localCount := by
  cases s with
  | block b => exact Block.issues_locals locals b
  | assign target value => rfl
  | ifElse cond t e =>
    rw [Stmt.localCount, ← Nat.add_assoc, ← Block.issues_locals locals t]
    exact Block.issues_locals _ e
  | forRange init limit step b =>
    rw [Stmt.localCount, ← Nat.add_assoc]
    exact Block.issues_locals _ b

theorem Block.issues_locals (locals : Nat) (b : Block Stmt) :
    (b.issues p func locals).2 = locals + b.localCount := by
  cases b with
  | mk ts ss =>
    rw [Block.localCount, ← Nat.add_assoc]
    exact Stmt.issuesOf_locals _ ss

theorem Stmt.issuesOf_locals (locals : Nat) (ss : List Stmt) :
    (Stmt.issuesOf p func locals ss).2 = locals + Stmt.localCounts ss := by
  cases ss with
  | nil => rfl
  | cons s ss =>
    rw [Stmt.localCounts, ← Nat.add_assoc, ← Stmt.issues_locals locals s]
    exact Stmt.issuesOf_locals _ ss

end

theorem Stmt.issues_ifElse (locals : Nat) (cond : Expr) (t e : Block Stmt) :
    ((Stmt.ifElse cond t e).issues p func locals).1 =
      cond.issues p func locals ++ ((t.issues p func locals).1 ++
        (e.issues p func (locals + t.localCount)).1) := by
  rw [← Block.issues_locals p func locals t, ← List.append_assoc]
  rfl

theorem Stmt.issuesOf_cons (locals : Nat) (s : Stmt) (ss : List Stmt) :
    (Stmt.issuesOf p func locals (s :: ss)).1 =
      (s.issues p func locals).1 ++ (Stmt.issuesOf p func (locals + s.localCount) ss).1 := by
  rw [← Stmt.issues_locals p func locals s]
  rfl

end

namespace Glsl

variable {α β : Type}

/-- The result, or the refusal of the first variable that the issues find out of range. -/
def unlessRefused (issues : List Issue) (a : α) : Except RenderError α :=
  match issues.findSome? Issue.outOfRange? with
  | some (v, available) => .error (.outOfRange v available)
  | none => .ok a

theorem unlessRefused_bind {is js : List Issue} {a : α} {b : β} {f : α → Except RenderError β}
    (h : f a = unlessRefused js b) : (unlessRefused is a >>= f) = unlessRefused (is ++ js) b := by
  unfold unlessRefused at h ⊢
  rw [List.findSome?_append]
  cases hi : is.findSome? Issue.outOfRange? with
  | some r => rfl
  | none => exact h

theorem unlessRefused_bind_ok {is : List Issue} {a : α} {b : β} {f : α → Except RenderError β}
    (h : f a = .ok b) : (unlessRefused is a >>= f) = unlessRefused is b := by
  have hb : f a = unlessRefused [] b := h
  rw [unlessRefused_bind hb, List.append_nil]

theorem unlessRefused_eq_ok_iff {is : List Issue} {a b : α} :
    unlessRefused is a = .ok b ↔ is.findSome? Issue.outOfRange? = none ∧ a = b := by
  rw [unlessRefused]
  cases is.findSome? Issue.outOfRange? <;> simp

theorem unlessRefused_append_left {is js : List Issue} {a : α}
    (h : is.findSome? Issue.outOfRange? = none) :
    unlessRefused (is ++ js) a = unlessRefused js a := by
  rw [unlessRefused, unlessRefused, List.findSome?_append, h, Option.none_or]

section

variable {table : StructTable}

theorem findIdx?_eq {ms : List Ty} (h : ms ∈ table) :
    table.findIdx? (· = ms) = some (table.idxOf ms) := by
  rw [List.findIdx?_eq_some_iff_findIdx_eq]
  refine ⟨List.idxOf_lt_length_of_mem h, ?_⟩
  rw [List.idxOf]
  congr 1
  funext ns
  exact (beq_eq_decide ns ms).symm

theorem typeName?_eq {t : Ty} (h : t.structs ⊆ table) :
    table.typeName? t = some (table.nameOf t) := by
  cases t with
  | basic b => rfl
  | struct ms =>
    rw [StructTable.typeName?, findIdx?_eq (h List.mem_cons_self)]
    rfl

theorem typeName_eq {t : Ty} (h : t.structs ⊆ table) : typeName table t = .ok (table.nameOf t) := by
  rw [typeName, typeName?_eq h]

theorem declareLocals_eq {ts : List Ty} (h : Ty.structsOf ts ⊆ table) (depth next : Nat) :
    declareLocals table depth next ts =
      .ok (localClauses table depth next ts, next + ts.length) := by
  induction ts generalizing next with
  | nil => rfl
  | cons t ts ih =>
    obtain ⟨ht, hts⟩ := List.append_subset.mp h
    rw [declareLocals, typeName_eq ht, ih hts, List.length_cons, Nat.add_comm ts.length,
      ← Nat.add_assoc]
    rfl

theorem declareParams_eq {ps : List (Direction × Ty)} (h : Ty.structsOf (ps.map (·.2)) ⊆ table)
    (next : Nat) :
    declareParams table next ps = .ok (paramsOf table next ps, next + ps.length) := by
  induction ps generalizing next with
  | nil => rfl
  | cons q ps ih =>
    obtain ⟨ht, hps⟩ := List.append_subset.mp h
    rw [declareParams, typeName_eq ht, ih hps, List.length_cons, Nat.add_comm ps.length,
      ← Nat.add_assoc]
    rfl

theorem renderMembers_eq {ts : List Ty} (h : Ty.structsOf ts ⊆ table) (i : Nat) :
    renderMembers table i ts = .ok (memberClauses table i ts) := by
  induction ts generalizing i with
  | nil => rfl
  | cons t ts ih =>
    obtain ⟨ht, hts⟩ := List.append_subset.mp h
    rw [renderMembers, typeName_eq ht, ih hts]
    rfl

theorem renderGlobals_eq {ts : List Ty} (h : Ty.structsOf ts ⊆ table) (c : Category) (i : Nat) :
    renderGlobals table c i ts = .ok (globalClauses table c i ts) := by
  induction ts generalizing i with
  | nil => rfl
  | cons t ts ih =>
    obtain ⟨ht, hts⟩ := List.append_subset.mp h
    rw [renderGlobals, typeName_eq ht, ih hts]
    rfl

theorem renderStructs_eq (htable : StructTable.Complete table) {order : List (List Ty)}
    (h : order ⊆ table) :
    renderStructs table order = .ok (order.flatMap (definition table)) := by
  induction order with
  | nil => rfl
  | cons ms order ih =>
    obtain ⟨hm, horder⟩ := List.cons_subset.mp h
    rw [renderStructs, renderMembers_eq (htable ms hm), ih horder]
    simp only [findIdx?_eq hm, List.flatMap_cons, definition, bind, Except.bind]
    simp only [List.cons_append, List.append_assoc, List.nil_append]

section

variable (p : Program) (func : String)

theorem checkExpr_eq (locals : Nat) (e : Expr) :
    checkExpr p locals e = unlessRefused (e.issues p func locals) () := by
  induction e with
  | num x =>
    rw [checkExpr, Expr.issues]
    split <;> rfl
  | var v =>
    rw [checkExpr, Expr.issues]
    split <;> rfl
  | binary op lhs rhs ihl ihr =>
    rw [checkExpr, Expr.issues, ihl]
    exact unlessRefused_bind ihr

theorem targetIssues_outOfRange (target : Expr) :
    (target.targetIssues func).findSome? Issue.outOfRange? = none := by
  rw [Expr.targetIssues]
  split <;> rfl

theorem stepIssues_outOfRange (step : Int32) :
    (if step = 0 then [Issue.zeroStep func] else []).findSome? Issue.outOfRange? = none := by
  split <;> rfl

mutual

theorem renderStmt_eq (depth next : Nat) {s : Stmt} (h : Ty.structsOf s.declared ⊆ table) :
    renderStmt p table depth next s =
      unlessRefused (s.issues p func next).1
        (stmtClauses table depth next s, next + s.localCount) := by
  cases s with
  | block b =>
    rw [renderStmt, renderBlock_eq (depth + 1) next h]
    exact unlessRefused_bind_ok rfl
  | assign target value =>
    rw [renderStmt, Stmt.issues, List.append_assoc,
      unlessRefused_append_left (targetIssues_outOfRange func target),
      checkExpr_eq p func next target]
    apply unlessRefused_bind
    rw [checkExpr_eq p func next value]
    exact unlessRefused_bind_ok rfl
  | ifElse cond t e =>
    rw [Stmt.declared, Ty.structsOf_append] at h
    obtain ⟨ht, he⟩ := List.append_subset.mp h
    rw [renderStmt, checkExpr_eq p func next cond, Stmt.issues_ifElse]
    apply unlessRefused_bind
    rw [renderBlock_eq (depth + 1) next ht]
    apply unlessRefused_bind
    dsimp only
    rw [renderBlock_eq (depth + 1) _ he, Stmt.localCount, ← Nat.add_assoc]
    exact unlessRefused_bind_ok rfl
  | forRange init limit step b =>
    rw [renderStmt, Stmt.issues, renderBlock_eq (depth + 1) (next + 1) h,
      unlessRefused_append_left (stepIssues_outOfRange func step), Stmt.localCount, ← Nat.add_assoc]
    exact unlessRefused_bind_ok rfl

theorem renderBlock_eq (depth next : Nat) {b : Block Stmt} (h : Ty.structsOf b.declared ⊆ table) :
    renderBlock p table depth next b =
      unlessRefused (b.issues p func next).1
        (blockClauses table depth next b, next + b.localCount) := by
  cases b with
  | mk ts ss =>
    rw [Block.declared, Ty.structsOf_append] at h
    obtain ⟨hts, hss⟩ := List.append_subset.mp h
    rw [renderBlock, declareLocals_eq hts, Block.issues, Block.localCount, ← Nat.add_assoc]
    dsimp only [bind, Except.bind]
    rw [renderStmts_eq depth _ hss]
    exact unlessRefused_bind_ok rfl

theorem renderStmts_eq (depth next : Nat) {ss : List Stmt}
    (h : Ty.structsOf (Stmt.declaredBy ss) ⊆ table) :
    renderStmts p table depth next ss =
      unlessRefused (Stmt.issuesOf p func next ss).1
        (stmtsClauses table depth next ss, next + Stmt.localCounts ss) := by
  cases ss with
  | nil => rfl
  | cons s ss =>
    rw [Stmt.declaredBy, Ty.structsOf_append] at h
    obtain ⟨hs, hss⟩ := List.append_subset.mp h
    rw [renderStmts, renderStmt_eq depth next hs, Stmt.issuesOf_cons]
    apply unlessRefused_bind
    dsimp only
    rw [renderStmts_eq depth _ hss, Stmt.localCounts, ← Nat.add_assoc]
    exact unlessRefused_bind_ok rfl

end

end

theorem renderFunc_eq (p : Program) {f : Func} (h : Ty.structsOf f.declared ⊆ table) :
    renderFunc p table f = unlessRefused (f.bodyIssues p) (funcClauses table f) := by
  rw [Func.declared, Ty.structsOf_append] at h
  obtain ⟨hps, hbody⟩ := List.append_subset.mp h
  rw [renderFunc, declareParams_eq hps, Func.length_params, Nat.zero_add]
  dsimp only [bind, Except.bind]
  rw [renderBlock_eq p f.name 1 _ hbody]
  exact unlessRefused_bind_ok rfl

theorem renderFuncs_eq (p : Program) {fs : List Func}
    (h : Ty.structsOf (fs.flatMap Func.declared) ⊆ table) :
    renderFuncs p table fs =
      unlessRefused (fs.flatMap (·.bodyIssues p)) (fs.flatMap (funcClauses table)) := by
  induction fs with
  | nil => rfl
  | cons f fs ih =>
    rw [List.flatMap_cons, Ty.structsOf_append] at h
    obtain ⟨hf, hfs⟩ := List.append_subset.mp h
    rw [renderFuncs, renderFunc_eq p hf, List.flatMap_cons, List.flatMap_cons]
    apply unlessRefused_bind
    rw [ih hfs]
    exact unlessRefused_bind_ok rfl

end

theorem nameIssues_outOfRange (p : Program) (f : Func) (i : Nat) :
    (p.nameIssues f i).findSome? Issue.outOfRange? = none := by
  rw [Program.nameIssues]
  split <;> split <;> rfl

theorem unlessRefused_issues (p : Program) (a : α) :
    unlessRefused p.issues a = unlessRefused (p.funcs.flatMap (·.bodyIssues p)) a := by
  refine unlessRefused_append_left (List.findSome?_eq_none_iff.mpr fun issue hi => ?_)
  obtain ⟨⟨f, i⟩, -, hi⟩ := List.mem_flatMap.mp hi
  exact List.findSome?_eq_none_iff.mp (nameIssues_outOfRange p f i) issue hi

theorem renderHead_eq (p : Program) :
    renderHead p (StructTable.ofProgram p) = .ok (headClauses (StructTable.ofProgram p) p) := by
  have hall := StructTable.structsOf_declared_subset p
  have hdefs := renderStructs_eq (StructTable.complete_ofProgram p) fun _ hm =>
    (StructTable.mem_definitionOrder (StructTable.complete_ofProgram p)).mp hm
  simp only [Program.declared, Ty.structsOf_append, List.append_subset] at hall
  obtain ⟨⟨⟨hu, ha⟩, hv⟩, -⟩ := hall
  rw [renderHead, hdefs, renderGlobals_eq hu, renderGlobals_eq ha, renderGlobals_eq hv]
  rfl

/-- Rendering gives the clauses of the program, or refuses the first variable out of range. -/
theorem renderClauses_eq (p : Program) : renderClauses p = unlessRefused p.issues p.clauses := by
  have hall := StructTable.structsOf_declared_subset p
  rw [Program.declared, Ty.structsOf_append] at hall
  rw [renderClauses, renderHead_eq, unlessRefused_issues]
  dsimp only [bind, Except.bind]
  rw [renderFuncs_eq p (List.append_subset.mp hall).2]
  exact unlessRefused_bind_ok rfl

theorem structsOf_declared_func {p : Program} {f : Func} (hf : f ∈ p.funcs) :
    Ty.structsOf f.declared ⊆ StructTable.ofProgram p := by
  have hsub : f.declared ⊆ p.declared := fun t ht =>
    List.mem_append_right _ (List.mem_flatMap.mpr ⟨f, hf, ht⟩)
  exact fun ms hm => StructTable.mem_ofProgram.mpr (Ty.structsOf_mono hsub hm)

def Clause.IsHead : Clause → Prop
  | structOpen _ | member _ _ | structClose => True
  | global c _ _ => c ≠ .local
  | _ => False

def Clause.IsInner : Clause → Prop
  | «local» _ _ | blockOpen | assign _ _ | ifOpen _ | elseOpen | forOpen _ _ _ _ | close => True
  | _ => False

section

variable (table : StructTable)

theorem isHead_definition (ms : List Ty) : ∀ c ∈ definition table ms, c.clause.IsHead := by
  rw [definition, List.forall_mem_append, List.forall_mem_cons, List.forall_mem_singleton]
  refine ⟨⟨trivial, fun c hc => ?_⟩, trivial⟩
  obtain ⟨⟨t, i⟩, -, rfl⟩ := List.mem_map.mp hc
  trivial

theorem isHead_definitions : ∀ c ∈ definitions table, c.clause.IsHead := by
  intro c hc
  obtain ⟨ms, -, hc⟩ := List.mem_flatMap.mp hc
  exact isHead_definition table ms c hc

theorem isHead_globalClauses {c : Category} (h : c ≠ .local) (i : Nat) (ts : List Ty) :
    ∀ d ∈ globalClauses table c i ts, d.clause.IsHead := by
  intro d hd
  obtain ⟨⟨t, j⟩, -, rfl⟩ := List.mem_map.mp hd
  exact h

theorem isHead_headClauses (p : Program) : ∀ c ∈ headClauses table p, c.clause.IsHead := by
  simp only [headClauses, List.forall_mem_append]
  exact ⟨⟨⟨isHead_definitions table, isHead_globalClauses table (by decide) 0 _⟩,
    isHead_globalClauses table (by decide) 0 _⟩, isHead_globalClauses table (by decide) 0 _⟩

theorem isInner_localClauses (depth next : Nat) (ts : List Ty) :
    ∀ c ∈ localClauses table depth next ts, c.clause.IsInner := by
  intro c hc
  obtain ⟨⟨t, i⟩, -, rfl⟩ := List.mem_map.mp hc
  trivial

mutual

theorem isInner_stmtClauses (depth next : Nat) (s : Stmt) :
    ∀ c ∈ stmtClauses table depth next s, c.clause.IsInner := by
  cases s with
  | block b =>
    rw [stmtClauses, List.forall_mem_append, List.forall_mem_cons, List.forall_mem_singleton]
    exact ⟨⟨trivial, isInner_blockClauses _ _ b⟩, trivial⟩
  | assign target value => exact List.forall_mem_singleton.mpr trivial
  | ifElse cond t e =>
    rw [stmtClauses, List.forall_mem_append, List.forall_mem_append, List.forall_mem_cons,
      List.forall_mem_cons, List.forall_mem_singleton]
    exact ⟨⟨⟨trivial, isInner_blockClauses _ _ t⟩, trivial, isInner_blockClauses _ _ e⟩, trivial⟩
  | forRange init limit step b =>
    rw [stmtClauses, List.forall_mem_append, List.forall_mem_cons, List.forall_mem_singleton]
    exact ⟨⟨trivial, isInner_blockClauses _ _ b⟩, trivial⟩

theorem isInner_blockClauses (depth next : Nat) (b : Block Stmt) :
    ∀ c ∈ blockClauses table depth next b, c.clause.IsInner := by
  cases b with
  | mk ts ss =>
    rw [blockClauses, List.forall_mem_append]
    exact ⟨isInner_localClauses table depth next ts, isInner_stmtsClauses _ _ ss⟩

theorem isInner_stmtsClauses (depth next : Nat) (ss : List Stmt) :
    ∀ c ∈ stmtsClauses table depth next ss, c.clause.IsInner := by
  cases ss with
  | nil => exact List.forall_mem_nil _
  | cons s ss =>
    rw [stmtsClauses, List.forall_mem_append]
    exact ⟨isInner_stmtClauses _ _ s, isInner_stmtsClauses _ _ ss⟩

end

def bodyClauses (f : Func) : List Placed :=
  blockClauses table 1 f.paramCount f.body ++ [⟨0, .close⟩]

theorem isInner_bodyClauses (f : Func) : ∀ c ∈ bodyClauses table f, c.clause.IsInner := by
  rw [bodyClauses, List.forall_mem_append, List.forall_mem_singleton]
  exact ⟨isInner_blockClauses table _ _ _, trivial⟩

theorem funcClauses_eq (f : Func) : funcClauses table f =
    ⟨0, .funcOpen f.name (paramsOf table 0 f.params)⟩ :: bodyClauses table f := rfl

end

end Glsl

theorem Program.render_eq (p : Program) :
    p.render = Glsl.unlessRefused p.issues (Glsl.text p.clauses) := by
  rw [Program.render, Glsl.renderClauses_eq]
  exact Glsl.unlessRefused_bind_ok rfl

theorem Program.render_ok_iff {p : Program} {text : String} :
    p.render = .ok text ↔
      p.issues.findSome? Issue.outOfRange? = none ∧ text = Glsl.text p.clauses := by
  rw [render_eq, Glsl.unlessRefused_eq_ok_iff, eq_comm (b := text)]

end ShaderTree
