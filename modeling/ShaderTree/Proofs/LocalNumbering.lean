import ShaderTree.Proofs.Clauses

namespace ShaderTree

section

variable (p : Program) (func : String)

mutual

/-- The statements that the checker comes to in the statement, each with the number of locals that
it has counted by then. -/
def Stmt.checked (locals : Nat) : Stmt → List (Nat × Stmt)
  | .block b => (locals, .block b) :: Block.checked locals b
  | .assign target value => [(locals, .assign target value)]
  | .ifElse cond t e =>
    (locals, .ifElse cond t e) :: Block.checked locals t ++
      Block.checked (t.issues p func locals).2 e
  | .forRange init limit step b =>
    (locals, .forRange init limit step b) :: Block.checked (locals + 1) b

def Block.checked (locals : Nat) : Block Stmt → List (Nat × Stmt)
  | ⟨ts, ss⟩ => Stmt.checkedIn (locals + ts.length) ss

def Stmt.checkedIn (locals : Nat) : List Stmt → List (Nat × Stmt)
  | [] => []
  | s :: ss => s.checked locals ++ Stmt.checkedIn (s.issues p func locals).2 ss

end

end

mutual

/-- The statements inside the statement at any depth, each with the part of the statement that
stands before it. -/
def Stmt.spots : Stmt → List (Stmt × Stmt)
  | .block b => b.spots.map fun (before, s) => (.block before, s)
  | .assign _ _ => []
  | .ifElse cond t e =>
    (t.spots.map fun (before, s) => (.ifElse cond before {}, s)) ++
      e.spots.map fun (before, s) => (.ifElse cond t before, s)
  | .forRange init limit step b =>
    b.spots.map fun (before, s) => (.forRange init limit step before, s)

def Block.spots : Block Stmt → List (Block Stmt × Stmt)
  | ⟨ts, ss⟩ => (Stmt.spotsIn ss).map fun (before, s) => (⟨ts, before⟩, s)

def Stmt.spotsIn : List Stmt → List (List Stmt × Stmt)
  | [] => []
  | s :: ss =>
    ([], s) :: (s.spots.map fun (before, u) => ([before], u)) ++
      (Stmt.spotsIn ss).map fun (before, u) => (s :: before, u)

end

theorem Block.localCount_empty : Block.localCount {} = 0 := rfl

section

variable (p : Program) (func : String)

mutual

theorem Stmt.checked_eq (locals : Nat) (s : Stmt) :
    s.checked p func locals =
      (locals, s) :: s.spots.map fun (before, u) => (locals + before.localCount, u) := by
  cases s with
  | block b =>
    rw [Stmt.checked, Block.checked_eq locals b, Stmt.spots, List.map_map]
    rfl
  | assign target value => rfl
  | ifElse cond t e =>
    rw [Stmt.checked, Block.issues_locals, Block.checked_eq locals t, Block.checked_eq _ e,
      Stmt.spots, List.map_append, List.map_map, List.map_map]
    simp only [Function.comp_def, Stmt.localCount, Block.localCount_empty, Nat.add_zero,
      Nat.add_assoc, List.cons_append]
  | forRange init limit step b =>
    rw [Stmt.checked, Block.checked_eq _ b, Stmt.spots, List.map_map]
    simp only [Function.comp_def, Stmt.localCount, Nat.add_assoc]

theorem Block.checked_eq (locals : Nat) (b : Block Stmt) :
    b.checked p func locals = b.spots.map fun (before, u) => (locals + before.localCount, u) := by
  cases b with
  | mk ts ss =>
    rw [Block.checked, Stmt.checkedIn_eq _ ss, Block.spots, List.map_map]
    simp only [Function.comp_def, Block.localCount, Nat.add_assoc]

theorem Stmt.checkedIn_eq (locals : Nat) (ss : List Stmt) :
    Stmt.checkedIn p func locals ss =
      (Stmt.spotsIn ss).map fun (before, u) => (locals + Stmt.localCounts before, u) := by
  cases ss with
  | nil => rfl
  | cons s ss =>
    rw [Stmt.checkedIn, Stmt.issues_locals, Stmt.checked_eq locals s, Stmt.checkedIn_eq _ ss,
      Stmt.spotsIn, List.map_append, List.map_cons, List.map_map, List.map_map]
    simp only [Function.comp_def, Stmt.localCounts, Nat.add_zero, Nat.add_assoc]

end

end

namespace Glsl

section

variable (p : Program) (table : StructTable)

mutual

/-- The statements that the renderer comes to in the statement, each with the number of locals that
it has allocated by then. Nothing is come to behind a refusal. -/
def visitStmt (depth next : Nat) : Stmt → List (Nat × Stmt)
  | .block b => (next, .block b) :: visitBlock (depth + 1) next b
  | .assign target value => [(next, .assign target value)]
  | .ifElse cond t e =>
    (next, .ifElse cond t e) :: visitBlock (depth + 1) next t ++
      match renderBlock p table (depth + 1) next t with
      | .ok (_, mid) => visitBlock (depth + 1) mid e
      | .error _ => []
  | .forRange init limit step b =>
    (next, .forRange init limit step b) :: visitBlock (depth + 1) (next + 1) b

def visitBlock (depth next : Nat) : Block Stmt → List (Nat × Stmt)
  | ⟨ts, ss⟩ =>
    match declareLocals table depth next ts with
    | .ok (_, mid) => visitStmts depth mid ss
    | .error _ => []

def visitStmts (depth next : Nat) : List Stmt → List (Nat × Stmt)
  | [] => []
  | s :: ss =>
    visitStmt depth next s ++
      match renderStmt p table depth next s with
      | .ok (_, mid) => visitStmts depth mid ss
      | .error _ => []

end

def visitFunc (f : Func) : List (Nat × Stmt) :=
  match declareParams table 0 f.params with
  | .ok (_, next) => visitBlock p table 1 next f.body
  | .error _ => []

end

section

variable {p : Program} {table : StructTable} {func : String}

theorem renderBlock_ok {depth next : Nat} {b : Block Stmt} (h : Ty.structsOf b.declared ⊆ table)
    (hok : (b.issues p func next).1.findSome? Issue.outOfRange? = none) :
    renderBlock p table depth next b =
      .ok (blockClauses table depth next b, next + b.localCount) := by
  rw [renderBlock_eq p func depth next h, unlessRefused, hok]

theorem renderStmt_ok {depth next : Nat} {s : Stmt} (h : Ty.structsOf s.declared ⊆ table)
    (hok : (s.issues p func next).1.findSome? Issue.outOfRange? = none) :
    renderStmt p table depth next s =
      .ok (stmtClauses table depth next s, next + s.localCount) := by
  rw [renderStmt_eq p func depth next h, unlessRefused, hok]

mutual

/-- Where nothing is refused the renderer comes to the statements with the counts of the checker. -/
theorem visitStmt_eq (depth next : Nat) {s : Stmt} (h : Ty.structsOf s.declared ⊆ table)
    (hok : (s.issues p func next).1.findSome? Issue.outOfRange? = none) :
    visitStmt p table depth next s = s.checked p func next := by
  cases s with
  | block b =>
    rw [visitStmt, Stmt.checked, visitBlock_eq (depth + 1) next h hok]
  | assign target value => rfl
  | ifElse cond t e =>
    rw [Stmt.declared, Ty.structsOf_append] at h
    obtain ⟨ht, he⟩ := List.append_subset.mp h
    rw [Stmt.issues_ifElse, List.findSome?_append, Option.or_eq_none_iff, List.findSome?_append,
      Option.or_eq_none_iff] at hok
    obtain ⟨-, htok, heok⟩ := hok
    rw [visitStmt, Stmt.checked, visitBlock_eq (depth + 1) next ht htok, renderBlock_ok ht htok]
    dsimp only
    rw [visitBlock_eq (depth + 1) _ he heok, Block.issues_locals]
  | forRange init limit step b =>
    rw [Stmt.issues, List.findSome?_append, Option.or_eq_none_iff] at hok
    rw [visitStmt, Stmt.checked, visitBlock_eq (depth + 1) (next + 1) h hok.2]

theorem visitBlock_eq (depth next : Nat) {b : Block Stmt} (h : Ty.structsOf b.declared ⊆ table)
    (hok : (b.issues p func next).1.findSome? Issue.outOfRange? = none) :
    visitBlock p table depth next b = b.checked p func next := by
  cases b with
  | mk ts ss =>
    rw [Block.declared, Ty.structsOf_append] at h
    obtain ⟨hts, hss⟩ := List.append_subset.mp h
    rw [visitBlock, declareLocals_eq hts, Block.checked]
    exact visitStmts_eq depth _ hss hok

theorem visitStmts_eq (depth next : Nat) {ss : List Stmt}
    (h : Ty.structsOf (Stmt.declaredBy ss) ⊆ table)
    (hok : (Stmt.issuesOf p func next ss).1.findSome? Issue.outOfRange? = none) :
    visitStmts p table depth next ss = Stmt.checkedIn p func next ss := by
  cases ss with
  | nil => rfl
  | cons s ss =>
    rw [Stmt.declaredBy, Ty.structsOf_append] at h
    obtain ⟨hs, hss⟩ := List.append_subset.mp h
    rw [Stmt.issuesOf_cons, List.findSome?_append, Option.or_eq_none_iff] at hok
    rw [visitStmts, Stmt.checkedIn, visitStmt_eq depth next hs hok.1, renderStmt_ok hs hok.1]
    dsimp only
    rw [visitStmts_eq depth _ hss hok.2, Stmt.issues_locals]

end

end

theorem exists_of_bind_eq_ok {ε α β : Type} {x : Except ε α} {f : α → Except ε β} {b : β}
    (h : (x >>= f) = .ok b) : ∃ a, x = .ok a ∧ f a = .ok b := by
  cases x with
  | error e => cases h
  | ok a => exact ⟨a, rfl, h⟩

section

variable {p : Program} {table : StructTable}

theorem declareLocals_last {depth next last : Nat} {ts : List Ty} {cs : List Placed}
    (h : declareLocals table depth next ts = .ok (cs, last)) : last = next + ts.length := by
  induction ts generalizing next cs with
  | nil => cases h; rfl
  | cons t ts ih =>
    rw [declareLocals] at h
    obtain ⟨name, -, h⟩ := exists_of_bind_eq_ok h
    obtain ⟨⟨rest, last'⟩, hrest, h⟩ := exists_of_bind_eq_ok h
    cases h
    rw [ih hrest, List.length_cons]
    omega

mutual

theorem renderStmt_last {depth next last : Nat} {s : Stmt} {cs : List Placed}
    (h : renderStmt p table depth next s = .ok (cs, last)) : last = next + s.localCount := by
  cases s with
  | block b =>
    rw [renderStmt] at h
    obtain ⟨⟨body, last'⟩, hb, h⟩ := exists_of_bind_eq_ok h
    cases h
    exact renderBlock_last hb
  | assign target value =>
    rw [renderStmt] at h
    obtain ⟨_, -, h⟩ := exists_of_bind_eq_ok h
    obtain ⟨_, -, h⟩ := exists_of_bind_eq_ok h
    cases h
    rfl
  | ifElse cond t e =>
    rw [renderStmt] at h
    obtain ⟨_, -, h⟩ := exists_of_bind_eq_ok h
    obtain ⟨⟨thenBody, mid⟩, ht, h⟩ := exists_of_bind_eq_ok h
    obtain ⟨⟨elseBody, last'⟩, he, h⟩ := exists_of_bind_eq_ok h
    cases h
    rw [renderBlock_last he, renderBlock_last ht, Stmt.localCount, Nat.add_assoc]
  | forRange init limit step b =>
    rw [renderStmt] at h
    obtain ⟨⟨body, last'⟩, hb, h⟩ := exists_of_bind_eq_ok h
    cases h
    rw [renderBlock_last hb, Stmt.localCount, Nat.add_assoc]

/-- Writing a block advances the counter by the number of locals the block declares. -/
theorem renderBlock_last {depth next last : Nat} {b : Block Stmt} {cs : List Placed}
    (h : renderBlock p table depth next b = .ok (cs, last)) : last = next + b.localCount := by
  cases b with
  | mk ts ss =>
    rw [renderBlock] at h
    obtain ⟨⟨locals, mid⟩, hts, h⟩ := exists_of_bind_eq_ok h
    obtain ⟨⟨body, last'⟩, hss, h⟩ := exists_of_bind_eq_ok h
    cases h
    rw [renderStmts_last hss, declareLocals_last hts, Block.localCount, Nat.add_assoc]

theorem renderStmts_last {depth next last : Nat} {ss : List Stmt} {cs : List Placed}
    (h : renderStmts p table depth next ss = .ok (cs, last)) :
    last = next + Stmt.localCounts ss := by
  cases ss with
  | nil => cases h; rfl
  | cons s ss =>
    rw [renderStmts] at h
    obtain ⟨⟨clauses, mid⟩, hs, h⟩ := exists_of_bind_eq_ok h
    obtain ⟨⟨rest, last'⟩, hss, h⟩ := exists_of_bind_eq_ok h
    cases h
    rw [renderStmts_last hss, renderStmt_last hs, Stmt.localCounts, Nat.add_assoc]

end

end

def Clause.declares : Clause → List Nat
  | funcOpen _ ps => ps.map (·.index)
  | «local» _ i => [i]
  | forOpen counter _ _ _ => [counter]
  | _ => []

section

variable {table : StructTable}

theorem declares_localClauses (depth next : Nat) (ts : List Ty) :
    (localClauses table depth next ts).flatMap (·.clause.declares) =
      List.range' next ts.length := by
  induction ts generalizing next with
  | nil => rfl
  | cons t ts ih =>
    rw [List.length_cons, List.range'_succ, ← ih (next + 1)]
    rfl

mutual

theorem declares_stmtClauses (depth next : Nat) (s : Stmt) :
    (stmtClauses table depth next s).flatMap (·.clause.declares) =
      List.range' next s.localCount := by
  cases s with
  | block b =>
    rw [stmtClauses, List.flatMap_append, List.flatMap_cons, declares_blockClauses, Stmt.localCount]
    simp [Clause.declares]
  | assign target value => rfl
  | ifElse cond t e =>
    rw [stmtClauses, List.flatMap_append, List.flatMap_append, List.flatMap_cons, List.flatMap_cons,
      declares_blockClauses, declares_blockClauses, Stmt.localCount, ← List.range'_append_1]
    simp [Clause.declares]
  | forRange init limit step b =>
    rw [stmtClauses, List.flatMap_append, List.flatMap_cons, declares_blockClauses, Stmt.localCount,
      Nat.add_comm 1, List.range'_succ]
    simp [Clause.declares]

theorem declares_blockClauses (depth next : Nat) (b : Block Stmt) :
    (blockClauses table depth next b).flatMap (·.clause.declares) =
      List.range' next b.localCount := by
  cases b with
  | mk ts ss =>
    rw [blockClauses, List.flatMap_append, declares_localClauses, declares_stmtsClauses,
      List.range'_append_1, Block.localCount]

theorem declares_stmtsClauses (depth next : Nat) (ss : List Stmt) :
    (stmtsClauses table depth next ss).flatMap (·.clause.declares) =
      List.range' next (Stmt.localCounts ss) := by
  cases ss with
  | nil => rfl
  | cons s ss =>
    rw [stmtsClauses, List.flatMap_append, declares_stmtClauses, declares_stmtsClauses,
      List.range'_append_1, Stmt.localCounts]

end

theorem index_paramsOf (next : Nat) (ps : List (Direction × Ty)) :
    (paramsOf table next ps).map (·.index) = List.range' next ps.length := by
  induction ps generalizing next with
  | nil => rfl
  | cons q ps ih =>
    rw [List.length_cons, List.range'_succ, ← ih (next + 1)]
    rfl

theorem declares_funcClauses (f : Func) :
    (funcClauses table f).flatMap (·.clause.declares) = List.range f.localCount := by
  have hparams : (paramsOf table 0 f.params).map (·.index) = List.range' 0 f.paramCount := by
    rw [index_paramsOf, Func.length_params]
  rw [funcClauses, List.flatMap_append, List.flatMap_cons, declares_blockClauses, Func.localCount,
    List.range_eq_range', ← List.range'_append_1, ← hparams]
  simp [Clause.declares]

end

end Glsl

end ShaderTree
