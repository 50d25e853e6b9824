import ShaderTree.Proofs.LocalNumbering

namespace ShaderTree

def BeginsIdentifier (c : Char) : Prop := 'A' ≤ c ∧ c ≤ 'Z' ∨ 'a' ≤ c ∧ c ≤ 'z' ∨ c = '_'

/-- A letter or underscore, and letters, digits and underscores behind it, all of ASCII. -/
def IsIdentifier (name : String) : Prop :=
  ∃ c cs, name.toList = c :: cs ∧ BeginsIdentifier c ∧
    ∀ d ∈ cs, BeginsIdentifier d ∨ '0' ≤ d ∧ d ≤ '9'

theorem beginsIdentifier_iff (c : Char) :
    BeginsIdentifier c ↔ (c.isAlpha || c == '_') = true := by
  have halpha : c.isAlpha = (c.isUpper || c.isLower) := rfl
  have hupper : c.isUpper = decide (c.val ≥ 'A'.val ∧ c.val ≤ 'Z'.val) := rfl
  have hlower : c.isLower = (decide (c.val ≥ 'a'.val) && decide (c.val ≤ 'z'.val)) := rfl
  simp only [BeginsIdentifier, halpha, hupper, hlower, Char.le_def, Bool.or_eq_true,
    Bool.and_eq_true, decide_eq_true_eq, beq_iff_eq, or_assoc, ge_iff_le]

theorem continuesIdentifier_iff (c : Char) :
    (BeginsIdentifier c ∨ '0' ≤ c ∧ c ≤ '9') ↔ (c.isAlphanum || c == '_') = true := by
  rw [beginsIdentifier_iff]
  simp only [Char.isAlphanum, Char.isDigit, Char.le_def, Bool.or_eq_true, Bool.and_eq_true,
    decide_eq_true_eq, ge_iff_le]
  tauto

theorem isIdentifier_iff (name : String) : IsIdentifier name ↔ isIdentifier name = true := by
  unfold IsIdentifier isIdentifier
  cases name.toList with
  | nil => simp
  | cons c cs =>
    simp only [List.cons.injEq, Bool.and_eq_true, List.all_eq_true, ← continuesIdentifier_iff,
      ← beginsIdentifier_iff]
    constructor
    · rintro ⟨_, _, ⟨rfl, rfl⟩, h⟩
      exact h
    · exact fun h => ⟨c, cs, ⟨rfl, rfl⟩, h⟩

instance (name : String) : Decidable (IsIdentifier name) :=
  decidable_of_iff _ (isIdentifier_iff name).symm

def Expr.IsPlace (e : Expr) : Prop := ∃ i, e = .var ⟨.local, i⟩ ∨ e = .var ⟨.varying, i⟩

theorem Expr.isPlace_iff (e : Expr) : e.IsPlace ↔ e.isAssignable = true := by
  obtain x | ⟨c, i⟩ | ⟨op, lhs, rhs⟩ := e
  · simp [IsPlace, isAssignable]
  · cases c <;> simp [IsPlace, isAssignable]
  · simp [IsPlace, isAssignable]

instance (e : Expr) : Decidable e.IsPlace := decidable_of_iff _ e.isPlace_iff.symm

def Expr.leaves : Expr → List (Binary64 ⊕ Variable)
  | num x => [.inl x]
  | var v => [.inr v]
  | binary _ lhs rhs => lhs.leaves ++ rhs.leaves

/-- The expressions of the statement that stand in no block of it. -/
def Stmt.exprs : Stmt → List Expr
  | .assign target value => [target, value]
  | .ifElse cond _ _ => [cond]
  | .block _ | .forRange _ _ _ _ => []

def Program.Declares (p : Program) (locals : Nat) : Variable → Prop
  | ⟨.uniform, i⟩ => i.toNat < p.uniforms.length
  | ⟨.attribute, i⟩ => i.toNat < p.attributes.length
  | ⟨.varying, i⟩ => i.toNat < p.varyings.length
  | ⟨.local, i⟩ => i.toNat < locals

theorem Program.declares_iff (p : Program) (locals : Nat) (v : Variable) :
    p.Declares locals v ↔ v.index.toNat < p.available locals v.category := by
  obtain ⟨c, i⟩ := v
  cases c <;> rfl

instance (p : Program) (locals : Nat) (v : Variable) : Decidable (p.Declares locals v) :=
  decidable_of_iff _ (p.declares_iff locals v).symm

section

variable (p : Program) (func : String) (locals : Nat)

def leafViolations : Binary64 ⊕ Variable → List Issue
  | .inl x => if x.isFinite then [] else [.nonFinite func x]
  | .inr v =>
    if p.Declares locals v then [] else [.outOfRange func v (p.available locals v.category)]

def Stmt.violations : Stmt → List Issue
  | .block _ => []
  | .assign target value =>
    (if target.IsPlace then [] else [.badTarget func target]) ++
      (target.leaves ++ value.leaves).flatMap (leafViolations p func locals)
  | .ifElse cond _ _ => cond.leaves.flatMap (leafViolations p func locals)
  | .forRange _ _ step _ => if step = 0 then [.zeroStep func] else []

end

/-- The violations in the body of the function, statement by statement. The locals of a statement
are the parameters and those that the part of the body before it declares. -/
def Func.violations (p : Program) (f : Func) : List Issue :=
  f.body.spots.flatMap fun (before, s) =>
    s.violations p f.name (f.paramCount + before.localCount)

def Program.nameViolations (p : Program) (f : Func) (i : Nat) : List Issue :=
  (if IsIdentifier f.name then [] else [.badName i f.name]) ++
    if ∃ g ∈ p.funcs.take i, g.name = f.name then [.duplicateName f.name] else []

def Program.violations (p : Program) : List Issue :=
  p.funcs.zipIdx.flatMap (fun (f, i) => p.nameViolations f i) ++
    p.funcs.flatMap (·.violations p)

section

variable (p : Program) (func : String)

theorem Expr.issues_eq (locals : Nat) (e : Expr) :
    e.issues p func locals = e.leaves.flatMap (leafViolations p func locals) := by
  induction e with
  | num x => simp [issues, leaves, leafViolations]
  | var v => simp [issues, leaves, leafViolations, Program.declares_iff]
  | binary op lhs rhs ihl ihr => rw [issues, leaves, List.flatMap_append, ihl, ihr]

theorem Expr.targetIssues_eq (target : Expr) :
    target.targetIssues func = if target.IsPlace then [] else [.badTarget func target] := by
  simp only [targetIssues, isPlace_iff]

theorem Expr.isPlace_of_targetIssues {target : Expr} (h : target.targetIssues func = []) :
    target.IsPlace := by
  rw [targetIssues_eq, ite_eq_left_iff] at h
  exact not_not.mp fun hnot => List.cons_ne_nil _ _ (h hnot)

def violationsAt (visits : List (Nat × Stmt)) : List Issue :=
  visits.flatMap fun (locals, s) => s.violations p func locals

mutual

theorem Stmt.issues_eq (locals : Nat) (s : Stmt) :
    (s.issues p func locals).1 = violationsAt p func (s.checked p func locals) := by
  cases s with
  | block b => exact Block.issues_eq locals b
  | assign target value =>
    rw [Stmt.issues, Expr.targetIssues_eq, Expr.issues_eq, Expr.issues_eq, List.append_assoc,
      ← List.flatMap_append]
    exact (List.append_nil _).symm
  | ifElse cond t e =>
    rw [Stmt.issues_ifElse, Expr.issues_eq, Block.issues_eq locals t, Block.issues_eq _ e,
      Stmt.checked, Block.issues_locals]
    simp only [violationsAt, List.cons_append, List.flatMap_cons, List.flatMap_append,
      Stmt.violations]
  | forRange init limit step b =>
    exact congrArg ((if step = 0 then [.zeroStep func] else []) ++ ·) (Block.issues_eq _ b)

theorem Block.issues_eq (locals : Nat) (b : Block Stmt) :
    (b.issues p func locals).1 = violationsAt p func (b.checked p func locals) := by
  cases b with
  | mk ts ss => exact Stmt.issuesOf_eq _ ss

theorem Stmt.issuesOf_eq (locals : Nat) (ss : List Stmt) :
    (Stmt.issuesOf p func locals ss).1 =
      violationsAt p func (Stmt.checkedIn p func locals ss) := by
  cases ss with
  | nil => rfl
  | cons s ss =>
    rw [Stmt.issuesOf_cons, Stmt.issues_eq locals s, Stmt.issuesOf_eq _ ss, Stmt.checkedIn,
      Stmt.issues_locals]
    simp only [violationsAt, List.flatMap_append]

end

end

theorem Func.bodyIssues_eq (p : Program) (f : Func) : f.bodyIssues p = f.violations p := by
  rw [bodyIssues, Block.issues_eq, Block.checked_eq, violationsAt, List.flatMap_map]
  rfl

namespace Program

theorem findIdx?_name_iff {p : Program} {f : Func} {i : Nat} (h : p.funcs[i]? = some f) :
    p.funcs.findIdx? (·.name == f.name) = some i ↔ ¬∃ g ∈ p.funcs.take i, g.name = f.name := by
  obtain ⟨hi, hf⟩ := List.getElem?_eq_some_iff.mp h
  rw [List.findIdx?_eq_some_iff_getElem]
  simp only [List.mem_take_iff_getElem, beq_iff_eq]
  constructor
  · rintro ⟨_, -, hbefore⟩ ⟨g, ⟨j, hj, rfl⟩, hname⟩
    exact hbefore j (by omega) hname
  · intro hnone
    refine ⟨hi, by rw [hf], fun j hj hname => hnone ⟨_, ⟨j, by omega, rfl⟩, hname⟩⟩

theorem nameIssues_eq {p : Program} {f : Func} {i : Nat} (h : p.funcs[i]? = some f) :
    p.nameIssues f i = p.nameViolations f i := by
  simp only [nameIssues, nameViolations, isIdentifier_iff, findIdx?_name_iff h, ite_not]

theorem issues_eq (p : Program) : p.issues = p.violations := by
  have hnames : p.funcs.zipIdx.flatMap (fun (f, i) => p.nameIssues f i) =
      p.funcs.zipIdx.flatMap fun (f, i) => p.nameViolations f i := by
    apply List.flatMap_congr
    rintro ⟨f, i⟩ hmem
    exact nameIssues_eq (List.mem_zipIdx_iff_getElem?.mp hmem)
  have hbodies : (fun f : Func => f.bodyIssues p) = fun f => f.violations p :=
    funext (Func.bodyIssues_eq p)
  rw [issues, violations, hnames, hbodies]

end Program

/-- The statement is as it should be outside its blocks. -/
structure Stmt.WellFormed (p : Program) (locals : Nat) (s : Stmt) : Prop where
  finite : ∀ e ∈ s.exprs, ∀ x, .inl x ∈ e.leaves → x.isFinite = true
  declared : ∀ e ∈ s.exprs, ∀ v, .inr v ∈ e.leaves → p.Declares locals v
  step_ne : ∀ init limit step b, s = .forRange init limit step b → step ≠ 0
  target : ∀ target value, s = .assign target value → target.IsPlace

structure Program.WellFormed (p : Program) : Prop where
  names : ∀ f ∈ p.funcs, IsIdentifier f.name
  distinct : (p.funcs.map Func.name).Nodup
  stmts : ∀ f ∈ p.funcs, ∀ before s, (before, s) ∈ f.body.spots →
    s.WellFormed p (f.paramCount + before.localCount)

theorem flatMap_leafViolations_eq_nil {p : Program} {func : String} {locals : Nat}
    {leaves : List (Binary64 ⊕ Variable)} :
    leaves.flatMap (leafViolations p func locals) = [] ↔
      (∀ x, .inl x ∈ leaves → x.isFinite = true) ∧ ∀ v, .inr v ∈ leaves → p.Declares locals v := by
  simp only [List.flatMap_eq_nil_iff, Sum.forall, leafViolations, ite_eq_left_iff,
    List.cons_ne_nil, imp_false, not_not]

theorem Stmt.violations_eq_nil_iff {p : Program} {func : String} {locals : Nat} (s : Stmt) :
    s.violations p func locals = [] ↔ s.WellFormed p locals := by
  cases s with
  | block b => exact ⟨fun _ => ⟨nofun, nofun, nofun, nofun⟩, fun _ => rfl⟩
  | assign target value =>
    rw [violations, List.append_eq_nil_iff, ite_eq_left_iff, List.flatMap_append,
      List.append_eq_nil_iff, flatMap_leafViolations_eq_nil, flatMap_leafViolations_eq_nil]
    constructor
    · rintro ⟨hplace, ⟨htf, htd⟩, hvf, hvd⟩
      refine ⟨?_, ?_, nofun, ?_⟩
      · simpa [exprs] using ⟨htf, hvf⟩
      · simpa [exprs] using ⟨htd, hvd⟩
      · rintro _ _ ⟨rfl, rfl⟩
        exact not_not.mp fun h => List.cons_ne_nil _ _ (hplace h)
    · rintro ⟨hfinite, hdeclared, -, hplace⟩
      have htarget : target ∈ (assign target value).exprs := List.mem_cons_self
      have hvalue : value ∈ (assign target value).exprs := List.mem_cons_of_mem _ List.mem_cons_self
      exact ⟨fun h => absurd (hplace target value rfl) h,
        ⟨hfinite target htarget, hdeclared target htarget⟩, hfinite value hvalue,
        hdeclared value hvalue⟩
  | ifElse cond t e =>
    rw [violations, flatMap_leafViolations_eq_nil]
    constructor
    · rintro ⟨hfinite, hdeclared⟩
      exact ⟨by simpa [exprs] using hfinite, by simpa [exprs] using hdeclared, nofun, nofun⟩
    · intro h
      exact ⟨h.finite cond List.mem_cons_self, h.declared cond List.mem_cons_self⟩
  | forRange init limit step b =>
    rw [violations, ite_eq_right_iff]
    constructor
    · intro h
      refine ⟨nofun, nofun, ?_, nofun⟩
      rintro _ _ _ _ ⟨rfl, rfl, rfl, rfl⟩ hzero
      exact List.cons_ne_nil _ _ (h hzero)
    · exact fun h hzero => absurd hzero (h.step_ne init limit step b rfl)

theorem Func.violations_eq_nil_iff {p : Program} (f : Func) :
    f.violations p = [] ↔ ∀ before s, (before, s) ∈ f.body.spots →
      s.WellFormed p (f.paramCount + before.localCount) := by
  simp only [violations, List.flatMap_eq_nil_iff, Prod.forall, Stmt.violations_eq_nil_iff]

namespace Program

theorem nameViolations_eq_nil_iff {p : Program} {f : Func} {i : Nat} :
    p.nameViolations f i = [] ↔ IsIdentifier f.name ∧ ∀ g ∈ p.funcs.take i, g.name ≠ f.name := by
  simp only [nameViolations, List.append_eq_nil_iff, ite_eq_left_iff, ite_eq_right_iff,
    List.cons_ne_nil, imp_false, not_not, not_exists, not_and]

theorem nodup_names_iff {p : Program} :
    (p.funcs.map Func.name).Nodup ↔
      ∀ (f : Func) i, p.funcs[i]? = some f → ∀ g ∈ p.funcs.take i, g.name ≠ f.name := by
  rw [List.Nodup, List.pairwise_map, List.pairwise_iff_getElem]
  constructor
  · intro h f i hf g hg
    obtain ⟨hi, rfl⟩ := List.getElem?_eq_some_iff.mp hf
    obtain ⟨j, hj, rfl⟩ := List.mem_take_iff_getElem.mp hg
    exact h j i (by omega) hi (by omega)
  · intro h j i hj hi hlt
    refine h _ i (List.getElem?_eq_getElem hi) _ ?_
    exact List.mem_take_iff_getElem.mpr ⟨j, by omega, rfl⟩

theorem violations_eq_nil_iff (p : Program) : p.violations = [] ↔ p.WellFormed := by
  have hmem (f : Func) : f ∈ p.funcs ↔ ∃ i, p.funcs[i]? = some f := List.mem_iff_getElem?
  rw [violations, List.append_eq_nil_iff, List.flatMap_eq_nil_iff, List.flatMap_eq_nil_iff]
  simp only [Prod.forall, List.mem_zipIdx_iff_getElem?, nameViolations_eq_nil_iff,
    Func.violations_eq_nil_iff]
  constructor
  · rintro ⟨hnames, hstmts⟩
    refine ⟨fun f hf => ?_, nodup_names_iff.mpr fun f i hi => (hnames f i hi).2, hstmts⟩
    obtain ⟨i, hi⟩ := (hmem f).mp hf
    exact (hnames f i hi).1
  · rintro ⟨hnames, hdistinct, hstmts⟩
    refine ⟨fun f i hi => ⟨hnames f ((hmem f).mpr ⟨i, hi⟩), ?_⟩, hstmts⟩
    exact nodup_names_iff.mp hdistinct f i hi

theorem wellFormed_of_issues {p : Program} (h : p.issues = []) : p.WellFormed := by
  rwa [← violations_eq_nil_iff, ← issues_eq]

theorem bodyIssues_of_issues {p : Program} (h : p.issues = []) :
    ∀ f ∈ p.funcs, f.bodyIssues p = [] :=
  List.flatMap_eq_nil_iff.mp (List.append_eq_nil_iff.mp h).2

/-- A second function of a name is listed for the name, and then as a duplicate. -/
example : issues { funcs := [{ name := "1" }, { name := "f" }, { name := "1" }] } =
    [.badName 0 "1", .badName 2 "1", .duplicateName "1"] := by decide

end Program

end ShaderTree
