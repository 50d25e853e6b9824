import ShaderTree.Proofs.LocalNumbering

namespace ShaderTree

/-- A local in an expression, with the locals that the function declares before it, and those whose
scope is open at it. -/
structure Mention where
  index : Nat
  declared : List Nat
  visible : List Nat
deriving DecidableEq

def Mention.IsDeclared (m : Mention) : Prop := m.index ∈ m.declared

def Mention.IsVisible (m : Mention) : Prop := m.index ∈ m.visible

instance (m : Mention) : Decidable m.IsDeclared := inferInstanceAs (Decidable (_ ∈ _))

instance (m : Mention) : Decidable m.IsVisible := inferInstanceAs (Decidable (_ ∈ _))

def Expr.locals : Expr → List Nat
  | num _ => []
  | var ⟨.local, i⟩ => [i.toNat]
  | var _ => []
  | binary _ lhs rhs => lhs.locals ++ rhs.locals

namespace Glsl

def Clause.mentions : Clause → List Nat
  | assign target value => target.locals ++ value.locals
  | ifOpen cond => cond.locals
  | forOpen counter _ _ _ => [counter, counter]
  | _ => []

/-- The locals declared so far in a function, those of them whose scope is open, and for each open
brace those that were visible in front of it. -/
structure Scopes where
  declared : List Nat := []
  visible : List Nat := []
  outside : List (List Nat) := []

namespace Scopes

def enter (s : Scopes) : Scopes := { s with outside := s.visible :: s.outside }

def leave (s : Scopes) : Scopes :=
  { s with visible := s.outside.headD [], outside := s.outside.tail }

def declare (s : Scopes) (ks : List Nat) : Scopes :=
  { s with declared := s.declared ++ ks, visible := s.visible ++ ks }

def brace (s : Scopes) : Clause → Scopes
  | .funcOpen _ _ => enter {}
  | .blockOpen | .ifOpen _ | .forOpen _ _ _ _ => s.enter
  | .elseOpen => s.leave.enter
  | .close => s.leave
  | _ => s

def step (s : Scopes) (c : Clause) : Scopes := (s.brace c).declare c.declares

def run (s : Scopes) (cs : List Placed) : Scopes := cs.foldl (fun s c => s.step c.clause) s

def mentions (s : Scopes) : List Placed → List Mention
  | [] => []
  | c :: cs =>
    c.clause.mentions.map (⟨·, (s.step c.clause).declared, (s.step c.clause).visible⟩) ++
      mentions (s.step c.clause) cs

end Scopes

end Glsl

mutual

/-- The mentions of locals in the statement, with `next` locals declared before it. -/
def Stmt.mentions (visible : List Nat) (next : Nat) : Stmt → List Mention
  | .block b => Block.mentions visible next b
  | .assign target value =>
    (target.locals ++ value.locals).map (⟨·, List.range next, visible⟩)
  | .ifElse cond t e =>
    cond.locals.map (⟨·, List.range next, visible⟩) ++ Block.mentions visible next t ++
      Block.mentions visible (next + t.localCount) e
  | .forRange _ _ _ b =>
    [next, next].map (⟨·, List.range (next + 1), visible ++ [next]⟩) ++
      Block.mentions (visible ++ [next]) (next + 1) b

def Block.mentions (visible : List Nat) (next : Nat) : Block Stmt → List Mention
  | ⟨ts, ss⟩ =>
    Stmt.mentionsIn (visible ++ List.range' next ts.length) (next + ts.length) ss

def Stmt.mentionsIn (visible : List Nat) (next : Nat) : List Stmt → List Mention
  | [] => []
  | s :: ss => s.mentions visible next ++ Stmt.mentionsIn visible (next + s.localCount) ss

end

def Func.mentions (f : Func) : List Mention :=
  f.body.mentions (List.range f.paramCount) f.paramCount

/-- Every local is mentioned in the block that declares it, or in the loop that counts with it, or
is a parameter. -/
def Program.localsInScope (p : Program) : Bool :=
  p.funcs.all fun f => f.mentions.all fun m => m.IsVisible

section

variable {p : Program} {func : String}

theorem Expr.lt_of_mem_locals {next : Nat} {e : Expr} (h : e.issues p func next = []) :
    ∀ k ∈ e.locals, k < next := by
  induction e with
  | num x => simp [locals]
  | var v =>
    obtain ⟨c, i⟩ := v
    cases c with
    | «local» =>
      rw [issues, ite_eq_left_iff] at h
      simpa [locals, Program.available] using h
    | _ => simp [locals]
  | binary op lhs rhs ihl ihr =>
    obtain ⟨hl, hr⟩ := List.append_eq_nil_iff.mp h
    rw [locals, List.forall_mem_append]
    exact ⟨ihl hl, ihr hr⟩

theorem isDeclared_of_lt {next : Nat} {ks : List Nat} (h : ∀ k ∈ ks, k < next)
    (visible : List Nat) : ∀ m ∈ ks.map (⟨·, List.range next, visible⟩), Mention.IsDeclared m := by
  intro m hm
  obtain ⟨k, hk, rfl⟩ := List.mem_map.mp hm
  exact List.mem_range.mpr (h k hk)

mutual

theorem Stmt.isDeclared_of_mem_mentions (visible : List Nat) (next : Nat) {s : Stmt}
    (h : (s.issues p func next).1 = []) : ∀ m ∈ s.mentions visible next, m.IsDeclared := by
  cases s with
  | block b =>
    have hb : (b.issues p func next).1 = [] := h
    exact Block.isDeclared_of_mem_mentions visible next hb
  | assign target value =>
    obtain ⟨htarget, hvalue⟩ := List.append_eq_nil_iff.mp h
    have htarget := (List.append_eq_nil_iff.mp htarget).2
    refine isDeclared_of_lt (List.forall_mem_append.mpr ⟨?_, ?_⟩) visible
    · exact Expr.lt_of_mem_locals htarget
    · exact Expr.lt_of_mem_locals hvalue
  | ifElse cond t e =>
    rw [Stmt.issues_ifElse, List.append_eq_nil_iff, List.append_eq_nil_iff] at h
    obtain ⟨hcond, ht, he⟩ := h
    rw [Stmt.mentions, List.forall_mem_append, List.forall_mem_append]
    exact ⟨⟨isDeclared_of_lt (Expr.lt_of_mem_locals hcond) visible,
      Block.isDeclared_of_mem_mentions _ _ ht⟩, Block.isDeclared_of_mem_mentions _ _ he⟩
  | forRange init limit step b =>
    have hb : (b.issues p func (next + 1)).1 = [] := (List.append_eq_nil_iff.mp h).2
    have hcounter : ∀ k ∈ [next, next], k < next + 1 := by simp
    rw [Stmt.mentions, List.forall_mem_append]
    exact ⟨isDeclared_of_lt hcounter _, Block.isDeclared_of_mem_mentions _ _ hb⟩

theorem Block.isDeclared_of_mem_mentions (visible : List Nat) (next : Nat) {b : Block Stmt}
    (h : (b.issues p func next).1 = []) : ∀ m ∈ b.mentions visible next, m.IsDeclared := by
  cases b with
  | mk ts ss =>
    have hss : (Stmt.issuesOf p func (next + ts.length) ss).1 = [] := h
    exact Stmt.isDeclared_of_mem_mentionsIn _ _ hss

theorem Stmt.isDeclared_of_mem_mentionsIn (visible : List Nat) (next : Nat) {ss : List Stmt}
    (h : (Stmt.issuesOf p func next ss).1 = []) :
    ∀ m ∈ Stmt.mentionsIn visible next ss, m.IsDeclared := by
  cases ss with
  | nil => simp [Stmt.mentionsIn]
  | cons s ss =>
    rw [Stmt.issuesOf_cons, List.append_eq_nil_iff] at h
    rw [Stmt.mentionsIn, List.forall_mem_append]
    exact ⟨Stmt.isDeclared_of_mem_mentions _ _ h.1, Stmt.isDeclared_of_mem_mentionsIn _ _ h.2⟩

end

end

namespace Glsl.Scopes

theorem run_cons (s : Scopes) (c : Placed) (cs : List Placed) :
    s.run (c :: cs) = (s.step c.clause).run cs := rfl

theorem run_singleton (s : Scopes) (c : Placed) : s.run [c] = s.step c.clause := rfl

theorem run_append (s : Scopes) (cs ds : List Placed) : s.run (cs ++ ds) = (s.run cs).run ds :=
  List.foldl_append

theorem mentions_append (s : Scopes) (cs ds : List Placed) :
    s.mentions (cs ++ ds) = s.mentions cs ++ (s.run cs).mentions ds := by
  induction cs generalizing s with
  | nil => rfl
  | cons c cs ih =>
    rw [List.cons_append, mentions, mentions, ih, List.append_assoc]
    rfl

theorem mentions_cons (s : Scopes) (c : Placed) (cs : List Placed) :
    s.mentions (c :: cs) =
      c.clause.mentions.map (⟨·, (s.step c.clause).declared, (s.step c.clause).visible⟩) ++
        (s.step c.clause).mentions cs := rfl

theorem mentions_close (s : Scopes) (depth : Nat) : s.mentions [⟨depth, .close⟩] = [] := rfl

theorem declare_declare (s : Scopes) (ks ls : List Nat) :
    (s.declare ks).declare ls = s.declare (ks ++ ls) := by
  simp [declare]

theorem declare_nil (s : Scopes) : s.declare [] = s := by simp [declare]

theorem step_of_declares {s : Scopes} {c : Clause} (h : c.declares = []) :
    s.step c = s.brace c := by
  rw [step, h, declare_nil]

section

variable (table : StructTable)

theorem run_localClauses (s : Scopes) (depth next : Nat) (ts : List Ty) :
    s.run (localClauses table depth next ts) = s.declare (List.range' next ts.length) := by
  induction ts generalizing s next with
  | nil => exact s.declare_nil.symm
  | cons t ts ih =>
    have hfirst : s.run (localClauses table depth next (t :: ts)) =
        (s.declare [next]).run (localClauses table depth (next + 1) ts) := rfl
    rw [hfirst, ih, declare_declare]
    rfl

theorem mentions_localClauses (s : Scopes) (depth next : Nat) (ts : List Ty) :
    s.mentions (localClauses table depth next ts) = [] := by
  induction ts generalizing s next with
  | nil => rfl
  | cons t ts ih => exact ih _ (next + 1)

mutual

/-- Behind a statement all of its locals are declared, and none of them is visible. -/
theorem run_stmtClauses (s : Scopes) (depth next : Nat) (st : Stmt) :
    s.run (stmtClauses table depth next st) =
      { s with declared := s.declared ++ List.range' next st.localCount } := by
  cases st with
  | block b =>
    rw [stmtClauses, run_append, run_singleton, run_cons, run_blockClauses _ _ _ b,
      step_of_declares rfl, step_of_declares rfl]
    rfl
  | assign target value =>
    rw [stmtClauses, run_singleton, step_of_declares rfl, Stmt.localCount]
    simp [brace]
  | ifElse cond t e =>
    rw [stmtClauses, run_append, run_singleton, run_append, run_cons, run_cons,
      run_blockClauses _ _ _ t, run_blockClauses _ _ _ e, step_of_declares rfl,
      step_of_declares rfl, step_of_declares rfl, Stmt.localCount, ← List.range'_append_1,
      ← List.append_assoc]
    rfl
  | forRange init limit step b =>
    rw [stmtClauses, run_append, run_singleton, run_cons, run_blockClauses _ _ _ b,
      step_of_declares rfl, Stmt.localCount, ← List.range'_append_1, ← List.append_assoc]
    rfl

theorem run_blockClauses (s : Scopes) (depth next : Nat) (b : Block Stmt) :
    s.run (blockClauses table depth next b) =
      { s with
        declared := s.declared ++ List.range' next b.localCount
        visible := s.visible ++ List.range' next b.locals.length } := by
  cases b with
  | mk ts ss =>
    rw [blockClauses, run_append, run_localClauses, run_stmtsClauses _ _ _ ss, Block.localCount,
      ← List.range'_append_1, ← List.append_assoc]
    rfl

theorem run_stmtsClauses (s : Scopes) (depth next : Nat) (ss : List Stmt) :
    s.run (stmtsClauses table depth next ss) =
      { s with declared := s.declared ++ List.range' next (Stmt.localCounts ss) } := by
  cases ss with
  | nil => simp [stmtsClauses, run, Stmt.localCounts]
  | cons st ss =>
    rw [stmtsClauses, run_append, run_stmtClauses _ _ _ st, run_stmtsClauses _ _ _ ss,
      Stmt.localCounts, ← List.range'_append_1, ← List.append_assoc]

end

theorem range_append {s : Scopes} {next : Nat} (hs : s.declared = List.range next) (n : Nat) :
    s.declared ++ List.range' next n = List.range (next + n) := by
  have h : List.range' 0 next ++ List.range' (0 + next) n = List.range' 0 (next + n) :=
    List.range'_append_1
  rw [hs, List.range_eq_range', List.range_eq_range', ← h, Nat.zero_add]

mutual

/-- The mentions in the clauses of a statement are those in the statement. -/
theorem mentions_stmtClauses {next : Nat} (s : Scopes) (hs : s.declared = List.range next)
    (depth : Nat) (st : Stmt) :
    s.mentions (stmtClauses table depth next st) = st.mentions s.visible next := by
  cases st with
  | block b =>
    rw [stmtClauses, mentions_append, mentions_close, List.append_nil, mentions_cons,
      step_of_declares rfl]
    exact mentions_blockClauses s.enter hs (depth + 1) b
  | assign target value =>
    rw [stmtClauses, mentions_cons, step_of_declares rfl, Stmt.mentions, ← hs]
    exact List.append_nil _
  | ifElse cond t e =>
    have ht := mentions_blockClauses s.enter hs (depth + 1) t
    have he := mentions_blockClauses
      { s.enter with declared := s.declared ++ List.range' next t.localCount }
      (range_append hs _) (depth + 1) e
    rw [stmtClauses, mentions_append, mentions_close, List.append_nil, mentions_append,
      mentions_cons, mentions_cons, run_cons, run_blockClauses, step_of_declares rfl,
      step_of_declares rfl, Stmt.mentions]
    exact congrArg₂ (· ++ ·) (congrArg₂ (· ++ ·) (by rw [brace, ← hs]; rfl) ht) he
  | forRange init limit step b =>
    have hb := mentions_blockClauses (s.enter.declare [next]) (range_append hs 1) (depth + 1) b
    rw [stmtClauses, mentions_append, mentions_close, List.append_nil, mentions_cons,
      Stmt.mentions, ← range_append hs 1]
    exact congrArg (_ ++ ·) hb

theorem mentions_blockClauses {next : Nat} (s : Scopes) (hs : s.declared = List.range next)
    (depth : Nat) (b : Block Stmt) :
    s.mentions (blockClauses table depth next b) = b.mentions s.visible next := by
  cases b with
  | mk ts ss =>
    rw [blockClauses, mentions_append, mentions_localClauses, run_localClauses,
      mentions_stmtsClauses (s.declare _) (range_append hs _) depth ss]
    rfl

theorem mentions_stmtsClauses {next : Nat} (s : Scopes) (hs : s.declared = List.range next)
    (depth : Nat) (ss : List Stmt) :
    s.mentions (stmtsClauses table depth next ss) = Stmt.mentionsIn s.visible next ss := by
  cases ss with
  | nil => rfl
  | cons st ss =>
    rw [stmtsClauses, mentions_append, mentions_stmtClauses s hs depth st, run_stmtClauses,
      mentions_stmtsClauses _ (range_append hs _) depth ss]
    rfl

end

theorem mentions_funcClauses (s : Scopes) (f : Func) :
    s.mentions (funcClauses table f) = f.mentions := by
  have hparams : (paramsOf table 0 f.params).map (·.index) = List.range f.paramCount := by
    rw [index_paramsOf, Func.length_params, List.range_eq_range']
  rw [funcClauses, mentions_append, mentions_close, List.append_nil, mentions_cons, step,
    Clause.declares, hparams]
  exact mentions_blockClauses table (declare (enter {}) _) rfl 1 f.body

theorem mentions_flatMap_funcClauses (s : Scopes) (fs : List Func) :
    s.mentions (fs.flatMap (funcClauses table)) = fs.flatMap Func.mentions := by
  induction fs generalizing s with
  | nil => rfl
  | cons f fs ih =>
    rw [List.flatMap_cons, List.flatMap_cons, mentions_append, mentions_funcClauses, ih]

end

theorem mentions_eq_nil {cs : List Placed} (h : ∀ c ∈ cs, c.clause.mentions = []) (s : Scopes) :
    s.mentions cs = [] := by
  induction cs generalizing s with
  | nil => rfl
  | cons c cs ih =>
    obtain ⟨hc, hcs⟩ := List.forall_mem_cons.mp h
    rw [mentions_cons, hc, ih hcs]
    rfl

end Scopes

theorem Clause.mentions_of_isHead {c : Clause} (h : c.IsHead) : c.mentions = [] := by
  cases c with
  | assign | ifOpen | forOpen => exact h.elim
  | _ => rfl

end Glsl

namespace Program

theorem mentions_clauses (p : Program) :
    Glsl.Scopes.mentions {} p.clauses = p.funcs.flatMap Func.mentions := by
  have hhead : ∀ c ∈ Glsl.headClauses (.ofProgram p) p, c.clause.mentions = [] :=
    fun c hc => Glsl.Clause.mentions_of_isHead (Glsl.isHead_headClauses _ p c hc)
  rw [clauses, Glsl.Scopes.mentions_append, Glsl.Scopes.mentions_eq_nil hhead,
    Glsl.Scopes.mentions_flatMap_funcClauses]
  rfl

end Program

end ShaderTree
