import ShaderTree.Check.Issue

namespace ShaderTree

/-- A letter or underscore, then letters, digits and underscores, all of ASCII. -/
def isIdentifier (name : String) : Bool :=
  match name.toList with
  | [] => false
  | c :: cs => (c.isAlpha || c == '_') && cs.all fun c => c.isAlphanum || c == '_'

def Expr.isAssignable : Expr → Bool
  | var ⟨.local, _⟩ => true
  | var ⟨.varying, _⟩ => true
  | _ => false

section

variable (p : Program) (func : String)

def Expr.issues (locals : Nat) : Expr → List Issue
  | num x => if x.isFinite then [] else [.nonFinite func x]
  | var v =>
    let available := p.available locals v.category
    if v.index.toNat < available then [] else [.outOfRange func v available]
  | binary _ lhs rhs => lhs.issues locals ++ rhs.issues locals

def Expr.targetIssues (target : Expr) : List Issue :=
  if target.isAssignable then [] else [.badTarget func target]

mutual

/-- The issues of the statement, and the number of locals declared behind it. A block declares all
of its locals at once, a loop its counter in front of its body. -/
def Stmt.issues (locals : Nat) : Stmt → List Issue × Nat
  | .block b => Block.issues locals b
  | .assign target value =>
    (target.targetIssues func ++ target.issues p func locals ++ value.issues p func locals, locals)
  | .ifElse cond t e =>
    let (tIssues, tLocals) := Block.issues locals t
    let (eIssues, eLocals) := Block.issues tLocals e
    (cond.issues p func locals ++ tIssues ++ eIssues, eLocals)
  | .forRange _ _ step b =>
    let (bIssues, bLocals) := Block.issues (locals + 1) b
    ((if step = 0 then [.zeroStep func] else []) ++ bIssues, bLocals)

def Block.issues (locals : Nat) : Block Stmt → List Issue × Nat
  | ⟨ts, ss⟩ => Stmt.issuesOf (locals + ts.length) ss

def Stmt.issuesOf (locals : Nat) : List Stmt → List Issue × Nat
  | [] => ([], locals)
  | s :: ss =>
    let (sIssues, sLocals) := s.issues locals
    let (restIssues, restLocals) := Stmt.issuesOf sLocals ss
    (sIssues ++ restIssues, restLocals)

end

end

def Func.bodyIssues (p : Program) (f : Func) : List Issue :=
  (f.body.issues p f.name f.paramCount).1

/-- The issues of a function's name; the first function of a name is no duplicate. -/
def Program.nameIssues (p : Program) (f : Func) (i : Nat) : List Issue :=
  (if isIdentifier f.name then [] else [.badName i f.name]) ++
    if p.funcs.findIdx? (·.name == f.name) = some i then [] else [.duplicateName f.name]

/-- The issues of the names of the functions come first, then those of the bodies. -/
def Program.issues (p : Program) : List Issue :=
  p.funcs.zipIdx.flatMap (fun (f, i) => p.nameIssues f i) ++ p.funcs.flatMap (·.bodyIssues p)

end ShaderTree
