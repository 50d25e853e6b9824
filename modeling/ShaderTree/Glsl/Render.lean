import ShaderTree.Glsl.Clause
import ShaderTree.Glsl.StructTable
import ShaderTree.Listing.Print

namespace ShaderTree

namespace Glsl

inductive RenderError
  | outOfRange (v : Variable) (available : Nat)
  | uncollected (t : Ty)
deriving DecidableEq

def RenderError.message : RenderError → String
  | outOfRange v available =>
    "variable " ++ v.text ++ " (" ++ v.glslName ++ ") is out of range: " ++ toString available ++
      " available"
  | uncollected t => "struct type " ++ t.text ++ " was not collected from the program"

section

variable (p : Program) (table : StructTable)

def typeName (t : Ty) : Except RenderError TypeName :=
  match table.typeName? t with
  | some name => .ok name
  | none => .error (.uncollected t)

/-- Refuses the first variable that has not been declared, with `locals` locals declared so far. -/
def checkExpr (locals : Nat) : Expr → Except RenderError Unit
  | .num _ => .ok ()
  | .var v =>
    let available := p.available locals v.category
    if v.index.toNat < available then .ok () else .error (.outOfRange v available)
  | .binary _ lhs rhs => do
    checkExpr locals lhs
    checkExpr locals rhs

def declareLocals (depth next : Nat) : List Ty → Except RenderError (List Placed × Nat)
  | [] => .ok ([], next)
  | t :: ts => do
    let name ← typeName table t
    let (rest, last) ← declareLocals depth (next + 1) ts
    .ok (⟨depth, .local name next⟩ :: rest, last)

def declareParams (next : Nat) : List (Direction × Ty) → Except RenderError (List Param × Nat)
  | [] => .ok ([], next)
  | (d, t) :: ps => do
    let name ← typeName table t
    let (rest, last) ← declareParams (next + 1) ps
    .ok (⟨d, name, next⟩ :: rest, last)

mutual

/-- The clauses of the statement, and the number of locals declared behind it. -/
def renderStmt (depth next : Nat) : Stmt → Except RenderError (List Placed × Nat)
  | .block b => do
    let (body, last) ← renderBlock (depth + 1) next b
    .ok (⟨depth, .blockOpen⟩ :: body ++ [⟨depth, .close⟩], last)
  | .assign target value => do
    checkExpr p next target
    checkExpr p next value
    .ok ([⟨depth, .assign target value⟩], next)
  | .ifElse cond t e => do
    checkExpr p next cond
    let (thenBody, mid) ← renderBlock (depth + 1) next t
    let (elseBody, last) ← renderBlock (depth + 1) mid e
    .ok (⟨depth, .ifOpen cond⟩ :: thenBody ++ ⟨depth, .elseOpen⟩ :: elseBody ++ [⟨depth, .close⟩],
      last)
  | .forRange init limit step b => do
    let (body, last) ← renderBlock (depth + 1) (next + 1) b
    .ok (⟨depth, .forOpen next init limit step⟩ :: body ++ [⟨depth, .close⟩], last)

def renderBlock (depth next : Nat) : Block Stmt → Except RenderError (List Placed × Nat)
  | ⟨ts, ss⟩ => do
    let (locals, mid) ← declareLocals table depth next ts
    let (body, last) ← renderStmts depth mid ss
    .ok (locals ++ body, last)

def renderStmts (depth next : Nat) : List Stmt → Except RenderError (List Placed × Nat)
  | [] => .ok ([], next)
  | s :: ss => do
    let (clauses, mid) ← renderStmt depth next s
    let (rest, last) ← renderStmts depth mid ss
    .ok (clauses ++ rest, last)

end

def renderFunc (f : Func) : Except RenderError (List Placed) := do
  let (params, next) ← declareParams table 0 f.params
  let (body, _) ← renderBlock p table 1 next f.body
  .ok (⟨0, .funcOpen f.name params⟩ :: body ++ [⟨0, .close⟩])

def renderFuncs : List Func → Except RenderError (List Placed)
  | [] => .ok []
  | f :: fs => do
    let clauses ← renderFunc p table f
    let rest ← renderFuncs fs
    .ok (clauses ++ rest)

def renderMembers (i : Nat) : List Ty → Except RenderError (List Placed)
  | [] => .ok []
  | t :: ts => do
    let name ← typeName table t
    let rest ← renderMembers (i + 1) ts
    .ok (⟨1, .member name i⟩ :: rest)

def renderStructs : List (List Ty) → Except RenderError (List Placed)
  | [] => .ok []
  | ms :: rest => do
    let members ← renderMembers table 0 ms
    let others ← renderStructs rest
    match table.findIdx? (· = ms) with
    | some i => .ok (⟨0, .structOpen i⟩ :: members ++ ⟨0, .structClose⟩ :: others)
    | none => .error (.uncollected (.struct ms))

def renderGlobals (c : Category) (i : Nat) : List Ty → Except RenderError (List Placed)
  | [] => .ok []
  | t :: ts => do
    let name ← typeName table t
    let rest ← renderGlobals c (i + 1) ts
    .ok (⟨0, .global c name i⟩ :: rest)

end

def renderHead (p : Program) (table : StructTable) : Except RenderError (List Placed) := do
  let structs ← renderStructs table table.definitionOrder
  let uniforms ← renderGlobals table .uniform 0 p.uniforms
  let attributes ← renderGlobals table .attribute 0 p.attributes
  let varyings ← renderGlobals table .varying 0 p.varyings
  .ok (structs ++ uniforms ++ attributes ++ varyings)

def renderClauses (p : Program) : Except RenderError (List Placed) := do
  let table := StructTable.ofProgram p
  let head ← renderHead p table
  let funcs ← renderFuncs p table p.funcs
  .ok (head ++ funcs)

end Glsl

/-- The GLSL text of the program: definitions of its structs, its global variables, its functions.
-/
def Program.render (p : Program) : Except Glsl.RenderError String := do
  let clauses ← Glsl.renderClauses p
  .ok (Glsl.text clauses)

end ShaderTree
