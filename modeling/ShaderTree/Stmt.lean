import ShaderTree.Expr
import ShaderTree.Ty

namespace ShaderTree

/-- A block over statements of type `σ`. -/
structure Block (σ : Type) where
  locals : List Ty := []
  stmts : List σ := []
deriving DecidableEq

inductive Stmt
  | block (body : Block Stmt)
  | assign (target value : Expr)
  | ifElse (cond : Expr) (thenBlock elseBlock : Block Stmt)
  | forRange (init limit step : Int32) (body : Block Stmt)

namespace Block

variable {σ : Type}

def isEmpty (b : Block σ) : Bool := b.locals.isEmpty && b.stmts.isEmpty

def addLocal (b : Block σ) (t : Ty) : Block σ := { b with locals := b.locals ++ [t] }

def addStmt (b : Block σ) (s : σ) : Block σ := { b with stmts := b.stmts ++ [s] }

end Block

mutual

/-- The number of locals declared at any depth, by blocks and by loops, which declare their
counters. -/
def Stmt.localCount : Stmt → Nat
  | .block b => Block.localCount b
  | .assign _ _ => 0
  | .ifElse _ t e => Block.localCount t + Block.localCount e
  | .forRange _ _ _ b => 1 + Block.localCount b

def Block.localCount : Block Stmt → Nat
  | ⟨locals, stmts⟩ => locals.length + Stmt.localCounts stmts

def Stmt.localCounts : List Stmt → Nat
  | [] => 0
  | s :: ss => s.localCount + Stmt.localCounts ss

end

mutual

def Stmt.equal : Stmt → Stmt → Bool
  | .block b, .block c => Block.equal b c
  | .assign t v, .assign u w => t.equal u && v.equal w
  | .ifElse p b c, .ifElse q d e => p.equal q && Block.equal b d && Block.equal c e
  | .forRange i l s b, .forRange j m t c => i == j && l == m && s == t && Block.equal b c
  | _, _ => false

def Block.equal : Block Stmt → Block Stmt → Bool
  | ⟨as, ss⟩, ⟨bs, ts⟩ => as == bs && Stmt.equalLists ss ts

def Stmt.equalLists : List Stmt → List Stmt → Bool
  | [], [] => true
  | s :: ss, t :: ts => s.equal t && Stmt.equalLists ss ts
  | _, _ => false

end

end ShaderTree
