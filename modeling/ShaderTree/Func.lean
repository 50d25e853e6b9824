import ShaderTree.Stmt

namespace ShaderTree

inductive Direction
  | «in» | inout | out
deriving DecidableEq, Repr

namespace Direction

def all : List Direction := [.in, inout, out]

def keyword : Direction → String
  | .in => "in"
  | inout => "inout"
  | out => "out"

def rank : Direction → Nat
  | .in => 0
  | inout => 1
  | out => 2

end Direction

/-- The parameters are the first locals of the function, those passed in before those passed in and
out, and these before those passed out. -/
structure Func where
  name : String
  inParams : List Ty := []
  inoutParams : List Ty := []
  outParams : List Ty := []
  body : Block Stmt := {}

namespace Func

def params (f : Func) : List (Direction × Ty) :=
  f.inParams.map (.in, ·) ++ f.inoutParams.map (.inout, ·) ++ f.outParams.map (.out, ·)

def paramCount (f : Func) : Nat :=
  f.inParams.length + f.inoutParams.length + f.outParams.length

theorem length_params (f : Func) : f.params.length = f.paramCount := by
  simp [params, paramCount, Nat.add_assoc]

def localCount (f : Func) : Nat := f.paramCount + f.body.localCount

def equal (f g : Func) : Bool :=
  f.name == g.name && f.inParams == g.inParams && f.inoutParams == g.inoutParams &&
    f.outParams == g.outParams && f.body.equal g.body

end Func

end ShaderTree
