import ShaderTree.Number.Binary64
import ShaderTree.Variable
import ShaderTree.Operator

namespace ShaderTree

inductive Expr
  | num (value : Binary64)
  | var (v : Variable)
  | binary (op : Operator) (lhs rhs : Expr)
deriving DecidableEq

/-- Equality with numbers compared as floating-point numbers. -/
def Expr.equal : Expr → Expr → Bool
  | num x, num y => x.equal y
  | var v, var w => v == w
  | binary p a b, binary q c d => p == q && a.equal c && b.equal d
  | _, _ => false

end ShaderTree
