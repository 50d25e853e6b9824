import ShaderTree.Listing.Print
import ShaderTree.Text.Quoted

namespace ShaderTree

inductive Issue
  /-- A variable with an index beyond what its category declares at that point. -/
  | outOfRange (func : String) (v : Variable) (available : Nat)
  /-- GLSL has no spelling for such a literal. -/
  | nonFinite (func : String) (value : Binary64)
  /-- A loop that never advances its counter. -/
  | zeroStep (func : String)
  /-- Only locals and varyings are assigned to. -/
  | badTarget (func : String) (target : Expr)
  /-- The name of the function with this index is no identifier. -/
  | badName (index : Nat) (name : String)
  | duplicateName (name : String)
deriving DecidableEq

def Issue.message : Issue → String
  | outOfRange func v available =>
    "@" ++ func ++ ": " ++ v.text ++ " is out of range (" ++ toString available ++ " available)"
  | nonFinite func value => "@" ++ func ++ ": non-finite numeric literal " ++ value.text
  | zeroStep func => "@" ++ func ++ ": for loop step must be nonzero"
  | badTarget func target => "@" ++ func ++ ": cannot assign to " ++ target.text
  | badName index name => "function #" ++ toString index ++ ": invalid name " ++ Text.quoted name
  | duplicateName name => "duplicate function name @" ++ name

end ShaderTree
