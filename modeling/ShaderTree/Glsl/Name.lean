import ShaderTree.Variable
import ShaderTree.Ty

namespace ShaderTree

namespace Glsl

def letter : Category → Char
  | .uniform => 'U'
  | .attribute => 'A'
  | .varying => 'V'
  | .local => 'l'

def indexed (letter : Char) (i : Nat) : String := letter.toString ++ toString i

def variableName (c : Category) (i : Nat) : String := indexed (letter c) i

def structName (i : Nat) : String := indexed 'S' i

def memberName (i : Nat) : String := indexed 'M' i

/-- A type as it is named in GLSL: a struct by its index in the table of structs. -/
inductive TypeName
  | basic (b : BasicTy)
  | struct (i : Nat)
deriving DecidableEq, Repr

def TypeName.text : TypeName → String
  | basic b => b.token
  | struct i => structName i

end Glsl

def Variable.glslName (v : Variable) : String := Glsl.variableName v.category v.index.toNat

end ShaderTree
