import ShaderTree.Glsl.Literal
import ShaderTree.Glsl.Name
import ShaderTree.Layout
import ShaderTree.Program

namespace ShaderTree

/-- Operands stand in parentheses, so that no precedence matters. -/
def Expr.glsl : Expr → String
  | num x => x.glsl
  | var v => v.glslName
  | binary op lhs rhs => "(" ++ lhs.glsl ++ ") " ++ op.token ++ " (" ++ rhs.glsl ++ ")"

namespace Glsl

structure Param where
  direction : Direction
  type : TypeName
  index : Nat
deriving DecidableEq

inductive Clause
  | structOpen (i : Nat)
  | member (type : TypeName) (i : Nat)
  | structClose
  | global (c : Category) (type : TypeName) (i : Nat)
  | funcOpen (name : String) (params : List Param)
  | local (type : TypeName) (i : Nat)
  | blockOpen
  | assign (target value : Expr)
  | ifOpen (cond : Expr)
  | elseOpen
  | forOpen (counter : Nat) (init limit step : Int32)
  | close
deriving DecidableEq

def qualifier : Category → String
  | .uniform => "uniform"
  | .attribute => "attribute"
  | .varying => "varying"
  | .local => "local"

def localName (i : Nat) : String := variableName .local i

def Param.text (p : Param) : String :=
  p.direction.keyword ++ " " ++ p.type.text ++ " " ++ localName p.index

def paramsText (ps : List Param) : String :=
  if ps.isEmpty then "void" else ", ".intercalate (ps.map Param.text)

def increment (step : Int32) : String :=
  if step = 1 then "++" else if step = -1 then "--" else " += " ++ toString step.toInt

def Clause.text : Clause → String
  | structOpen i => "struct " ++ structName i ++ " \x7b"
  | member t i => t.text ++ " " ++ memberName i ++ ";"
  | structClose => "\x7d;"
  | global c t i => qualifier c ++ " " ++ t.text ++ " " ++ variableName c i ++ ";"
  | funcOpen name ps => "void " ++ name ++ "(" ++ paramsText ps ++ ") \x7b"
  | «local» t i => t.text ++ " " ++ localName i ++ ";"
  | blockOpen => "\x7b"
  | assign target value => target.glsl ++ " = " ++ value.glsl ++ ";"
  | ifOpen cond => "if (" ++ cond.glsl ++ ") \x7b"
  | elseOpen => "\x7d else \x7b"
  | forOpen k init limit step =>
    "for (int " ++ localName k ++ " = " ++ toString init.toInt ++ "; " ++ localName k ++ " < " ++
      toString limit.toInt ++ "; " ++ localName k ++ increment step ++ ") \x7b"
  | close => "\x7d"

structure Placed where
  depth : Nat
  clause : Clause
deriving DecidableEq

def Placed.line (c : Placed) : Line := ⟨c.depth, c.clause.text⟩

/-- The clauses on lines of their own, with a tab for each level, and a line feed at the end. -/
def text (cs : List Placed) : String :=
  "\n".intercalate (cs.map fun c => c.line.indented "\t") ++ "\n"

end Glsl

end ShaderTree
