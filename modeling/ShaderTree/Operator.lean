namespace ShaderTree

inductive Operator
  | add | sub | mul | div | rem
  | shl | shr
  | lt | le | gt | ge | eq | ne
  | bitAnd | bitXor | bitOr
  | and | or
deriving DecidableEq, Repr

namespace Operator

def all : List Operator :=
  [add, sub, mul, div, rem, shl, shr, lt, le, gt, ge, eq, ne, bitAnd, bitXor, bitOr, and, or]

theorem mem_all (op : Operator) : op ∈ all := by cases op <;> decide

def token : Operator → String
  | add => "+"
  | sub => "-"
  | mul => "*"
  | div => "/"
  | rem => "%"
  | shl => "<<"
  | shr => ">>"
  | lt => "<"
  | le => "<="
  | gt => ">"
  | ge => ">="
  | eq => "=="
  | ne => "!="
  | bitAnd => "&"
  | bitXor => "^"
  | bitOr => "|"
  | and => "&&"
  | or => "||"

def name : Operator → String
  | add => "add"
  | sub => "sub"
  | mul => "mul"
  | div => "div"
  | rem => "rem"
  | shl => "shl"
  | shr => "shr"
  | lt => "lt"
  | le => "le"
  | gt => "gt"
  | ge => "ge"
  | eq => "eq"
  | ne => "ne"
  | bitAnd => "band"
  | bitXor => "bxor"
  | bitOr => "bor"
  | and => "and"
  | or => "or"

def ofName? (s : String) : Option Operator := all.find? (·.name == s)

theorem ofName?_name (op : Operator) : ofName? op.name = some op := by cases op <;> decide

theorem name_of_ofName? {s : String} {op : Operator} (h : ofName? s = some op) : op.name = s := by
  simpa using List.find?_some h

end Operator

end ShaderTree
