import ShaderTree.Glsl.Name
import ShaderTree.Program

namespace ShaderTree

namespace Glsl

abbrev StructTable := List (List Ty)

namespace StructTable

mutual

/-- The table with the structs inside the type added. What is inside a struct of the table is in
the table. -/
def addTy (table : StructTable) : Ty → StructTable
  | .basic _ => table
  | .struct ms => if ms ∈ table then table else addTys (table ++ [ms]) ms

def addTys (table : StructTable) : List Ty → StructTable
  | [] => table
  | t :: ts => addTys (addTy table t) ts

end

mutual

def addStmt (table : StructTable) : Stmt → StructTable
  | .block b => addBlock table b
  | .assign _ _ => table
  | .ifElse _ t e => addBlock (addBlock table t) e
  | .forRange _ _ _ b => addBlock table b

def addBlock (table : StructTable) : Block Stmt → StructTable
  | ⟨ts, ss⟩ => addStmts (addTys table ts) ss

def addStmts (table : StructTable) : List Stmt → StructTable
  | [] => table
  | s :: ss => addStmts (addStmt table s) ss

end

def addFunc (table : StructTable) (f : Func) : StructTable :=
  addBlock (addTys table (f.params.map (·.2))) f.body

/-- Every struct once, in the order of first appearance, an enclosing struct in front of its
members. The place of a struct in the table is its index. -/
def ofProgram (p : Program) : StructTable :=
  p.funcs.foldl addFunc (addTys (addTys (addTys [] p.uniforms) p.attributes) p.varyings)

def typeName? (table : StructTable) : Ty → Option TypeName
  | .basic b => some (.basic b)
  | .struct ms => (table.findIdx? (· = ms)).map .struct

mutual

/-- The structs in `defined` and then those inside the type, each behind its members. -/
def defineTy (defined : StructTable) : Ty → StructTable
  | .basic _ => defined
  | .struct ms => if ms ∈ defined then defined else defineTys defined ms ++ [ms]

def defineTys (defined : StructTable) : List Ty → StructTable
  | [] => defined
  | t :: ts => defineTys (defineTy defined t) ts

end

def definitionOrder (table : StructTable) : StructTable :=
  table.foldl (fun defined ms => defineTy defined (.struct ms)) []

end StructTable

end Glsl

end ShaderTree
