import ShaderTree.Layout
import ShaderTree.Listing.Literal
import ShaderTree.Program

namespace ShaderTree

mutual

def Ty.text : Ty → String
  | .basic b => b.token
  | .struct [] => "struct \x7b\x7d"
  | .struct (t :: ts) => "struct \x7b " ++ Ty.text t ++ Ty.textRest ts ++ " \x7d"

def Ty.textRest : List Ty → String
  | [] => ""
  | t :: ts => ", " ++ Ty.text t ++ Ty.textRest ts

end

def Variable.text (v : Variable) : String :=
  String.ofList ['%', v.category.letter] ++ toString v.index.toNat

def Expr.text : Expr → String
  | num x => x.text
  | var v => v.text
  | binary op lhs rhs => op.name ++ "(" ++ lhs.text ++ ", " ++ rhs.text ++ ")"

def localLines (depth : Nat) (ts : List Ty) : List Line :=
  ts.map fun t => ⟨depth, "local " ++ t.text⟩

mutual

def Stmt.lines (depth : Nat) : Stmt → List Line
  | .block b => ⟨depth, "\x7b"⟩ :: Block.lines (depth + 1) b ++ [⟨depth, "\x7d"⟩]
  | .assign target value => [⟨depth, target.text ++ " = " ++ value.text⟩]
  | .ifElse cond t e =>
    ⟨depth, "if " ++ cond.text ++ " \x7b"⟩ :: Block.lines (depth + 1) t ++
      ⟨depth, "\x7d else \x7b"⟩ :: Block.lines (depth + 1) e ++ [⟨depth, "\x7d"⟩]
  | .forRange init limit step b =>
    ⟨depth, "for " ++ toString init.toInt ++ ".." ++ toString limit.toInt ++ " step " ++
      toString step.toInt ++ " \x7b"⟩ :: Block.lines (depth + 1) b ++ [⟨depth, "\x7d"⟩]

def Block.lines (depth : Nat) : Block Stmt → List Line
  | ⟨locals, stmts⟩ => localLines depth locals ++ Stmt.linesOf depth stmts

def Stmt.linesOf (depth : Nat) : List Stmt → List Line
  | [] => []
  | s :: ss => s.lines depth ++ Stmt.linesOf depth ss

end

def Func.paramText (param : Direction × Ty) : String := param.1.keyword ++ " " ++ param.2.text

def Func.lines (depth : Nat) (f : Func) : List Line :=
  ⟨depth, "func @" ++ f.name ++ "(" ++ ", ".intercalate (f.params.map Func.paramText) ++
    ") \x7b"⟩ :: f.body.lines (depth + 1) ++ [⟨depth, "\x7d"⟩]

def globalLines (keyword : String) (ts : List Ty) : List Line :=
  ts.map fun t => ⟨1, keyword ++ " " ++ t.text⟩

def Program.lines (p : Program) : List Line :=
  ⟨0, "program \x7b"⟩ :: globalLines "uniform" p.uniforms ++ globalLines "attribute" p.attributes ++
    globalLines "varying" p.varyings ++ p.funcs.flatMap (Func.lines 1) ++ [⟨0, "\x7d"⟩]

/-- The lines with four spaces for each level, every one ended by a line feed. -/
def listing (ls : List Line) : String :=
  String.join (ls.map fun l => l.indented "    " ++ "\n")

def Stmt.listing (s : Stmt) : String := ShaderTree.listing (s.lines 0)

def Block.listing (b : Block Stmt) : String := (Stmt.block b).listing

def Func.listing (f : Func) : String := ShaderTree.listing (f.lines 0)

def Program.listing (p : Program) : String := ShaderTree.listing p.lines

end ShaderTree
