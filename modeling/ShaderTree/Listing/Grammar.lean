import ShaderTree.Listing.Blank
import ShaderTree.Listing.Number
import ShaderTree.Program
import ShaderTree.Text.Alphanumeric

namespace ShaderTree

namespace Parser

def structTy (ty : Parser Ty) : Parser Ty := do
  lexeme (keyword "struct")
  lexeme (symbol '{')
  let members ← sepBy (lexeme (symbol ',')) (lexeme ty)
  symbol '}'
  pure (.struct members)

def basicTy : Parser Ty := do
  let b ← firstOf .keyword (fun b : BasicTy => b.token.toList) BasicTy.all
  pure (.basic b)

def tyStep (ty : Parser Ty) : Parser Ty := orElse (structTy ty) basicTy

def ty : Parser Ty := recursive tyStep

def var : Parser Variable := do
  symbol '%'
  let category ← firstOf .symbol (fun c : Category => [c.letter])
    [.uniform, .attribute, .varying, .local]
  let i ← index
  pure ⟨category, i⟩

def operator : Parser Operator :=
  accept .operator (fun word => Operator.ofName? (String.ofList word)) (span .letter Char.isAlpha)

def operation (expr : Parser Expr) : Parser Expr := do
  let op ← lexeme operator
  lexeme (symbol '(')
  let lhs ← lexeme expr
  lexeme (symbol ',')
  let rhs ← lexeme expr
  symbol ')'
  pure (.binary op lhs rhs)

def exprStep (expr : Parser Expr) : Parser Expr :=
  orElse (do let v ← var; pure (.var v))
    (orElse (operation expr) (do let x ← literal; pure (.num x)))

def expr : Parser Expr := recursive exprStep

def localDecl : Parser Ty := do
  lexeme (keyword "local")
  commit ty

def ifStmt (block : Parser (Block Stmt)) : Parser Stmt := do
  lexeme (keyword "if")
  commit do
    let cond ← lexeme expr
    let thenBlock ← lexeme block
    lexeme (keyword "else")
    let elseBlock ← block
    pure (.ifElse cond thenBlock elseBlock)

def forStmt (block : Parser (Block Stmt)) : Parser Stmt := do
  lexeme (keyword "for")
  commit do
    let init ← lexeme bound
    lexeme (keyword "..")
    let limit ← lexeme bound
    lexeme (keyword "step")
    let step ← lexeme bound
    let body ← block
    pure (.forRange init limit step body)

def assignStmt : Parser Stmt := do
  let target ← lexeme expr
  lexeme (symbol '=')
  let value ← commit expr
  pure (.assign target value)

def stmtOf (block : Parser (Block Stmt)) : Parser Stmt :=
  orElse (do let b ← block; pure (.block b))
    (orElse (ifStmt block) (orElse (forStmt block) assignStmt))

def blockStep (block : Parser (Block Stmt)) : Parser (Block Stmt) := do
  lexeme (symbol '{')
  commit do
    let locals ← many (lexeme localDecl)
    let stmts ← many (lexeme (stmtOf block))
    symbol '}'
    pure ⟨locals, stmts⟩

def block : Parser (Block Stmt) := recursive blockStep

def stmt : Parser Stmt := stmtOf block

/-- The directions are tried with `inout` first, since `in` begins it. -/
def param : Parser (Direction × Ty) := do
  let d ← lexeme (firstOf .keyword (fun d : Direction => d.keyword.toList) [.inout, .in, .out])
  let t ← ty
  pure (d, t)

/-- No parameter comes right after one of a later direction. -/
def inOrder : List (Direction × Ty) → Bool
  | a :: b :: ps => a.1.rank ≤ b.1.rank && inOrder (b :: ps)
  | _ => true

def params : Parser (List (Direction × Ty)) :=
  accept .order (fun ps => if inOrder ps then some ps else none) do
    lexeme (symbol '(')
    let ps ← sepBy (lexeme (symbol ',')) (lexeme param)
    symbol ')'
    pure ps

def funcName : Parser String := do
  symbol '@'
  let cs ← span .name fun c => Text.isAlphanumeric c || c == '_'
  pure (String.ofList cs)

def typesOf (d : Direction) (ps : List (Direction × Ty)) : List Ty :=
  (ps.filter (·.1 == d)).map (·.2)

def func : Parser Func := do
  lexeme (keyword "func")
  commit do
    let name ← lexeme funcName
    let ps ← lexeme params
    let body ← block
    pure ⟨name, typesOf .in ps, typesOf .inout ps, typesOf .out ps, body⟩

def globalDecl (word : String) : Parser Ty :=
  lexeme do
    lexeme (keyword word)
    commit ty

def program : Parser Program := do
  lexeme (keyword "program")
  lexeme (symbol '{')
  let uniforms ← many (globalDecl "uniform")
  let attributes ← many (globalDecl "attribute")
  let varyings ← many (globalDecl "varying")
  let funcs ← many (lexeme func)
  lexeme (symbol '}')
  pure ⟨uniforms, attributes, varyings, funcs⟩

end Parser

end ShaderTree
