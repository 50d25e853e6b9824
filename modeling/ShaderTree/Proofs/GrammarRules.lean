import ShaderTree.Proofs.Faults

namespace ShaderTree

open ShaderTree.Parser

/-- The phrases of a listing, and the blank between them. -/
inductive Phrase
  | blank
  | ty
  | var
  | literal
  | bound
  | funcName
  | expr
  | localDecl
  | stmt
  | block
  | params
  /-- A declaration behind the given word. -/
  | globalDecl (word : String)
  | func
  | program
deriving DecidableEq

namespace Phrase

abbrev Value : Phrase → Type
  | blank => Unit
  | var => Variable
  | literal => Binary64
  | bound => Int32
  | funcName => String
  | expr => Expr
  | ty | localDecl | globalDecl _ => Ty
  | stmt => Stmt
  | block => Block Stmt
  | params => List (Direction × Ty)
  | func => Func
  | program => Program

def parser : (k : Phrase) → Parser k.Value
  | blank => Parser.blank
  | ty => Parser.ty
  | var => Parser.var
  | literal => Parser.literal
  | bound => Parser.bound
  | funcName => Parser.funcName
  | expr => Parser.expr
  | localDecl => Parser.localDecl
  | stmt => Parser.stmt
  | block => Parser.block
  | params => Parser.params
  | globalDecl word => Parser.globalDecl word
  | func => Parser.func
  | program => Parser.program

@[simp]
def least : Phrase → Nat
  | blank => 0
  | _ => 1

theorem alike (k : Phrase) (n : Nat) : Alike k.least n k.parser k.parser := by
  cases k with
  | blank => exact alike_blank n
  | ty => exact alike_ty n
  | var => exact alike_var n
  | literal => exact alike_literal n
  | bound => exact alike_bound n
  | funcName => exact alike_funcName n
  | expr => exact alike_expr n
  | localDecl => exact alike_localDecl n
  | stmt => exact alike_stmt n
  | block => exact alike_block n
  | params => exact alike_params n
  | globalDecl word => exact alike_globalDecl n word
  | func => exact alike_func n
  | program => exact alike_program n

end Phrase

inductive Rule : Type → Type 1
  /-- A token of at least `k` characters. -/
  | token {α : Type} (k : Nat) (p : Parser α) (takes : ∀ n, Alike k n p p) : Rule α
  | pure {α : Type} (a : α) : Rule α
  | bind {α β : Type} (r : Rule α) (f : α → Rule β) : Rule β
  | orElse {α : Type} (r q : Rule α) : Rule α
  | commit {α : Type} (r : Rule α) : Rule α
  | optional {α : Type} (r : Rule α) : Rule (Option α)
  | accept {α β : Type} (cause : Cause) (g : α → Option β) (r : Rule α) : Rule β
  | many {α : Type} (r : Rule α) : Rule (List α)
  | call (k : Phrase) : Rule k.Value

namespace Rule

variable {α β : Type}

instance : Monad Rule where
  pure := pure
  bind := bind

/-- The parser that a rule describes. -/
def parser : {α : Type} → Rule α → Parser α
  | _, token _ p _ => p
  | _, pure a => Pure.pure a
  | _, bind r f => r.parser >>= fun a => (f a).parser
  | _, orElse r q => Parser.orElse r.parser q.parser
  | _, commit r => Parser.commit r.parser
  | _, optional r => Parser.optional r.parser
  | _, accept cause g r => Parser.accept cause g r.parser
  | _, many r => Parser.many r.parser
  | _, call k => k.parser

def keyword (word : String) : Rule Unit :=
  token word.length (Parser.keyword word) fun n => alike_word n word

def symbol (c : Char) : Rule Unit :=
  token 1 (Parser.symbol c) fun n => alike_symbol n c

def digits : Rule (List Char) := token 1 Parser.digits alike_digits

def lexeme (r : Rule α) : Rule α := do
  let a ← r
  call .blank
  pure a

def sepBy (sep : Rule Unit) (item : Rule α) : Rule (List α) := do
  match ← optional item with
  | none => pure []
  | some a =>
    let as ← many (do sep; item)
    pure (a :: as)

def restOfLine : Parser Unit := fun s =>
  match afterComment? s with
  | some r => .done () r
  | none => .declined ⟨s, .keyword⟩

theorem alike_restOfLine (n : Nat) : Alike 0 n restOfLine restOfLine := by
  intro s _
  refine ⟨rfl, ?_⟩
  rw [restOfLine]
  cases h : afterComment? s with
  | none => exact leaves_declined (by decide)
  | some r => exact ⟨afterComment?_suffix h, (afterComment?_suffix h).length_le⟩

/-- One stretch of blank. That no spacing comes next is never the fault, since a comment is tried
behind it. -/
def filling : Rule Unit :=
  orElse
    (do
      let _ ← token 1 (Parser.span .symbol isSpacing) fun n => alike_span n (by decide) isSpacing
      pure ())
    (do
      symbol ';'
      token 0 restOfLine alike_restOfLine)

def structTy : Rule Ty := do
  lexeme (keyword "struct")
  lexeme (symbol '{')
  let members ← sepBy (lexeme (symbol ',')) (lexeme (call .ty))
  symbol '}'
  pure (.struct members)

def index : Rule UInt64 :=
  accept .range Parser.uint64? do
    let ds ← digits
    pure (Parser.natural ds)

def var : Rule Variable := do
  symbol '%'
  let category ← token 1 (Parser.firstOf .symbol (fun c : Category => [c.letter])
    [.uniform, .attribute, .varying, .local]) alike_category
  let i ← index
  pure ⟨category, i⟩

def literal : Rule Binary64 :=
  orElse (token 1 Parser.plainLiteral alike_plainLiteral) do
    symbol '-'
    let x ← token 1 Parser.plainLiteral alike_plainLiteral
    pure x.neg

def bound : Rule Int32 :=
  accept .range Parser.int32? do
    let minus ← optional (symbol '-')
    let ds ← digits
    pure (if minus.isSome then -(Parser.natural ds : Int) else Parser.natural ds)

def funcName : Rule String := do
  symbol '@'
  let cs ← token 1 (Parser.span .name fun c => Text.isAlphanumeric c || c == '_')
    fun n => alike_span n (by decide) _
  pure (String.ofList cs)

def operation : Rule Expr := do
  let op ← lexeme (token 1 Parser.operator alike_operator)
  lexeme (symbol '(')
  let lhs ← lexeme (call .expr)
  lexeme (symbol ',')
  let rhs ← lexeme (call .expr)
  symbol ')'
  pure (.binary op lhs rhs)

def expr : Rule Expr :=
  orElse (do let v ← call .var; pure (.var v))
    (orElse operation (do let x ← call .literal; pure (.num x)))

def decl (word : String) : Rule Ty := do
  lexeme (keyword word)
  commit (call .ty)

def ifStmt : Rule Stmt := do
  lexeme (keyword "if")
  commit do
    let cond ← lexeme (call .expr)
    let thenBlock ← lexeme (call .block)
    lexeme (keyword "else")
    let elseBlock ← call .block
    pure (.ifElse cond thenBlock elseBlock)

def forStmt : Rule Stmt := do
  lexeme (keyword "for")
  commit do
    let init ← lexeme (call .bound)
    lexeme (keyword "..")
    let limit ← lexeme (call .bound)
    lexeme (keyword "step")
    let step ← lexeme (call .bound)
    let body ← call .block
    pure (.forRange init limit step body)

def assignStmt : Rule Stmt := do
  let target ← lexeme (call .expr)
  lexeme (symbol '=')
  let value ← commit (call .expr)
  pure (.assign target value)

def stmt : Rule Stmt :=
  orElse (do let b ← call .block; pure (.block b)) (orElse ifStmt (orElse forStmt assignStmt))

def block : Rule (Block Stmt) := do
  lexeme (symbol '{')
  commit do
    let locals ← many (lexeme (call .localDecl))
    let stmts ← many (lexeme (call .stmt))
    symbol '}'
    pure ⟨locals, stmts⟩

def param : Rule (Direction × Ty) := do
  let d ← lexeme (token 1 (Parser.firstOf .keyword (fun d : Direction => d.keyword.toList)
    [.inout, .in, .out]) alike_direction)
  let t ← call .ty
  pure (d, t)

def params : Rule (List (Direction × Ty)) :=
  accept .order (fun ps => if Parser.inOrder ps then some ps else none) do
    lexeme (symbol '(')
    let ps ← sepBy (lexeme (symbol ',')) (lexeme param)
    symbol ')'
    pure ps

def func : Rule Func := do
  lexeme (keyword "func")
  commit do
    let name ← lexeme (call .funcName)
    let ps ← lexeme (call .params)
    let body ← call .block
    pure ⟨name, Parser.typesOf .in ps, Parser.typesOf .inout ps, Parser.typesOf .out ps, body⟩

def program : Rule Program := do
  lexeme (keyword "program")
  lexeme (symbol '{')
  let uniforms ← many (call (.globalDecl "uniform"))
  let attributes ← many (call (.globalDecl "attribute"))
  let varyings ← many (call (.globalDecl "varying"))
  let funcs ← many (lexeme (call .func))
  lexeme (symbol '}')
  pure ⟨uniforms, attributes, varyings, funcs⟩

end Rule

def Phrase.rule : (k : Phrase) → Rule k.Value
  | blank => do let _ ← Rule.many Rule.filling; pure ()
  | ty => .orElse Rule.structTy (.token 1 Parser.basicTy alike_basicTy)
  | var => Rule.var
  | literal => Rule.literal
  | bound => Rule.bound
  | funcName => Rule.funcName
  | expr => Rule.expr
  | localDecl => Rule.decl "local"
  | stmt => Rule.stmt
  | block => Rule.block
  | params => Rule.params
  | globalDecl word => Rule.lexeme (Rule.decl word)
  | func => Rule.func
  | program => Rule.program

namespace Rule

variable {α : Type} {s r : List Char}

theorem parser_sepBy (sep : Rule Unit) (item : Rule α) :
    (sepBy sep item).parser = Parser.sepBy sep.parser item.parser := by
  refine congrArg (Parser.optional item.parser >>= ·) (funext fun first => ?_)
  cases first <;> rfl

theorem parser_structTy : structTy.parser = Parser.structTy Parser.ty :=
  congrArg
    (fun list : Parser (List Ty) => do
      Parser.lexeme (Parser.keyword "struct")
      Parser.lexeme (Parser.symbol '{')
      let members ← list
      Parser.symbol '}'
      Pure.pure (Ty.struct members))
    (parser_sepBy (lexeme (symbol ',')) (lexeme (call .ty)))

theorem parser_params : params.parser = Parser.params :=
  congrArg
    (fun list : Parser (List (Direction × Ty)) =>
      Parser.accept .order (fun ps => if Parser.inOrder ps then some ps else none) do
        Parser.lexeme (Parser.symbol '(')
        let ps ← list
        Parser.symbol ')'
        Pure.pure ps)
    (parser_sepBy (lexeme (symbol ',')) (lexeme param))

theorem restOfLine_eq_done_iff : restOfLine s = .done () r ↔ afterComment? s = some r := by
  rw [restOfLine]
  cases afterComment? s <;> simp

theorem alike_filling (n : Nat) : Alike 1 n filling.parser filling.parser := by
  refine Alike.orElse ?_ ?_
  · exact (alike_span n (by decide) _).bind_shorter fun _ m _ => alike_pure m ()
  · exact (alike_symbol n ';').bind_shorter fun _ m _ => alike_restOfLine m

theorem unfailing_filling (n : Nat) : Unfailing n filling.parser := by
  refine Unfailing.orElse ?_ ?_
  · exact unfailing_span.bind (alike_span n (by decide) _) fun _ _ _ => unfailing_pure ()
  · refine unfailing_firstOf.bind (alike_symbol n ';') fun _ _ _ s e _ h => ?_
    change restOfLine s = .failed e at h
    rw [restOfLine] at h
    split at h <;> cases h

theorem skipBlank_of_filling (h : filling.parser s = .done () r) : skipBlank r = skipBlank s := by
  obtain h | ⟨-, h⟩ := orElse_eq_done_iff.mp h
  · obtain ⟨word, t, hword, ht⟩ := bind_eq_done_iff.mp h
    obtain ⟨rfl, -, hall, -⟩ := span_eq_done_iff.mp hword
    obtain ⟨-, rfl⟩ := pure_eq_done_iff.mp ht
    exact (Blank.of_spacing hall).skipBlank_eq.symm
  · obtain ⟨_, t, ht, hrest⟩ := bind_eq_done_iff.mp h
    obtain rfl := symbol_eq_done_iff.mp ht
    obtain ⟨cs, rfl, hcs, hend⟩ := afterComment?_eq_some_iff.mp (restOfLine_eq_done_iff.mp hrest)
    exact (skipBlank_comment hcs hend).symm

theorem skipBlank_of_declines (h : Declines filling.parser s) : skipBlank s = s := by
  obtain ⟨hspacing, hcomment⟩ := declines_orElse_iff.mp h
  fun_cases skipBlank s with
  | case1 => rfl
  | case2 c cs hc =>
    -- a spacing character would have been taken up
    have hends : Ends isSpacing (c :: cs) :=
      (opensWith_span.bind (fun _ => neverDeclines_pure ()) (c :: cs)).mp hspacing
    rw [hends c rfl] at hc
    cases hc
  | case3 cs rest hrest hc =>
    have hdone : (do Parser.symbol ';'; restOfLine) (';' :: cs) = .done () rest :=
      (bind_done symbol_done).trans (restOfLine_eq_done_iff.mpr hrest)
    exact absurd hdone hcomment.ne_done
  | case4 | case5 => rfl

theorem many_filling (s : List Char) :
    ∃ stretches, Parser.many filling.parser s = .done stretches (skipBlank s) := by
  induction hlen : s.length using Nat.strongRecOn generalizing s with
  | _ l ih =>
    have hleaves := (alike_filling s.length s (Nat.le_refl _)).2
    cases hs : filling.parser s with
    | done u r =>
      rw [hs] at hleaves
      have hshort : r.length < s.length := hleaves.2
      obtain ⟨us, hus⟩ := ih r.length (by omega) r rfl
      rw [skipBlank_of_filling hs] at hus
      exact ⟨u :: us, many_cons alike_filling hs hus⟩
    | declined e =>
      have hdeclines : Declines filling.parser s := ⟨e, hs⟩
      rw [skipBlank_of_declines hdeclines]
      exact ⟨[], many_nil hdeclines⟩
    | failed e => exact absurd hs (unfailing_filling s.length s e (Nat.le_refl _))

end Rule

/-- The rule of a phrase describes its parser. -/
theorem Phrase.parser_rule (k : Phrase) : k.rule.parser = k.parser := by
  cases k with
  | blank =>
    funext s
    obtain ⟨stretches, h⟩ := Rule.many_filling s
    exact bind_done h
  | ty => exact (congrArg (Parser.orElse · basicTy) Rule.parser_structTy).trans ty_eq.symm
  | expr => exact expr_eq.symm
  | block => exact block_eq.symm
  | params => exact Rule.parser_params
  | _ => rfl

end ShaderTree
