import ShaderTree.Listing.Grammar
import ShaderTree.Proofs.Progress

namespace ShaderTree

namespace Parser

variable (n : Nat)

theorem alike_digits : Alike 1 n digits digits := alike_span n (by decide) _

theorem alike_index : Alike 1 n index index :=
  ((alike_digits n).bind_shorter fun ds m _ => alike_pure m (natural ds)).accept (by decide) _

theorem alike_bound : Alike 1 n bound bound := by
  apply Alike.accept (by decide) _
  exact (alike_symbol n '-').optional.bind fun _ =>
    (alike_digits n).bind_shorter fun _ m _ => alike_pure m _

theorem alike_sign : Alike 0 n sign sign := by
  have hsymbol (c : Char) (b : Bool) : Alike 1 n (do symbol c; pure b) (do symbol c; pure b) :=
    (alike_symbol n c).bind_shorter fun _ m _ => alike_pure m b
  exact ((hsymbol '+' false).orElse (hsymbol '-' true)).optional.bind fun _ => alike_pure n _

theorem alike_fraction : Alike 1 n fraction fraction :=
  (alike_symbol n '.').bind_shorter fun _ m _ =>
    (alike_digits m).optional.bind fun _ => alike_pure m _

theorem alike_places : Alike 1 n places places := by
  refine Alike.orElse ?_ ?_
  · exact (alike_digits n).bind_shorter fun _ m _ =>
      (alike_fraction m).optional.bind fun _ => alike_pure m _
  · exact (alike_symbol n '.').bind_shorter fun _ m _ =>
      ((alike_digits m).bind_shorter fun _ l _ => alike_pure l _).weaken

theorem alike_exponent : Alike 1 n exponent exponent :=
  ((alike_symbol n 'e').orElse (alike_symbol n 'E')).bind_shorter fun _ m _ =>
    (alike_sign m).bind fun _ =>
      ((alike_digits m).commit.bind_shorter fun _ l _ => alike_pure l _).weaken

theorem alike_decimal : Alike 1 n decimal decimal :=
  (alike_sign n).bind fun _ => (alike_places n).bind_shorter fun _ m _ =>
    (alike_exponent m).optional.bind fun _ => alike_pure m _

theorem alike_caseless {word : String} (hne : word.toList ≠ []) (x : Binary64) :
    Alike 1 n (caseless word x) (caseless word x) := by
  intro s _
  refine ⟨rfl, ?_⟩
  rw [caseless]
  split
  next h =>
    refine ⟨List.drop_suffix _ _, ?_⟩
    have hlen := congrArg List.length h
    have hpos := List.length_pos_iff.mpr hne
    simp only [List.length_map, List.length_take, String.length_toList] at hlen hpos
    rw [List.length_drop]
    omega
  next => exact leaves_declined (by decide)

theorem alike_plainLiteral : Alike 1 n plainLiteral plainLiteral :=
  ((alike_decimal n).blame (by decide)).orElse
    ((alike_caseless n (by decide) _).orElse (alike_caseless n (by decide) _))

theorem alike_literal : Alike 1 n literal literal :=
  (alike_plainLiteral n).orElse <| (alike_symbol n '-').bind_shorter fun _ m _ =>
    ((alike_plainLiteral m).bind_shorter fun _ l _ => alike_pure l _).weaken

theorem alike_basicToken : Alike 1 n
    (firstOf .keyword (fun b : BasicTy => b.token.toList) BasicTy.all)
    (firstOf .keyword (fun b : BasicTy => b.token.toList) BasicTy.all) :=
  alike_firstOf n (by decide) fun b _ => by cases b <;> decide

theorem alike_basicTy : Alike 1 n basicTy basicTy :=
  (alike_basicToken n).bind_shorter fun _ m _ => alike_pure m _

theorem contracts_tyStep : Contracts tyStep := by
  intro n p q hpq
  refine Alike.orElse ?_ (alike_basicTy n)
  refine (alike_keyword n (by decide)).lexeme.bind_shorter fun _ m hm => ?_
  refine (alike_symbol m '{').lexeme.weaken.bind fun _ => ?_
  refine (alike_symbol m ',').lexeme.sepBy (hpq m hm).lexeme |>.bind fun members => ?_
  exact (alike_symbol m '}').weaken.bind fun _ => alike_pure m _

theorem alike_ty : Alike 1 n ty ty := alike_recursive contracts_tyStep n

theorem ty_eq : ty = tyStep ty := recursive_unfold contracts_tyStep

theorem alike_category : Alike 1 n
    (firstOf .symbol (fun c : Category => [c.letter]) [.uniform, .attribute, .varying, .local])
    (firstOf .symbol (fun c : Category => [c.letter]) [.uniform, .attribute, .varying, .local]) :=
  alike_firstOf n (by decide) fun _ _ => Nat.le_refl 1

theorem alike_var : Alike 1 n var var := by
  refine (alike_symbol n '%').bind_shorter fun _ m _ => ?_
  refine (alike_category m).weaken.bind fun c => ?_
  exact (alike_index m).weaken.bind fun i => alike_pure m _

theorem alike_operator : Alike 1 n operator operator :=
  (alike_span n (by decide) _).accept (by decide) _

theorem contracts_exprStep : Contracts exprStep := by
  intro n p q hpq
  refine Alike.orElse ?_ (Alike.orElse ?_ ?_)
  · exact (alike_var n).bind_shorter fun v m _ => alike_pure m _
  · refine (alike_operator n).lexeme.bind_shorter fun op m hm => ?_
    refine (alike_symbol m '(').lexeme.weaken.bind fun _ => ?_
    refine (hpq m hm).lexeme.weaken.bind fun lhs => ?_
    refine (alike_symbol m ',').lexeme.weaken.bind fun _ => ?_
    refine (hpq m hm).lexeme.weaken.bind fun rhs => ?_
    exact (alike_symbol m ')').weaken.bind fun _ => alike_pure m _
  · exact (alike_literal n).bind_shorter fun x m _ => alike_pure m _

theorem alike_expr : Alike 1 n expr expr := alike_recursive contracts_exprStep n

theorem expr_eq : expr = exprStep expr := recursive_unfold contracts_exprStep

theorem alike_decl (word : String) :
    Alike 1 n (do lexeme (keyword word); commit ty) (do lexeme (keyword word); commit ty) :=
  (alike_word n word).lexeme.weaken.bind fun _ => (alike_ty n).commit

theorem alike_localDecl : Alike 1 n localDecl localDecl := alike_decl n "local"

theorem alike_assignStmt : Alike 1 n assignStmt assignStmt := by
  refine (alike_expr n).lexeme.bind_shorter fun target m _ => ?_
  refine (alike_symbol m '=').lexeme.weaken.bind fun _ => ?_
  exact (alike_expr m).commit.weaken.bind fun value => alike_pure m _

variable {n}

theorem Alike.ifStmt {p q : Parser (Block Stmt)} (h : Alike 1 n p q) :
    Alike 1 n (ifStmt p) (ifStmt q) := by
  refine (alike_keyword n (by decide)).lexeme.bind_shorter fun _ m hm => Alike.commit ?_
  have hpq := h.mono (Nat.le_refl 1) (Nat.le_of_lt hm)
  refine (alike_expr m).lexeme.weaken.bind fun cond => ?_
  refine hpq.lexeme.weaken.bind fun t => ?_
  refine (alike_keyword m (by decide)).lexeme.weaken.bind fun _ => ?_
  exact hpq.weaken.bind fun e => alike_pure m _

theorem Alike.forStmt {p q : Parser (Block Stmt)} (h : Alike 1 n p q) :
    Alike 1 n (forStmt p) (forStmt q) := by
  refine (alike_keyword n (by decide)).lexeme.bind_shorter fun _ m hm => Alike.commit ?_
  refine (alike_bound m).lexeme.weaken.bind fun init => ?_
  refine (alike_keyword m (by decide)).lexeme.weaken.bind fun _ => ?_
  refine (alike_bound m).lexeme.weaken.bind fun limit => ?_
  refine (alike_keyword m (by decide)).lexeme.weaken.bind fun _ => ?_
  refine (alike_bound m).lexeme.weaken.bind fun step => ?_
  exact (h.mono (Nat.zero_le 1) (Nat.le_of_lt hm)).bind fun body => alike_pure m _

theorem Alike.stmtOf {p q : Parser (Block Stmt)} (h : Alike 1 n p q) :
    Alike 1 n (stmtOf p) (stmtOf q) := by
  refine Alike.orElse ?_ (h.ifStmt.orElse (h.forStmt.orElse (alike_assignStmt n)))
  exact h.bind_shorter fun b m _ => alike_pure m _

theorem contracts_blockStep : Contracts blockStep := by
  intro n p q hpq
  refine (alike_symbol n '{').lexeme.bind_shorter fun _ m hm => Alike.commit ?_
  refine (alike_localDecl m).lexeme.many.bind fun locals => ?_
  refine (hpq m hm).stmtOf.lexeme.many.bind fun stmts => ?_
  exact (alike_symbol m '}').weaken.bind fun _ => alike_pure m _

variable (n)

theorem alike_block : Alike 1 n block block := alike_recursive contracts_blockStep n

theorem block_eq : block = blockStep block := recursive_unfold contracts_blockStep

theorem alike_stmt : Alike 1 n stmt stmt := (alike_block n).stmtOf

theorem alike_direction : Alike 1 n
    (firstOf .keyword (fun d : Direction => d.keyword.toList) [.inout, .in, .out])
    (firstOf .keyword (fun d : Direction => d.keyword.toList) [.inout, .in, .out]) :=
  alike_firstOf n (by decide) fun d _ => by cases d <;> decide

theorem alike_param : Alike 1 n param param :=
  (alike_direction n).lexeme.bind_shorter fun d m _ =>
    ((alike_ty m).bind_shorter fun t l _ => alike_pure l (d, t)).weaken

theorem alike_params : Alike 1 n params params := by
  apply Alike.accept (by decide) _
  refine (alike_symbol n '(').lexeme.bind_shorter fun _ m _ => ?_
  refine (alike_symbol m ',').lexeme.sepBy (alike_param m).lexeme |>.bind fun ps => ?_
  exact (alike_symbol m ')').weaken.bind fun _ => alike_pure m ps

theorem alike_funcName : Alike 1 n funcName funcName :=
  (alike_symbol n '@').bind_shorter fun _ m _ =>
    ((alike_span m (by decide) _).bind_shorter fun cs l _ => alike_pure l (String.ofList cs)).weaken

theorem alike_func : Alike 1 n func func := by
  refine (alike_keyword n (by decide)).lexeme.bind_shorter fun _ m _ => Alike.commit ?_
  refine (alike_funcName m).lexeme.weaken.bind fun name => ?_
  refine (alike_params m).lexeme.weaken.bind fun ps => ?_
  exact (alike_block m).weaken.bind fun body => alike_pure m _

theorem alike_globalDecl (word : String) :
    Alike 1 n (globalDecl word) (globalDecl word) := (alike_decl n word).lexeme

theorem alike_program : Alike 1 n program program := by
  refine (alike_keyword n (by decide)).lexeme.bind_shorter fun _ m _ => ?_
  refine (alike_symbol m '{').lexeme.weaken.bind fun _ => ?_
  refine (alike_globalDecl m _).many.bind fun uniforms => ?_
  refine (alike_globalDecl m _).many.bind fun attributes => ?_
  refine (alike_globalDecl m _).many.bind fun varyings => ?_
  refine (alike_func m).lexeme.many.bind fun funcs => ?_
  exact (alike_symbol m '}').lexeme.weaken.bind fun _ => alike_pure m _

end Parser

end ShaderTree
