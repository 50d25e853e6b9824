import Mathlib
import ShaderTree.Proofs.Completion

namespace ShaderTree

namespace Token

@[simp]
theorem spellable_word (w : Word) : (word w).Spellable :=
  ⟨w.text.toList, (List.append_nil _).symm⟩

@[simp]
theorem spellable_operator_add : (operator .add).Spellable := ⟨['a', 'd', 'd'], rfl⟩

@[simp]
theorem spellable_name_f : (name "f").Spellable := ⟨['@', 'f'], rfl⟩

@[simp]
theorem spellable_bound_zero : (bound 0).Spellable := ⟨['0'], rfl⟩

@[simp]
theorem spellable_literal_infinity : (literal .infinity).Spellable := ⟨['i', 'n', 'f'], rfl⟩

end Token

namespace Parser

variable {α β : Type} {n : Nat} {s : List Char} {e : Fault} {w : Word} {language : Set (List Token)}

theorem justifies_word_bind {p : Parser Unit} {f : Unit → Parser β} (hread : Matches p () [.word w])
    (hstart : ∀ s e, Faults p s e → e.rest = s)
    (hrest : ∃ rest, (∀ tok ∈ rest, tok.Spellable) ∧ .word w :: rest ∈ language)
    (hf : ∀ m < n, Justifies m (f ()) {rest | .word w :: rest ∈ language}) :
    Justifies n (lexeme p >>= f) language := by
  have hword : Justifies n p {[.word w]} := justifies_of_start hstart rfl (by simp)
  refine hword.lexeme_bind (fun _ => hread) (fun _ => List.cons_ne_nil _ _) ?_ fun _ m hm => hf m hm
  rintro _ rfl
  exact hrest

theorem justifies_keyword_bind {f : Unit → Parser β} (w : Word)
    (hrest : ∃ rest, (∀ tok ∈ rest, tok.Spellable) ∧ .word w :: rest ∈ language)
    (hf : ∀ m < n, Justifies m (f ()) {rest | .word w :: rest ∈ language}) :
    Justifies n (lexeme (keyword w.text) >>= f) language :=
  justifies_word_bind (keyword_matches w) (fun _ _ h => by rw [h.of_firstOf]) hrest hf

theorem justifies_symbol_bind {f : Unit → Parser β} {c : Char} (w : Word)
    (hc : w.text.toList = [c])
    (hrest : ∃ rest, (∀ tok ∈ rest, tok.Spellable) ∧ .word w :: rest ∈ language)
    (hf : ∀ m < n, Justifies m (f ()) {rest | .word w :: rest ∈ language}) :
    Justifies n (lexeme (symbol c) >>= f) language :=
  justifies_word_bind (symbol_matches hc) (fun _ _ h => by rw [h.of_firstOf]) hrest hf

theorem justifies_symbol {c : Char} (w : Word) (hmem : [.word w] ∈ language) :
    Justifies n (symbol c) language :=
  justifies_of_start (fun _ _ h => by rw [h.of_firstOf]) hmem (by simp)

theorem unfailing_structTy (hty : ∀ m < n, Unfailing m ty) : Unfailing n (structTy ty) := by
  have hmembers (m : Nat) (hm : m < n) :
      Unfailing m (sepBy (lexeme (symbol ',')) (lexeme ty)) := by
    intro s e hs h
    have hcomma : Unfailing m (lexeme (symbol ',')) :=
      unfailing_firstOf.lexeme (alike_symbol m ',').weaken
    have hitem : Unfailing m (lexeme ty) := (hty m hm).lexeme (alike_ty m).weaken
    exact hcomma.not_faults_sepBy hitem (fun n => (alike_symbol n ',').lexeme)
      (fun n => (alike_ty n).lexeme) hs (Or.inr h)
  have hkeyword : Unfailing n (lexeme (keyword "struct")) :=
    unfailing_firstOf.lexeme (alike_keyword n (by decide)).weaken
  refine hkeyword.bind (alike_keyword n (by decide)).lexeme fun _ m hm => ?_
  have hopen : Unfailing m (lexeme (symbol '{')) :=
    unfailing_firstOf.lexeme (alike_symbol m '{').weaken
  refine hopen.bind (alike_symbol m '{').lexeme fun _ l hl => ?_
  refine (hmembers l (by omega)).bind ((alike_symbol l ',').lexeme.sepBy (alike_ty l).lexeme) ?_
  intro _ k _
  exact unfailing_firstOf.bind (alike_symbol k '}') fun _ _ _ => unfailing_pure _

theorem unfailing_ty (n : Nat) : Unfailing n ty := by
  induction n using Nat.strongRecOn with
  | _ n ih =>
    rw [ty_eq]
    refine (unfailing_structTy ih).orElse ?_
    exact unfailing_firstOf.bind (alike_basicToken n) fun _ _ _ => unfailing_pure _

theorem Faults.of_ty (h : Faults ty s e) : e.rest = s := by
  rw [ty_eq] at h
  obtain h | ⟨-, h⟩ := h.of_orElse
  · exact absurd h (unfailing_structTy (fun m _ => unfailing_ty m) s e (Nat.le_refl _))
  · obtain h | ⟨b, r, -, h⟩ := faults_bind_iff.mp h
    · rw [h.of_firstOf]
    · exact absurd h not_faults_pure

theorem unfailing_var (n : Nat) : Unfailing n var := by
  refine unfailing_firstOf.bind (alike_symbol n '%') fun _ m _ => ?_
  refine unfailing_firstOf.bind (alike_category m) ?_
  intro _ l _
  have hdigits : Unfailing l digits := unfailing_span
  have hindex : Unfailing l index :=
    (hdigits.bind (alike_digits l) fun _ _ _ => unfailing_pure _).accept
  exact hindex.bind (alike_index l) fun _ _ _ => unfailing_pure _

theorem Faults.of_plainLiteral (h : Faults plainLiteral s e) : e.rest = s := by
  obtain h | ⟨-, h⟩ := h.of_orElse
  · exact Faults.of_blame (Or.inr h)
  · obtain h | ⟨-, h⟩ := h.of_orElse
    · exact Faults.of_caseless (Or.inr h)
    · exact h.of_caseless

/-- A literal is at fault where it begins, or behind the minus sign that it begins with. -/
theorem Faults.of_literal (h : Faults literal s e) : e.rest = s ∨ s = '-' :: e.rest := by
  obtain h | ⟨-, h⟩ := h.of_orElse
  · exact Or.inl (Faults.of_plainLiteral (Or.inr h))
  obtain h | ⟨_, r, hminus, h⟩ := faults_bind_iff.mp h
  · exact Or.inl (by rw [h.of_firstOf])
  obtain h | ⟨x, t, -, h⟩ := faults_bind_iff.mp h
  · rw [h.of_plainLiteral]
    exact Or.inr (symbol_eq_done_iff.mp hminus)
  · exact absurd h not_faults_pure

theorem Faults.of_bound (h : Faults bound s e) : e.rest = s ∨ s = '-' :: e.rest := by
  obtain h | h := h.of_accept
  · obtain h | ⟨minus, r, hminus, h⟩ := faults_bind_iff.mp h
    · cases unfailing_firstOf s e (Nat.le_refl _) h.of_optional
    obtain h | ⟨ds, t, -, h⟩ := faults_bind_iff.mp h
    · obtain ⟨_, -, hminus⟩ | ⟨-, -, rfl⟩ := optional_eq_done_iff.mp hminus
      · rw [h.of_span]
        exact Or.inr (symbol_eq_done_iff.mp hminus)
      · exact Or.inl (by rw [h.of_span])
    · exact absurd h not_faults_pure
  · exact Or.inl h

theorem Faults.of_funcName (h : Faults funcName s e) : e.rest = s ∨ s = '@' :: e.rest := by
  obtain h | ⟨_, r, hat, h⟩ := faults_bind_iff.mp h
  · exact Or.inl (by rw [h.of_firstOf])
  obtain h | ⟨cs, t, -, h⟩ := faults_bind_iff.mp h
  · rw [h.of_span]
    exact Or.inr (symbol_eq_done_iff.mp hat)
  · exact absurd h not_faults_pure

theorem Faults.of_operator (h : Faults operator s e) : e.rest = s := by
  obtain h | h := h.of_accept
  · rw [h.of_span]
  · exact h

theorem justifies_token {p : Parser α} {tok : Token} {c : Char} {cs : List Char}
    (hp : ∀ s e, Faults p s e → e.rest = s ∨ s = c :: e.rest) (hsolid : isBlankStart c = false)
    (hread : tok.ReadTo (c :: cs) []) (hmem : [tok] ∈ language) : Justifies n p language := by
  intro s e _ h
  refine Or.inl ?_
  obtain h | h := hp _ e h
  · rw [h]
    exact completable_skipBlank s hmem (by simpa using ⟨_, hread⟩)
  · have hs : skipBlank s = [c] ++ e.rest := h
    exact completable_within hs (solid_cons hsolid) hmem hread

theorem exprTokens_ne_nil (x : Expr) : x.tokens ≠ [] := by
  cases x <;> exact List.cons_ne_nil _ _

theorem justifies_operation (hexpr : ∀ m < n, Justifies m expr (Set.range Expr.tokens)) :
    Justifies n (operation expr) (Set.range Expr.tokens) := by
  have hoperator : Justifies n operator (Set.range fun op : Operator => [.operator op]) :=
    justifies_of_start (fun _ _ h => h.of_operator) ⟨.add, rfl⟩ (by simp)
  refine hoperator.lexeme_bind operator_matches (fun _ => List.cons_ne_nil _ _) ?_ fun op m hm => ?_
  · rintro _ ⟨op, rfl⟩
    exact ⟨_, by simp [Expr.tokens], ⟨.binary op (.num .infinity) (.num .infinity), rfl⟩⟩
  refine justifies_symbol_bind .openParen rfl ?_ fun l hl => ?_
  · exact ⟨_, by simp [Expr.tokens], ⟨.binary op (.num .infinity) (.num .infinity), rfl⟩⟩
  refine (hexpr l (by omega)).lexeme_bind expr_matches exprTokens_ne_nil ?_ fun lhs k hk => ?_
  · rintro _ ⟨lhs, rfl⟩
    exact ⟨_, by simp [Expr.tokens], ⟨.binary op lhs (.num .infinity), rfl⟩⟩
  refine justifies_symbol_bind .comma rfl ?_ fun j hj => ?_
  · exact ⟨_, by simp [Expr.tokens], ⟨.binary op lhs (.num .infinity), rfl⟩⟩
  refine (hexpr j (by omega)).lexeme_bind expr_matches exprTokens_ne_nil ?_ fun rhs i hi => ?_
  · rintro _ ⟨rhs, rfl⟩
    exact ⟨_, by simp, ⟨.binary op lhs rhs, rfl⟩⟩
  refine (justifies_symbol .closeParen ?_).map
  exact ⟨.binary op lhs rhs, rfl⟩

theorem justifies_expr (n : Nat) : Justifies n expr (Set.range Expr.tokens) := by
  induction n using Nat.strongRecOn with
  | _ n ih =>
    have hread : (Token.literal Binary64.infinity.neg).ReadTo ['-', 'i', 'n', 'f'] [] := rfl
    have hliteral : Justifies n literal (Set.range Expr.tokens) :=
      justifies_token (fun _ _ h => h.of_literal) rfl hread ⟨.num Binary64.infinity.neg, rfl⟩
    have hvar : Unfailing n (do let v ← var; pure (.var v) : Parser Expr) :=
      (unfailing_var n).bind (alike_var n) fun _ _ _ => unfailing_pure _
    rw [expr_eq]
    exact hvar.justifies_orElse ((justifies_operation ih).orElse hliteral.map)

theorem justifies_bound : Justifies n bound (Set.range fun i => [.bound i]) := by
  have hread : (Token.bound 0).ReadTo ['-', '0'] [] := rfl
  exact justifies_token (fun _ _ h => h.of_bound) rfl hread ⟨0, rfl⟩

theorem justifies_funcName : Justifies n funcName (Set.range fun name => [.name name]) := by
  have hread : (Token.name "f").ReadTo ['@', 'f'] [] := rfl
  exact justifies_token (fun _ _ h => h.of_funcName) rfl hread ⟨"f", rfl⟩

theorem blockTokens_ne_nil (b : Block Stmt) : Block.tokens b ≠ [] := by
  obtain ⟨locals, stmts⟩ := b
  exact List.cons_ne_nil _ _

@[simp]
theorem blockTokens_empty : Block.tokens {} = [.word .openBrace, .word .closeBrace] := rfl

theorem justifies_decl (w : Word) : Justifies n (do lexeme (keyword w.text); commit ty)
    (Set.range fun t : Ty => .word w :: t.tokens) := by
  refine justifies_keyword_bind w ?_ fun m hm => Justifies.commit ?_
  · exact ⟨_, by simp [Ty.tokens], ⟨.basic .float, rfl⟩⟩
  · exact justifies_of_start (fun _ _ h => h.of_ty) ⟨.basic .float, rfl⟩ (by simp)

theorem justifies_if (hblock : ∀ m < n, Justifies m block (Set.range Block.tokens)) :
    Justifies n (ifStmt block) (Set.range Stmt.tokens) := by
  refine justifies_keyword_bind .if ?_ fun m hm => Justifies.commit ?_
  · exact ⟨_, by simp [Expr.tokens], ⟨.ifElse (.num .infinity) {} {}, rfl⟩⟩
  refine (justifies_expr m).lexeme_bind expr_matches exprTokens_ne_nil ?_ fun cond l hl => ?_
  · rintro _ ⟨cond, rfl⟩
    exact ⟨_, by simp, ⟨.ifElse cond {} {}, rfl⟩⟩
  refine (hblock l (by omega)).lexeme_bind block_matches blockTokens_ne_nil ?_ fun t k hk => ?_
  · rintro _ ⟨t, rfl⟩
    exact ⟨_, by simp, ⟨.ifElse cond t {}, rfl⟩⟩
  refine justifies_keyword_bind .else ?_ fun j hj => ?_
  · exact ⟨_, by simp, ⟨.ifElse cond t {}, rfl⟩⟩
  refine ((hblock j (by omega)).mono ?_).map
  rintro _ ⟨b, rfl⟩
  exact ⟨.ifElse cond t b, rfl⟩

theorem justifies_for (hblock : ∀ m < n, Justifies m block (Set.range Block.tokens)) :
    Justifies n (forStmt block) (Set.range Stmt.tokens) := by
  have hne (i : Int32) : [Token.bound i] ≠ [] := List.cons_ne_nil _ _
  refine justifies_keyword_bind .for ?_ fun m hm => Justifies.commit ?_
  · exact ⟨_, by simp, ⟨.forRange 0 0 0 {}, rfl⟩⟩
  refine justifies_bound.lexeme_bind bound_matches hne ?_ fun init l hl => ?_
  · rintro _ ⟨init, rfl⟩
    exact ⟨_, by simp, ⟨.forRange init 0 0 {}, rfl⟩⟩
  refine justifies_keyword_bind .dots ?_ fun k hk => ?_
  · exact ⟨_, by simp, ⟨.forRange init 0 0 {}, rfl⟩⟩
  refine justifies_bound.lexeme_bind bound_matches hne ?_ fun limit j hj => ?_
  · rintro _ ⟨limit, rfl⟩
    exact ⟨_, by simp, ⟨.forRange init limit 0 {}, rfl⟩⟩
  refine justifies_keyword_bind .step ?_ fun i hi => ?_
  · exact ⟨_, by simp, ⟨.forRange init limit 0 {}, rfl⟩⟩
  refine justifies_bound.lexeme_bind bound_matches hne ?_ fun step h hh => ?_
  · rintro _ ⟨step, rfl⟩
    exact ⟨Block.tokens {}, by simp, ⟨.forRange init limit step {}, rfl⟩⟩
  refine ((hblock h (by omega)).mono ?_).map
  rintro _ ⟨b, rfl⟩
  exact ⟨.forRange init limit step b, rfl⟩

theorem justifies_assign : Justifies n assignStmt (Set.range Stmt.tokens) := by
  refine (justifies_expr n).lexeme_bind expr_matches exprTokens_ne_nil ?_ fun target m hm => ?_
  · rintro _ ⟨target, rfl⟩
    exact ⟨_, by simp [Expr.tokens], ⟨.assign target (.num .infinity), rfl⟩⟩
  refine justifies_symbol_bind .equals rfl ?_ fun l hl => ?_
  · exact ⟨_, by simp [Expr.tokens], ⟨.assign target (.num .infinity), rfl⟩⟩
  refine ((justifies_expr l).mono ?_).commit.map
  rintro _ ⟨value, rfl⟩
  exact ⟨.assign target value, rfl⟩

theorem justifies_stmt (hblock : ∀ m ≤ n, Justifies m block (Set.range Block.tokens)) :
    Justifies n stmt (Set.range Stmt.tokens) := by
  have hshorter : ∀ m < n, Justifies m block (Set.range Block.tokens) :=
    fun m hm => hblock m (Nat.le_of_lt hm)
  have hbare : Justifies n (do let b ← block; pure (.block b) : Parser Stmt)
      (Set.range Stmt.tokens) := by
    refine ((hblock n (Nat.le_refl n)).mono ?_).map
    rintro _ ⟨b, rfl⟩
    exact ⟨.block b, rfl⟩
  exact hbare.orElse ((justifies_if hshorter).orElse ((justifies_for hshorter).orElse
    justifies_assign))

theorem justifies_block (n : Nat) : Justifies n block (Set.range Block.tokens) := by
  induction n using Nat.strongRecOn with
  | _ n ih =>
    have hmem (locals : List Ty) (stmts : List Stmt) :
        .word .openBrace :: (locals.flatMap (fun t => .word .local :: t.tokens) ++
          (stmts.flatMap Stmt.tokens ++ [.word .closeBrace])) ∈ Set.range Block.tokens := by
      refine ⟨⟨locals, stmts⟩, ?_⟩
      rw [Block.tokens, Stmt.tokensOf_eq_flatMap]
      rfl
    rw [block_eq]
    refine justifies_symbol_bind .openBrace rfl ?_ fun m hm => Justifies.commit ?_
    · exact ⟨_, by simp, hmem [] []⟩
    refine (justifies_decl .local).many_bind (decl_matches .local) alike_localDecl ?_
      fun locals => ?_
    · exact fun locals => ⟨_, by simp, hmem locals []⟩
    have hstmt : Justifies m stmt (Set.range Stmt.tokens) :=
      justifies_stmt fun l hl => ih l (by omega)
    refine hstmt.many_bind stmt_matches alike_stmt ?_ fun stmts => ?_
    · exact fun stmts => ⟨_, by simp, hmem locals stmts⟩
    · exact (justifies_symbol .closeBrace (hmem locals stmts)).map

theorem unfailing_param (n : Nat) : Unfailing n param := by
  have hdirection : Unfailing n (lexeme (firstOf .keyword
      (fun d : Direction => d.keyword.toList) [.inout, .in, .out])) :=
    unfailing_firstOf.lexeme (alike_direction n).weaken
  refine hdirection.bind (alike_direction n).lexeme fun d m _ => ?_
  exact (unfailing_ty m).bind (alike_ty m) fun _ _ _ => unfailing_pure _

def paramLists : Set (List Token) :=
  {toks | ∃ ps, inOrder ps = true ∧
    toks = .word .openParen :: (commaSeparated (ps.map Func.paramTokens) ++ [.word .closeParen])}

/-- Parameters are at fault where their list begins, or where it is not closed: this is where a list
that is out of order can be found. -/
theorem justifies_params : Justifies n params paramLists := by
  have hempty : [.word .openParen, .word .closeParen] ∈ paramLists := ⟨[], rfl, rfl⟩
  intro s e _ he
  obtain he | he := he.of_accept
  · obtain he | ⟨_, m, hopen, he⟩ := faults_lexeme_bind_iff.mp he
    · refine Or.inl ?_
      rw [he.of_firstOf]
      exact completable_skipBlank s hempty (by simp)
    obtain he | ⟨ps, r, hps, he⟩ := faults_bind_iff.mp he
    · have hcomma : Unfailing m.length (lexeme (symbol ',')) :=
        unfailing_firstOf.lexeme (alike_symbol _ ',').weaken
      have hparam : Unfailing m.length (lexeme param) :=
        (unfailing_param _).lexeme (alike_param _).weaken
      exact absurd he (hcomma.not_faults_sepBy hparam (fun n => (alike_symbol n ',').lexeme)
        (fun n => (alike_param n).lexeme) (skipBlank_suffix m).length_le)
    obtain he | ⟨_, t, -, he⟩ := faults_bind_iff.mp he
    · obtain ⟨k, hk, rfl⟩ := reads_of_sepBy alike_param (fun p _ => param_matches p) hps
      obtain rfl := he.of_firstOf
      have hlist : Reads (.word .openParen :: commaSeparated (ps.map Func.paramTokens)) s k :=
        ⟨m, symbol_eq_done_iff.mp hopen, hk⟩
      cases horder : inOrder ps with
      | true =>
        have hclose : Completable {rest | .word .openParen ::
            commaSeparated (ps.map Func.paramTokens) ++ rest ∈ paramLists} k (skipBlank k) :=
          completable_skipBlank k ⟨ps, horder, rfl⟩ (by simp)
        exact Or.inl (hclose.after hlist)
      | false => exact Or.inr ⟨rfl, [], ps, [], k, hlist, rfl, horder, hempty⟩
    · exact absurd he not_faults_pure
  · refine Or.inl ?_
    rw [he]
    exact completable_skipBlank s hempty (by simp)

theorem funcTokens_mem (ps : List (Direction × Ty)) (horder : inOrder ps = true) (name : String)
    (body : Block Stmt) : .word .func :: .name name :: (.word .openParen ::
      (commaSeparated (ps.map Func.paramTokens) ++ [.word .closeParen]) ++ Block.tokens body) ∈
        Set.range Func.tokens := by
  refine ⟨⟨name, typesOf .in ps, typesOf .inout ps, typesOf .out ps, body⟩, ?_⟩
  rw [Func.tokens, Func.params, params_typesOf horder]
  simp

theorem justifies_func : Justifies n func (Set.range Func.tokens) := by
  have hne (name : String) : [Token.name name] ≠ [] := List.cons_ne_nil _ _
  refine justifies_keyword_bind .func ?_ fun m hm => Justifies.commit ?_
  · exact ⟨_, by simp, funcTokens_mem [] rfl "f" {}⟩
  refine justifies_funcName.lexeme_bind funcName_matches hne ?_ fun name l hl => ?_
  · rintro _ ⟨name, rfl⟩
    exact ⟨_, by simp, funcTokens_mem [] rfl name {}⟩
  intro s e hs he
  obtain he | ⟨ps, k, hps, he⟩ := faults_lexeme_bind_iff.mp he
  · refine (justifies_params s e hs he).before ?_
    rintro _ ⟨ps, horder, rfl⟩
    exact ⟨Block.tokens {}, by simp, funcTokens_mem ps horder name {}⟩
  · obtain ⟨hread, horder⟩ := params_eq_done_iff.mp hps
    have hbodies : Set.range Block.tokens ⊆ {rest | .word .func :: .name name ::
        (.word .openParen :: (commaSeparated (ps.map Func.paramTokens) ++ [.word .closeParen]) ++
          rest) ∈ Set.range Func.tokens} := by
      rintro _ ⟨body, rfl⟩
      exact funcTokens_mem ps horder name body
    exact (((justifies_block k.length).mono hbodies).map k e (Nat.le_refl _) he).after hread

theorem justifies_program : Justifies n program (Set.range Program.tokens) := by
  refine justifies_keyword_bind .program ?_ fun m hm => ?_
  · exact ⟨[.word .openBrace, .word .closeBrace], by simp, ⟨{}, rfl⟩⟩
  refine justifies_symbol_bind .openBrace rfl ?_ fun l hl => ?_
  · exact ⟨[.word .closeBrace], by simp, ⟨{}, rfl⟩⟩
  refine (justifies_decl .uniform).many_bind (decl_matches .uniform)
    (fun n => alike_decl n _) ?_ fun us => ?_
  · exact fun us => ⟨[.word .closeBrace], by simp, ⟨{ uniforms := us }, rfl⟩⟩
  refine (justifies_decl .attribute).many_bind (decl_matches .attribute)
    (fun n => alike_decl n _) ?_ fun as => ?_
  · exact fun as => ⟨[.word .closeBrace], by simp, ⟨{ uniforms := us, attributes := as }, rfl⟩⟩
  refine (justifies_decl .varying).many_bind (decl_matches .varying)
    (fun n => alike_decl n _) ?_ fun vs => ?_
  · exact fun vs => ⟨[.word .closeBrace], by simp, ⟨⟨us, as, vs, []⟩, rfl⟩⟩
  refine justifies_func.many_bind func_matches alike_func ?_ fun fs => ?_
  · exact fun fs => ⟨[.word .closeBrace], by simp, ⟨⟨us, as, vs, fs⟩, rfl⟩⟩
  refine justifies_symbol_bind .closeBrace rfl ?_ fun k hk => ?_
  · exact ⟨[], by simp, ⟨⟨us, as, vs, fs⟩, rfl⟩⟩
  · exact fun s e _ he => absurd he not_faults_pure

theorem reads_in_front {toks : List Token} {m : List Char} (h : Reads toks s m) :
    ∃ before, s = before ++ skipBlank m ∧
      ∃ r, Reads toks (before ++ ['\n']) r ∧ skipBlank r = [] := by
  obtain ⟨u, rfl⟩ := h.suffix
  obtain ⟨b, hb, hblank⟩ := exists_blank m
  have hline : skipBlank (b ++ ['\n']) = [] := by
    rw [(hblank.newline (ends_skipBlank m)).skipBlank_eq, skipBlank_newline, skipBlank_nil]
  have hfollow : MayFollow m (b ++ ['\n']) := by
    have hfeed : MayFollow (skipBlank m) ['\n'] := by
      rintro _ ⟨rfl⟩
      exact Or.inl rfl
    have happend := hfeed.append b
    rwa [← hb] at happend
  refine ⟨u ++ b, by rw [List.append_assoc, ← hb], b ++ ['\n'], ?_, hline⟩
  rw [List.append_assoc]
  exact h.replace hfollow

end Parser

/-- What stands in front of the place of the error is right so far: some text completes it, and the
place is not inside a character. The exception is a list of parameters that is out of order. It is
found to be so at its end, and where it has none the closing parenthesis is missed first. -/
def ParseError.Viable {α : Type} (e : ParseError) (parse : String → Except ParseError α)
    (tokens : α → List Token) (text : String) : Prop :=
  ∃ before rest, text.toList = before ++ rest ∧ e.position = Text.utf8Length before ∧
    ((∃ w a, parse (String.ofList (before ++ w)) = .ok a) ∨
      e.reason = .missing .symbol ∧ Disordered (Set.range tokens) text.toList rest)

open ShaderTree.Parser in
theorem viable_of_readAll {α : Type} {p : Parser α} {tokens : α → List Token} {text : String}
    {e : ParseError}
    (hread : ∀ a s r, lexeme p (skipBlank s) = .done a r ↔
      ∃ m, Reads (tokens a) s m ∧ skipBlank m = r)
    (hp : ∀ n, Justifies n p (Set.range tokens)) (h : readAll p text.toList = .error e) :
    e.Viable (fun text => readAll p text.toList) tokens text := by
  have hposition {before rest : List Char} (reason : ParseError.Reason)
      (hs : text.toList = before ++ rest) :
      (ParseError.before text.toList rest reason).position = Text.utf8Length before := by
    rw [hs, ParseError.before, Text.utf8Length_append, Nat.add_sub_cancel]
  have haccepts {t r : List Char} {a : α} (ht : Reads (tokens a) t r) (hr : skipBlank r = []) :
      readAll p (String.ofList t).toList = .ok a := by
    rw [String.toList_ofList, readAll, (hread a t _).mpr ⟨r, ht, hr⟩]
  obtain ⟨e', he, rfl⟩ | ⟨a, r, hdone, rfl⟩ := readAll_error h
  · obtain ⟨before, w, _, hs, -, ⟨a, rfl⟩, ha⟩ | ⟨hcause, hdisordered⟩ :=
      hp text.toList.length text.toList e' (Nat.le_refl _) he
    · exact ⟨before, e'.rest, hs, hposition _ hs, Or.inl ⟨w, a, haccepts ha skipBlank_nil⟩⟩
    · have hreason := congrArg ParseError.Reason.missing hcause
      obtain ⟨before, hs⟩ := hdisordered.suffix
      exact ⟨before, e'.rest, hs.symm, hposition _ hs.symm, Or.inr ⟨hreason, hdisordered⟩⟩
  · obtain ⟨m, hm, rfl⟩ := (hread a text.toList r).mp hdone
    obtain ⟨before, hs, t, ht, hend⟩ := reads_in_front hm
    exact ⟨before, _, hs, hposition _ hs, Or.inl ⟨_, a, haccepts ht hend⟩⟩

/-- Every text that is not accepted is right up to the place of the error. -/
theorem error_viable :
    (∀ (text : String) (e : ParseError), Program.parse text = .error e →
      e.Viable Program.parse Program.tokens text) ∧
      ∀ (text : String) (e : ParseError), Func.parse text = .error e →
        e.Viable Func.parse Func.tokens text := by
  have hprogram (p : Program) (s r : List Char) :
      Parser.lexeme Parser.program (skipBlank s) = .done p r ↔
        ∃ m, Reads p.tokens s m ∧ skipBlank m = r := by
    simp [Parser.lexeme_eq_done_iff, Parser.program_eq_done_iff, Parser.skipBlank_skipBlank]
  have hfunc (f : Func) (s r : List Char) : Parser.lexeme Parser.func (skipBlank s) = .done f r ↔
      ∃ m, Reads f.tokens s m ∧ skipBlank m = r := by
    simp [Parser.lexeme_eq_done_iff, Parser.func_matches f _ _]
  exact ⟨fun _ _ h => viable_of_readAll hprogram (fun _ => Parser.justifies_program) h,
    fun _ _ h => viable_of_readAll hfunc (fun _ => Parser.justifies_func) h⟩

theorem error_viable_cut :
    ParseError.Viable ⟨.missing .keyword, 16⟩ Program.parse Program.tokens
        "program\x7buniform mat9\x7d" ∧
      ParseError.Viable ⟨.missing .keyword, 18⟩ Func.parse Func.tokens
        "func @f()\x7bfor 0..4x" :=
  ⟨error_viable.1 _ _ (by cbv), error_viable.2 _ _ (by cbv)⟩

namespace Parser

variable {ps qs : List (Direction × Ty)} {toks toks' : List Token} {s m r r' : List Char}

theorem Matches.unique {α : Type} {p : Parser α} {a b : α} (ha : Matches p a toks)
    (hb : Matches p b toks') (h : Reads toks s r) (h' : Reads toks' s r') : a = b ∧ r = r' := by
  have heq := ((ha s r).mpr h).symm.trans ((hb s r').mpr h')
  cases heq
  exact ⟨rfl, rfl⟩

theorem isPrefix_of_reads_tail
    (h : Reads (ps.flatMap fun p => .word .comma :: Func.paramTokens p) s m)
    (h' : Reads ((qs.flatMap fun p => .word .comma :: Func.paramTokens p) ++
      .word .closeParen :: toks) s r) : ps <+: qs := by
  induction ps generalizing qs s with
  | nil => exact List.nil_prefix
  | cons p ps ih =>
    obtain ⟨k, ⟨l, hcomma, hp⟩, hps⟩ := reads_append.mp h
    cases qs with
    | nil =>
      obtain ⟨l', hclose, -⟩ := h'
      cases hcomma.symm.trans hclose
    | cons q qs =>
      rw [List.flatMap_cons, List.append_assoc] at h'
      obtain ⟨k', ⟨l', hcomma', hq⟩, hqs⟩ := reads_append.mp h'
      obtain rfl := hcomma.unique hcomma'
      obtain ⟨rfl, rfl⟩ := (param_matches p).unique (param_matches q) hp hq
      exact List.cons_prefix_cons.mpr ⟨rfl, ih hps hqs⟩

theorem isPrefix_of_reads (h : Reads (commaSeparated (ps.map Func.paramTokens)) s m)
    (h' : Reads (commaSeparated (qs.map Func.paramTokens) ++ .word .closeParen :: toks) s r) :
    ps <+: qs := by
  cases ps with
  | nil => exact List.nil_prefix
  | cons p ps =>
    rw [List.map_cons, commaSeparated_cons, List.flatMap_map] at h
    obtain ⟨k, hp, hps⟩ := reads_append.mp h
    cases qs with
    | nil =>
      obtain ⟨l, hclose, -⟩ := h'
      obtain ⟨d, t⟩ := p
      obtain ⟨l', hdirection, -⟩ := hp
      have hboth : ')' :: l = d.keyword.toList ++ l' := hclose.symm.trans hdirection
      cases d <;> simp [Direction.keyword] at hboth
    | cons q qs =>
      rw [List.map_cons, commaSeparated_cons, List.flatMap_map, List.append_assoc] at h'
      obtain ⟨k', hq, hqs⟩ := reads_append.mp h'
      obtain ⟨rfl, rfl⟩ := (param_matches p).unique (param_matches q) hp hq
      exact List.cons_prefix_cons.mpr ⟨rfl, isPrefix_of_reads_tail hps hqs⟩

theorem inOrder_of_isPrefix (h : ps <+: qs) (hqs : inOrder qs = true) : inOrder ps = true := by
  obtain ⟨rest, rfl⟩ := h
  induction ps with
  | nil => rfl
  | cons p ps ih =>
    cases ps with
    | nil => rfl
    | cons p' ps =>
      obtain ⟨hrank, hmore⟩ := Bool.and_eq_true_iff.mp hqs
      exact Bool.and_eq_true_iff.mpr ⟨hrank, ih hmore⟩

end Parser

namespace Func

/-- No text that begins with parameters out of order is accepted, whatever comes behind them. -/
theorem parse_ne_ok_of_disordered {text name : String} {ps : List (Direction × Ty)} {m : List Char}
    (h : Reads (.word .func :: .name name :: .word .openParen ::
      commaSeparated (ps.map paramTokens)) text.toList m) (horder : Parser.inOrder ps = false)
    (f : Func) : Func.parse text ≠ .ok f := by
  intro hf
  obtain ⟨r, ⟨i, hfunc, j, hname, k, hopen, hlist⟩, -⟩ := Func.parse_eq_ok_iff.mp hf
  obtain ⟨i', hfunc', j', hname', k', hopen', hlist'⟩ := h
  obtain rfl := hfunc.unique hfunc'
  have heq := (show Parser.funcName _ = _ from hname).symm.trans hname'
  cases heq
  obtain rfl := hopen.unique hopen'
  have hinOrder := Parser.inOrder_of_isPrefix (Parser.isPrefix_of_reads hlist' hlist)
    (Parser.inOrder_params f)
  cases hinOrder.symm.trans horder

/-- A parameter passed in behind one that is passed out, in a list that is not closed. -/
def misordered : String := "func @f(out float, in float"

/-- Where the list is not closed its order is not looked at, and no text completes it. -/
theorem misordered_not_viable :
    Func.parse misordered = .error ⟨.missing .symbol, Text.utf8Length misordered.toList⟩ ∧
      ∀ w f, Func.parse (misordered ++ w) ≠ .ok f := by
  have hname (s : List Char) :
      Parser.funcName ('@' :: 'f' :: '(' :: s) = .done "f" ('(' :: s) := rfl
  refine ⟨by cbv, fun w => ?_⟩
  have hread : Reads (.word .func :: .name "f" :: .word .openParen :: commaSeparated
      ([(.out, .basic .float), (.in, .basic .float)].map paramTokens))
        (misordered ++ w).toList w.toList := by
    simp [misordered, commaSeparated_cons, paramTokens, Ty.tokens, Token.ReadTo, Word.text,
      Direction.keyword, BasicTy.token, skipBlank, isSpacing, hname]
  exact parse_ne_ok_of_disordered hread rfl

end Func

end ShaderTree
