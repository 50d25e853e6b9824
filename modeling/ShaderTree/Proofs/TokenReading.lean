import Mathlib.Tactic.Simproc.ExistsAndEq
import ShaderTree.Proofs.RoundTrip
import ShaderTree.Proofs.Tokens

namespace ShaderTree

def commaSeparated (parts : List (List Token)) : List Token :=
  [Token.word .comma].intercalate parts

mutual

def Ty.tokens : Ty → List Token
  | basic b => [.word (.basic b)]
  | struct members =>
    .word .struct :: .word .openBrace :: (commaSeparated (Ty.tokensOf members) ++
      [.word .closeBrace])

def Ty.tokensOf : List Ty → List (List Token)
  | [] => []
  | t :: ts => t.tokens :: Ty.tokensOf ts

end

def declTokens (w : Word) (ts : List Ty) : List Token := ts.flatMap fun t => .word w :: t.tokens

def Expr.tokens : Expr → List Token
  | num x => [.literal x]
  | var v => [.var v]
  | binary op lhs rhs =>
    .operator op :: .word .openParen :: (lhs.tokens ++ .word .comma :: (rhs.tokens ++
      [.word .closeParen]))

mutual

def Stmt.tokens : Stmt → List Token
  | .block b => Block.tokens b
  | .assign target value => target.tokens ++ .word .equals :: value.tokens
  | .ifElse cond t e =>
    .word .if :: (cond.tokens ++ (Block.tokens t ++ .word .else :: Block.tokens e))
  | .forRange init limit step b =>
    .word .for :: .bound init :: .word .dots :: .bound limit :: .word .step :: .bound step ::
      Block.tokens b

def Block.tokens : Block Stmt → List Token
  | ⟨locals, stmts⟩ =>
    .word .openBrace :: (declTokens .local locals ++ (Stmt.tokensOf stmts ++ [.word .closeBrace]))

def Stmt.tokensOf : List Stmt → List Token
  | [] => []
  | s :: ss => s.tokens ++ Stmt.tokensOf ss

end

def Func.paramTokens (p : Direction × Ty) : List Token := .word (.direction p.1) :: p.2.tokens

def Func.tokens (f : Func) : List Token :=
  .word .func :: .name f.name :: .word .openParen ::
    (commaSeparated (f.params.map Func.paramTokens) ++ .word .closeParen :: f.body.tokens)

def Program.tokens (p : Program) : List Token :=
  .word .program :: .word .openBrace :: (declTokens .uniform p.uniforms ++
    (declTokens .attribute p.attributes ++ (declTokens .varying p.varyings ++
      (p.funcs.flatMap Func.tokens ++ [.word .closeBrace]))))

theorem Ty.tokensOf_eq_map (ts : List Ty) : Ty.tokensOf ts = ts.map Ty.tokens := by
  induction ts with
  | nil => rfl
  | cons t ts ih => rw [tokensOf, ih, List.map_cons]

theorem Stmt.tokensOf_eq_flatMap (ss : List Stmt) : Stmt.tokensOf ss = ss.flatMap Stmt.tokens := by
  induction ss with
  | nil => rfl
  | cons s ss ih => rw [tokensOf, ih, List.flatMap_cons]

@[simp]
theorem commaSeparated_nil : commaSeparated [] = [] := rfl

theorem commaSeparated_cons (part : List Token) (parts : List (List Token)) :
    commaSeparated (part :: parts) = part ++ parts.flatMap (.word .comma :: ·) := by
  induction parts generalizing part with
  | nil => simp [commaSeparated, List.intercalate]
  | cons next parts ih =>
    have hnext := ih next
    rw [commaSeparated, List.intercalate] at hnext ⊢
    rw [List.intersperse_cons_cons, List.flatten_cons, List.flatten_cons, hnext, List.flatMap_cons]
    rfl

/-- The tokens are read from the first text up to the second one, with blank in front of each. -/
@[simp]
def Reads : List Token → List Char → List Char → Prop
  | [], s, r => s = r
  | tok :: toks, s, r => ∃ m, tok.ReadTo (skipBlank s) m ∧ Reads toks m r

@[simp]
theorem reads_append {toks toks' : List Token} {s r : List Char} :
    Reads (toks ++ toks') s r ↔ ∃ m, Reads toks s m ∧ Reads toks' m r := by
  induction toks generalizing s with
  | nil => simp [Reads]
  | cons tok toks ih =>
    simp only [List.cons_append, Reads, ih]
    exact ⟨fun ⟨m, hm, n, hn, hr⟩ => ⟨n, ⟨m, hm, hn⟩, hr⟩,
      fun ⟨n, ⟨m, hm, hn⟩, hr⟩ => ⟨m, hm, n, hn, hr⟩⟩

def Avoids (w : Word) (toks : List Token) : Prop :=
  ∃ tok rest, toks = tok :: rest ∧
    ∀ s r, tok.ReadTo s r → Parser.strip? w.text.toList s = none

variable {w v : Word} {toks toks' : List Token}

theorem avoids_word (h : ∀ u, Parser.strip? w.text.toList (v.text.toList ++ u) = none) :
    Avoids w (.word v :: toks) := by
  refine ⟨_, _, rfl, fun s r hread => ?_⟩
  obtain rfl : s = v.text.toList ++ r := hread
  exact h r

theorem Avoids.append (h : Avoids w toks) : Avoids w (toks ++ toks') := by
  obtain ⟨tok, rest, rfl, htok⟩ := h
  exact ⟨tok, rest ++ toks', rfl, htok⟩

theorem avoids_flatMap {α : Type} {f : α → List Token} {as : List α}
    (hf : ∀ a, Avoids w (f a)) (h : Avoids w toks) : Avoids w (as.flatMap f ++ toks) := by
  cases as with
  | nil => exact h
  | cons a as =>
    rw [List.flatMap_cons]
    exact (hf a).append.append

theorem Expr.avoids_tokens (e : Expr) (hw : w ∈ [Word.local, .if, .for, .openBrace, .closeBrace]) :
    Avoids w e.tokens := by
  cases e with
  | num x => exact ⟨.literal x, _, rfl, fun _ _ h => h.strip?_eq rfl hw⟩
  | var v => exact ⟨.var v, _, rfl, fun _ _ h => h.strip?_eq rfl hw⟩
  | binary op lhs rhs => exact ⟨.operator op, _, rfl, fun _ _ h => h.strip?_eq rfl hw⟩

theorem Stmt.avoids_local (t : Stmt) : Avoids .local t.tokens := by
  cases t with
  | block b =>
    obtain ⟨locals, stmts⟩ := b
    exact avoids_word fun _ => rfl
  | assign target value => exact (target.avoids_tokens (by decide)).append
  | ifElse cond t e => exact avoids_word fun _ => rfl
  | forRange init limit step b => exact avoids_word fun _ => rfl

theorem Reads.strip?_eq {s r : List Char} (h : Reads toks s r) (hw : Avoids w toks) :
    Parser.strip? w.text.toList (skipBlank s) = none := by
  obtain ⟨tok, rest, rfl, htok⟩ := hw
  obtain ⟨m, hm, -⟩ := h
  exact htok _ _ hm

/-- A text is read in one way as given tokens. -/
theorem Reads.unique {s r r' : List Char} (h : Reads toks s r) (h' : Reads toks s r') : r = r' := by
  induction toks generalizing s with
  | nil => exact (show s = r from h).symm.trans h'
  | cons tok toks ih =>
    obtain ⟨m, hm, hmore⟩ := h
    obtain ⟨m', hm', hmore'⟩ := h'
    obtain rfl := hm.unique hm'
    exact ih hmore hmore'

namespace Parser

variable {α : Type} {p : Parser α} {s r : List Char}

/-- The parser is done with the value just where the tokens are read. -/
def Matches (p : Parser α) (a : α) (toks : List Token) : Prop :=
  ∀ s r, p (skipBlank s) = .done a r ↔ Reads toks s r

theorem keyword_matches (w : Word) : Matches (keyword w.text) () [.word w] := by
  intro s r
  simp [Token.ReadTo]

theorem symbol_matches {c : Char} {w : Word} (hc : w.text.toList = [c]) :
    Matches (symbol c) () [.word w] := by
  intro s r
  simp [Token.ReadTo, hc]

theorem operator_matches (op : Operator) : Matches operator op [.operator op] := by
  intro s r
  simp [Token.ReadTo]

theorem bound_matches (i : Int32) : Matches bound i [.bound i] := by
  intro s r
  simp [Token.ReadTo]

theorem funcName_matches (name : String) : Matches funcName name [.name name] := by
  intro s r
  simp [Token.ReadTo]

theorem many_lexeme_iff {toks : α → List Token} {as : List α} (hp : ∀ n, Alike 1 n p p)
    (h : ∀ a ∈ as, Matches p a (toks a)) :
    many (lexeme p) (skipBlank s) = .done as r ↔
      ∃ m, Reads (as.flatMap toks) s m ∧ skipBlank m = r ∧ Declines (lexeme p) r := by
  induction as generalizing s with
  | nil =>
    rw [many_eq_nil_iff]
    constructor
    · rintro ⟨hend, rfl⟩
      exact ⟨s, rfl, rfl, hend⟩
    · rintro ⟨_, rfl, rfl, hend⟩
      exact ⟨hend, rfl⟩
  | cons a as ih =>
    have ha := h a List.mem_cons_self
    have hmore (m : List Char) := ih (s := m) fun b hb => h b (List.mem_cons_of_mem a hb)
    rw [many_eq_cons_iff fun n => (hp n).lexeme, List.flatMap_cons]
    simp only [lexeme_eq_done_iff, ha s, reads_append]
    constructor
    · rintro ⟨_, ⟨m, hm, rfl⟩, hrest⟩
      obtain ⟨n, hn, hr⟩ := (hmore m).mp hrest
      exact ⟨n, ⟨m, hm, hn⟩, hr⟩
    · rintro ⟨n, ⟨m, hm, hn⟩, hr⟩
      exact ⟨_, ⟨m, hm, rfl⟩, (hmore m).mpr ⟨n, hn, hr⟩⟩

theorem comma_matches {toks : α → List Token} {a : α} (h : Matches p a (toks a)) :
    Matches (do lexeme (symbol ','); p) a (.word .comma :: toks a) := by
  intro s r
  simp [Token.ReadTo, Word.text, h _ _]

theorem alike_comma (hp : ∀ n, Alike 1 n p p) (n : Nat) :
    Alike 1 n (do lexeme (symbol ','); p) (do lexeme (symbol ','); p) :=
  (alike_symbol n ',').lexeme.bind_shorter fun _ m _ => (hp m).weaken

theorem reads_of_sepBy {toks : α → List Token} {as : List α} (hp : ∀ n, Alike 1 n p p)
    (h : ∀ a ∈ as, Matches p a (toks a))
    (hdone : sepBy (lexeme (symbol ',')) (lexeme p) (skipBlank s) = .done as r) :
    ∃ m, Reads (commaSeparated (as.map toks)) s m ∧ skipBlank m = r := by
  rw [sepBy] at hdone
  obtain ⟨first, m, hfirst, hrest⟩ := bind_eq_done_iff.mp hdone
  obtain ⟨a, rfl, hitem⟩ | ⟨rfl, -, rfl⟩ := optional_eq_done_iff.mp hfirst
  · obtain ⟨as', n, hmany, hpure⟩ := bind_eq_done_iff.mp hrest
    obtain ⟨rfl, rfl⟩ := pure_eq_done_iff.mp hpure
    obtain ⟨k, hk, rfl⟩ := lexeme_eq_done_iff.mp hitem
    rw [← lexeme_bind] at hmany
    obtain ⟨l, hl, heq, -⟩ := (many_lexeme_iff (alike_comma hp) fun b hb =>
      comma_matches (h b (List.mem_cons_of_mem a hb))).mp hmany
    refine ⟨l, ?_, heq⟩
    rw [List.map_cons, commaSeparated_cons, List.flatMap_map]
    exact reads_append.mpr ⟨k, (h a List.mem_cons_self s k).mp hk, hl⟩
  · obtain ⟨rfl, rfl⟩ := pure_eq_done_iff.mp hrest
    exact ⟨s, rfl, rfl⟩

theorem sepBy_close_iff {c : Char} {toks : α → List Token} {as : List α} (hp : ∀ n, Alike 1 n p p)
    (hc : c ≠ ',') (hclose : ∀ t, Declines p (c :: t)) (h : ∀ a ∈ as, Matches p a (toks a)) :
    sepBy (lexeme (symbol ',')) (lexeme p) (skipBlank s) = .done as (c :: r) ↔
      ∃ m, Reads (commaSeparated (as.map toks)) s m ∧ skipBlank m = c :: r := by
  refine ⟨reads_of_sepBy hp h, ?_⟩
  rw [sepBy, bind_eq_done_iff]
  cases as with
  | nil =>
    rintro ⟨m, rfl, hm⟩
    have hnone : Declines (lexeme p) (skipBlank s) := hm ▸ (hclose r).lexeme
    exact ⟨none, _, hnone.optional_eq, pure_eq_done_iff.mpr ⟨rfl, hm⟩⟩
  | cons a as =>
    simp only [List.map_cons, commaSeparated_cons, List.flatMap_map, reads_append]
    rintro ⟨l, ⟨k, hk, hl⟩, heq⟩
    have hend : Declines (lexeme (do lexeme (symbol ','); p)) (c :: r) :=
      (declines_symbol (by simpa using hc)).lexeme.bind.lexeme
    have hmany := (many_lexeme_iff (alike_comma hp) fun b hb =>
      comma_matches (h b (List.mem_cons_of_mem a hb))).mpr ⟨l, hl, heq, hend⟩
    rw [lexeme_bind] at hmany
    exact ⟨some a, skipBlank k, optional_done (lexeme_done ((h a List.mem_cons_self s k).mpr hk)),
      bind_eq_done_iff.mpr ⟨as, _, hmany, rfl⟩⟩

theorem basic_matches (b : BasicTy) : Matches ty (.basic b) (Ty.basic b).tokens := by
  intro s r
  have hread : ty (skipBlank s) = .done (.basic b) r ↔ skipBlank s = b.token.toList ++ r := by
    constructor
    · intro h
      rw [ty_eq, tyStep, orElse_eq_done_iff] at h
      obtain h | ⟨-, h⟩ := h
      · simp [structTy] at h
      · obtain ⟨b', m, hm, hpure⟩ := bind_eq_done_iff.mp h
        obtain ⟨heq, rfl⟩ := pure_eq_done_iff.mp hpure
        cases heq
        have hbegins := eq_of_firstOf hm
        exact hbegins
    · intro h
      rw [h]
      exact ty_basic b
  simp [hread, Ty.tokens, Token.ReadTo, Word.text]

theorem struct_matches {members : List Ty} (h : ∀ t ∈ members, Matches ty t t.tokens) :
    Matches ty (.struct members) (Ty.struct members).tokens := by
  intro s r
  have hmembers (s r : List Char) := sepBy_close_iff (c := '}') (s := s) (r := r)
    (fun n => alike_ty n) (by decide) (fun _ => declines_ty_close) h
  have hbasic : basicTy (skipBlank s) ≠ .done (.struct members) r := by simp [basicTy]
  have hstruct : structTy ty (skipBlank s) = .done (.struct members) r ↔
      Reads (Ty.struct members).tokens s r := by
    simp [structTy, hmembers, Ty.tokens, Ty.tokensOf_eq_map, Token.ReadTo, Word.text]
  rw [ty_eq, tyStep, orElse_eq_done_iff, hstruct]
  simp [hbasic]

mutual

theorem ty_matches (t : Ty) : Matches ty t t.tokens := by
  cases t with
  | basic b => exact basic_matches b
  | struct members => exact struct_matches (ty_matches_of_mem members)

theorem ty_matches_of_mem (ts : List Ty) : ∀ t ∈ ts, Matches ty t t.tokens := by
  intro t ht
  cases ts with
  | nil => cases ht
  | cons u us =>
    obtain rfl | ht := List.mem_cons.mp ht
    · exact ty_matches t
    · exact ty_matches_of_mem us t ht

end

theorem num_matches (x : Binary64) : Matches expr (.num x) (Expr.num x).tokens := by
  intro s r
  have hvar : (do let v ← var; pure (.var v) : Parser Expr) (skipBlank s) ≠ .done (.num x) r := by
    simp
  have hoperation : operation expr (skipBlank s) ≠ .done (.num x) r := by simp [operation]
  have hliteral : (do let x ← literal; pure (.num x) : Parser Expr) (skipBlank s) =
      .done (.num x) r ↔ literal (skipBlank s) = .done x r := by simp
  rw [expr_eq, exprStep, orElse_eq_done_iff, orElse_eq_done_iff, hliteral]
  simp only [hvar, hoperation, false_or, Expr.tokens, Reads, Token.ReadTo, existsAndEq, and_true]
  refine ⟨fun h => h.2.2, fun h => ⟨?_, ?_, h⟩⟩
  · exact (declines_var_of_literal h).bind
  · exact (declines_operator_of_literal h).lexeme.bind

theorem var_matches (v : Variable) : Matches expr (.var v) (Expr.var v).tokens := by
  intro s r
  rw [expr_eq]
  simp [exprStep, operation, Expr.tokens, Token.ReadTo]

theorem binary_matches {op : Operator} {lhs rhs : Expr} (hl : Matches expr lhs lhs.tokens)
    (hr : Matches expr rhs rhs.tokens) :
    Matches expr (.binary op lhs rhs) (Expr.binary op lhs rhs).tokens := by
  intro s r
  have hoperation : operation expr (skipBlank s) = .done (.binary op lhs rhs) r ↔
      Reads (Expr.binary op lhs rhs).tokens s r := by
    simp [operation, Expr.tokens, Token.ReadTo, Word.text, hl _ _, hr _ _]
  have hvar : (do let v ← var; pure (.var v) : Parser Expr) (skipBlank s) ≠
      .done (.binary op lhs rhs) r := by simp
  have hliteral : (do let x ← literal; pure (.num x) : Parser Expr) (skipBlank s) ≠
      .done (.binary op lhs rhs) r := by simp
  rw [expr_eq, exprStep, orElse_eq_done_iff, orElse_eq_done_iff, hoperation]
  simp only [hvar, hliteral, false_or, and_false, or_false]
  refine ⟨fun h => h.2, fun h => ⟨?_, h⟩⟩
  obtain ⟨m, hm, -⟩ := h
  exact (declines_var_of_operator hm).bind

theorem expr_matches (e : Expr) : Matches expr e e.tokens := by
  induction e with
  | num x => exact num_matches x
  | var v => exact var_matches v
  | binary op lhs rhs ihl ihr => exact binary_matches ihl ihr

theorem decl_matches (w : Word) (t : Ty) :
    Matches (do lexeme (keyword w.text); commit ty) t (.word w :: t.tokens) := by
  intro s r
  simp [Token.ReadTo, ty_matches t _ _]

theorem decls_iff {ts : List Ty} :
    many (globalDecl w.text) (skipBlank s) = .done ts r ↔
      ∃ m, Reads (declTokens w ts) s m ∧ skipBlank m = r ∧ Declines (globalDecl w.text) r := by
  exact many_lexeme_iff (fun n => alike_decl n w.text) fun t _ => decl_matches w t

theorem declines_globalDecl (h : strip? w.text.toList s = none) : Declines (globalDecl w.text) s :=
  (declines_keyword h).lexeme.bind.lexeme

@[simp]
theorem many_bind_eq_done_iff {β : Type} {f : List α → Parser β} {b : β} :
    (do let as ← many p; f as : Parser β) s = .done b r ↔
      ∃ as m, many p s = .done as m ∧ f as m = .done b r := bind_eq_done_iff

theorem block_matches_of_stmts {locals : List Ty} {stmts : List Stmt}
    (h : ∀ t ∈ stmts, Matches stmt t t.tokens) :
    Matches block ⟨locals, stmts⟩ (Block.tokens ⟨locals, stmts⟩) := by
  intro s r
  have hlocals (s r : List Char) : many (lexeme localDecl) (skipBlank s) = .done locals r ↔
      ∃ m, Reads (declTokens .local locals) s m ∧ skipBlank m = r ∧ Declines (lexeme localDecl) r :=
    decls_iff (w := .local)
  have hstmts (s r : List Char) := many_lexeme_iff (s := s) (r := r) (fun n => alike_stmt n) h
  have hstep : blockStep block (skipBlank s) = .done ⟨locals, stmts⟩ r ↔
      ∃ m, skipBlank s = '{' :: m ∧ ∃ n, many (lexeme localDecl) (skipBlank m) = .done locals n ∧
        many (lexeme stmt) n = .done stmts ('}' :: r) := by
    simp [blockStep, stmt]
  have htokens : Block.tokens ⟨locals, stmts⟩ = .word .openBrace ::
      (declTokens .local locals ++ (stmts.flatMap Stmt.tokens ++ [.word .closeBrace])) := by
    rw [Block.tokens, Stmt.tokensOf_eq_flatMap]
  rw [block_eq, hstep, htokens]
  constructor
  · rintro ⟨m, hm, n, hn, hmore⟩
    obtain ⟨k, hk, rfl, -⟩ := (hlocals m n).mp hn
    obtain ⟨l, hl, hclose, -⟩ := (hstmts k _).mp hmore
    exact ⟨m, hm, reads_append.mpr ⟨k, hk, reads_append.mpr ⟨l, hl, r, hclose, rfl⟩⟩⟩
  · rintro ⟨m, hm, hrest⟩
    obtain ⟨k, hk, hrest⟩ := reads_append.mp hrest
    -- behind the locals comes a statement or the closing brace
    have havoids : Avoids .local (stmts.flatMap Stmt.tokens ++ [.word .closeBrace]) :=
      avoids_flatMap Stmt.avoids_local (avoids_word fun _ => rfl)
    have hlocal : Declines (lexeme localDecl) (skipBlank k) :=
      (declines_keyword (hrest.strip?_eq havoids)).lexeme.bind.lexeme
    obtain ⟨l, hl, _, hclose, rfl⟩ := reads_append.mp hrest
    exact ⟨m, hm, _, (hlocals m _).mpr ⟨k, hk, rfl, hlocal⟩,
      (hstmts k _).mpr ⟨l, hl, hclose, declines_stmt_close.lexeme⟩⟩

theorem stmt_block_matches {b : Block Stmt} (hb : Matches block b (Block.tokens b)) :
    Matches stmt (.block b) (Stmt.block b).tokens := by
  intro s r
  rw [stmt, stmtOf]
  simp [ifStmt, forStmt, assignStmt, Stmt.tokens, hb _ _]

theorem assign_matches (target value : Expr) :
    Matches stmt (.assign target value) (Stmt.assign target value).tokens := by
  intro s r
  have hassign : assignStmt (skipBlank s) = .done (.assign target value) r ↔
      Reads (Stmt.assign target value).tokens s r := by
    simp [assignStmt, Stmt.tokens, Token.ReadTo, Word.text, expr_matches _ _ _]
  have hblock : (do let b ← block; pure (.block b) : Parser Stmt) (skipBlank s) ≠
      .done (.assign target value) r := by simp
  have hif : ifStmt block (skipBlank s) ≠ .done (.assign target value) r := by simp [ifStmt]
  have hfor : forStmt block (skipBlank s) ≠ .done (.assign target value) r := by simp [forStmt]
  rw [stmt, stmtOf, orElse_eq_done_iff, orElse_eq_done_iff, orElse_eq_done_iff, hassign]
  simp only [hblock, hif, hfor, false_or]
  refine ⟨fun h => h.2.2.2, fun h => ?_⟩
  have hword {w : Word} (hw : w ∈ [Word.local, .if, .for, .openBrace, .closeBrace]) :=
    h.strip?_eq (target.avoids_tokens hw).append
  refine ⟨(declines_block (hword (w := .openBrace) (by decide))).bind, ?_, ?_, h⟩
  · exact (declines_keyword (hword (w := .if) (by decide))).lexeme.bind
  · exact (declines_keyword (hword (w := .for) (by decide))).lexeme.bind

theorem ifElse_matches (cond : Expr) {t e : Block Stmt} (ht : Matches block t (Block.tokens t))
    (he : Matches block e (Block.tokens e)) :
    Matches stmt (.ifElse cond t e) (Stmt.ifElse cond t e).tokens := by
  intro s r
  have hif : ifStmt block (skipBlank s) = .done (.ifElse cond t e) r ↔
      Reads (Stmt.ifElse cond t e).tokens s r := by
    simp [ifStmt, Stmt.tokens, Token.ReadTo, Word.text, expr_matches _ _ _, ht _ _, he _ _]
  have hblock : (do let b ← block; pure (.block b) : Parser Stmt) (skipBlank s) ≠
      .done (.ifElse cond t e) r := by simp
  have hfor : forStmt block (skipBlank s) ≠ .done (.ifElse cond t e) r := by simp [forStmt]
  have hassign : assignStmt (skipBlank s) ≠ .done (.ifElse cond t e) r := by simp [assignStmt]
  rw [stmt, stmtOf, orElse_eq_done_iff, orElse_eq_done_iff, orElse_eq_done_iff, hif]
  simp only [hblock, hfor, hassign, false_or, or_false, and_false]
  refine ⟨fun h => h.2, fun h => ⟨?_, h⟩⟩
  have hword := h.strip?_eq (avoids_word (w := .openBrace) (v := .if) fun _ => rfl)
  exact (declines_block hword).bind

theorem forRange_matches (init limit step : Int32) {b : Block Stmt}
    (hb : Matches block b (Block.tokens b)) :
    Matches stmt (.forRange init limit step b) (Stmt.forRange init limit step b).tokens := by
  intro s r
  have hfor : forStmt block (skipBlank s) = .done (.forRange init limit step b) r ↔
      Reads (Stmt.forRange init limit step b).tokens s r := by
    simp [forStmt, Stmt.tokens, Token.ReadTo, Word.text, hb _ _]
  have hblock : (do let b ← block; pure (.block b) : Parser Stmt) (skipBlank s) ≠
      .done (.forRange init limit step b) r := by simp
  have hif : ifStmt block (skipBlank s) ≠ .done (.forRange init limit step b) r := by simp [ifStmt]
  have hassign : assignStmt (skipBlank s) ≠ .done (.forRange init limit step b) r := by
    simp [assignStmt]
  rw [stmt, stmtOf, orElse_eq_done_iff, orElse_eq_done_iff, orElse_eq_done_iff, hfor]
  simp only [hblock, hif, hassign, false_or, or_false, and_false]
  refine ⟨fun h => h.2.2, fun h => ⟨?_, ?_, h⟩⟩
  · have hword := h.strip?_eq (avoids_word (w := .openBrace) (v := .for) fun _ => rfl)
    exact (declines_block hword).bind
  · have hword := h.strip?_eq (avoids_word (w := .if) (v := .for) fun _ => rfl)
    exact (declines_keyword hword).lexeme.bind

mutual

theorem stmt_matches (t : Stmt) : Matches stmt t t.tokens := by
  cases t with
  | block b => exact stmt_block_matches (block_matches b)
  | assign target value => exact assign_matches target value
  | ifElse cond t e => exact ifElse_matches cond (block_matches t) (block_matches e)
  | forRange init limit step b => exact forRange_matches init limit step (block_matches b)

theorem block_matches (b : Block Stmt) : Matches block b (Block.tokens b) := by
  obtain ⟨locals, stmts⟩ := b
  exact block_matches_of_stmts (stmt_matches_of_mem stmts)

theorem stmt_matches_of_mem (ts : List Stmt) : ∀ t ∈ ts, Matches stmt t t.tokens := by
  intro t ht
  cases ts with
  | nil => cases ht
  | cons u us =>
    obtain rfl | ht := List.mem_cons.mp ht
    · exact stmt_matches t
    · exact stmt_matches_of_mem us t ht

end

end Parser

end ShaderTree
