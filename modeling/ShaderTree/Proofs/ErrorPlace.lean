import Mathlib
import ShaderTree.Proofs.Completion
import ShaderTree.Proofs.Starts
import ShaderTree.Proofs.TokenText

namespace ShaderTree

namespace Parser

variable {α β : Type} {k : Nat} {p q : Parser α} {f : α → Parser β} {a : α} {w : Word}
  {toks toks' : List Token} {s r t : List Char}

def Beyond (t : List Char) : Outcome α → Prop
  | .done _ r => r <:+ t
  | .declined e => e.rest <:+ t
  | .failed e => e.rest <:+ t

theorem Leaves.beyond {o : Outcome α} (h : Leaves k s o) (hs : s <:+ t) : Beyond t o := by
  cases o with
  | done a r => exact h.1.trans hs
  | declined e => exact h.1.trans hs
  | failed e => exact h.1.trans hs

/-- Where the tokens are read the parser comes past them. What it leaves and its faults are no
further in front than what follows the tokens. -/
def Reaches (p : Parser α) (toks : List Token) : Prop :=
  ∀ s m, Reads toks s m → Beyond (skipBlank m) (p (skipBlank s))

structure Commits (p : Parser α) (toks : List Token) : Prop where
  reaches : Reaches p toks
  not_declines : ∀ s m, Reads toks s m → ¬Declines p (skipBlank s)

theorem reaches_nil (hp : ∀ n, Alike k n p p) : Reaches p [] := by
  rintro s _ rfl
  exact (hp _ (skipBlank s) (Nat.le_refl _)).2.beyond List.suffix_rfl

theorem Reaches.bind (hp : Reaches p toks) (hf : ∀ a n, Alike 0 n (f a) (f a)) :
    Reaches (p >>= f) toks := by
  intro s m h
  have hfirst := hp s m h
  rw [bind_apply]
  cases hs : p (skipBlank s) with
  | done a r =>
    rw [hs] at hfirst
    exact (hf a r.length r (Nat.le_refl _)).2.beyond hfirst
  | declined e =>
    rw [hs] at hfirst
    exact hfirst
  | failed e =>
    rw [hs] at hfirst
    exact hfirst

theorem Reaches.lexeme_bind (hp : Matches p a toks) (hf : Reaches (f a) toks') :
    Reaches (lexeme p >>= f) (toks ++ toks') := by
  intro s m h
  obtain ⟨l, hl, hm⟩ := reads_append.mp h
  rw [bind_done (lexeme_done ((hp s l).mpr hl))]
  exact hf l m hm

theorem Reaches.commit (h : Reaches p toks) : Commits (commit p) toks where
  reaches s m hm := by
    have hs := h s m hm
    rw [Parser.commit]
    cases hp : p (skipBlank s) <;> rw [hp] at hs <;> exact hs
  not_declines s _ _ := neverDeclines_commit p (skipBlank s)

theorem Commits.lexeme_bind (hp : Matches p a toks) (hf : Commits (f a) toks') :
    Commits (lexeme p >>= f) (toks ++ toks') where
  reaches := hf.reaches.lexeme_bind hp
  not_declines s m h := by
    obtain ⟨l, hl, hm⟩ := reads_append.mp h
    rintro ⟨e, he⟩
    rw [bind_done (lexeme_done ((hp s l).mpr hl))] at he
    exact hf.not_declines l m hm ⟨e, he⟩

theorem Commits.map {g : α → β} (hp : Commits p toks) :
    Commits (do let a ← p; pure (g a)) toks where
  reaches := hp.reaches.bind fun _ n => alike_pure n _
  not_declines s m h := by
    rintro ⟨e, he⟩
    rw [bind_apply] at he
    cases hs : p (skipBlank s) with
    | done a r => rw [hs] at he; cases he
    | declined e' => exact hp.not_declines s m h ⟨e', hs⟩
    | failed e' => rw [hs] at he; cases he

theorem Commits.orElse (hp : Commits p toks) : Commits (orElse p q) toks := by
  have heq {s m : List Char} (h : Reads toks s m) :
      Parser.orElse p q (skipBlank s) = p (skipBlank s) := by
    rw [Parser.orElse]
    cases hs : p (skipBlank s) with
    | declined e => exact absurd ⟨e, hs⟩ (hp.not_declines s m h)
    | _ => rfl
  refine ⟨fun s m h => ?_, fun s m h => ?_⟩
  · rw [heq h]
    exact hp.reaches s m h
  · rintro ⟨e, he⟩
    rw [heq h] at he
    exact hp.not_declines s m h ⟨e, he⟩

theorem Commits.orElse_of_declines (hp : ∀ s m, Reads toks s m → Declines p (skipBlank s))
    (hq : Commits q toks) : Commits (Parser.orElse p q) toks where
  reaches s m h := by
    rw [(hp s m h).orElse_eq]
    exact hq.reaches s m h
  not_declines s m h := by
    rintro ⟨e, he⟩
    rw [(hp s m h).orElse_eq] at he
    exact hq.not_declines s m h ⟨e, he⟩

theorem beyond_many (hp : ∀ n, Alike 1 n p p) (h : p s = .done a r) (hr : Beyond t (many p r)) :
    Beyond t (many p s) := by
  have hleaves := (hp s.length s (Nat.le_refl _)).2
  rw [h] at hleaves
  have hshort : r.length < s.length := hleaves.2
  rw [many, h]
  dsimp only
  rw [if_pos hshort]
  cases hmany : many p r <;> rw [hmany] at hr <;> exact hr

/-- A repetition whose first item has begun. -/
theorem Commits.many (hp : ∀ n, Alike 1 n p p) (h : Commits p toks) :
    Reaches (many (lexeme p)) toks := by
  intro s m hm
  have hlexeme (n : Nat) : Alike 1 n (lexeme p) (lexeme p) := (hp n).lexeme
  have hfirst := h.reaches s m hm
  cases hs : p (skipBlank s) with
  | done a r =>
    rw [hs] at hfirst
    have hmore := (hlexeme (skipBlank r).length).many (skipBlank r) (Nat.le_refl _)
    exact beyond_many hlexeme (lexeme_done hs)
      (hmore.2.beyond ((skipBlank_suffix r).trans hfirst))
  | declined e => exact absurd ⟨e, hs⟩ (h.not_declines s m hm)
  | failed e =>
    rw [hs] at hfirst
    have hitem : lexeme p (skipBlank s) = .failed e := by rw [lexeme, bind_apply, hs]
    rw [Parser.many, hitem]
    exact hfirst

theorem Reaches.many_cons (hp : ∀ n, Alike 1 n p p) (ha : Matches p a toks)
    (h : Reaches (many (lexeme p)) toks') : Reaches (many (lexeme p)) (toks ++ toks') := by
  intro s m hm
  obtain ⟨l, hl, hm⟩ := reads_append.mp hm
  exact beyond_many (fun n => (hp n).lexeme) (lexeme_done ((ha s l).mpr hl)) (h l m hm)

variable {tokens : α → List Token} {inner : α → List (List Token)} {as : List α}

theorem Reaches.many_all (hp : ∀ n, Alike 1 n p p) (hread : ∀ a ∈ as, Matches p a (tokens a)) :
    Reaches (many (lexeme p)) (as.flatMap tokens) := by
  induction as with
  | nil => exact reaches_nil fun n => (hp n).lexeme.many
  | cons a as ih =>
    rw [List.flatMap_cons]
    exact (ih fun b hb => hread b (List.mem_cons_of_mem a hb)).many_cons hp
      (hread a List.mem_cons_self)

theorem Reaches.many_starts (hp : ∀ n, Alike 1 n p p) (hread : ∀ a ∈ as, Matches p a (tokens a))
    (hinner : ∀ a ∈ as, ∀ toks ∈ inner a, Commits p toks)
    (h : toks ∈ startsBetween tokens inner as) : Reaches (many (lexeme p)) toks := by
  induction as generalizing toks with
  | nil => cases h
  | cons a as ih =>
    obtain ⟨ha, has⟩ := List.forall_mem_cons.mp hread
    obtain ⟨hinner, hinners⟩ := List.forall_mem_cons.mp hinner
    obtain rfl | h := List.mem_cons.mp h
    · exact reaches_nil fun n => (hp n).lexeme.many
    obtain h | h := List.mem_append.mp h
    · exact (hinner toks h).many hp
    · obtain ⟨toks, hmem, rfl⟩ := List.mem_map.mp h
      exact (ih has hinners hmem).many_cons hp ha

theorem avoids_starts (htokens : ∀ a, Avoids w (tokens a))
    (hinner : ∀ a, ∀ toks ∈ inner a, Avoids w toks) (h : toks ∈ startsBetween tokens inner as) :
    toks = [] ∨ Avoids w toks := by
  cases as with
  | nil => cases h
  | cons a as =>
    obtain rfl | h := List.mem_cons.mp h
    · exact Or.inl rfl
    obtain h | h := List.mem_append.mp h
    · exact Or.inr (hinner a toks h)
    · obtain ⟨toks, -, rfl⟩ := List.mem_map.mp h
      exact Or.inr (htokens a).append

variable {g : List Ty → Parser β} {ts : List Ty} {behind : List (List Token)}

theorem Reaches.decls_bind (hg : ∀ ts n, Alike 0 n (g ts) (g ts))
    (hbehind : ∀ toks ∈ behind, Reaches (g ts) toks ∧ (toks = [] ∨ Avoids w toks))
    (h : toks ∈ startsWithDecls w ts behind) :
    Reaches (do let ts ← many (globalDecl w.text); g ts) toks := by
  have hread : ∀ t ∈ ts, Matches (do lexeme (keyword w.text); Parser.commit ty) t
      (.word w :: t.tokens) := fun t _ => decl_matches w t
  obtain h | h := List.mem_append.mp h
  · have hdecls : Reaches (many (globalDecl w.text)) toks :=
      Reaches.many_starts (fun n => alike_decl n w.text) hread (fun _ _ _ h => by cases h) h
    exact hdecls.bind hg
  obtain ⟨toks, hmem, rfl⟩ := List.mem_map.mp h
  obtain ⟨hreaches, rfl | havoids⟩ := hbehind toks hmem
  · rw [List.append_nil]
    have hdecls : Reaches (many (globalDecl w.text)) (declTokens w ts) :=
      Reaches.many_all (fun n => alike_decl n w.text) hread
    exact hdecls.bind hg
  · intro s m hm
    obtain ⟨l, hl, hm⟩ := reads_append.mp hm
    have hend := declines_globalDecl (hm.strip?_eq havoids)
    rw [bind_done (decls_iff.mpr ⟨l, hl, rfl, hend⟩)]
    exact hreaches l m hm

theorem avoids_startsWithDecls {v : Word} (hv : ∀ toks, Avoids w (.word v :: toks))
    (hbehind : ∀ toks ∈ behind, toks = [] ∨ Avoids w toks)
    (h : toks ∈ startsWithDecls v ts behind) : toks = [] ∨ Avoids w toks := by
  obtain h | h := List.mem_append.mp h
  · exact avoids_starts (fun t => hv _) (fun _ _ h => by cases h) h
  obtain ⟨toks, hmem, rfl⟩ := List.mem_map.mp h
  cases ts with
  | nil => exact hbehind toks hmem
  | cons t ts => exact Or.inr (hv _)

theorem Reaches.lexeme (hp : Reaches p toks) : Reaches (lexeme p) toks :=
  hp.bind fun a n => (alike_blank n).bind fun _ => alike_pure n a

theorem block_commits_of_stmts {locals : List Ty} {stmts : List Stmt}
    (hstmts : ∀ t ∈ stmts, ∀ toks ∈ t.starts, Commits stmt toks) :
    ∀ toks ∈ Block.starts ⟨locals, stmts⟩, Commits block toks := by
  intro toks h
  obtain ⟨toks, hmem, rfl⟩ := List.mem_map.mp h
  have hclose (locals : List Ty) (stmts : List Stmt) (n : Nat) :
      Alike 0 n (do symbol '}'; pure ⟨locals, stmts⟩ : Parser (Block Stmt))
        (do symbol '}'; pure ⟨locals, stmts⟩) :=
    (alike_symbol n '}').weaken.bind fun _ => alike_pure n _
  have hbehind : ∀ toks ∈ Stmt.startsOf stmts,
      Reaches (do
          let stmts ← many (lexeme stmt)
          symbol '}'
          pure ⟨locals, stmts⟩ : Parser (Block Stmt)) toks ∧ (toks = [] ∨ Avoids .local toks) := by
    intro toks h
    rw [Stmt.startsOf_eq] at h
    have hmany := Reaches.many_starts alike_stmt (fun t _ => stmt_matches t) hstmts h
    exact ⟨hmany.bind (hclose locals), avoids_starts Stmt.avoids_local Stmt.avoids_starts h⟩
  rw [block_eq]
  refine Commits.lexeme_bind (symbol_matches rfl) (Reaches.commit ?_)
  refine Reaches.decls_bind (w := .local) (fun locals n => ?_) hbehind hmem
  exact (alike_stmt n).lexeme.many.bind fun stmts => hclose locals stmts n

theorem commits_ifElse {cond : Expr} (h : Reaches (do
      let t ← lexeme block
      lexeme (keyword "else")
      let e ← block
      pure (.ifElse cond t e) : Parser Stmt) toks) :
    Commits stmt (.word .if :: (cond.tokens ++ toks)) := by
  have hif : Commits (ifStmt block) (.word .if :: (cond.tokens ++ toks)) :=
    Commits.lexeme_bind (keyword_matches .if) (h.lexeme_bind (expr_matches cond)).commit
  refine Commits.orElse_of_declines (fun s m hm => ?_) hif.orElse
  exact (declines_block (hm.strip?_eq (w := .openBrace) (avoids_word fun _ => rfl))).bind

theorem commits_forRange {init limit step : Int32} (h : Reaches (do
      let b ← block
      pure (.forRange init limit step b) : Parser Stmt) toks) :
    Commits stmt (.word .for :: .bound init :: .word .dots :: .bound limit :: .word .step ::
      .bound step :: toks) := by
  have hfor : Commits (forStmt block) (.word .for :: .bound init :: .word .dots :: .bound limit ::
      .word .step :: .bound step :: toks) := by
    refine Commits.lexeme_bind (keyword_matches .for) (Reaches.commit ?_)
    refine Reaches.lexeme_bind (bound_matches init) ?_
    refine Reaches.lexeme_bind (keyword_matches .dots) ?_
    refine Reaches.lexeme_bind (bound_matches limit) ?_
    refine Reaches.lexeme_bind (keyword_matches .step) ?_
    exact Reaches.lexeme_bind (bound_matches step) h
  refine Commits.orElse_of_declines (fun s m hm => ?_) (Commits.orElse_of_declines
    (fun s m hm => ?_) hfor.orElse)
  · exact (declines_block (hm.strip?_eq (w := .openBrace) (avoids_word fun _ => rfl))).bind
  · exact (declines_keyword (hm.strip?_eq (w := .if) (avoids_word fun _ => rfl))).lexeme.bind

mutual

theorem stmt_commits (t : Stmt) : ∀ toks ∈ t.starts, Commits stmt toks := by
  intro toks h
  cases t with
  | block b => exact (block_commits b toks h).map.orElse
  | assign target value => cases h
  | ifElse cond t e =>
    obtain h | h := List.mem_append.mp h
    · obtain ⟨toks, hmem, rfl⟩ := List.mem_map.mp h
      refine commits_ifElse ((block_commits t toks hmem).reaches.lexeme.bind fun t n => ?_)
      exact (alike_keyword n (by decide)).lexeme.weaken.bind fun _ =>
        (alike_block n).weaken.bind fun _ => alike_pure n _
    · obtain ⟨toks, hmem, rfl⟩ := List.mem_map.mp h
      refine commits_ifElse (Reaches.lexeme_bind (block_matches t) ?_)
      exact ((block_commits e toks hmem).map.reaches).lexeme_bind (keyword_matches .else)
  | forRange init limit step b =>
    obtain ⟨toks, hmem, rfl⟩ := List.mem_map.mp h
    exact commits_forRange (block_commits b toks hmem).map.reaches

theorem block_commits (b : Block Stmt) : ∀ toks ∈ Block.starts b, Commits block toks := by
  obtain ⟨locals, stmts⟩ := b
  exact block_commits_of_stmts (stmt_commits_of_mem stmts)

theorem stmt_commits_of_mem (ts : List Stmt) :
    ∀ t ∈ ts, ∀ toks ∈ t.starts, Commits stmt toks := by
  intro t ht
  cases ts with
  | nil => cases ht
  | cons u us =>
    obtain rfl | ht := List.mem_cons.mp ht
    · exact stmt_commits t
    · exact stmt_commits_of_mem us t ht

end

theorem params_matches {ps : List (Direction × Ty)} (h : inOrder ps = true) :
    Matches params ps (.word .openParen :: (commaSeparated (ps.map Func.paramTokens) ++
      [.word .closeParen])) :=
  fun _ _ => params_eq_done_iff.trans (and_iff_left h)

theorem func_commits (f : Func) : ∀ toks ∈ f.starts, Commits func toks := by
  intro toks h
  obtain ⟨toks, hmem, rfl⟩ := List.mem_map.mp h
  have hlist : .word .openParen :: (commaSeparated (f.params.map Func.paramTokens) ++
      .word .closeParen :: toks) = .word .openParen ::
        (commaSeparated (f.params.map Func.paramTokens) ++ [.word .closeParen]) ++ toks := by simp
  rw [hlist]
  refine Commits.lexeme_bind (keyword_matches .func) (Reaches.commit ?_)
  refine Reaches.lexeme_bind (funcName_matches f.name) ?_
  refine Reaches.lexeme_bind (params_matches (inOrder_params f)) ?_
  exact (block_commits f.body toks hmem).map.reaches

theorem avoids_funcStarts {fs : List Func} (hw : ∀ toks, Avoids w (.word .func :: toks)) :
    ∀ toks ∈ startsBetween Func.tokens Func.starts fs, toks = [] ∨ Avoids w toks := by
  refine fun toks h => avoids_starts (fun f => hw _) (fun f toks h => ?_) h
  obtain ⟨toks, -, rfl⟩ := List.mem_map.mp h
  exact hw _

/-- What is read behind each kind of declarations of a program, down to its functions. -/
def funcsBehind (uniforms attributes varyings : List Ty) : Parser Program := do
  let funcs ← many (lexeme func)
  lexeme (symbol '}')
  pure ⟨uniforms, attributes, varyings, funcs⟩

def varyingsBehind (uniforms attributes : List Ty) : Parser Program := do
  let varyings ← many (globalDecl "varying")
  funcsBehind uniforms attributes varyings

def attributesBehind (uniforms : List Ty) : Parser Program := do
  let attributes ← many (globalDecl "attribute")
  varyingsBehind uniforms attributes

variable {us ats vs : List Ty} {fs : List Func}

theorem alike_funcsBehind (us ats vs : List Ty) (n : Nat) :
    Alike 0 n (funcsBehind us ats vs) (funcsBehind us ats vs) :=
  (alike_func n).lexeme.many.bind fun _ =>
    (alike_symbol n '}').lexeme.weaken.bind fun _ => alike_pure n _

theorem alike_varyingsBehind (us ats : List Ty) (n : Nat) :
    Alike 0 n (varyingsBehind us ats) (varyingsBehind us ats) :=
  (alike_globalDecl n _).many.bind fun vs => alike_funcsBehind us ats vs n

theorem alike_attributesBehind (us : List Ty) (n : Nat) :
    Alike 0 n (attributesBehind us) (attributesBehind us) :=
  (alike_globalDecl n _).many.bind fun ats => alike_varyingsBehind us ats n

theorem funcsBehind_reaches (h : toks ∈ startsBetween Func.tokens Func.starts fs) :
    Reaches (funcsBehind us ats vs) toks := by
  have hfuncs := Reaches.many_starts alike_func (fun f _ => func_matches f)
    (fun f _ => func_commits f) h
  exact hfuncs.bind fun _ n => (alike_symbol n '}').lexeme.weaken.bind fun _ => alike_pure n _

theorem varyingsBehind_reaches
    (h : toks ∈ startsWithDecls .varying vs (startsBetween Func.tokens Func.starts fs)) :
    Reaches (varyingsBehind us ats) toks := by
  refine Reaches.decls_bind (w := .varying) (alike_funcsBehind us ats) ?_ h
  exact fun toks h =>
    ⟨funcsBehind_reaches h, avoids_funcStarts (fun _ => avoids_word fun _ => rfl) toks h⟩

theorem attributesBehind_reaches (h : toks ∈ startsWithDecls .attribute ats
      (startsWithDecls .varying vs (startsBetween Func.tokens Func.starts fs))) :
    Reaches (attributesBehind us) toks := by
  refine Reaches.decls_bind (w := .attribute) (alike_varyingsBehind us) ?_ h
  refine fun toks h => ⟨varyingsBehind_reaches h, ?_⟩
  exact avoids_startsWithDecls (fun _ => avoids_word fun _ => rfl)
    (avoids_funcStarts fun _ => avoids_word fun _ => rfl) h

theorem program_reaches (p : Program) : ∀ toks ∈ p.starts, Reaches program toks := by
  intro toks h
  obtain ⟨toks, hmem, rfl⟩ := List.mem_map.mp h
  have hopen : Matches (symbol '{') () [.word .openBrace] := symbol_matches rfl
  have hdecls : Reaches (do let us ← many (globalDecl "uniform"); attributesBehind us) toks := by
    refine Reaches.decls_bind (w := .uniform) alike_attributesBehind ?_ hmem
    refine fun toks h => ⟨attributesBehind_reaches h, ?_⟩
    refine avoids_startsWithDecls (fun _ => avoids_word fun _ => rfl) (fun toks h => ?_) h
    exact avoids_startsWithDecls (fun _ => avoids_word fun _ => rfl)
      (avoids_funcStarts fun _ => avoids_word fun _ => rfl) h
  exact (hdecls.lexeme_bind hopen).lexeme_bind (keyword_matches .program)

end Parser

variable {toks : List Token} {tok : Token} {s m u w : List Char} {c : Char}

theorem Reads.exists_last (h : Reads (toks ++ [tok]) (u ++ m) m) :
    ∃ front b cs, u = front ++ (b ++ cs) ∧ tok.Spells cs ∧ Parser.Blank b (cs ++ m) ∧
      tok.ReadTo (cs ++ m) m ∧ Reads toks (front ++ (b ++ (cs ++ m))) (b ++ (cs ++ m)) := by
  obtain ⟨k, hfront, l, hlast, hl⟩ := reads_append.mp h
  rw [show l = m from hl] at hlast
  obtain ⟨cs, hcs, hspells⟩ := hlast.spells
  obtain ⟨b, hb, hblank⟩ := Parser.exists_blank k
  rw [hcs] at hlast hb hblank
  obtain ⟨front, hu⟩ := hfront.suffix
  rw [hb] at hu hfront
  obtain rfl : u = front ++ (b ++ cs) := by
    have hu' : u ++ m = front ++ (b ++ cs) ++ m := by simpa using hu.symm
    exact List.append_cancel_right hu'
  rw [← hu] at hfront
  exact ⟨front, b, cs, rfl, hspells, hblank, hlast, hfront⟩

theorem Token.ReadTo.replace_brace {cs : List Char} (htok : tok.isBrace = true)
    (h : tok.ReadTo (cs ++ m) m) : tok.ReadTo (cs ++ w) w := by
  simp only [isBrace, Bool.or_eq_true, beq_iff_eq] at htok
  obtain rfl | rfl := htok
  · obtain rfl : cs = _ := List.append_cancel_right h
    rfl
  · obtain rfl : cs = _ := List.append_cancel_right h
    rfl

theorem Reads.replace_last (h : Reads toks (u ++ m) m) (hc : u.getLast? = some c)
    (hmark : Text.isWhiteSpace c = true ∨ isBrace c = true) : Reads toks (u ++ w) w := by
  obtain rfl | ⟨toks, tok, rfl⟩ := List.eq_nil_or_concat toks
  · obtain rfl := List.append_left_eq_self.mp h
    cases hc
  rw [List.concat_eq_append] at h ⊢
  obtain ⟨front, b, cs, rfl, hspells, hblank, hread, hfront⟩ := h.exists_last
  have hsolid {t : List Char} : Parser.Solid (cs ++ t) := hspells.solid.append
  have htok : tok.isBrace = true := by
    have hlast := List.getLast?_eq_some_getLast hspells.solid.ne_nil
    rw [← List.append_assoc, List.getLast?_append, hlast, Option.some_or, Option.some_inj] at hc
    have hmem : c ∈ cs := hc ▸ List.getLast_mem hspells.solid.ne_nil
    refine (Bool.eq_false_or_eq_true tok.isBrace).resolve_right fun hbrace => ?_
    have hplain := hspells.plain hbrace c hmem
    obtain hc | hc := hmark <;> simp [isPlain, isVisible, hc] at hplain
  have hfollow : Parser.MayFollow (b ++ (cs ++ m)) (b ++ (cs ++ w)) :=
    (Parser.mayFollow_of_ne_nil hspells.solid.ne_nil).append b
  have hskip : skipBlank (b ++ (cs ++ w)) = cs ++ w := by
    rw [(hblank.replace hsolid).skipBlank_eq, hsolid.skipBlank_eq]
  rw [List.append_assoc, List.append_assoc]
  refine reads_append.mpr ⟨_, hfront.replace hfollow, w, ?_, rfl⟩
  rw [hskip]
  exact hread.replace_brace htok

theorem Reads.replace_blank {b : List Char} (h : Reads toks (u ++ (b ++ m)) (b ++ m))
    (hblank : Parser.Blank b m) (hsolid : Parser.Solid m) (hne : b ≠ []) :
    ∃ r, Reads toks (u ++ (b ++ w)) r ∧ skipBlank r = skipBlank w :=
  ⟨b ++ w, h.replace (Parser.mayFollow_of_ne_nil hne), (hblank.replace hsolid).skipBlank_eq⟩

/-- Where something begins behind white space or a brace, the tokens in front of it are read
whatever comes there. -/
theorem Reads.replace_start {before : List Char} (h : Reads toks (before ++ skipBlank m) m)
    (hsolid : Parser.Solid (skipBlank m)) (hc : before.getLast? = some c)
    (hmark : Text.isWhiteSpace c = true ∨ isBrace c = true) :
    ∃ r, Reads toks (before ++ w) r ∧ skipBlank r = skipBlank w := by
  obtain ⟨b, hb, hblank⟩ := Parser.exists_blank m
  obtain ⟨u, hu⟩ := h.suffix
  generalize skipBlank m = rest at *
  subst hb
  rw [← List.append_assoc, List.append_cancel_right_eq] at hu
  subst hu
  rw [List.append_assoc] at h ⊢
  cases b with
  | nil =>
    rw [List.append_nil] at hc
    exact ⟨w, h.replace_last hc hmark, rfl⟩
  | cons d b => exact h.replace_blank hblank hsolid (List.cons_ne_nil d b)

/-- The text in front of a place where a declaration, a function or a statement of the program
begins. -/
def Program.BeginsBehind (p : Program) (text : String) (before : List Char) : Prop :=
  ∃ toks ∈ p.starts, ∃ m, Reads toks text.toList m ∧ text.toList = before ++ skipBlank m

/-- Every part that begins in the program begins somewhere in its text, with a token. -/
theorem Program.exists_beginsBehind {text : String} {p : Program} (h : Program.parse text = .ok p) :
    ∀ toks ∈ p.starts, ∃ m before, Reads toks text.toList m ∧ text.toList = before ++ skipBlank m ∧
      Parser.Solid (skipBlank m) := by
  intro toks htoks
  obtain ⟨r, hread, -⟩ := Program.parse_eq_ok_iff.mp h
  obtain ⟨tok, rest, hwhole⟩ := p.precedes_starts toks htoks
  rw [hwhole] at hread
  obtain ⟨m, hm, l, htok, -⟩ := reads_append.mp hread
  obtain ⟨cs, hcs, hspells⟩ := htok.spells
  obtain ⟨before, hbefore⟩ := (Parser.skipBlank_suffix m).trans hm.suffix
  exact ⟨m, before, hm, hbefore.symm, hcs ▸ hspells.solid.append⟩

theorem Parser.position_ge {α : Type} {p : Parser α} {before w : List Char} {e : ParseError}
    (hp : Parser.Beyond (skipBlank w) (lexeme p (skipBlank (before ++ w))))
    (h : readAll p (before ++ w) = .error e) : Text.utf8Length before ≤ e.position := by
  have hbefore {r : List Char} (reason : ParseError.Reason) (hr : r <:+ skipBlank w) :
      Text.utf8Length before ≤ (ParseError.before (before ++ w) r reason).position := by
    obtain ⟨t, rfl⟩ := hr.trans (skipBlank_suffix w)
    rw [ParseError.before, Text.utf8Length_append, Text.utf8Length_append]
    dsimp only
    omega
  rw [readAll] at h
  cases hs : lexeme p (skipBlank (before ++ w)) with
  | done a r =>
    rw [hs] at hp h
    cases r with
    | nil => cases h
    | cons c r =>
      obtain rfl := Except.error.inj h
      exact hbefore _ hp
  | declined e' =>
    rw [hs] at hp h
    obtain rfl := Except.error.inj h
    exact hbefore _ hp
  | failed e' =>
    rw [hs] at hp h
    obtain rfl := Except.error.inj h
    exact hbefore _ hp

/-- Where a declaration, a function or a statement of an accepted program begins behind white space
or a brace, no error is reported further in front, whatever the text is there. -/
theorem Program.error_not_before {text : String} {p : Program} (h : Program.parse text = .ok p)
    {before : List Char} (hbefore : p.BeginsBehind text before) {c : Char}
    (hc : before.getLast? = some c) (hmark : Text.isWhiteSpace c = true ∨ isBrace c = true)
    (w : List Char) {e : ParseError} (he : Program.parse (String.ofList (before ++ w)) = .error e) :
    Text.utf8Length before ≤ e.position := by
  obtain ⟨toks, htoks, m, hm, htext⟩ := hbefore
  obtain ⟨m', -, hm', -, hsolid⟩ := exists_beginsBehind h toks htoks
  obtain rfl := hm.unique hm'
  rw [htext] at hm
  obtain ⟨r, hr, hskip⟩ := hm.replace_start (w := w) hsolid hc hmark
  rw [Program.parse, String.toList_ofList] at he
  have hreaches := (Parser.program_reaches p toks htoks).lexeme _ r hr
  rw [hskip] at hreaches
  exact Parser.position_ge hreaches he

def Program.branching : Program where
  funcs := [{
    name := "f"
    body := ⟨[], [.ifElse (.var ⟨.local, 0⟩)
      ⟨[], [.assign (.var ⟨.local, 1⟩) (.var ⟨.local, 2⟩)]⟩ {}]⟩ }]

def Program.branchingFront : String := "program\x7bfunc @f()\x7bif %l0\x7b "

def Program.branchingText : String := branchingFront ++ "%l1 = %l2\x7delse\x7b\x7d\x7d\x7d"

theorem Program.branching_reads : Program.parse branchingText = .ok branching ∧
    branching.BeginsBehind branchingText branchingFront.toList := by
  have hname (s : List Char) :
      Parser.funcName ('@' :: 'f' :: '(' :: s) = .done "f" ('(' :: s) := rfl
  have hcond (s : List Char) :
      Parser.var ('%' :: 'l' :: '0' :: '{' :: s) = .done ⟨.local, 0⟩ ('{' :: s) := rfl
  have htarget (s : List Char) :
      Parser.var ('%' :: 'l' :: '1' :: ' ' :: s) = .done ⟨.local, 1⟩ (' ' :: s) := rfl
  have hvalue (s : List Char) :
      Parser.var ('%' :: 'l' :: '2' :: '}' :: s) = .done ⟨.local, 2⟩ ('}' :: s) := rfl
  constructor
  · refine Program.parse_eq_ok_iff.mpr ⟨[], ?_, Parser.skipBlank_nil⟩
    simp [branching, branchingText, branchingFront, tokens, Func.tokens, Func.params, declTokens,
      Block.tokens, Stmt.tokensOf, Stmt.tokens, Expr.tokens, Token.ReadTo, Word.text, skipBlank,
      isSpacing, hname, hcond, htarget, hvalue]
  · refine ⟨[.word .program, .word .openBrace, .word .func, .name "f", .word .openParen,
      .word .closeParen, .word .openBrace, .word .if, .var ⟨.local, 0⟩, .word .openBrace],
      by decide, " %l1 = %l2\x7delse\x7b\x7d\x7d\x7d".toList, ?_, ?_⟩
    · simp [branchingText, branchingFront, Token.ReadTo, Word.text, skipBlank, isSpacing, hname,
        hcond]
    · simp [branchingText, branchingFront, skipBlank, isSpacing]

theorem Program.branching_error :
    Program.parse (String.ofList (branchingFront.toList ++ "%l1 %l2".toList)) =
        .error ⟨.missing .symbol, 26⟩ ∧ Text.utf8Length branchingFront.toList ≤ 26 := by
  have herror : Program.parse (String.ofList (branchingFront.toList ++ "%l1 %l2".toList)) =
      .error ⟨.missing .symbol, 26⟩ := by cbv
  obtain ⟨hparse, hbegins⟩ := branching_reads
  exact ⟨herror, error_not_before hparse hbegins rfl (Or.inl rfl) _ herror⟩

end ShaderTree
