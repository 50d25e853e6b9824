import ShaderTree.Glsl.Render
import ShaderTree.Proofs.Spacing

namespace ShaderTree

namespace Token

def IsWord (tok : Token) : Prop := ∃ w, tok = word w

theorem isWord_word (w : Word) : (word w).IsWord := ⟨w, rfl⟩

end Token

variable {toks : List Token} {s r : List Char}

theorem isWord_commaSeparated {parts : List (List Token)}
    (h : ∀ part ∈ parts, ∀ tok ∈ part, tok.IsWord) :
    ∀ tok ∈ commaSeparated parts, tok.IsWord := by
  cases parts with
  | nil => exact nofun
  | cons part parts =>
    obtain ⟨hfirst, hmore⟩ := List.forall_mem_cons.mp h
    rw [commaSeparated_cons]
    refine List.forall_mem_append.mpr ⟨hfirst, fun tok htok => ?_⟩
    obtain ⟨next, hnext, htok⟩ := List.mem_flatMap.mp htok
    obtain rfl | htok := List.mem_cons.mp htok
    · exact Token.isWord_word .comma
    · exact hmore next hnext tok htok

mutual

theorem Ty.isWord_tokens (t : Ty) : ∀ tok ∈ t.tokens, tok.IsWord := by
  cases t with
  | basic b => exact List.forall_mem_singleton.mpr (Token.isWord_word _)
  | struct members =>
    have hmembers := isWord_commaSeparated (Ty.isWord_tokensOf members)
    rw [Ty.tokens]
    simp only [List.forall_mem_cons, List.forall_mem_append]
    exact ⟨Token.isWord_word _, Token.isWord_word _, hmembers, Token.isWord_word _, nofun⟩

theorem Ty.isWord_tokensOf (ts : List Ty) :
    ∀ part ∈ Ty.tokensOf ts, ∀ tok ∈ part, tok.IsWord := by
  cases ts with
  | nil => exact nofun
  | cons t ts => exact List.forall_mem_cons.mpr ⟨t.isWord_tokens, Ty.isWord_tokensOf ts⟩

end

theorem Func.isWord_paramTokens (p : Direction × Ty) : ∀ tok ∈ paramTokens p, tok.IsWord :=
  List.forall_mem_cons.mpr ⟨Token.isWord_word _, p.2.isWord_tokens⟩

theorem Token.ReadTo.behind_blank {tok : Token} {b cs : List Char} (h : tok.ReadTo (cs ++ r) r)
    (hb : Parser.Blank b (cs ++ r)) (hcs : tok.Spells cs) :
    tok.ReadTo (skipBlank (b ++ (cs ++ r))) r := by
  rwa [hb.skipBlank_eq, hcs.solid.append.skipBlank_eq]

/-- Words are read wherever they are written, since no two of them run into each other. -/
theorem Written.reads_of_isWord (h : Written toks s) (hwords : ∀ tok ∈ toks, tok.IsWord) :
    ∃ r, Reads toks s r ∧ skipBlank r = [] := by
  induction h with
  | @nil b hb =>
    refine ⟨b, rfl, ?_⟩
    have hskip := hb.skipBlank_eq
    rwa [List.append_nil, Parser.skipBlank_nil] at hskip
  | @cons tok toks b cs t hb hcs _ ih =>
    obtain ⟨⟨w, rfl⟩, hmore⟩ := List.forall_mem_cons.mp hwords
    obtain ⟨r, hr, hend⟩ := ih hmore
    have hread : (Token.word w).ReadTo (cs ++ t) t := congrArg (· ++ t) hcs
    exact ⟨r, ⟨t, hread.behind_blank hb hcs, hr⟩, hend⟩

/-- The first text is the tokens, with blank in front of each of them and behind the last one,
where the second text follows. -/
inductive WrittenBefore : List Token → List Char → List Char → Prop
  | nil {b r : List Char} (hb : Parser.Blank b r) : WrittenBefore [] b r
  | cons {tok : Token} {toks : List Token} {b cs t r : List Char}
      (hb : Parser.Blank b (cs ++ (t ++ r))) (hcs : tok.Spells cs) (ht : WrittenBefore toks t r) :
      WrittenBefore (tok :: toks) (b ++ (cs ++ t)) r

theorem Written.exists_before {toks' : List Token}
    (h : Written (toks ++ .word .openParen :: toks') s) : ∃ front back, s = front ++ '(' :: back ∧
      WrittenBefore toks front ('(' :: back) ∧
        Written (.word .openParen :: toks') ('(' :: back) := by
  induction toks generalizing s with
  | nil =>
    cases h with
    | @cons _ _ b cs t hb hcs ht =>
      obtain rfl : cs = ['('] := hcs
      have hcs : (Token.word .openParen).Spells ['('] := rfl
      exact ⟨b, t, rfl, .nil hb, .cons (b := []) .nil hcs ht⟩
  | cons tok toks ih =>
    cases h with
    | @cons _ _ b cs t hb hcs ht =>
      obtain ⟨front, back, rfl, hbefore, hlist⟩ := ih ht
      exact ⟨b ++ (cs ++ front), back, by simp, .cons hb hcs hbefore, hlist⟩

namespace Parser

variable {ps : List (Direction × Ty)}

theorem Blank.ends_name {b : List Char} (hb : Blank b r) (hr : Ends isNameChar r) :
    Ends isNameChar (b ++ r) := by
  cases hb with
  | nil => exact hr
  | spacing hc _ => exact ends_cons (excludesBlank_name _ (Bool.or_eq_true_iff.mpr (Or.inl hc)))
  | comment _ _ _ => exact ends_cons (excludesBlank_name ';' rfl)

theorem reads_funcName {name : String} {front back : List Char}
    (h : WrittenBefore [.word .func, .name name] front ('(' :: back)) :
    ∃ j, Reads [.word .func, .name name] (front ++ '(' :: back) j ∧ skipBlank j = '(' :: back := by
  have hopen : Solid ('(' :: back) := solid_cons rfl
  cases h with
  | @cons _ _ b cs t _ hb hcs h =>
    cases h with
    | @cons _ _ b' cs' t' _ hb' hcs' h =>
      cases h with
      | nil hblank =>
        have hrest : Ends isNameChar (t' ++ '(' :: back) :=
          hblank.ends_name (ends_cons (by decide +kernel))
        have hword : (Token.word .func).ReadTo (cs ++ (b' ++ (cs' ++ (t' ++ '(' :: back))))
            (b' ++ (cs' ++ (t' ++ '(' :: back))) := congrArg (· ++ _) hcs
        have hname : (Token.name name).ReadTo (cs' ++ (t' ++ '(' :: back)) (t' ++ '(' :: back) := by
          obtain ⟨rfl, hne, hchars⟩ := hcs'
          exact funcName_done hne (fun c hc => by simpa [isNameChar] using hchars c hc) hrest
        simp only [List.append_assoc] at hb hb' ⊢
        exact ⟨_, ⟨_, hword.behind_blank hb hcs, _, hname.behind_blank hb' hcs', rfl⟩,
          hblank.skipBlank_eq.trans hopen.skipBlank_eq⟩

/-- A list of parameters is read up to its end, and then its order is looked at. -/
theorem params_of_reads (h : Reads (.word .openParen ::
      (commaSeparated (ps.map Func.paramTokens) ++ [.word .closeParen])) s r) :
    params (skipBlank s) =
      if inOrder ps = true then .done ps r else .declined ⟨skipBlank s, .order⟩ := by
  obtain ⟨m, hopen, hrest⟩ := h
  obtain ⟨k, hitems, l, hclose, hl⟩ := reads_append.mp hrest
  obtain rfl : l = r := hl
  have hopen : symbol '(' (skipBlank s) = .done () m := symbol_eq_done_iff.mpr hopen
  have hlist : sepBy (lexeme (symbol ',')) (lexeme param) (skipBlank m) = .done ps (')' :: l) :=
    (sepBy_close_iff alike_param (by decide) declines_param_close fun p _ =>
      param_matches p).mpr ⟨k, hitems, hclose⟩
  rw [params, accept, bind_done (lexeme_done hopen), bind_done hlist, bind_done symbol_done]
  cases horder : inOrder ps <;> simp [horder, pure]

theorem func_failed {name : String} {i j : List Char} (hkeyword : skipBlank s = "func".toList ++ i)
    (hname : funcName (skipBlank i) = .done name j)
    (hparams : params (skipBlank j) = .declined ⟨skipBlank j, .order⟩) :
    func (skipBlank s) = .failed ⟨skipBlank j, .order⟩ := by
  have hkeyword : keyword "func" (skipBlank s) = .done () i := keyword_eq_done_iff.mpr hkeyword
  have hlist : lexeme params (skipBlank j) = .declined ⟨skipBlank j, .order⟩ := by
    rw [lexeme, bind_apply, hparams]
  rw [func, bind_done (lexeme_done hkeyword), commit, bind_done (lexeme_done hname), bind_apply,
    hlist]

theorem readAll_failed {α : Type} {p : Parser α} {e : Fault} (h : p (skipBlank s) = .failed e) :
    readAll p s = .error (.before s e.rest (.missing e.cause)) := by
  have hlexeme : lexeme p (skipBlank s) = .failed e := by rw [lexeme, bind_apply, h]
  rw [readAll, hlexeme]

end Parser

namespace Glsl

theorem declareParams_getElem? {table : StructTable} {next last : Nat}
    {ps : List (Direction × Ty)} {qs : List Param}
    (h : declareParams table next ps = .ok (qs, last)) {k : Nat} {d : Direction} {t : Ty}
    (hk : ps[k]? = some (d, t)) :
    ∃ name, typeName table t = .ok name ∧ qs[k]? = some ⟨d, name, next + k⟩ := by
  induction ps generalizing next qs k with
  | nil => cases hk
  | cons p ps ih =>
    obtain ⟨d', t'⟩ := p
    rw [declareParams] at h
    cases hname : typeName table t' with
    | error e =>
      rw [hname] at h
      cases h
    | ok name =>
      cases hrest : declareParams table (next + 1) ps with
      | error e =>
        rw [hname, hrest] at h
        cases h
      | ok rest =>
        rw [hname, hrest] at h
        cases h
        cases k with
        | zero =>
          cases hk
          exact ⟨name, hname, rfl⟩
        | succ k =>
          obtain ⟨name', hname', hq⟩ := ih hrest hk
          refine ⟨name', hname', ?_⟩
          rw [List.getElem?_cons_succ, hq, Nat.add_assoc, Nat.add_comm 1 k]

end Glsl

namespace Func

/-- The tokens of a function with an empty body, its parameters in the order given. -/
def tokensWith (name : String) (ps : List (Direction × Ty)) : List Token :=
  [.word .func, .name name] ++ (.word .openParen ::
    (commaSeparated (ps.map paramTokens) ++ [.word .closeParen]) ++
      [.word .openBrace, .word .closeBrace])

/-- No parameter comes anywhere behind one of a later direction. -/
def Ordered (ps : List (Direction × Ty)) : Prop := ps.Pairwise fun a b => ¬b.1.rank < a.1.rank

theorem ordered_iff {ps : List (Direction × Ty)} : Ordered ps ↔ Parser.inOrder ps = true := by
  have hrank {a b : Direction × Ty} : ¬b.1.rank < a.1.rank ↔ a.1.rank ≤ b.1.rank := Nat.not_lt
  simp only [Ordered, hrank]
  exact ⟨Parser.inOrder_of_pairwise, Parser.pairwise_of_inOrder⟩

theorem tokens_eq_tokensWith {name : String} {ps : List (Direction × Ty)}
    (h : Parser.inOrder ps = true) :
    Func.tokens ⟨name, Parser.typesOf .in ps, Parser.typesOf .inout ps, Parser.typesOf .out ps,
      {}⟩ = tokensWith name ps := by
  rw [tokens, params, Parser.params_typesOf h]
  simp [tokensWith, Block.tokens, declTokens, Stmt.tokensOf]

theorem exists_reads_tokensWith {name : String} {ps : List (Direction × Ty)} {s : List Char}
    (h : Written (tokensWith name ps) s) : ∃ front back j r, s = front ++ '(' :: back ∧
      WrittenBefore [.word .func, .name name] front ('(' :: back) ∧
      Reads [.word .func, .name name] s j ∧ skipBlank j = '(' :: back ∧
      Reads (.word .openParen :: (commaSeparated (ps.map paramTokens) ++ [.word .closeParen]) ++
        [.word .openBrace, .word .closeBrace]) j r ∧ skipBlank r = [] := by
  obtain ⟨front, back, rfl, hfront, hlist⟩ := Written.exists_before h
  obtain ⟨j, hname, hj⟩ := Parser.reads_funcName hfront
  have hparams : ∀ tok ∈ commaSeparated (ps.map paramTokens), tok.IsWord := by
    refine isWord_commaSeparated fun part hpart => ?_
    obtain ⟨p, -, rfl⟩ := List.mem_map.mp hpart
    exact isWord_paramTokens p
  have hwords : ∀ tok ∈ .word .openParen :: (commaSeparated (ps.map paramTokens) ++
      [.word .closeParen] ++ [.word .openBrace, .word .closeBrace]), tok.IsWord := by
    simp only [List.forall_mem_cons, List.forall_mem_append]
    exact ⟨Token.isWord_word _, ⟨hparams, Token.isWord_word _, nofun⟩, Token.isWord_word _,
      Token.isWord_word _, nofun⟩
  obtain ⟨r, ⟨m, hopen, hrest⟩, hend⟩ := Written.reads_of_isWord hlist hwords
  have hsolid : Parser.Solid ('(' :: back) := Parser.solid_cons rfl
  rw [hsolid.skipBlank_eq, ← hj] at hopen
  exact ⟨front, back, j, r, rfl, hfront, hname, hj, ⟨m, hopen, hrest⟩, hend⟩

theorem parse_of_ordered {name : String} {ps : List (Direction × Ty)} {text : String}
    (h : Written (tokensWith name ps) text.toList) (hps : Ordered ps) : Func.parse text = .ok
      ⟨name, Parser.typesOf .in ps, Parser.typesOf .inout ps, Parser.typesOf .out ps, {}⟩ := by
  obtain ⟨-, -, j, r, -, -, hname, -, hlist, hend⟩ := exists_reads_tokensWith h
  refine Func.parse_eq_ok_iff.mpr ⟨r, ?_, hend⟩
  rw [tokens_eq_tokensWith (ordered_iff.mp hps)]
  exact reads_append.mpr ⟨j, hname, hlist⟩

theorem parse_of_not_ordered {name : String} {ps : List (Direction × Ty)} {text : String}
    (h : Written (tokensWith name ps) text.toList) (hps : ¬Ordered ps) :
    ∃ front back, text.toList = front ++ '(' :: back ∧
      WrittenBefore [.word .func, .name name] front ('(' :: back) ∧
        Func.parse text = .error ⟨.missing .order, Text.utf8Length front⟩ := by
  obtain ⟨front, back, j, r, htext, hfront, ⟨i, hfunc, _, hname, rfl⟩, hj, hlist, -⟩ :=
    exists_reads_tokensWith h
  refine ⟨front, back, htext, hfront, ?_⟩
  obtain ⟨k, hparams, -⟩ := reads_append.mp hlist
  have horder := Parser.params_of_reads hparams
  rw [if_neg fun hin => hps (ordered_iff.mpr hin)] at horder
  have hposition : Text.utf8Length text.toList - Text.utf8Length ('(' :: back) =
      Text.utf8Length front := by
    rw [htext, Text.utf8Length_append, Nat.add_sub_cancel]
  rw [Func.parse, Parser.readAll_failed (Parser.func_failed hfunc hname horder), ParseError.before,
    hj, hposition]

open Glsl in
/-- A function with an empty body is accepted, in whatever layout, just where its parameters are in
the order of their directions. Then they are its parameters as they are written, and each is the
local of its place. Otherwise the error is at the parenthesis that opens the list. -/
theorem params_accepted_iff {name : String} {ps : List (Direction × Ty)} {text : String}
    (h : Written (tokensWith name ps) text.toList) :
    ((∃ f, Func.parse text = .ok f) ↔ Ordered ps) ∧
    (∀ f, Func.parse text = .ok f → f.name = name ∧ f.params = ps ∧ f.body = {} ∧
      ∀ table qs last, declareParams table 0 f.params = .ok (qs, last) →
        ∀ (k : Nat) (d : Direction) (t : Ty), ps[k]? = some (d, t) →
          ∃ type, typeName table t = .ok type ∧ qs[k]? = some ⟨d, type, k⟩) ∧
    ∀ e, Func.parse text = .error e → e.reason.text = "syntax error (Verify)" ∧
      ∃ front back, text.toList = front ++ '(' :: back ∧
        WrittenBefore [.word .func, .name name] front ('(' :: back) ∧
          e.position = Text.utf8Length front := by
  by_cases hps : Ordered ps
  · have hparse := parse_of_ordered h hps
    refine ⟨iff_of_true ⟨_, hparse⟩ hps, fun f hf => ?_, fun e he => ?_⟩
    · cases hparse.symm.trans hf
      have hparams := Parser.params_typesOf (ordered_iff.mp hps)
      refine ⟨rfl, hparams, rfl, fun table qs last hqs k d t hk => ?_⟩
      rw [params, hparams] at hqs
      simpa using declareParams_getElem? hqs hk
    · cases hparse.symm.trans he
  · obtain ⟨front, back, htext, hfront, herror⟩ := parse_of_not_ordered h hps
    refine ⟨iff_of_false ?_ hps, fun f hf => ?_, fun e he => ?_⟩
    · rintro ⟨f, hf⟩
      cases herror.symm.trans hf
    · cases herror.symm.trans hf
    · cases herror.symm.trans he
      exact ⟨rfl, front, back, htext, hfront, rfl⟩

def orderedText : String := "func@f;(\n(in struct\x7bint\x7d,inout float)\x7b\x7d"

def swappedText : String := "func@f;(\n(inout float,in struct\x7bint\x7d)\x7b\x7d"

example : Func.parse swappedText = .error ⟨.missing .order, 9⟩ := by cbv

theorem written_ordered_swapped :
    Written (tokensWith "f" [(.in, .struct [.basic .int]), (.inout, .basic .float)])
        orderedText.toList ∧
      Written (tokensWith "f" [(.inout, .basic .float), (.in, .struct [.basic .int])])
        swappedText.toList := by
  have hname (s : List Char) :
      Parser.funcName ('@' :: 'f' :: ';' :: s) = .done "f" (';' :: s) := rfl
  constructor <;>
  · refine Reads.written (r := []) ?_ Parser.skipBlank_nil
    simp [tokensWith, orderedText, swappedText, commaSeparated_cons, paramTokens, Ty.tokens,
      Ty.tokensOf, Token.ReadTo, Word.text, Direction.keyword, BasicTy.token, skipBlank, isSpacing,
      afterComment?, isLineEnd, startsWithLoneReturn, hname]

theorem ordered_accepted_swapped_refused :
    (∃ f, Func.parse orderedText = .ok f) ∧ ¬∃ f, Func.parse swappedText = .ok f := by
  obtain ⟨hordered, hswapped⟩ := written_ordered_swapped
  exact ⟨(params_accepted_iff hordered).1.mpr (ordered_iff.mpr rfl),
    fun h => Bool.false_ne_true (ordered_iff.mp ((params_accepted_iff hswapped).1.mp h))⟩

end Func

end ShaderTree
