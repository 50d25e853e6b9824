import ShaderTree.Proofs.TokenReading

namespace ShaderTree

namespace Parser

variable {s r : List Char}

theorem pairwise_of_inOrder {ps : List (Direction × Ty)} (h : inOrder ps = true) :
    ps.Pairwise fun a b => a.1.rank ≤ b.1.rank := by
  induction ps with
  | nil => exact List.Pairwise.nil
  | cons a ps ih =>
    cases ps with
    | nil => exact List.pairwise_singleton _ a
    | cons b ps =>
      obtain ⟨hab, hps⟩ := Bool.and_eq_true_iff.mp h
      refine List.pairwise_cons.mpr ⟨fun c hc => ?_, ih hps⟩
      obtain rfl | hc := List.mem_cons.mp hc
      · exact of_decide_eq_true hab
      · exact Nat.le_trans (of_decide_eq_true hab) ((List.pairwise_cons.mp (ih hps)).1 c hc)

theorem typesOf_cons (d e : Direction) (t : Ty) (ps : List (Direction × Ty)) :
    typesOf d ((e, t) :: ps) = if e = d then t :: typesOf d ps else typesOf d ps := by
  by_cases h : e = d
  · simp [typesOf, h]
  · simp [typesOf, h, beq_eq_false_iff_ne.mpr h]

theorem typesOf_eq_nil {d : Direction} {ps : List (Direction × Ty)}
    (h : ∀ p ∈ ps, d.rank < p.1.rank) : typesOf d ps = [] := by
  rw [typesOf, List.map_eq_nil_iff, List.filter_eq_nil_iff]
  intro p hp hd
  have hrank := h p hp
  rw [beq_iff_eq.mp hd] at hrank
  exact Nat.lt_irrefl _ hrank

theorem params_typesOf {ps : List (Direction × Ty)} (h : inOrder ps = true) :
    (typesOf .in ps).map (.in, ·) ++ (typesOf .inout ps).map (.inout, ·) ++
      (typesOf .out ps).map (.out, ·) = ps := by
  have hps := pairwise_of_inOrder h
  clear h
  induction hps with
  | nil => rfl
  | @cons p ps hp _ ih =>
    obtain ⟨d, t⟩ := p
    have hnone {e : Direction} (he : e.rank < d.rank) : typesOf e ps = [] :=
      typesOf_eq_nil fun q hq => Nat.lt_of_lt_of_le he (hp q hq)
    simp only [typesOf_cons]
    cases d with
    | «in» => simpa using ih
    | inout =>
      rw [hnone (e := .in) (by decide)] at ih ⊢
      simpa using ih
    | out =>
      rw [hnone (e := .in) (by decide), hnone (e := .inout) (by decide)] at ih ⊢
      simpa using ih

theorem strip?_out {t : Ty} (h : Reads t.tokens s r) : strip? "out".toList s = none := by
  refine Option.eq_none_iff_forall_ne_some.mpr fun u hu => ?_
  obtain rfl := strip?_eq_some_iff.mp hu
  have hsolid : Solid ("out".toList ++ u) := solid_cons rfl
  cases t with
  | basic b =>
    obtain ⟨m, hm, -⟩ := h
    rw [hsolid.skipBlank_eq] at hm
    cases b <;> simp [Token.ReadTo, Word.text, BasicTy.token] at hm
  | struct members =>
    obtain ⟨m, hm, -⟩ := h
    rw [hsolid.skipBlank_eq] at hm
    simp [Token.ReadTo, Word.text] at hm

theorem direction_done {d : Direction} {t : Ty} (h : Reads t.tokens s r) :
    firstOf .keyword (fun d : Direction => d.keyword.toList) [.inout, .in, .out]
      (d.keyword.toList ++ s) = .done d s := by
  cases d with
  | «in» =>
    have hinout : strip? "inout".toList ("in".toList ++ s) = none := strip?_out h
    have hin : strip? "in".toList ("in".toList ++ s) = some s := strip?_eq_some_iff.mpr rfl
    simp only [firstOf, List.findSome?_cons, Direction.keyword, hinout, hin, Option.map_none,
      Option.map_some]
  | inout => rfl
  | out => rfl

theorem param_matches (p : Direction × Ty) : Matches param p (Func.paramTokens p) := by
  obtain ⟨d, t⟩ := p
  intro s r
  constructor
  · intro h
    obtain ⟨d', m, hd, hrest⟩ := lexeme_bind_eq_done_iff.mp h
    obtain ⟨t', n, ht, hpure⟩ := bind_eq_done_iff.mp hrest
    obtain ⟨heq, rfl⟩ := pure_eq_done_iff.mp hpure
    cases heq
    have hbegins := eq_of_firstOf hd
    exact ⟨m, hbegins, (ty_matches t m n).mp ht⟩
  · rintro ⟨m, hm, hread⟩
    obtain hm : skipBlank s = d.keyword.toList ++ m := hm
    rw [hm]
    exact lexeme_bind_eq_done_iff.mpr
      ⟨d, m, direction_done hread, bind_eq_done_iff.mpr ⟨t, r, (ty_matches t m r).mpr hread, rfl⟩⟩

theorem declines_param_close (t : List Char) : Declines param (')' :: t) := ⟨_, rfl⟩

theorem params_eq_done_iff {ps : List (Direction × Ty)} :
    params (skipBlank s) = .done ps r ↔
      Reads (.word .openParen :: (commaSeparated (ps.map Func.paramTokens) ++ [.word .closeParen]))
        s r ∧ inOrder ps = true := by
  have hitems (s r : List Char) := sepBy_close_iff (c := ')') (s := s) (r := r)
    (fun n => alike_param n) (by decide) declines_param_close fun p (_ : p ∈ ps) => param_matches p
  rw [params, accept_eq_done_iff]
  simp [Token.ReadTo, Word.text, hitems]

theorem func_matches (f : Func) : Matches func f f.tokens := by
  intro s r
  have hfunc : func (skipBlank s) = .done f r ↔ ∃ m, skipBlank s = "func".toList ++ m ∧
      ∃ n, funcName (skipBlank m) = .done f.name n ∧
        ∃ ps k, params (skipBlank n) = .done ps k ∧ block (skipBlank k) = .done f.body r ∧
          typesOf .in ps = f.inParams ∧ typesOf .inout ps = f.inoutParams ∧
            typesOf .out ps = f.outParams := by
    obtain ⟨name, ins, inouts, outs, body⟩ := f
    simp [func]
  have htokens : f.tokens = .word .func :: .name f.name ::
      ((.word .openParen :: (commaSeparated (f.params.map Func.paramTokens) ++
        [.word .closeParen])) ++ f.body.tokens) := by
    simp [Func.tokens]
  rw [hfunc, htokens]
  constructor
  · rintro ⟨m, hm, n, hn, ps, k, hps, hbody, hin, hinout, hout⟩
    obtain ⟨hread, horder⟩ := params_eq_done_iff.mp hps
    obtain rfl : f.params = ps := by
      rw [Func.params, ← hin, ← hinout, ← hout, params_typesOf horder]
    exact ⟨m, hm, n, hn, reads_append.mpr ⟨k, hread, (block_matches f.body k r).mp hbody⟩⟩
  · rintro ⟨m, hm, n, hn, hrest⟩
    obtain ⟨k, hread, hbody⟩ := reads_append.mp hrest
    exact ⟨m, hm, n, hn, f.params, k, params_eq_done_iff.mpr ⟨hread, inOrder_params f⟩,
      (block_matches f.body k r).mpr hbody, typesOf_params f⟩

/-- The blank behind the closing brace is no part of what the program leaves of the text. -/
theorem program_eq_done_iff {p : Program} :
    program (skipBlank s) = .done p r ↔ ∃ m, Reads p.tokens s m ∧ skipBlank m = r := by
  have hfuncs (s r : List Char) := many_lexeme_iff (s := s) (r := r) (fun n => alike_func n)
    fun f (_ : f ∈ p.funcs) => func_matches f
  have hprogram : program (skipBlank s) = .done p r ↔ ∃ m, skipBlank s = "program".toList ++ m ∧
      ∃ n, skipBlank m = '{' :: n ∧
        ∃ u, many (globalDecl "uniform") (skipBlank n) = .done p.uniforms u ∧
          ∃ a, many (globalDecl "attribute") u = .done p.attributes a ∧
            ∃ v, many (globalDecl "varying") a = .done p.varyings v ∧
              ∃ k, many (lexeme func) v = .done p.funcs ('}' :: k) ∧ skipBlank k = r := by
    obtain ⟨uniforms, attributes, varyings, funcs⟩ := p
    simp [program]
  rw [hprogram]
  constructor
  · rintro ⟨m, hm, n, hn, _, hu, _, ha, _, hv, k, hk, rfl⟩
    obtain ⟨u, huniforms, rfl, -⟩ := (decls_iff (w := .uniform)).mp hu
    obtain ⟨a, hattributes, rfl, -⟩ := (decls_iff (w := .attribute)).mp ha
    obtain ⟨v, hvaryings, rfl, -⟩ := (decls_iff (w := .varying)).mp hv
    obtain ⟨l, hread, hclose, -⟩ := (hfuncs v _).mp hk
    exact ⟨k, ⟨m, hm, n, hn, reads_append.mpr ⟨u, huniforms, reads_append.mpr ⟨a, hattributes,
      reads_append.mpr ⟨v, hvaryings, reads_append.mpr ⟨l, hread, k, hclose, rfl⟩⟩⟩⟩⟩, rfl⟩
  · rintro ⟨_, ⟨m, hm, n, hn, hrest⟩, rfl⟩
    -- each kind of declaration ends where those of a later kind, the functions or the brace follow
    have hclose {w : Word} (hfunc : ∀ t, strip? w.text.toList ("func".toList ++ t) = none)
        (hbrace : ∀ t, strip? w.text.toList ('}' :: t) = none) :
        Avoids w (p.funcs.flatMap Func.tokens ++ [.word .closeBrace]) :=
      avoids_flatMap (fun _ => avoids_word hfunc) (avoids_word hbrace)
    obtain ⟨u, huniforms, hrest⟩ := reads_append.mp hrest
    have hu := hrest.strip?_eq (w := .uniform) <|
      avoids_flatMap (fun _ => avoids_word fun _ => rfl) <|
      avoids_flatMap (fun _ => avoids_word fun _ => rfl) <| hclose (fun _ => rfl) fun _ => rfl
    obtain ⟨a, hattributes, hrest⟩ := reads_append.mp hrest
    have ha := hrest.strip?_eq (w := .attribute) <|
      avoids_flatMap (fun _ => avoids_word fun _ => rfl) <| hclose (fun _ => rfl) fun _ => rfl
    obtain ⟨v, hvaryings, hrest⟩ := reads_append.mp hrest
    have hv := hrest.strip?_eq (w := .varying) <| hclose (fun _ => rfl) fun _ => rfl
    obtain ⟨l, hread, k, hbrace, rfl⟩ := reads_append.mp hrest
    have hend : Declines (lexeme func) ('}' :: k) := (declines_keyword rfl).lexeme.bind.lexeme
    exact ⟨m, hm, n, hn,
      _, (decls_iff (w := .uniform)).mpr ⟨u, huniforms, rfl, declines_globalDecl hu⟩,
      _, (decls_iff (w := .attribute)).mpr
        ⟨a, hattributes, rfl, declines_globalDecl ha⟩,
      _, (decls_iff (w := .varying)).mpr ⟨v, hvaryings, rfl, declines_globalDecl hv⟩,
      k, (hfuncs v _).mpr ⟨l, hread, hbrace, hend⟩, rfl⟩

theorem readAll_eq_ok_iff {α : Type} {p : Parser α} {a : α} :
    readAll p s = .ok a ↔ ∃ r, p (skipBlank s) = .done a r ∧ skipBlank r = [] := by
  rw [← lexeme_eq_done_iff, readAll]
  cases lexeme p (skipBlank s) with
  | done b r => cases r <;> simp
  | declined e => simp
  | failed e => simp

end Parser

/-- A text is accepted as a program just where the tokens of the program are read one behind the
other, up to blank. -/
theorem Program.parse_eq_ok_iff {text : String} {p : Program} : Program.parse text = .ok p ↔
    ∃ r, Reads p.tokens text.toList r ∧ skipBlank r = [] := by
  rw [parse, Parser.readAll_eq_ok_iff]
  simp only [Parser.program_eq_done_iff]
  constructor
  · rintro ⟨_, ⟨r, hr, rfl⟩, hend⟩
    exact ⟨r, hr, by rwa [Parser.skipBlank_skipBlank] at hend⟩
  · rintro ⟨r, hr, hend⟩
    exact ⟨_, ⟨r, hr, rfl⟩, by rwa [Parser.skipBlank_skipBlank]⟩

theorem Func.parse_eq_ok_iff {text : String} {f : Func} : Func.parse text = .ok f ↔
    ∃ r, Reads f.tokens text.toList r ∧ skipBlank r = [] := by
  rw [parse, Parser.readAll_eq_ok_iff]
  simp only [Parser.func_matches f _ _]

/-- The text spells the tokens, with blank in front of each of them and behind the last one. -/
inductive Written : List Token → List Char → Prop
  | nil {b : List Char} (hb : Parser.Blank b []) : Written [] b
  | cons {tok : Token} {toks : List Token} {b cs t : List Char} (hb : Parser.Blank b (cs ++ t))
      (hcs : tok.Spells cs) (ht : Written toks t) : Written (tok :: toks) (b ++ (cs ++ t))

theorem Reads.written {toks : List Token} {s r : List Char} (h : Reads toks s r)
    (hr : skipBlank r = []) : Written toks s := by
  induction toks generalizing s with
  | nil =>
    obtain rfl : s = r := h
    obtain ⟨b, hb, hblank⟩ := Parser.exists_blank s
    rw [hr] at hb hblank
    rw [hb, List.append_nil]
    exact .nil hblank
  | cons tok toks ih =>
    obtain ⟨m, hm, hmore⟩ := h
    obtain ⟨b, hb, hblank⟩ := Parser.exists_blank s
    obtain ⟨cs, hcs, hspells⟩ := hm.spells
    rw [hcs] at hb hblank
    rw [hb]
    exact .cons hblank hspells (ih hmore)

/-- A text that is accepted is written as the grammar has it, and all of it is part of what is read:
there is nothing in it but blank and the tokens of the program or the function. -/
theorem accepted_text_written :
    (∀ (text : String) (p : Program), Program.parse text = .ok p → Written p.tokens text.toList) ∧
      ∀ (text : String) (f : Func), Func.parse text = .ok f → Written f.tokens text.toList := by
  refine ⟨fun text p h => ?_, fun text f h => ?_⟩
  · obtain ⟨r, hread, hend⟩ := Program.parse_eq_ok_iff.mp h
    exact hread.written hend
  · obtain ⟨r, hread, hend⟩ := Func.parse_eq_ok_iff.mp h
    exact hread.written hend

def Program.brief : Program := { uniforms := [.basic .vec2] }

def Program.briefText : String := "program\x7buniform;\x7d\r\nvec2\x7d"

theorem Program.brief_parse : Program.parse briefText = .ok brief := by
  refine Program.parse_eq_ok_iff.mpr ⟨[], ?_, Parser.skipBlank_nil⟩
  simp [tokens, brief, briefText, Ty.tokens, declTokens, Token.ReadTo, Word.text, BasicTy.token,
    skipBlank, isSpacing, afterComment?, isLineEnd, startsWithLoneReturn]

def Func.brief : Func where
  name := "f"
  outParams := [.basic .vec2]
  body := ⟨[], [.assign (.var ⟨.local, 0⟩) (.num .infinity)]⟩

def Func.briefText : String := "func@f(out vec2)\x7b%l00 = inf\x7d;"

theorem Func.brief_parse : Func.parse briefText = .ok brief := by
  have hname (s : List Char) :
      Parser.funcName ('@' :: 'f' :: '(' :: s) = .done "f" ('(' :: s) := rfl
  have hvar (s : List Char) :
      Parser.var ('%' :: 'l' :: '0' :: '0' :: ' ' :: s) = .done ⟨.local, 0⟩ (' ' :: s) := rfl
  have hinf (s : List Char) : Parser.literal ('i' :: 'n' :: 'f' :: s) = .done .infinity s := rfl
  have hend : skipBlank [';'] = [] := by simp [skipBlank, afterComment?, startsWithLoneReturn]
  refine Func.parse_eq_ok_iff.mpr ⟨[';'], ?_, hend⟩
  simp [tokens, brief, briefText, params, paramTokens, commaSeparated_cons, Ty.tokens, Block.tokens,
    declTokens, Stmt.tokensOf, Stmt.tokens, Expr.tokens, Token.ReadTo, Word.text, BasicTy.token,
    Direction.keyword, skipBlank, isSpacing, hname, hvar, hinf]

theorem brief_text_written :
    Written Program.brief.tokens Program.briefText.toList ∧
      Written Func.brief.tokens Func.briefText.toList :=
  ⟨accepted_text_written.1 _ _ Program.brief_parse, accepted_text_written.2 _ _ Func.brief_parse⟩

end ShaderTree
