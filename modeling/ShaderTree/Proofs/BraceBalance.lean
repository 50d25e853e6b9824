import ShaderTree.Proofs.NormalText

namespace ShaderTree

open ShaderTree.Parser (Blank EndsLine)

variable {c : Char} {s r v w cs front l : List Char} {ls more : List (List Char)}
  {tok : Token} {toks : List Token}

/-- Every brace is closed, and none is closed that is not open. -/
inductive Balanced : List Char → Prop
  | nil : Balanced []
  | nest {v w : List Char} (hv : Balanced v) (hw : Balanced w) : Balanced ('{' :: (v ++ '}' :: w))

theorem Balanced.append (hv : Balanced v) (hw : Balanced w) : Balanced (v ++ w) := by
  induction hv with
  | nil => exact hw
  | nest hu _ _ ih =>
    rw [List.cons_append, List.append_assoc]
    exact hu.nest ih

theorem balanced_flatMap {α : Type} {f : α → List Char} {as : List α}
    (h : ∀ a ∈ as, Balanced (f a)) : Balanced (as.flatMap f) := by
  induction as with
  | nil => exact .nil
  | cons a as ih =>
    obtain ⟨ha, has⟩ := List.forall_mem_cons.mp h
    exact ha.append (ih has)

namespace Nesting

variable {n : Nesting}

theorem step_open : step n '{' = ⟨n.depth + 1, true⟩ := rfl

theorem step_close : step n '}' = ⟨n.depth - 1, n.opened⟩ := rfl

theorem step_of_isBrace_eq_false (hc : isBrace c = false) : step n c = n := by
  obtain ⟨hopen, hclose⟩ := Bool.or_eq_false_iff.mp hc
  rw [step, if_neg (beq_eq_false_iff_ne.mp hopen), if_neg (beq_eq_false_iff_ne.mp hclose)]

theorem foldl_filter_isBrace (cs : List Char) (n : Nesting) :
    (cs.filter isBrace).foldl step n = cs.foldl step n := by
  induction cs generalizing n with
  | nil => rfl
  | cons c cs ih =>
    cases hc : isBrace c with
    | true => rw [List.filter_cons_of_pos hc, List.foldl_cons, List.foldl_cons, ih]
    | false =>
      rw [List.filter_cons_of_neg (by simp [hc]), List.foldl_cons, step_of_isBrace_eq_false hc, ih]

theorem foldl_balanced (hw : Balanced w) (d : Nat) : w.foldl step ⟨d, true⟩ = ⟨d, true⟩ := by
  induction hw generalizing d with
  | nil => rfl
  | nest _ _ ihv ihw =>
    rw [List.foldl_cons, step_open, List.foldl_append, ihv, List.foldl_cons, step_close]
    exact ihw d

theorem le_depth_of_balanced (hw : Balanced w) (hfront : front <+: w) (d : Nat) :
    d ≤ (front.foldl step ⟨d, true⟩).depth := by
  induction hw generalizing front d with
  | nil => rw [List.prefix_nil.mp hfront]; exact Nat.le_refl d
  | @nest v w hv _ ihv ihw =>
    obtain rfl | ⟨cs, rfl, hcs⟩ := List.prefix_cons_iff.mp hfront
    · exact Nat.le_refl d
    rw [List.foldl_cons, step_open]
    obtain hin | ⟨ds, rfl⟩ := List.prefix_or_prefix_of_prefix hcs (List.prefix_append v ('}' :: w))
    · exact Nat.le_of_succ_le (ihv hin (d + 1))
    rw [List.foldl_append, foldl_balanced hv]
    obtain rfl | ⟨behind, rfl, hbehind⟩ :=
      List.prefix_cons_iff.mp ((List.prefix_append_right_inj v).mp hcs)
    · exact Nat.le_succ d
    · exact ihw hbehind d

/-- An outer pair of braces is closed by its last one, and not before. -/
theorem isClosed_braced (hw : Balanced w) :
    (('{' :: (w ++ ['}'])).foldl step start).isClosed = true ∧
      ∀ front, front <+: '{' :: w → (front.foldl step start).isClosed = false := by
  have hopen (cs : List Char) : ('{' :: cs).foldl step start = cs.foldl step ⟨1, true⟩ := rfl
  refine ⟨?_, fun front hfront => ?_⟩
  · rw [hopen, List.foldl_append, foldl_balanced hw]
    rfl
  · obtain rfl | ⟨cs, rfl, hcs⟩ := List.prefix_cons_iff.mp hfront
    · rfl
    have hdepth := le_depth_of_balanced hw hcs 1
    rw [hopen, isClosed, Bool.and_eq_false_iff, beq_eq_false_iff_ne]
    exact Or.inr (Nat.ne_of_gt hdepth)

end Nesting

def lineBraces (ls : List (List Char)) : List Char := (ls.flatMap codePart).filter isBrace

/-- The braces of a text, but for those in comments. -/
def braces (s : List Char) : List Char := lineBraces (Text.lines s)

theorem lineBraces_append (ls more : List (List Char)) :
    lineBraces (ls ++ more) = lineBraces ls ++ lineBraces more := by
  rw [lineBraces, List.flatMap_append, List.filter_append]
  rfl

theorem lineBraces_cons (l : List Char) (ls : List (List Char)) :
    lineBraces (l :: ls) = (codePart l).filter isBrace ++ lineBraces ls := by
  rw [lineBraces, List.flatMap_cons, List.filter_append]
  rfl

theorem lineBraces_headD (ls : List (List Char)) :
    lineBraces (ls.headD [] :: ls.tail) = lineBraces ls := by cases ls <;> rfl

theorem Nesting.foldl_line (ls : List (List Char)) (n : Nesting) :
    ls.foldl Nesting.line n = (lineBraces ls).foldl Nesting.step n := by
  rw [lineBraces, foldl_filter_isBrace, List.foldl_flatMap]
  rfl

theorem braces_of_lines (h : Text.lines s = ls) : braces s = lineBraces ls := congrArg _ h

theorem braces_newline : braces ('\n' :: s) = braces s := by
  rw [braces_of_lines Text.lines_newline, lineBraces_cons]
  rfl

theorem braces_cons (hc : c ≠ ';') (s : List Char) :
    braces (c :: s) = [c].filter isBrace ++ braces s := by
  by_cases hfeed : c = '\n'
  · subst hfeed
    exact braces_newline
  by_cases hreturn : c = '\r' ∧ s.head? = some '\n'
  · obtain ⟨rfl, hs⟩ := hreturn
    obtain ⟨t, rfl⟩ := List.head?_eq_some_iff.mp hs
    exact braces_of_lines Text.lines_return
  rw [braces_of_lines (Text.lines_cons hfeed fun h hs => hreturn ⟨h, hs⟩), lineBraces_cons,
    codePart_cons hc, ← List.singleton_append, List.filter_append, List.append_assoc,
    ← lineBraces_cons, lineBraces_headD]
  rfl

theorem braces_append (hcs : ';' ∉ cs) (s : List Char) :
    braces (cs ++ s) = cs.filter isBrace ++ braces s := by
  induction cs with
  | nil => rfl
  | cons c cs ih =>
    simp only [List.mem_cons, not_or] at hcs
    rw [List.cons_append, braces_cons (Ne.symm hcs.1), ih hcs.2, ← List.append_assoc,
      ← List.filter_append]
    rfl

theorem braces_comment (hcs : ∀ c ∈ cs, isLineEnd c = false) (hs : EndsLine s) :
    braces (';' :: (cs ++ s)) = braces s := by
  have hline : ∀ c ∈ ';' :: cs, isLineEnd c = false := List.forall_mem_cons.mpr ⟨rfl, hcs⟩
  obtain ⟨hlines, hhead⟩ := Text.lines_append (List.cons_ne_nil ';' cs) hline hs
  rw [← List.cons_append, braces_of_lines hlines, lineBraces_cons, codePart_comment, braces,
    ← lineBraces_headD (Text.lines s), hhead, lineBraces_cons]
  rfl

theorem braces_blank (h : Blank w r) : braces (w ++ r) = braces r := by
  induction h with
  | nil => rfl
  | @spacing c b r hc _ ih =>
    have hsemi : c ≠ ';' := by rintro rfl; cases hc
    have hbrace : isBrace c = false := by
      simp only [isSpacing, Bool.or_eq_true, beq_iff_eq] at hc
      obtain ((rfl | rfl) | rfl) | rfl := hc <;> rfl
    rw [List.cons_append, braces_cons hsemi, ih, List.filter_cons_of_neg (by simp [hbrace])]
    rfl
  | comment hcs hend _ ih => rw [List.cons_append, List.append_assoc, braces_comment hcs hend, ih]

def Token.braces : Token → List Char
  | word .openBrace => ['{']
  | word .closeBrace => ['}']
  | _ => []

theorem Token.Spells.braces (h : tok.Spells cs) :
    ';' ∉ cs ∧ cs.filter ShaderTree.isBrace = tok.braces := by
  refine ⟨fun hsemi => (by cases h.visible ';' hsemi), ?_⟩
  by_cases hopen : tok = word .openBrace
  · subst hopen
    obtain rfl : cs = "\x7b".toList := h
    rfl
  by_cases hclose : tok = word .closeBrace
  · subst hclose
    obtain rfl : cs = "\x7d".toList := h
    rfl
  have hplain := h.plain (Bool.or_eq_false_iff.mpr
    ⟨beq_eq_false_iff_ne.mpr hopen, beq_eq_false_iff_ne.mpr hclose⟩)
  have hnone : tok.braces = [] := by
    unfold Token.braces
    split
    · exact absurd rfl hopen
    · exact absurd rfl hclose
    · rfl
  rw [hnone, List.filter_eq_nil_iff]
  intro c hc hbrace
  obtain ⟨-, hnot⟩ := Bool.and_eq_true_iff.mp (hplain c hc)
  rw [hbrace] at hnot
  cases hnot

/-- What is read of a text has the braces of its tokens, whatever comes behind it. -/
theorem Reads.exists_braces (h : Reads toks s r) : ∃ front, s = front ++ r ∧
    ∀ t, braces (front ++ t) = toks.flatMap Token.braces ++ braces t := by
  induction toks generalizing s with
  | nil => exact ⟨[], h, fun t => rfl⟩
  | cons tok toks ih =>
    obtain ⟨m, hm, hmore⟩ := h
    obtain ⟨front, rfl, hfront⟩ := ih hmore
    obtain ⟨b, hb, hblank⟩ := Parser.exists_blank s
    obtain ⟨cs, hcs, hspells⟩ := hm.spells
    rw [hcs] at hb hblank
    refine ⟨b ++ (cs ++ front), by simp only [hb, List.append_assoc], fun t => ?_⟩
    obtain ⟨hsemi, hbraces⟩ := hspells.braces
    have hskip : Blank b (cs ++ (front ++ t)) := hblank.replace hspells.solid.append
    rw [List.append_assoc, List.append_assoc, braces_blank hskip, braces_append hsemi, hbraces,
      hfront, List.flatMap_cons, List.append_assoc]

def Balances (toks : List Token) : Prop := Balanced (toks.flatMap Token.braces)

theorem Balances.append {toks' : List Token} (h : Balances toks) (h' : Balances toks') :
    Balances (toks ++ toks') := by
  rw [Balances, List.flatMap_append]
  exact Balanced.append h h'

theorem Balances.cons (h : Balances toks) (tok : Token) (htok : tok.braces = []) :
    Balances (tok :: toks) := by
  rw [Balances, List.flatMap_cons, htok]
  exact h

theorem Balances.braced (h : Balances toks) :
    Balances (.word .openBrace :: (toks ++ [.word .closeBrace])) := by
  rw [Balances, List.flatMap_cons, List.flatMap_append]
  exact Balanced.nest h .nil

theorem balances_nil : Balances [] := .nil

theorem balances_flatMap {α : Type} {f : α → List Token} {as : List α}
    (h : ∀ a ∈ as, Balances (f a)) : Balances (as.flatMap f) := by
  rw [Balances, List.flatMap_assoc]
  exact balanced_flatMap h

theorem balances_commaSeparated {parts : List (List Token)} (h : ∀ part ∈ parts, Balances part) :
    Balances (commaSeparated parts) := by
  cases parts with
  | nil => exact balances_nil
  | cons part parts =>
    obtain ⟨hpart, hparts⟩ := List.forall_mem_cons.mp h
    rw [commaSeparated_cons]
    exact hpart.append (balances_flatMap fun p hp => (hparts p hp).cons _ rfl)

mutual

theorem Ty.balances (t : Ty) : Balances t.tokens := by
  cases t with
  | basic b => exact balances_nil.cons _ rfl
  | struct members =>
    exact (balances_commaSeparated (Ty.balances_of_mem members)).braced.cons _ rfl

theorem Ty.balances_of_mem (ts : List Ty) : ∀ part ∈ Ty.tokensOf ts, Balances part := by
  intro part hpart
  cases ts with
  | nil => cases hpart
  | cons t ts =>
    obtain rfl | hpart := List.mem_cons.mp hpart
    · exact t.balances
    · exact Ty.balances_of_mem ts part hpart

end

theorem balances_declTokens {w : Word} (hw : (Token.word w).braces = []) (ts : List Ty) :
    Balances (declTokens w ts) := balances_flatMap fun t _ => t.balances.cons _ hw

theorem Expr.balances (e : Expr) : Balances e.tokens := by
  induction e with
  | num x => exact balances_nil.cons _ rfl
  | var v => exact balances_nil.cons _ rfl
  | binary op lhs rhs ihl ihr =>
    have hclose : Balances [.word .closeParen] := balances_nil.cons _ rfl
    exact (((ihl.append ((ihr.append hclose).cons _ rfl)).cons _ rfl).cons _ rfl)

mutual

theorem Stmt.balances (t : Stmt) : Balances t.tokens := by
  cases t with
  | block b => exact Block.balances b
  | assign target value => exact target.balances.append (value.balances.cons _ rfl)
  | ifElse cond t e =>
    have hbranches := (Block.balances t).append ((Block.balances e).cons (.word .else) rfl)
    exact (cond.balances.append hbranches).cons _ rfl
  | forRange init limit step b =>
    have hstep := ((Block.balances b).cons (.bound step) rfl).cons (.word .step) rfl
    exact (((hstep.cons _ rfl).cons _ rfl).cons _ rfl).cons _ rfl

theorem Block.balances (b : Block Stmt) : Balances (Block.tokens b) := by
  obtain ⟨locals, stmts⟩ := b
  have hinner := (balances_declTokens (w := .local) rfl locals).append (Stmt.balances_all stmts)
  rw [Block.tokens, ← List.append_assoc]
  exact hinner.braced

theorem Stmt.balances_all (ss : List Stmt) : Balances (Stmt.tokensOf ss) := by
  cases ss with
  | nil => exact balances_nil
  | cons t ss => exact t.balances.append (Stmt.balances_all ss)

end

theorem Func.balances (f : Func) : Balances f.tokens := by
  have hparams : Balances (commaSeparated (f.params.map Func.paramTokens)) := by
    refine balances_commaSeparated fun part hpart => ?_
    obtain ⟨p, -, rfl⟩ := List.mem_map.mp hpart
    exact p.2.balances.cons _ rfl
  have hbody := (Block.balances f.body).cons (.word .closeParen) rfl
  exact (((hparams.append hbody).cons _ rfl).cons _ rfl).cons _ rfl

theorem Program.exists_inner (p : Program) : ∃ inner, Balances inner ∧
    p.tokens = (.word .program :: .word .openBrace :: inner) ++ [.word .closeBrace] := by
  have hfuncs := balances_flatMap fun f (_ : f ∈ p.funcs) => f.balances
  have hvaryings := (balances_declTokens (w := .varying) rfl p.varyings).append hfuncs
  have hattributes := (balances_declTokens (w := .attribute) rfl p.attributes).append hvaryings
  refine ⟨_, (balances_declTokens (w := .uniform) rfl p.uniforms).append hattributes, ?_⟩
  simp only [Program.tokens, List.cons_append, List.append_assoc]

/-- The last brace of a text that is read as a program closes the first one. -/
theorem Program.exists_closing {p : Program} (h : Reads p.tokens s r) (hend : skipBlank r = []) :
    ∃ front inner, Balanced inner ∧ s = front ++ '}' :: r ∧ braces front = '{' :: inner ∧
      braces s = '{' :: (inner ++ ['}']) := by
  obtain ⟨inner, hinner, htokens⟩ := p.exists_inner
  rw [htokens] at h
  obtain ⟨m, hm, hclose⟩ := reads_append.mp h
  have hskip : skipBlank m = '}' :: r := by simpa [Token.ReadTo, Word.text] using hclose
  obtain ⟨front, rfl, hfront⟩ := hm.exists_braces
  obtain ⟨b, hb, hblank⟩ := Parser.exists_blank m
  rw [hskip] at hb hblank
  refine ⟨front ++ b, inner.flatMap Token.braces, hinner, by rw [hb, List.append_assoc], ?_, ?_⟩
  · have hopen : Blank b [] := hblank.replace (Parser.solid_cons rfl)
    have hnone := braces_blank hopen
    rw [List.append_nil] at hnone
    rw [hfront, hnone]
    exact List.append_nil _
  · obtain ⟨behind, hbehind, hblankEnd⟩ := Parser.exists_blank r
    rw [hend] at hbehind hblankEnd
    have hnone : braces r = [] := by
      rw [hbehind]
      exact braces_blank hblankEnd
    rw [hfront, hb, braces_blank hblank, braces_cons (by decide), hnone]
    rfl

def ended (ls : List (List Char)) : List Char := ls.flatMap (· ++ ['\n'])

theorem joined_concat (ls : List (List Char)) (l : List Char) :
    joined (ls ++ [l]) = ended ls ++ l := by
  induction ls with
  | nil => exact List.append_nil l
  | cons first ls ih =>
    cases ls with
    | nil => simp [joined, continued, ended]
    | cons next ls =>
      simp only [List.cons_append, joined, continued, ended, List.flatMap_cons] at ih ⊢
      rw [ih]
      simp

theorem braces_ended (hn : ∀ l ∈ ls, '\n' ∉ l) (hr : ∀ l ∈ ls, l.getLast? ≠ some '\r')
    (s : List Char) : braces (ended ls ++ s) = lineBraces ls ++ braces s := by
  induction ls with
  | nil => rfl
  | cons l ls ih =>
    obtain ⟨hfeed, hn⟩ := List.forall_mem_cons.mp hn
    obtain ⟨hreturn, hr⟩ := List.forall_mem_cons.mp hr
    have hline : ended (l :: ls) ++ s = l ++ '\n' :: (ended ls ++ s) := by simp [ended]
    rw [hline, braces_of_lines (Text.lines_append_feed hfeed hreturn), lineBraces_cons,
      lineBraces_cons, List.append_assoc, ← ih hn hr]
    rfl

theorem getLast?_ended (h : (ended ls).getLast? = some c) : c = '\n' := by
  induction ls with
  | nil => cases h
  | cons l ls ih =>
    rw [ended, List.flatMap_cons, List.getLast?_append, Option.or_eq_some_iff] at h
    obtain h | ⟨-, h⟩ := h
    · exact ih h
    · rw [List.getLast?_concat] at h
      cases h
      rfl

theorem exists_last_line (hlast : '\n' ∉ r) (h : ended ls ++ l = s ++ r) :
    ∃ front, s = ended ls ++ front ∧ l = front ++ r := by
  obtain ⟨front, hfront, hl⟩ | ⟨behind, hended, hr⟩ := List.append_eq_append_iff.mp h
  · exact ⟨front, hfront, hl⟩
  cases hc : behind.getLast? with
  | none =>
    obtain rfl := List.getLast?_eq_none_iff.mp hc
    rw [List.append_nil] at hended
    exact ⟨[], by rw [hended, List.append_nil], hr.symm⟩
  | some c =>
    have hlast' : (ended ls).getLast? = some c := by
      rw [hended, List.getLast?_append, hc]
      rfl
    obtain rfl := getLast?_ended hlast'
    rw [hr] at hlast
    exact absurd (List.mem_append_left l (List.mem_of_getLast? hc)) hlast

namespace TestCase

theorem takeProgram_eq {n : Nesting}
    (hopen : ∀ front, front <+: ls → front ≠ [] → (front.foldl Nesting.line n).isClosed = false)
    (hclosed : ((ls ++ [l]).foldl Nesting.line n).isClosed = true) :
    takeProgram n (ls ++ l :: more) = some (ls ++ [l], more) := by
  induction ls generalizing n with
  | nil =>
    have hline : (n.line l).isClosed = true := hclosed
    rw [List.nil_append, takeProgram, hline]
    rfl
  | cons first ls ih =>
    have hfirst : (n.line first).isClosed = false :=
      hopen [first] (List.cons_prefix_cons.mpr ⟨rfl, List.nil_prefix⟩) (List.cons_ne_nil _ _)
    have hrest := ih (n := n.line first) (fun front hfront _ =>
      hopen (first :: front) (List.cons_prefix_cons.mpr ⟨rfl, hfront⟩) (List.cons_ne_nil _ _))
      hclosed
    rw [List.cons_append, takeProgram, hfirst, hrest]
    rfl

/-- The lines of an accepted program whose last line has its closing brace are taken as its lines,
whatever lines come behind them. -/
theorem takeProgram_accepted {p : Program} (hline : ∀ l ∈ ls, ∀ c ∈ l, isLineEnd c = false)
    (hread : Reads p.tokens (joined ls) r) (hend : skipBlank r = []) (hlast : '\n' ∉ r)
    (more : List (List Char)) : takeProgram .start (ls ++ more) = some (ls, more) := by
  have hn : ∀ l ∈ ls, '\n' ∉ l := fun l hl hmem => by cases hline l hl _ hmem
  have hr : ∀ l ∈ ls, l.getLast? ≠ some '\r' := fun l hl hmem => by
    cases hline l hl _ (List.mem_of_getLast? hmem)
  obtain ⟨front, inner, hinner, htext, hfront, hwhole⟩ := Program.exists_closing hread hend
  obtain ⟨hclosed, hopen⟩ := Nesting.isClosed_braced hinner
  obtain rfl | ⟨init, last, rfl⟩ := List.eq_nil_or_concat ls
  · cases front <;> cases htext
  rw [List.concat_eq_append, List.forall_mem_append] at hn hr
  rw [List.concat_eq_append, joined_concat] at htext hwhole
  obtain ⟨k, rfl, rfl⟩ := exists_last_line (by simpa using hlast) htext
  rw [braces_ended hn.1 hr.1] at hfront hwhole
  rw [List.concat_eq_append, List.append_assoc]
  refine takeProgram_eq (fun lines hlines _ => ?_) ?_
  -- what the lines in front of the last one have of braces comes before the closing one
  · rw [Nesting.foldl_line]
    refine hopen _ (List.IsPrefix.trans ?_ ⟨_, hfront⟩)
    obtain ⟨behind, rfl⟩ := hlines
    exact ⟨_, (lineBraces_append lines behind).symm⟩
  · have hlast' := Text.lines_of_not_mem (by simp) (hn.2 _ List.mem_cons_self)
    rw [Nesting.foldl_line, lineBraces_append, ← braces_of_lines hlast', hwhole]
    exact hclosed

end TestCase

end ShaderTree
