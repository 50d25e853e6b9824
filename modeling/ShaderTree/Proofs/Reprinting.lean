import ShaderTree.Proofs.AcceptedText

namespace ShaderTree

mutual

theorem Stmt.lines_quiet (depth : Nat) (s : Stmt) : s.quiet.lines depth = s.lines depth := by
  cases s with
  | block b => rw [Stmt.quiet, Stmt.lines, Stmt.lines, Block.lines_quiet]
  | assign target value =>
    rw [Stmt.quiet, Stmt.lines, Stmt.lines, target.text_quiet, value.text_quiet]
  | ifElse cond t e =>
    rw [Stmt.quiet, Stmt.lines, Stmt.lines, cond.text_quiet, Block.lines_quiet, Block.lines_quiet]
  | forRange init limit step b => rw [Stmt.quiet, Stmt.lines, Stmt.lines, Block.lines_quiet]

theorem Block.lines_quiet (depth : Nat) (b : Block Stmt) :
    b.quiet.lines depth = b.lines depth := by
  cases b with
  | mk locals stmts => rw [Block.quiet, Block.lines, Block.lines, Stmt.linesOf_quietAll]

theorem Stmt.linesOf_quietAll (depth : Nat) (ss : List Stmt) :
    Stmt.linesOf depth (Stmt.quietAll ss) = Stmt.linesOf depth ss := by
  cases ss with
  | nil => rfl
  | cons s ss =>
    rw [Stmt.quietAll, Stmt.linesOf, Stmt.linesOf, Stmt.lines_quiet, Stmt.linesOf_quietAll]

end

theorem Func.lines_quiet (depth : Nat) (f : Func) : f.quiet.lines depth = f.lines depth := by
  have hbody : f.quiet.body.lines (depth + 1) = f.body.lines (depth + 1) :=
    Block.lines_quiet (depth + 1) f.body
  rw [lines, lines, hbody]
  rfl

theorem Func.listing_quiet (f : Func) : f.quiet.listing = f.listing :=
  congrArg ShaderTree.listing (f.lines_quiet 0)

theorem Program.listing_quiet (p : Program) : p.quiet.listing = p.listing := by
  have hfuncs : (p.funcs.map Func.quiet).flatMap (Func.lines 1) =
      p.funcs.flatMap (Func.lines 1) := by
    simp only [List.flatMap_map, Func.lines_quiet]
  rw [listing, listing, lines, lines, quiet, hfuncs]

/-- Every token of what is read has a spelling. -/
theorem Reads.exists_spells {toks : List Token} {s r : List Char} {tok : Token}
    (h : Reads toks s r) (htok : tok ∈ toks) : ∃ cs, tok.Spells cs := by
  induction toks generalizing s with
  | nil => cases htok
  | cons first toks ih =>
    obtain ⟨m, hm, hmore⟩ := h
    obtain rfl | htok := List.mem_cons.mp htok
    · obtain ⟨cs, -, hspells⟩ := hm.spells
      exact ⟨cs, hspells⟩
    · exact ih hmore htok

theorem Reads.named {f : Func} {toks : List Token} {s r : List Char} (h : Reads toks s r)
    (hf : f.tokens ⊆ toks) : f.Named := by
  have hname : Token.name f.name ∈ f.tokens := by simp [Func.tokens]
  obtain ⟨cs, -, hne, hchars⟩ := h.exists_spells (hf hname)
  refine ⟨hne, fun c hc => ?_⟩
  obtain hc | rfl := hchars c hc
  · rw [isNameChar, hc, Bool.true_or]
  · rw [isNameChar, beq_self_eq_true, Bool.or_true]

theorem Func.named_of_parse {text : String} {f : Func} (h : Func.parse text = .ok f) :
    f.Named := by
  obtain ⟨r, hread, -⟩ := Func.parse_eq_ok_iff.mp h
  exact hread.named (List.Subset.refl _)

theorem Program.named_of_parse {text : String} {p : Program} (h : Program.parse text = .ok p) :
    ∀ f ∈ p.funcs, f.Named := by
  intro f hf
  obtain ⟨r, hread, -⟩ := Program.parse_eq_ok_iff.mp h
  refine hread.named fun tok htok => ?_
  have hfuncs : tok ∈ p.funcs.flatMap Func.tokens := List.mem_flatMap.mpr ⟨f, hf, htok⟩
  simp [Program.tokens, hfuncs]

/-- What is read is printed so that it reads back, but for NaNs that become the one that `NaN` is
read as, and this is printed as before. -/
theorem accepted_reprinted :
    (∀ (text : String) (p : Program), Program.parse text = .ok p →
      Program.parse p.listing = .ok p.quiet ∧ p.quiet.listing = p.listing) ∧
    ∀ (text : String) (f : Func), Func.parse text = .ok f →
      Func.parse f.listing = .ok f.quiet ∧ f.quiet.listing = f.listing :=
  ⟨fun _ p h => ⟨Program.parse_listing_of_named (Program.named_of_parse h), p.listing_quiet⟩,
    fun _ f h => ⟨Func.parse_listing_of_named (Func.named_of_parse h), f.listing_quiet⟩⟩

def Func.negativeNaN : Func where
  name := "f"
  body := ⟨[], [.assign (.var ⟨.local, 0⟩) (.num Binary64.nan.neg)]⟩

def Func.negativeNaNText : String := "func@f()\x7b%l0=-nan\x7d"

theorem Func.negativeNaN_parse : Func.parse negativeNaNText = .ok negativeNaN := by
  have hname (s : List Char) :
      Parser.funcName ('@' :: 'f' :: '(' :: s) = .done "f" ('(' :: s) := rfl
  have hvar (s : List Char) :
      Parser.var ('%' :: 'l' :: '0' :: '=' :: s) = .done ⟨.local, 0⟩ ('=' :: s) := rfl
  have hnan (s : List Char) :
      Parser.literal ('-' :: 'n' :: 'a' :: 'n' :: s) = .done Binary64.nan.neg s := rfl
  refine Func.parse_eq_ok_iff.mpr ⟨[], ?_, Parser.skipBlank_nil⟩
  simp [tokens, negativeNaN, negativeNaNText, params, commaSeparated, Block.tokens,
    declTokens, Stmt.tokensOf, Stmt.tokens, Expr.tokens, Token.ReadTo, Word.text,
    skipBlank, isSpacing, hname, hvar, hnan]

theorem negativeNaN_reprinted :
    (Func.parse Func.negativeNaNText = .ok Func.negativeNaN ∧
      Func.parse Func.negativeNaN.listing = .ok Func.negativeNaN.quiet ∧
      Func.negativeNaN.quiet.body = ⟨[], [.assign (.var ⟨.local, 0⟩) (.num Binary64.nan)]⟩ ∧
      Func.negativeNaN.quiet.listing = Func.negativeNaN.listing) ∧
    Program.parse Program.briefText = .ok Program.brief ∧
      Program.parse Program.brief.listing = .ok Program.brief.quiet := by
  obtain ⟨hparse, hlisting⟩ := accepted_reprinted.2 _ _ Func.negativeNaN_parse
  have hbrief := (accepted_reprinted.1 _ _ Program.brief_parse).1
  exact ⟨⟨Func.negativeNaN_parse, hparse, rfl, hlisting⟩, Program.brief_parse, hbrief⟩

end ShaderTree
