import ShaderTree.Proofs.Brackets
import ShaderTree.Proofs.GlslLexemes

namespace ShaderTree

namespace Glsl

inductive Associativity
  | left | right | none
deriving DecidableEq

structure Precedence where
  level : Operator → Nat
  associativity : Operator → Associativity

/-- An expression as it is read: numbers and names are texts. -/
inductive Tree
  | literal (text : String)
  | name (text : String)
  | binary (op : Operator) (lhs rhs : Tree)
deriving DecidableEq

namespace Precedence

variable (prec : Precedence)

/-- The least level of an operator in the left operand, unless it stands in parentheses. -/
def leftLevel (op : Operator) : Nat :=
  if prec.associativity op = .left then prec.level op else prec.level op + 1

def rightLevel (op : Operator) : Nat :=
  if prec.associativity op = .right then prec.level op else prec.level op + 1

/-- The tokens are an expression of the tree whose operators outside of parentheses have at least
the level. -/
inductive Derives : Nat → List Lexeme → Tree → Prop
  | literal {m : Nat} (text : String) : Derives m [.number text] (.literal text)
  | signed {m : Nat} {sign : String} (hsign : sign ∈ ["+", "-"]) (text : String) :
    Derives m [.mark sign, .number text] (.literal (sign ++ text))
  | name {m : Nat} (text : String) : Derives m [.word text] (.name text)
  | paren {m : Nat} {ts : List Lexeme} {t : Tree} (h : Derives 0 ts t) :
    Derives m (.mark "(" :: (ts ++ [.mark ")"])) t
  | binary {m : Nat} {ls rs : List Lexeme} {l r : Tree} {op : Operator} (hlevel : m ≤ prec.level op)
    (hl : Derives (prec.leftLevel op) ls l) (hr : Derives (prec.rightLevel op) rs r) :
    Derives m (ls ++ .mark op.token :: rs) (.binary op l r)

/-- The whole text is read as the tree. -/
def Reads (text : String) (t : Tree) : Prop :=
  ∃ ts, Lexes text.toList ts ∧ prec.Derives 0 ts t

end Precedence

end Glsl

/-- The expression with its literals as they are written. -/
def Expr.tree : Expr → Glsl.Tree
  | num x => .literal x.glsl
  | var v => .name v.glslName
  | binary op lhs rhs => .binary op lhs.tree rhs.tree

namespace Glsl

abbrev IsParenthesized (ts : List Lexeme) : Prop := IsNested (.mark "(") (.mark ")") ts

theorem token_ne_paren (op : Operator) : op.token ≠ "(" ∧ op.token ≠ ")" := by
  cases op <;> decide

theorem isParenthesized_token (op : Operator) : IsParenthesized [.mark op.token] := by
  obtain ⟨hopening, hclosing⟩ := token_ne_paren op
  exact .of_not_mem (by simpa [eq_comm] using hopening) (by simpa [eq_comm] using hclosing)

namespace Precedence

variable {prec : Precedence} {m : Nat} {ts ls rs : List Lexeme} {t : Tree}

theorem Derives.ne_nil (h : prec.Derives m ts t) : ts ≠ [] := by
  cases h <;> simp

theorem Derives.isParenthesized (h : prec.Derives m ts t) : IsParenthesized ts := by
  induction h with
  | literal text => exact .of_not_mem (by simp) (by simp)
  | signed hsign text =>
    simp only [List.mem_cons, List.not_mem_nil, or_false] at hsign
    obtain rfl | rfl := hsign <;> exact .of_not_mem (by simp) (by simp)
  | name text => exact .of_not_mem (by simp) (by simp)
  | paren _ ih => exact ih.wrap (by decide)
  | @binary _ _ _ _ _ op _ _ _ ihl ihr => exact ihl.append ((isParenthesized_token op).append ihr)

theorem Derives.of_length_le (h : prec.Derives m ts t) (hlength : ts.length ≤ 2) :
    (∃ text, ts = [.number text] ∧ t = .literal text) ∨
    (∃ sign text, ts = [.mark sign, .number text] ∧ t = .literal (sign ++ text)) ∨
    ∃ text, ts = [.word text] ∧ t = .name text := by
  cases h with
  | literal text => exact Or.inl ⟨text, rfl, rfl⟩
  | signed hsign text => exact Or.inr (Or.inl ⟨_, text, rfl, rfl⟩)
  | name text => exact Or.inr (Or.inr ⟨text, rfl, rfl⟩)
  | paren h =>
    have hpos := List.length_pos_of_ne_nil h.ne_nil
    simp only [List.length_cons, List.length_append, List.length_nil] at hlength
    omega
  | binary _ hl hr =>
    have hposl := List.length_pos_of_ne_nil hl.ne_nil
    have hposr := List.length_pos_of_ne_nil hr.ne_nil
    simp only [List.length_cons, List.length_append] at hlength
    omega

theorem Derives.of_paren (hts : IsParenthesized ts)
    (h : prec.Derives m (.mark "(" :: (ts ++ [.mark ")"])) t) : prec.Derives 0 ts t := by
  generalize hus : Lexeme.mark "(" :: (ts ++ [.mark ")"]) = us at h
  cases h with
  | literal text => simp at hus
  | signed hsign text =>
    obtain rfl := Lexeme.mark.inj (List.cons.inj hus).1
    simp at hsign
  | name text => simp at hus
  | paren h =>
    simp only [List.cons.injEq, true_and, List.append_cancel_right_eq] at hus
    exact hus ▸ h
  | binary _ hl _ =>
    -- the left operand would go on to the last parenthesis
    have hprefix :=
      hts.closed (by decide) hl.isParenthesized hl.ne_nil (hus ▸ List.prefix_append _ _)
    have hlength := hprefix.length_le
    have hall := congrArg List.length hus
    simp at hlength hall
    omega

/-- Two expressions in parentheses with an operator between them are its operands. -/
theorem Derives.of_binary {op : Operator} (hls : IsParenthesized ls) (hrs : IsParenthesized rs)
    (h : prec.Derives m (.mark "(" :: (ls ++ .mark ")" :: .mark op.token :: .mark "(" ::
      (rs ++ [.mark ")"]))) t) :
    ∃ l r, t = .binary op l r ∧ prec.Derives 0 ls l ∧ prec.Derives 0 rs r := by
  generalize hus : Lexeme.mark "(" :: (ls ++ .mark ")" :: .mark op.token :: .mark "(" ::
    (rs ++ [.mark ")"])) = us at h
  cases h with
  | literal text => cases (List.cons.inj hus).1
  | signed hsign text =>
    obtain rfl := Lexeme.mark.inj (List.cons.inj hus).1
    simp at hsign
  | name text => cases (List.cons.inj hus).1
  | @paren _ ts _ h =>
    -- the parenthesis behind the left operand would close nothing
    have hts : ts ++ [.mark ")"] =
        (ls ++ [.mark ")"] ++ .mark op.token :: .mark "(" :: rs) ++ [.mark ")"] := by
      simpa using (List.cons.inj hus).2.symm
    have habove := h.isParenthesized.above (ls ++ [.mark ")"])
      (List.append_cancel_right hts ▸ List.prefix_append _ _)
    have hlevel := hls.level
    simp at habove
    omega
  | @binary _ as bs l r op' _ hl hr =>
    have hprefix : Lexeme.mark "(" :: (ls ++ [.mark ")"]) <+: as :=
      hls.closed (by decide) hl.isParenthesized hl.ne_nil (hus ▸ List.prefix_append _ _)
    obtain ⟨cs, rfl⟩ := hprefix
    have hrest : Lexeme.mark op.token :: .mark "(" :: (rs ++ [.mark ")"]) =
        cs ++ .mark op'.token :: bs := by
      simpa using hus
    have hcs : IsParenthesized cs := (hls.wrap (by decide)).of_append hl.isParenthesized
    cases cs with
    | nil =>
      obtain ⟨htoken, rfl⟩ := List.cons.inj hrest
      obtain rfl := token_injective (Lexeme.mark.inj htoken)
      rw [List.append_nil] at hl
      exact ⟨l, r, rfl, hl.of_paren hls, hr.of_paren hrs⟩
    | cons c cs =>
      obtain ⟨rfl, hright⟩ := List.cons.inj hrest
      have hin : IsParenthesized cs := (isParenthesized_token op).of_append hcs
      cases cs with
      | nil =>
        have hopening := Lexeme.mark.inj (List.cons.inj hright).1
        exact absurd hopening.symm (token_ne_paren op').1
      | cons d cs =>
        have hfront : d :: cs <+: .mark "(" :: (rs ++ [.mark ")"]) :=
          ⟨.mark op'.token :: bs, hright.symm⟩
        have hprefix := hrs.closed (by decide) hin (List.cons_ne_nil d cs) hfront
        have hlength := hprefix.length_le
        have hall := congrArg List.length hright
        simp at hlength hall
        omega

variable {p : Program} {func : String} {locals : Nat}

theorem literalLexemes_eq {x : Binary64} (h : (Expr.num x).issues p func locals = []) :
    (literalLexemes x = [.number x.glsl]) ∨
      ∃ text, literalLexemes x = [.mark "-", .number text] ∧ x.glsl = "-" ++ text := by
  obtain ⟨hfinite, hnan⟩ := finite_of_issues h
  rw [glsl_eq hnan, literalLexemes, if_neg hnan, if_pos hfinite, if_pos hfinite]
  split
  · exact Or.inr ⟨_, rfl, rfl⟩
  · exact Or.inl (by simp)

/-- An expression is read as its tree. -/
theorem derives_tree {e : Expr} (h : e.issues p func locals = []) :
    prec.Derives 0 (exprLexemes e) e.tree := by
  induction e with
  | num x =>
    obtain hx | ⟨text, hx, hglsl⟩ := literalLexemes_eq h
    · rw [exprLexemes, hx]
      exact .literal x.glsl
    · rw [exprLexemes, hx, Expr.tree, hglsl]
      exact .signed (by decide) text
  | var v => exact .name v.glslName
  | binary op lhs rhs ihl ihr =>
    obtain ⟨hl, hr⟩ := List.append_eq_nil_iff.mp h
    have hleft := Derives.paren (m := prec.leftLevel op) (ihl hl)
    have hright := Derives.paren (m := prec.rightLevel op) (ihr hr)
    have hwhole := Derives.binary (Nat.zero_le _) hleft hright
    simpa [exprLexemes, Expr.tree] using hwhole

/-- An expression is read as nothing else. -/
theorem eq_tree_of_derives {e : Expr} (h : e.issues p func locals = [])
    (ht : prec.Derives m (exprLexemes e) t) : t = e.tree := by
  induction e generalizing m t with
  | num x =>
    rw [exprLexemes] at ht
    obtain hx | ⟨text, hx, hglsl⟩ := literalLexemes_eq h
    · rw [hx] at ht
      obtain ⟨_, htext, rfl⟩ | ⟨_, _, htext, _⟩ | ⟨_, htext, _⟩ := ht.of_length_le (by simp)
      · cases htext
        rfl
      · cases htext
      · cases htext
    · rw [hx] at ht
      obtain ⟨_, htext, _⟩ | ⟨_, _, htext, rfl⟩ | ⟨_, htext, _⟩ := ht.of_length_le (by simp)
      · cases htext
      · cases htext
        rw [Expr.tree, hglsl]
      · cases htext
  | var v =>
    rw [exprLexemes] at ht
    obtain ⟨_, htext, _⟩ | ⟨_, _, htext, _⟩ | ⟨_, htext, rfl⟩ := ht.of_length_le (by simp)
    · cases htext
    · cases htext
    · cases htext
      rfl
  | binary op lhs rhs ihl ihr =>
    obtain ⟨hl, hr⟩ := List.append_eq_nil_iff.mp h
    have hparen {e : Expr} (he : e.issues p func locals = []) :
        IsParenthesized (exprLexemes e) := by
      have hderives : prec.Derives 0 (exprLexemes e) e.tree := derives_tree he
      exact hderives.isParenthesized
    have hwhole : prec.Derives m (.mark "(" :: (exprLexemes lhs ++ .mark ")" :: .mark op.token ::
        .mark "(" :: (exprLexemes rhs ++ [.mark ")"]))) t := by
      simpa [exprLexemes] using ht
    obtain ⟨l, r, rfl, htl, htr⟩ := hwhole.of_binary (hparen hl) (hparen hr)
    rw [ihl hl htl, ihr hr htr, Expr.tree]

end Precedence

end Glsl

open Glsl

/-- The text of an expression without issues is read in one way, whatever the precedences of the
operators are: as the expression with its literals as they are written. -/
theorem Expr.glsl_read_alike {p : Program} {func : String} {locals : Nat} {e : Expr}
    (h : e.issues p func locals = []) :
    checkExpr p locals e = .ok () ∧
      ∀ (prec : Precedence) (t : Tree), prec.Reads e.glsl t ↔ t = e.tree := by
  refine ⟨by rw [checkExpr_eq p func, h]; rfl, fun prec t => ?_⟩
  have hlexes : Lexes e.glsl.toList (exprLexemes e) := by
    simpa using Lexes.expr e (ends_nil isGlue) Lexes.nil
  constructor
  · rintro ⟨ts, hts, ht⟩
    obtain rfl : exprLexemes e = ts := Option.some.inj (hlexes.symm.trans hts)
    exact Precedence.eq_tree_of_derives h ht
  · rintro rfl
    exact ⟨_, hlexes, Precedence.derives_tree h⟩

def lessProduct : Expr :=
  .binary .sub (.num (.ofBits 0xbff8000000000000))
    (.binary .mul (.var ⟨.uniform, 0⟩) (.num (.ofBits 0xbff8000000000000)))

theorem lessProduct_read_alike :
    lessProduct.issues { uniforms := [.basic .float] } "main" 0 = [] ∧
      ∀ (prec : Precedence) (t : Tree),
        prec.Reads "(-1.500000000e+00) - ((U0) * (-1.500000000e+00))" t ↔
          t = .binary .sub (.literal "-1.500000000e+00")
            (.binary .mul (.name "U0") (.literal "-1.500000000e+00")) := by
  have h : lessProduct.issues { uniforms := [.basic .float] } "main" 0 = [] := by decide
  have htext : lessProduct.glsl = "(-1.500000000e+00) - ((U0) * (-1.500000000e+00))" := by
    decide +kernel
  have htree : lessProduct.tree = .binary .sub (.literal "-1.500000000e+00")
      (.binary .mul (.name "U0") (.literal "-1.500000000e+00")) := by
    decide +kernel
  refine ⟨h, fun prec t => ?_⟩
  have halike := (Expr.glsl_read_alike h).2 prec t
  rwa [htext, htree] at halike

end ShaderTree
