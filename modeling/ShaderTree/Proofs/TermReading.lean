import ShaderTree.Listing.Print
import ShaderTree.Proofs.GrammarProgress
import ShaderTree.Proofs.Numerals

namespace ShaderTree

theorem Ty.toList_textRest (ts : List Ty) :
    (Ty.textRest ts).toList = ts.flatMap fun t => ", ".toList ++ t.text.toList := by
  induction ts with
  | nil => rfl
  | cons t ts ih => simp only [textRest, String.toList_append, ih, List.flatMap_cons]

theorem Ty.toList_text_struct (t : Ty) (ts : List Ty) (r : List Char) :
    (Ty.struct (t :: ts)).text.toList ++ r = "struct".toList ++ ' ' :: '{' :: ' ' ::
      (t.text.toList ++
        ((ts.flatMap fun t => ", ".toList ++ t.text.toList) ++ ' ' :: '}' :: r)) := by
  have hopen : "struct \x7b ".toList = "struct".toList ++ [' ', '{', ' '] := by decide
  have hclose : " \x7d".toList = [' ', '}'] := by decide
  rw [← toList_textRest, text]
  simp only [String.toList_append, hopen, hclose, List.append_assoc, List.cons_append,
    List.nil_append]

theorem Ty.solid_text (t : Ty) : Parser.Solid t.text.toList := by
  cases t with
  | basic b => cases b <;> exact Parser.solid_cons rfl
  | struct ts =>
    cases ts with
    | nil => exact Parser.solid_cons rfl
    | cons t ts =>
      have h := toList_text_struct t ts []
      rw [List.append_nil] at h
      rw [h]
      exact Parser.solid_cons rfl

namespace Parser

variable {r : List Char}

theorem structTy_done {ty : Parser Ty} {members : List Ty} {s : List Char}
    (h : sepBy (lexeme (symbol ',')) (lexeme ty) (skipBlank s) = .done members ('}' :: r)) :
    structTy ty ("struct".toList ++ ' ' :: '{' :: s) = .done (.struct members) r := by
  have hopen : Solid ('{' :: s) := solid_cons rfl
  rw [structTy, bind_done (lexeme_done keyword_done), hopen.skipBlank_space,
    bind_done (lexeme_done symbol_done), bind_done h, bind_done symbol_done]
  rfl

theorem declines_ty_close : Declines ty ('}' :: r) := by
  have hstruct : Declines (structTy ty) ('}' :: r) := (declines_keyword rfl).lexeme.bind
  have hbasic : Declines basicTy ('}' :: r) := ⟨_, rfl⟩
  rw [ty_eq]
  exact hstruct.orElse hbasic

theorem ty_basic (b : BasicTy) : ty (b.token.toList ++ r) = .done (.basic b) r := by
  have hkeyword : strip? "struct".toList (b.token.toList ++ r) = none := by cases b <;> rfl
  have hstruct : Declines (structTy ty) (b.token.toList ++ r) :=
    (declines_keyword hkeyword).lexeme.bind
  rw [ty_eq]
  apply hstruct.orElse_eq.trans
  cases b <;> rfl

theorem ty_struct_nil : ty ((Ty.struct []).text.toList ++ r) = .done (.struct []) r := by
  have hclose : Solid ('}' :: r) := solid_cons rfl
  have hmembers : sepBy (lexeme (symbol ',')) (lexeme ty) (skipBlank ('}' :: r)) =
      .done [] ('}' :: r) := by
    rw [hclose.skipBlank_eq]
    exact sepBy_nil declines_ty_close.lexeme
  rw [ty_eq]
  exact orElse_done (structTy_done hmembers)

theorem ty_struct_cons {t : Ty} {ts : List Ty}
    (h : ∀ u ∈ t :: ts, ∀ r, ty (u.text.toList ++ r) = .done u r) :
    ty ((Ty.struct (t :: ts)).text.toList ++ r) = .done (.struct (t :: ts)) r := by
  have hclose : Solid ('}' :: r) := solid_cons rfl
  have hmembers := sepBy_done (fun t : Ty => t.text.toList) t ts (r := ' ' :: '}' :: r)
    (fun n => (alike_ty n).lexeme) (fun u _ => u.solid_text)
    (fun u hu s => lexeme_done (h u hu s)) (by rw [hclose.skipBlank_space]; simp)
  rw [← t.solid_text.append.skipBlank_space, hclose.skipBlank_space] at hmembers
  rw [ty_eq, Ty.toList_text_struct]
  exact orElse_done (structTy_done hmembers)

mutual

theorem ty_done (t : Ty) (r : List Char) : ty (t.text.toList ++ r) = .done t r := by
  cases t with
  | basic b => exact ty_basic b
  | struct ts =>
    cases ts with
    | nil => exact ty_struct_nil
    | cons t ts => exact ty_struct_cons (ty_done_of_mem (t :: ts))

theorem ty_done_of_mem (ts : List Ty) : ∀ u ∈ ts, ∀ r, ty (u.text.toList ++ r) = .done u r := by
  intro u hu r
  cases ts with
  | nil => cases hu
  | cons t ts =>
    obtain rfl | hu := List.mem_cons.mp hu
    · exact ty_done u r
    · exact ty_done_of_mem ts u hu r

end

theorem var_done (v : Variable) (hr : Ends Char.isDigit r) :
    var (v.text.toList ++ r) = .done v r := by
  have htext : v.text.toList ++ r =
      '%' :: v.category.letter :: ((toString v.index.toNat).toList ++ r) := by
    simp only [Variable.text, String.toList_append, String.toList_ofList, List.cons_append,
      List.nil_append]
  have hcategory (s : List Char) : firstOf .symbol (fun c : Category => [c.letter])
      [.uniform, .attribute, .varying, .local] (v.category.letter :: s) =
        .done v.category s := by
    cases v.category <;> rfl
  rw [var, htext, bind_done symbol_done, bind_done (hcategory _), bind_done (index_done v.index hr)]
  rfl

end Parser

/-- No literal of the expression is NaN. -/
def Expr.nanFree : Expr → Bool
  | num x => !x.isNaN
  | var _ => true
  | binary _ lhs rhs => lhs.nanFree && rhs.nanFree

/-- The expression that is read where this one is written. -/
def Expr.quiet : Expr → Expr
  | num x => .num x.quiet
  | var v => .var v
  | binary op lhs rhs => .binary op lhs.quiet rhs.quiet

theorem Expr.quiet_eq_self {e : Expr} (h : e.nanFree = true) : e.quiet = e := by
  induction e with
  | num x =>
    have hx : ¬x.isNaN = true := by simpa [nanFree] using h
    rw [quiet, Binary64.quiet, if_neg hx]
  | var v => rfl
  | binary op lhs rhs ihl ihr =>
    obtain ⟨hl, hr⟩ := Bool.and_eq_true_iff.mp h
    rw [quiet, ihl hl, ihr hr]

theorem Expr.text_quiet (e : Expr) : e.quiet.text = e.text := by
  induction e with
  | num x =>
    rw [quiet, Binary64.quiet]
    split
    next hx =>
      have hnan : x.text = "NaN" := if_pos hx
      rw [text, text, hnan]
      rfl
    next => rfl
  | var v => rfl
  | binary op lhs rhs ihl ihr => rw [quiet, text, text, ihl, ihr]

def isMark (c : Char) : Bool := c == '%' || c == '-' || c.isDigit

theorem ne_of_isMark {c d : Char} (hc : isMark c = true) (hd : isMark d = false) : c ≠ d := by
  intro h
  rw [h, hd] at hc
  cases hc

theorem solid_of_isMark {c : Char} {s : List Char} (hc : isMark c = true) :
    Parser.Solid (c :: s) := by
  have hsemi := ne_of_isMark (d := ';') hc (by decide)
  have hspace := ne_of_isMark (d := ' ') hc (by decide)
  have htab := ne_of_isMark (d := '\t') hc (by decide)
  have hreturn := ne_of_isMark (d := '\r') hc (by decide)
  have hline := ne_of_isMark (d := '\n') hc (by decide)
  apply Parser.solid_cons
  simp [Parser.isBlankStart, isSpacing, hsemi, hspace, htab, hreturn, hline]

theorem Binary64.text_begins (x : Binary64) :
    (∃ c t, x.text.toList = c :: t ∧ (c = '-' ∨ c.isDigit = true)) ∨
      x.text.toList = "inf".toList ∨ x.text.toList = "NaN".toList := by
  rw [text]
  split
  · exact Or.inr (Or.inr rfl)
  cases hneg : x.negative with
  | true => exact Or.inl ⟨'-', x.absText.toList, by simp, Or.inl rfl⟩
  | false =>
    cases hfin : x.isFinite with
    | true =>
      obtain ⟨n, hn, -⟩ := x.exists_numeral_absText hfin
      obtain ⟨c, cs, hwhole⟩ := List.exists_cons_of_ne_nil n.whole_ne
      have hdigit := n.isDigit_whole c (hwhole ▸ List.mem_cons_self)
      have htext : x.absText.toList =
          c :: (cs ++ (Parser.pointed n.fraction ++ Numeral.exponentText n.exponent)) := by
        rw [← hn, Numeral.text, hwhole, List.cons_append]
      exact Or.inl ⟨c, _, by simpa using htext, Or.inr hdigit⟩
    | false =>
      apply Or.inr (Or.inl ?_)
      rw [absText, hfin]
      rfl

/-- How an expression begins. -/
theorem Expr.text_begins (e : Expr) :
    (∃ c t, e.text.toList = c :: t ∧ isMark c = true) ∨
      (e.text.toList = "inf".toList ∨ e.text.toList = "NaN".toList) ∨
      ∃ (op : Operator) (t : List Char), e.text.toList = op.name.toList ++ '(' :: t := by
  cases e with
  | num x =>
    obtain ⟨c, t, ht, hc⟩ | ht := x.text_begins
    · have hmark : isMark c = true := by
        obtain rfl | hc := hc
        · decide
        · simp [isMark, hc]
      exact Or.inl ⟨c, t, ht, hmark⟩
    · exact Or.inr (Or.inl ht)
  | var v =>
    refine Or.inl ⟨'%', v.category.letter :: (toString v.index.toNat).toList, ?_, by decide⟩
    simp [text, Variable.text]
  | binary op lhs rhs =>
    refine Or.inr (Or.inr ⟨op, lhs.text.toList ++ ", ".toList ++ rhs.text.toList ++ ")".toList, ?_⟩)
    simp [text]

theorem Expr.solid_text (e : Expr) : Parser.Solid e.text.toList := by
  obtain ⟨c, t, ht, hc⟩ | ht | ⟨op, t, ht⟩ := e.text_begins
  · rw [ht]
    exact solid_of_isMark hc
  · obtain ht | ht := ht <;> rw [ht] <;> exact Parser.solid_cons rfl
  · rw [ht]
    cases op <;> exact Parser.solid_cons rfl

namespace Parser

variable {r : List Char}

theorem strip?_cons_ne {c d : Char} {word s : List Char} (h : c ≠ d) :
    strip? (c :: word) (d :: s) = none := if_neg h

/-- The words that a statement other than an assignment begins with, and that of a declaration,
begin no expression. -/
theorem strip?_expr (e : Expr) {word : String}
    (hword : word ∈ ["local", "if", "for", "\x7b"]) :
    strip? word.toList (e.text.toList ++ r) = none := by
  simp only [List.mem_cons, List.not_mem_nil, or_false] at hword
  obtain ⟨c, t, ht, hc⟩ | ht | ⟨op, t, ht⟩ := e.text_begins
  · have hne {d : Char} (hd : isMark d = false) : d ≠ c := (ne_of_isMark hc hd).symm
    rw [ht]
    obtain rfl | rfl | rfl | rfl := hword <;> exact strip?_cons_ne (hne (by decide))
  · -- `if` and infinity part at the second letter
    obtain ht | ht := ht <;> rw [ht] <;> obtain rfl | rfl | rfl | rfl := hword <;> rfl
  · rw [ht]
    obtain rfl | rfl | rfl | rfl := hword <;> cases op <;> rfl

theorem operator_done (op : Operator) (hr : Ends Char.isAlpha r) :
    operator (op.name.toList ++ r) = .done op r := by
  have hne : op.name.toList ≠ [] := by cases op <;> decide
  have halpha : ∀ c ∈ op.name.toList, c.isAlpha = true :=
    List.all_eq_true.mp (by cases op <;> decide)
  apply accept_done (span_done hne halpha hr)
  rw [String.ofList_toList]
  exact Operator.ofName?_name op

theorem isAlpha_of_isDigit {c : Char} (hc : c.isDigit = true) : c.isAlpha = false := by
  have hdigit : c.isDigit = (decide (48 ≤ c.val.toNat) && decide (c.val.toNat ≤ 57)) := rfl
  have halpha : c.isAlpha = (decide (65 ≤ c.val.toNat ∧ c.val.toNat ≤ 90) ||
      decide (97 ≤ c.val.toNat) && decide (c.val.toNat ≤ 122)) := rfl
  simp only [hdigit, Bool.and_eq_true, decide_eq_true_eq] at hc
  have hupper : ¬(65 ≤ c.val.toNat ∧ c.val.toNat ≤ 90) := by omega
  have hlower : ¬97 ≤ c.val.toNat := by omega
  rw [halpha, decide_eq_false hupper, decide_eq_false hlower]
  rfl

theorem declines_operator_num (x : Binary64) (hr : Ends Char.isAlphanum r) :
    Declines operator (x.text.toList ++ r) := by
  obtain ⟨c, t, ht, hc⟩ | ht := x.text_begins
  · have halpha : c.isAlpha = false := by
      obtain rfl | hc := hc
      · decide
      · exact isAlpha_of_isDigit hc
    rw [ht]
    exact (declines_span (ends_cons halpha)).accept
  · obtain ht | ht := ht <;> rw [ht] <;>
      exact declines_accept (span_done (by decide) (List.all_eq_true.mp (by decide)) hr.isAlpha)
        (by decide)

theorem expr_num (x : Binary64) (hr : Ends Char.isAlphanum r) :
    expr (x.text.toList ++ r) = .done (.num x.quiet) r := by
  have hpercent : (x.text.toList ++ r).head? ≠ some '%' := by
    obtain ⟨c, t, ht, hc⟩ | ht := x.text_begins
    · rw [ht]
      rintro ⟨rfl⟩
      revert hc
      decide
    · obtain ht | ht := ht <;> rw [ht] <;> simp
  have hvar : Declines (do let v ← var; pure (.var v) : Parser Expr) (x.text.toList ++ r) :=
    (declines_symbol hpercent).bind.bind
  have hoperation : Declines (operation expr) (x.text.toList ++ r) :=
    (declines_operator_num x hr).lexeme.bind
  rw [expr_eq, exprStep, hvar.orElse_eq, hoperation.orElse_eq, bind_done (literal_done x hr)]
  rfl

theorem expr_var (v : Variable) (hr : Ends Char.isAlphanum r) :
    expr (v.text.toList ++ r) = .done (.var v) r := by
  rw [expr_eq]
  exact orElse_done (bind_done (var_done v hr.isDigit))

theorem expr_binary {op : Operator} {lhs rhs : Expr}
    (hl : ∀ r, Ends Char.isAlphanum r → expr (lhs.text.toList ++ r) = .done lhs.quiet r)
    (hr : ∀ r, Ends Char.isAlphanum r → expr (rhs.text.toList ++ r) = .done rhs.quiet r) :
    expr ((Expr.binary op lhs rhs).text.toList ++ r) =
      .done (.binary op lhs.quiet rhs.quiet) r := by
  have htext : (Expr.binary op lhs rhs).text.toList ++ r =
      op.name.toList ++ '(' ::
        (lhs.text.toList ++ ',' :: ' ' :: (rhs.text.toList ++ ')' :: r)) := by
    simp [Expr.text]
  have hvar : Declines (do let v ← var; pure (.var v) : Parser Expr)
      (op.name.toList ++ '(' :: (lhs.text.toList ++ ',' :: ' ' :: (rhs.text.toList ++ ')' :: r))) :=
    (declines_symbol (by cases op <;> simp [Operator.name])).bind.bind
  have hsolid {c : Char} {s : List Char} (hc : isBlankStart c = false) :
      skipBlank (c :: s) = c :: s := (solid_cons hc).skipBlank_eq
  have hoperator := operator_done op (r := '(' :: (lhs.text.toList ++ ',' :: ' ' ::
    (rhs.text.toList ++ ')' :: r))) (ends_cons rfl)
  rw [expr_eq, htext]
  refine hvar.orElse_eq.trans (orElse_done ?_)
  rw [operation, bind_done (lexeme_done hoperator), hsolid rfl,
    bind_done (lexeme_done symbol_done), lhs.solid_text.append.skipBlank_eq,
    bind_done (lexeme_done (hl _ (ends_cons rfl))), hsolid rfl,
    bind_done (lexeme_done symbol_done), rhs.solid_text.append.skipBlank_space,
    bind_done (lexeme_done (hr _ (ends_cons rfl))), hsolid rfl,
    bind_done symbol_done]
  rfl

theorem declines_expr_close : Declines expr ('}' :: r) := by
  have hvar : Declines (do let v ← var; pure (.var v) : Parser Expr) ('}' :: r) :=
    (declines_symbol (by simp)).bind.bind
  have hoperation : Declines (operation expr) ('}' :: r) :=
    (declines_span (ends_cons rfl)).accept.lexeme.bind
  rw [expr_eq]
  exact hvar.orElse (hoperation.orElse declines_literal_close.bind)

theorem expr_done (e : Expr) (hr : Ends Char.isAlphanum r) :
    expr (e.text.toList ++ r) = .done e.quiet r := by
  induction e generalizing r with
  | num x => exact expr_num x hr
  | var v => exact expr_var v hr
  | binary op lhs rhs ihl ihr => exact expr_binary (fun _ => ihl) fun _ => ihr

end Parser

end ShaderTree
