import Mathlib.Data.List.Chain
import ShaderTree.Proofs.TextLines
import ShaderTree.Proofs.GlobalNames
import ShaderTree.Proofs.Violations

namespace ShaderTree

namespace Glsl

inductive Lexeme
  | word (text : String)
  | number (text : String)
  | mark (text : String)
deriving DecidableEq

def isWhite (c : Char) : Bool := [' ', '\t', '\n', '\x0b', '\x0c', '\r'].contains c

def continuesNumber (before c : Char) : Bool :=
  isIdentifierChar c || c == '.' || (c == '+' || c == '-') && (before == 'e' || before == 'E')

def numberRest (before : Char) : List Char → List Char × List Char
  | [] => ([], [])
  | c :: cs =>
    if continuesNumber before c then (c :: (numberRest c cs).1, (numberRest c cs).2)
    else ([], c :: cs)

/-- The operators and the punctuation of GLSL, longer ones in front of those that begin them. -/
def marks : List (List Char) :=
  [['<', '<', '='], ['>', '>', '='],
    ['+', '+'], ['-', '-'], ['+', '='], ['-', '='], ['*', '='], ['/', '='], ['%', '='],
    ['&', '='], ['^', '='], ['|', '='], ['<', '<'], ['>', '>'], ['<', '='], ['>', '='],
    ['=', '='], ['!', '='], ['&', '&'], ['|', '|'], ['^', '^'],
    ['('], [')'], ['['], [']'], ['\x7b'], ['\x7d'], ['.'], [','], [':'], [';'], ['?'], ['='],
    ['+'], ['-'], ['*'], ['/'], ['%'], ['<'], ['>'], ['&'], ['^'], ['|'], ['!'], ['~']]

/-- The longest word, number or mark that the text begins with, and what follows it. A comment is
none of these. -/
def lexeme? : List Char → Option (Lexeme × List Char)
  | [] => none
  | c :: cs =>
    if c.isAlpha || c == '_' then
      some (.word (String.ofList (c :: cs.takeWhile isIdentifierChar)),
        cs.dropWhile isIdentifierChar)
    else if c.isDigit || c == '.' && cs.head?.any Char.isDigit then
      some (.number (String.ofList (c :: (numberRest c cs).1)), (numberRest c cs).2)
    else if c == '/' && cs.head?.any (fun d => d == '/' || d == '*') then none
    else
      (marks.find? (·.isPrefixOf (c :: cs))).map fun m =>
        (.mark (String.ofList m), (c :: cs).drop m.length)

theorem length_numberRest (before : Char) (cs : List Char) :
    (numberRest before cs).2.length ≤ cs.length := by
  induction cs generalizing before with
  | nil => exact Nat.le_refl _
  | cons c cs ih =>
    rw [numberRest]
    split
    · exact Nat.le_succ_of_le (ih c)
    · exact Nat.le_refl _

theorem length_lexeme? {s r : List Char} {t : Lexeme} (h : lexeme? s = some (t, r)) :
    r.length < s.length := by
  cases s with
  | nil => cases h
  | cons c cs =>
    rw [lexeme?] at h
    split at h
    · cases h
      exact Nat.lt_succ_of_le (List.dropWhile_suffix _).length_le
    · split at h
      · cases h
        exact Nat.lt_succ_of_le (length_numberRest c cs)
      · split at h
        · cases h
        · obtain ⟨m, hm, hr⟩ := Option.map_eq_some_iff.mp h
          have hpos : 0 < m.length :=
            (by decide : ∀ m ∈ marks, 0 < m.length) m (List.mem_of_find?_eq_some hm)
          cases hr
          rw [List.length_drop, List.length_cons]
          omega

/-- The tokens of the text, if it can be read. -/
def lex (s : List Char) : Option (List Lexeme) :=
  match s with
  | [] => some []
  | c :: cs =>
    if isWhite c then lex cs
    else
      match _h : lexeme? (c :: cs) with
      | some (t, r) => (lex r).map (t :: ·)
      | none => none
termination_by s.length
decreasing_by
  · exact Nat.lt_succ_self _
  · exact length_lexeme? _h

def Lexes (s : List Char) (ts : List Lexeme) : Prop := lex s = some ts

namespace Lexes

variable {r : List Char} {ts : List Lexeme}

theorem nil : Lexes [] [] := by rw [Lexes, lex]

theorem white {c : Char} (hc : isWhite c = true) (h : Lexes r ts) : Lexes (c :: r) ts := by
  rwa [Lexes, lex, if_pos hc]

theorem lexeme?_white {c : Char} (hc : isWhite c = true) (cs : List Char) :
    lexeme? (c :: cs) = none := by
  have hmem := List.contains_iff_mem.mp hc
  simp only [List.mem_cons, List.not_mem_nil, or_false] at hmem
  obtain rfl | rfl | rfl | rfl | rfl | rfl := hmem <;> rfl

theorem lexeme {s : List Char} {t : Lexeme} (hs : lexeme? s = some (t, r)) (h : Lexes r ts) :
    Lexes s (t :: ts) := by
  cases s with
  | nil => cases hs
  | cons c cs =>
    have hc : ¬isWhite c = true := by
      intro hc
      rw [lexeme?_white hc] at hs
      cases hs
    rw [Lexes, lex, if_neg hc]
    split
    · next t' r' hs' =>
      rw [hs] at hs'
      cases hs'
      rw [h]
      rfl
    · next hnone => cases hs.symm.trans hnone

theorem space (h : Lexes r ts) : Lexes (' ' :: r) ts := h.white rfl

theorem feed (h : Lexes r ts) : Lexes ('\n' :: r) ts := h.white rfl

theorem opening (h : Lexes r ts) : Lexes ('(' :: r) (.mark "(" :: ts) := h.lexeme rfl

theorem closing (h : Lexes r ts) : Lexes (')' :: r) (.mark ")" :: ts) := h.lexeme rfl

theorem comma (h : Lexes r ts) : Lexes (',' :: r) (.mark "," :: ts) := h.lexeme rfl

theorem semicolon (h : Lexes r ts) : Lexes (';' :: r) (.mark ";" :: ts) := h.lexeme rfl

theorem openBrace (h : Lexes r ts) : Lexes ('\x7b' :: r) (.mark "\x7b" :: ts) := h.lexeme rfl

theorem closeBrace (h : Lexes r ts) : Lexes ('\x7d' :: r) (.mark "\x7d" :: ts) := h.lexeme rfl

theorem assign (h : Lexes r ts) : Lexes ('=' :: ' ' :: r) (.mark "=" :: ts) := h.space.lexeme rfl

theorem less (h : Lexes r ts) : Lexes ('<' :: ' ' :: r) (.mark "<" :: ts) := h.space.lexeme rfl

theorem operator (op : Operator) (h : Lexes r ts) :
    Lexes (op.token.toList ++ ' ' :: r) (.mark op.token :: ts) := by
  cases op <;> exact h.space.lexeme rfl

theorem word {name : String} (hname : IsIdentifier name) (hr : Parser.Ends isIdentifierChar r)
    (h : Lexes r ts) : Lexes (name.toList ++ r) (.word name :: ts) := by
  obtain ⟨c, cs, hcs, hc, hall⟩ := hname
  have hrest : ∀ d ∈ cs, isIdentifierChar d = true :=
    fun d hd => (continuesIdentifier_iff d).mp (hall d hd)
  have hend : r.takeWhile isIdentifierChar = [] := by
    cases r with
    | nil => rfl
    | cons d r => exact List.takeWhile_cons_of_neg (by simp [hr d rfl])
  have hlexeme : lexeme? (name.toList ++ r) = some (.word name, r) := by
    rw [hcs, List.cons_append, lexeme?, if_pos ((beginsIdentifier_iff c).mp hc),
      List.takeWhile_append_of_pos hrest, hend, Parser.dropWhile_of_ends hrest hr,
      List.append_nil, ← hcs, String.ofList_toList]
  exact h.lexeme hlexeme

end Lexes

def isGlue (c : Char) : Bool := isIdentifierChar c || ['.', '+', '-'].contains c

variable {r : List Char} {ts : List Lexeme}

theorem isGlue_of_continuesNumber {before c : Char} (h : continuesNumber before c = true) :
    isGlue c = true := by
  simp only [continuesNumber, isGlue, Bool.or_eq_true, Bool.and_eq_true, beq_iff_eq,
    List.contains_iff_mem, List.mem_cons, List.not_mem_nil, or_false] at h ⊢
  tauto

theorem numberRest_append {before : Char} {cs : List Char}
    (hcs : (before :: cs).IsChain (continuesNumber · ·)) (hr : Parser.Ends isGlue r) :
    numberRest before (cs ++ r) = (cs, r) := by
  induction cs generalizing before with
  | nil =>
    cases r with
    | nil => rfl
    | cons c r =>
      have hc : ¬continuesNumber before c = true := by
        intro hc
        cases (isGlue_of_continuesNumber hc).symm.trans (hr c rfl)
      exact if_neg hc
  | cons c cs ih =>
    obtain ⟨hc, hcs⟩ := List.isChain_cons_cons.mp hcs
    rw [List.cons_append, numberRest, if_pos hc, ih hcs]

theorem Lexes.number {c : Char} {cs : List Char} (hc : c.isDigit = true)
    (hcs : (c :: cs).IsChain (continuesNumber · ·)) (hr : Parser.Ends isGlue r)
    (h : Lexes r ts) : Lexes (c :: cs ++ r) (.number (String.ofList (c :: cs)) :: ts) := by
  have hletter : ¬(c.isAlpha || c == '_') = true := by
    rw [Parser.isAlpha_of_isDigit hc, Bool.false_or, beq_iff_eq]
    rintro rfl
    cases hc
  have hlexeme : lexeme? (c :: cs ++ r) = some (.number (String.ofList (c :: cs)), r) := by
    rw [List.cons_append, lexeme?, if_neg hletter, hc, Bool.true_or, if_pos rfl,
      numberRest_append hcs hr]
  exact h.lexeme hlexeme

theorem isChain_number (c : Char) {cs : List Char}
    (h : ∀ d ∈ cs, isIdentifierChar d = true ∨ d = '.') :
    (c :: cs).IsChain (continuesNumber · ·) := by
  induction cs generalizing c with
  | nil => exact List.isChain_singleton c
  | cons d cs ih =>
    obtain ⟨hd, hcs⟩ := List.forall_mem_cons.mp h
    refine List.isChain_cons_cons.mpr ⟨?_, ih d hcs⟩
    obtain hd | rfl := hd
    · simp [continuesNumber, hd]
    · rfl

theorem isIdentifierChar_of_isDigit {c : Char} (h : c.isDigit = true) :
    isIdentifierChar c = true := by
  simp [isIdentifierChar, Char.isAlphanum, h]

theorem exists_toDigits (n : Nat) : ∃ c cs, Nat.toDigits 10 n = c :: cs ∧ c.isDigit = true ∧
    ∀ d ∈ cs, d.isDigit = true := by
  have hdigits := Parser.isDigit_toDigits n
  obtain ⟨c, cs, hcs⟩ := List.exists_cons_of_ne_nil (Nat.toDigits_ne_nil (n := n) (b := 10))
  rw [hcs] at hdigits
  exact ⟨c, cs, hcs, List.forall_mem_cons.mp hdigits⟩

theorem Lexes.natural (n : Nat) (hr : Parser.Ends isGlue r) (h : Lexes r ts) :
    Lexes (Nat.toDigits 10 n ++ r) (.number (toString n) :: ts) := by
  have htext : toString n = String.ofList (Nat.toDigits 10 n) := Nat.toString_eq_ofList_toDigits
  obtain ⟨c, cs, hcs, hc, hrest⟩ := exists_toDigits n
  have hchain : (c :: cs).IsChain (continuesNumber · ·) :=
    isChain_number c fun d hd => Or.inl (isIdentifierChar_of_isDigit (hrest d hd))
  rw [htext, hcs]
  exact h.number hc hchain hr

/-- No sign goes on with a letter or a digit. -/
theorem Lexes.minus {c : Char} (hc : isIdentifierChar c = true) (h : Lexes (c :: r) ts) :
    Lexes ('-' :: c :: r) (.mark "-" :: ts) := by
  have hminus : '-' ≠ c := by
    rintro rfl
    cases hc
  have hequal : '=' ≠ c := by
    rintro rfl
    cases hc
  have hfind : marks.find? (·.isPrefixOf ('-' :: c :: r)) = some ['-'] := by
    simp [marks, List.isPrefixOf, hminus, hequal]
  have hlexeme : lexeme? ('-' :: c :: r) =
      (marks.find? (·.isPrefixOf ('-' :: c :: r))).map fun m =>
        (.mark (String.ofList m), ('-' :: c :: r).drop m.length) := rfl
  rw [hfind] at hlexeme
  exact h.lexeme hlexeme

def intLexemes (i : Int32) : List Lexeme :=
  (if i.toInt < 0 then [.mark "-"] else []) ++ [.number (toString i.toInt.natAbs)]

theorem Lexes.int (i : Int32) (hr : Parser.Ends isGlue r) (h : Lexes r ts) :
    Lexes ((toString i.toInt).toList ++ r) (intLexemes i ++ ts) := by
  have hnatural := h.natural i.toInt.natAbs hr
  rw [Parser.toList_toString, intLexemes, List.append_assoc, List.append_assoc]
  split
  · obtain ⟨c, cs, hcs, hc, -⟩ := exists_toDigits i.toInt.natAbs
    rw [hcs] at hnatural ⊢
    exact hnatural.minus (isIdentifierChar_of_isDigit hc)
  · exact hnatural

def magnitudeText (x : Binary64) : String :=
  String.ofList (x.tenDigits.1.take 1 ++ '.' :: x.tenDigits.1.drop 1 ++
    'e' :: exponentText x.tenDigits.2)

theorem exists_tenDigits (x : Binary64) : ∃ c cs, x.tenDigits.1 = c :: cs := by
  apply List.exists_cons_of_ne_nil
  rw [Binary64.tenDigits]
  split <;> simp

theorem toList_magnitudeText {x : Binary64} {c : Char} {cs : List Char}
    (h : x.tenDigits.1 = c :: cs) :
    (magnitudeText x).toList = c :: ('.' :: cs ++ 'e' :: exponentText x.tenDigits.2) := by
  rw [magnitudeText, String.toList_ofList, h]
  rfl

def literalLexemes (x : Binary64) : List Lexeme :=
  if x.isNaN then [.word "NaN"]
  else
    (if x.negative then [.mark "-"] else []) ++
      [if x.isFinite then .number (magnitudeText x) else .word "inf"]

theorem isDigit_exponentDigits (n : Nat) : ∀ c ∈ exponentDigits n, c.isDigit = true :=
  List.forall_mem_append.mpr ⟨Decimal.isDigit_zeros _, Parser.isDigit_toDigits n⟩

theorem Lexes.magnitude (x : Binary64) (hr : Parser.Ends isGlue r) (h : Lexes r ts) :
    Lexes ((magnitudeText x).toList ++ r) (.number (magnitudeText x) :: ts) := by
  obtain ⟨c, cs, hcs⟩ := exists_tenDigits x
  have hdigits := isDigit_tenDigits x
  rw [hcs, List.forall_mem_cons] at hdigits
  have hplain {d : Char} (hd : d.isDigit = true) : isIdentifierChar d = true ∨ d = '.' :=
    Or.inl (isIdentifierChar_of_isDigit hd)
  have hfirst : (c :: ('.' :: cs ++ ['e'])).IsChain (continuesNumber · ·) := by
    apply isChain_number
    rw [List.cons_append, List.forall_mem_cons, List.forall_mem_append, List.forall_mem_singleton]
    exact ⟨Or.inr rfl, fun d hd => hplain (hdigits.2 d hd), Or.inl rfl⟩
  -- the sign of the exponent goes on with the number, since it stands behind an `e`
  have hchain : (c :: ('.' :: cs ++ 'e' :: exponentText x.tenDigits.2)).IsChain
      (continuesNumber · ·) := by
    change (c :: '.' :: cs ++ 'e' :: _ :: exponentDigits _).IsChain _
    refine List.isChain_append_cons_cons.mpr ⟨hfirst, by split <;> rfl, ?_⟩
    exact isChain_number _ fun d hd => hplain (isDigit_exponentDigits _ d hd)
  have hnumber := h.number hdigits.1 hchain hr
  rwa [← toList_magnitudeText hcs, String.ofList_toList] at hnumber

theorem glsl_eq {x : Binary64} (h : ¬x.isNaN = true) :
    x.glsl = (if x.negative then "-" else "") ++
      if x.isFinite then magnitudeText x else "inf" := by
  rw [Binary64.glsl, if_neg h]
  cases hfinite : x.isFinite <;> rfl

theorem finite_of_issues {p : Program} {func : String} {locals : Nat} {x : Binary64}
    (h : (Expr.num x).issues p func locals = []) : x.isFinite = true ∧ ¬x.isNaN = true := by
  rw [Expr.issues, ite_eq_left_iff] at h
  have hfinite : x.isFinite = true := not_not.mp fun hnot => List.cons_ne_nil _ _ (h hnot)
  have hlt : x.magnitude < Binary64.infinityMagnitude := of_decide_eq_true hfinite
  exact ⟨hfinite, fun hnan => Nat.lt_asymm hlt (of_decide_eq_true hnan)⟩

theorem Lexes.literal (x : Binary64) (hr : Parser.Ends isGlue r) (h : Lexes r ts) :
    Lexes (x.glsl.toList ++ r) (literalLexemes x ++ ts) := by
  have hend : Parser.Ends isIdentifierChar r :=
    hr.mono fun c hc => Bool.or_eq_true_iff.mpr (Or.inl hc)
  by_cases hnan : x.isNaN = true
  · rw [Binary64.glsl, literalLexemes, if_pos hnan, if_pos hnan]
    exact h.word (by decide) hend
  · rw [glsl_eq hnan, literalLexemes, if_neg hnan]
    have hvalue : ∃ c cs, (if x.isFinite then magnitudeText x else "inf").toList = c :: cs ∧
        isIdentifierChar c = true ∧ Lexes (c :: cs ++ r)
          ((if x.isFinite then .number (magnitudeText x) else .word "inf") :: ts) := by
      split
      · obtain ⟨c, cs, hcs⟩ := exists_tenDigits x
        have hc : c.isDigit = true := isDigit_tenDigits x c (hcs ▸ List.mem_cons_self)
        have htext := toList_magnitudeText hcs
        exact ⟨c, _, htext, isIdentifierChar_of_isDigit hc, htext ▸ h.magnitude x hr⟩
      · have hinf : Lexes ("inf".toList ++ r) (.word "inf" :: ts) := h.word (by decide) hend
        exact ⟨'i', ['n', 'f'], rfl, rfl, hinf⟩
    obtain ⟨c, cs, htext, hc, hlexes⟩ := hvalue
    rw [String.toList_append, htext]
    split
    · exact hlexes.minus hc
    · exact hlexes

def exprLexemes : Expr → List Lexeme
  | .num x => literalLexemes x
  | .var v => [.word v.glslName]
  | .binary op lhs rhs =>
    .mark "(" :: exprLexemes lhs ++ .mark ")" :: .mark op.token :: .mark "(" :: exprLexemes rhs ++
      [.mark ")"]

theorem isIdentifier_indexed {letter : Char} (h : BeginsIdentifier letter) (i : Nat) :
    IsIdentifier (indexed letter i) :=
  ⟨letter, _, indexed_toList letter i, h, fun d hd =>
    (continuesIdentifier_iff d).mpr (isIdentifierChar_of_isDigit (Parser.isDigit_toDigits i d hd))⟩

theorem isIdentifier_variableName (c : Category) (i : Nat) : IsIdentifier (variableName c i) :=
  isIdentifier_indexed ((beginsIdentifier_iff _).mpr (by cases c <;> rfl)) i

theorem Lexes.expr (e : Expr) (hr : Parser.Ends isGlue r) (h : Lexes r ts) :
    Lexes (e.glsl.toList ++ r) (exprLexemes e ++ ts) := by
  induction e generalizing r ts with
  | num x => exact h.literal x hr
  | var v =>
    have hend : Parser.Ends isIdentifierChar r :=
      hr.mono fun c hc => Bool.or_eq_true_iff.mpr (Or.inl hc)
    exact h.word (isIdentifier_variableName v.category v.index.toNat) hend
  | binary op lhs rhs ihl ihr =>
    have hclosing {r : List Char} : Parser.Ends isGlue (')' :: r) := Parser.ends_cons rfl
    have hrhs := (ihr hclosing h.closing).opening
    have hlhs := (ihl hclosing (hrhs.operator op).space.closing).opening
    rw [toList_glsl_binary]
    simpa [exprLexemes] using hlhs

def paramLexemes (q : Param) : List Lexeme :=
  [.word q.direction.keyword, .word q.type.text, .word (localName q.index)]

def paramsLexemes : List Param → List Lexeme
  | [] => [.word "void"]
  | q :: qs => paramLexemes q ++ qs.flatMap fun q => .mark "," :: paramLexemes q

def incrementLexemes (step : Int32) : List Lexeme :=
  if step = 1 then [.mark "++"]
  else if step = -1 then [.mark "--"]
  else .mark "+=" :: intLexemes step

/-- The tokens on the line of a clause. -/
def Clause.lexemes : Clause → List Lexeme
  | structOpen i => [.word "struct", .word (structName i), .mark "\x7b"]
  | member t i => [.word t.text, .word (memberName i), .mark ";"]
  | structClose => [.mark "\x7d", .mark ";"]
  | global c t i => [.word (qualifier c), .word t.text, .word (variableName c i), .mark ";"]
  | funcOpen name ps =>
    .word "void" :: .word name :: .mark "(" :: paramsLexemes ps ++ [.mark ")", .mark "\x7b"]
  | «local» t i => [.word t.text, .word (localName i), .mark ";"]
  | blockOpen => [.mark "\x7b"]
  | assign target value => exprLexemes target ++ .mark "=" :: exprLexemes value ++ [.mark ";"]
  | ifOpen cond =>
    .word "if" :: .mark "(" :: exprLexemes cond ++ [.mark ")", .mark "\x7b"]
  | elseOpen => [.mark "\x7d", .word "else", .mark "\x7b"]
  | forOpen k init limit step =>
    .word "for" :: .mark "(" :: .word "int" :: .word (localName k) :: .mark "=" ::
      intLexemes init ++ .mark ";" :: .word (localName k) :: .mark "<" ::
      intLexemes limit ++ .mark ";" :: .word (localName k) :: incrementLexemes step ++
      [.mark ")", .mark "\x7b"]
  | close => [.mark "\x7d"]

def lexemes (cs : List Placed) : List Lexeme := cs.flatMap (·.clause.lexemes)

theorem lexemes_nil : lexemes [] = [] := rfl

theorem lexemes_append (cs ds : List Placed) : lexemes (cs ++ ds) = lexemes cs ++ lexemes ds :=
  List.flatMap_append

theorem lexemes_cons (c : Placed) (cs : List Placed) :
    lexemes (c :: cs) = c.clause.lexemes ++ lexemes cs := rfl

theorem isIdentifier_structName (i : Nat) : IsIdentifier (structName i) :=
  isIdentifier_indexed ((beginsIdentifier_iff 'S').mpr rfl) i

theorem isIdentifier_memberName (i : Nat) : IsIdentifier (memberName i) :=
  isIdentifier_indexed ((beginsIdentifier_iff 'M').mpr rfl) i

theorem isIdentifier_typeName (t : TypeName) : IsIdentifier t.text := by
  cases t with
  | basic b => cases b <;> decide
  | struct i => exact isIdentifier_structName i

theorem Lexes.param (q : Param) (hr : Parser.Ends isIdentifierChar r) (h : Lexes r ts) :
    Lexes (q.text.toList ++ r) (paramLexemes q ++ ts) := by
  have hkeyword : IsIdentifier q.direction.keyword := by cases q.direction <;> decide
  have hname := (h.word (isIdentifier_variableName .local q.index) hr).space
  have htype := (hname.word (isIdentifier_typeName q.type) (Parser.ends_cons rfl)).space
  have hparam := htype.word hkeyword (Parser.ends_cons rfl)
  simpa [Param.text, localName, paramLexemes] using hparam

theorem ends_behindParam (qs : List Param) (hr : Parser.Ends isIdentifierChar r) :
    Parser.Ends isIdentifierChar ((qs.flatMap fun q => ", ".toList ++ q.text.toList) ++ r) := by
  cases qs with
  | nil => exact hr
  | cons q qs => exact Parser.ends_cons rfl

theorem Lexes.moreParams (qs : List Param) (hr : Parser.Ends isIdentifierChar r)
    (h : Lexes r ts) :
    Lexes ((qs.flatMap fun q => ", ".toList ++ q.text.toList) ++ r)
      ((qs.flatMap fun q => .mark "," :: paramLexemes q) ++ ts) := by
  induction qs with
  | nil => exact h
  | cons q qs ih =>
    rw [List.flatMap_cons, List.flatMap_cons, List.append_assoc, List.append_assoc,
      List.append_assoc]
    exact (ih.param q (ends_behindParam qs hr)).space.comma

theorem Lexes.params (qs : List Param) (hr : Parser.Ends isIdentifierChar r) (h : Lexes r ts) :
    Lexes ((paramsText qs).toList ++ r) (paramsLexemes qs ++ ts) := by
  cases qs with
  | nil =>
    have hvoid : IsIdentifier "void" := by decide
    exact h.word hvoid hr
  | cons q qs =>
    rw [paramsText_cons, paramsLexemes, List.append_assoc, List.append_assoc]
    exact (h.moreParams qs hr).param q (ends_behindParam qs hr)

theorem Lexes.increment (step : Int32) (h : Lexes r ts) :
    Lexes ((increment step).toList ++ ')' :: r) (incrementLexemes step ++ .mark ")" :: ts) := by
  rw [Glsl.increment, incrementLexemes]
  split
  · exact h.closing.lexeme rfl
  · split
    · exact h.closing.lexeme rfl
    · have hstep := (h.closing.int step (Parser.ends_cons rfl)).space
      have hmark : Lexes ('+' :: '=' :: ' ' :: ((toString step.toInt).toList ++ ')' :: r)) _ :=
        hstep.lexeme rfl
      rw [String.toList_append, List.append_assoc]
      exact hmark.space

theorem ends_increment (step : Int32) :
    Parser.Ends isIdentifierChar ((increment step).toList ++ r) := by
  rw [increment]
  split
  · exact Parser.ends_cons rfl
  · split
    · exact Parser.ends_cons rfl
    · rw [String.toList_append]
      exact Parser.ends_cons rfl

theorem Lexes.declared (t : TypeName) {name : String} (hname : IsIdentifier name)
    (h : Lexes r ts) :
    Lexes (t.text.toList ++ ' ' :: (name.toList ++ ';' :: r))
      (.word t.text :: .word name :: .mark ";" :: ts) := by
  have hrest := (h.semicolon.word hname (Parser.ends_cons rfl)).space
  exact hrest.word (isIdentifier_typeName t) (Parser.ends_cons rfl)

def signatureLexemes (ps : List Param) : List Lexeme :=
  .mark "(" :: paramsLexemes ps ++ [.mark ")", .mark "\x7b"]

theorem Lexes.signature (ps : List Param) (h : Lexes r ts) :
    Lexes ('(' :: ((paramsText ps).toList ++ ')' :: ' ' :: '\x7b' :: r))
      (signatureLexemes ps ++ ts) := by
  have hparams := (h.openBrace.space.closing.params ps (Parser.ends_cons rfl)).opening
  simpa [signatureLexemes] using hparams

theorem Lexes.clause (c : Clause) (hnames : ∀ name ∈ c.globalNames, IsIdentifier name)
    (h : Lexes r ts) : Lexes (c.text.toList ++ r) (c.lexemes ++ ts) := by
  have hopen := h.openBrace.space
  rw [Clause.toList_text, List.append_assoc]
  cases c with
  | structOpen i =>
    have hstruct : IsIdentifier "struct" := by decide
    have hname := (hopen.word (isIdentifier_structName i) (Parser.ends_cons rfl)).space
    simpa [Clause.word, Clause.rest, Clause.lexemes] using
      hname.word hstruct (Parser.ends_cons rfl)
  | member t i =>
    have hdeclared := h.declared t (isIdentifier_memberName i)
    simpa [Clause.word, Clause.rest, Clause.lexemes] using hdeclared
  | structClose => exact h.semicolon.closeBrace
  | global c t i =>
    have hqualifier : IsIdentifier (qualifier c) := by cases c <;> decide
    have hdeclared := (h.declared t (isIdentifier_variableName c i)).space
    simpa [Clause.word, Clause.rest, Clause.lexemes] using
      hdeclared.word hqualifier (Parser.ends_cons rfl)
  | funcOpen name ps =>
    have hvoid : IsIdentifier "void" := by decide
    have hname : IsIdentifier name := hnames name List.mem_cons_self
    have hfunc := ((h.signature ps).word hname (Parser.ends_cons rfl)).space
    simpa [Clause.word, Clause.rest, Clause.lexemes, signatureLexemes] using
      hfunc.word hvoid (Parser.ends_cons rfl)
  | «local» t i =>
    have hdeclared := h.declared t (isIdentifier_variableName .local i)
    simpa [Clause.word, Clause.rest, Clause.lexemes, localName] using hdeclared
  | blockOpen => exact h.openBrace
  | assign target value =>
    have hvalue := (h.semicolon.expr value (Parser.ends_cons rfl)).assign.space
    simpa [Clause.word, Clause.rest, Clause.lexemes] using
      hvalue.expr target (Parser.ends_cons rfl)
  | ifOpen cond =>
    have hif : IsIdentifier "if" := by decide
    have hcond := (hopen.closing.expr cond (Parser.ends_cons rfl)).opening.space
    simpa [Clause.word, Clause.rest, Clause.lexemes] using hcond.word hif (Parser.ends_cons rfl)
  | elseOpen =>
    have helse : IsIdentifier "else" := by decide
    exact (hopen.word helse (Parser.ends_cons rfl)).space.closeBrace
  | forOpen k init limit step =>
    have hfor : IsIdentifier "for" := by decide
    have hint : IsIdentifier "int" := by decide
    have hk : IsIdentifier (localName k) := isIdentifier_variableName .local k
    have hstep := ((hopen.increment step).word hk (ends_increment step)).space.semicolon
    have hlimit := (hstep.int limit (Parser.ends_cons rfl)).less.space
    have hless := (hlimit.word hk (Parser.ends_cons rfl)).space.semicolon
    have hinit := (hless.int init (Parser.ends_cons rfl)).assign.space
    have hcounter := (hinit.word hk (Parser.ends_cons rfl)).space
    have hloop := (hcounter.word hint (Parser.ends_cons rfl)).opening.space
    simpa [Clause.word, Clause.rest, Clause.lexemes] using hloop.word hfor (Parser.ends_cons rfl)
  | close => exact h.closeBrace

theorem Lexes.line (c : Placed) (hnames : ∀ name ∈ c.clause.globalNames, IsIdentifier name)
    (h : Lexes r ts) : Lexes (c.chars ++ r) (c.clause.lexemes ++ ts) := by
  have htabs (n : Nat) {s : List Char} {us : List Lexeme} (hs : Lexes s us) :
      Lexes (List.replicate n '\t' ++ s) us := by
    induction n with
    | zero => exact hs
    | succ n ih => exact ih.white rfl
  rw [Placed.chars_eq, List.append_assoc]
  exact htabs c.depth (h.clause c.clause hnames)

theorem Lexes.lines {cs : List Placed} (hnames : ∀ name ∈ globalNames cs, IsIdentifier name) :
    Lexes (cs.flatMap fun c => c.chars ++ ['\n']) (lexemes cs) := by
  induction cs with
  | nil => exact Lexes.nil
  | cons c cs ih =>
    rw [globalNames_cons, List.forall_mem_append] at hnames
    have hline := (ih hnames.2).feed.line c hnames.1
    simpa [lexemes] using hline

/-- The text of clauses is read as the tokens of the clauses, line by line. -/
theorem lexes_text {cs : List Placed} (hnames : ∀ name ∈ globalNames cs, IsIdentifier name) :
    Lexes (text cs).toList (lexemes cs) := by
  cases cs with
  | nil => exact Lexes.nil.feed
  | cons c cs =>
    have hlines := Lexes.lines hnames
    rw [toList_text_cons]
    simpa using hlines

end Glsl

namespace Program

theorem isIdentifier_synthesizedNames (p : Program) :
    ∀ name ∈ p.synthesizedNames, IsIdentifier name := by
  have hnumbered {letter : Char} (h : BeginsIdentifier letter) (n : Nat) :
      ∀ name ∈ Glsl.numbered letter n, IsIdentifier name := by
    intro name hname
    obtain ⟨i, -, rfl⟩ := List.mem_map.mp hname
    exact Glsl.isIdentifier_indexed h i
  simp only [synthesizedNames, List.forall_mem_append]
  refine ⟨⟨⟨?_, ?_⟩, ?_⟩, ?_⟩
  all_goals exact hnumbered ((beginsIdentifier_iff _).mpr rfl) _

theorem lexes_clauses {p : Program} (h : p.issues = []) :
    Glsl.Lexes (Glsl.text p.clauses).toList (Glsl.lexemes p.clauses) := by
  refine Glsl.lexes_text fun name hname => ?_
  rw [p.globalNames_clauses.mem_iff] at hname
  obtain hname | hname := List.mem_append.mp hname
  · exact p.isIdentifier_synthesizedNames name hname
  · obtain ⟨f, hf, rfl⟩ := List.mem_map.mp hname
    exact (wellFormed_of_issues h).names f hf

end Program

end ShaderTree
