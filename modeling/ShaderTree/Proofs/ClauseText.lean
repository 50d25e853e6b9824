import ShaderTree.Proofs.BlankText
import ShaderTree.Proofs.RoundTrip
import ShaderTree.Proofs.StructNames

namespace ShaderTree

/-- The expressions are the same but for numbers that have one text. -/
def Expr.SameText : Expr → Expr → Prop
  | num x, num y => x.glsl = y.glsl
  | var v, var w => v = w
  | binary op lhs rhs, binary op' lhs' rhs' => op = op' ∧ lhs.SameText lhs' ∧ rhs.SameText rhs'
  | _, _ => False

namespace Glsl

def Clause.SameText : Clause → Clause → Prop
  | assign target value, assign target' value' => target.SameText target' ∧ value.SameText value'
  | ifOpen cond, ifOpen cond' => cond.SameText cond'
  | c, d => c = d

variable {r r' : List Char}

theorem ends_nil (isIn : Char → Bool) : Parser.Ends isIn [] := by
  intro c hc
  cases hc

/-- Words of a class end where the class does. -/
theorem append_unique {isIn : Char → Bool} {word word' : List Char}
    (hword : ∀ c ∈ word, isIn c = true) (hword' : ∀ c ∈ word', isIn c = true)
    (hr : Parser.Ends isIn r) (hr' : Parser.Ends isIn r') (h : word ++ r = word' ++ r') :
    word = word' ∧ r = r' := by
  have hrest : r = r' := by
    rw [← Parser.dropWhile_of_ends hword hr, h, Parser.dropWhile_of_ends hword' hr']
  subst hrest
  exact ⟨List.append_cancel_right h, rfl⟩

theorem indexed_unique {letter : Char} {i j : Nat} (hr : Parser.Ends Char.isDigit r)
    (hr' : Parser.Ends Char.isDigit r')
    (h : (indexed letter i).toList ++ r = (indexed letter j).toList ++ r') : i = j ∧ r = r' := by
  rw [indexed_toList, indexed_toList, List.cons_append, List.cons_append, List.cons.injEq] at h
  obtain ⟨hdigits, hrest⟩ :=
    append_unique (Parser.isDigit_toDigits i) (Parser.isDigit_toDigits j) hr hr' h.2
  refine ⟨?_, hrest⟩
  rw [← Parser.natural_toDigits i, hdigits, Parser.natural_toDigits]

theorem int_unique {i j : Int32} (hr : Parser.Ends Char.isDigit r)
    (hr' : Parser.Ends Char.isDigit r')
    (h : (toString i.toInt).toList ++ r = (toString j.toInt).toList ++ r') : i = j ∧ r = r' := by
  have hbound := Parser.bound_done i hr
  rw [h, Parser.bound_done j hr'] at hbound
  cases hbound
  exact ⟨rfl, rfl⟩

def isNumberChar (c : Char) : Bool :=
  c.isDigit || ['-', '+', '.', 'e', 'N', 'a', 'i', 'n', 'f'].contains c

theorem isNumberChar_of_isDigit {c : Char} (h : c.isDigit = true) : isNumberChar c = true :=
  Bool.or_eq_true_iff.mpr (Or.inl h)

theorem isDigit_tenDigits (x : Binary64) : ∀ c ∈ x.tenDigits.1, c.isDigit = true := by
  intro c hc
  rw [Binary64.tenDigits] at hc
  split at hc
  · exact Decimal.isDigit_zeros 10 c hc
  · exact Parser.isDigit_toDigits _ c (List.mem_of_mem_take hc)

theorem isNumberChar_exponentText (k : Int) : ∀ c ∈ exponentText k, isNumberChar c = true := by
  intro c hc
  obtain rfl | hc := List.mem_cons.mp hc
  · split <;> decide
  · obtain hc | hc := List.mem_append.mp hc
    · exact isNumberChar_of_isDigit (Decimal.isDigit_zeros _ c hc)
    · exact isNumberChar_of_isDigit (Parser.isDigit_toDigits _ c hc)

theorem isNumberChar_glsl (x : Binary64) : ∀ c ∈ x.glsl.toList, isNumberChar c = true := by
  have hsign : ∀ c ∈ (if x.negative then "-" else "").toList, isNumberChar c = true := by
    split <;> exact List.all_eq_true.mp (by decide)
  have hdigits : ∀ c ∈ x.tenDigits.1, isNumberChar c = true :=
    fun c hc => isNumberChar_of_isDigit (isDigit_tenDigits x c hc)
  have htake : ∀ c ∈ x.tenDigits.1.take 1, isNumberChar c = true :=
    fun c hc => hdigits c (List.mem_of_mem_take hc)
  have hdrop : ∀ c ∈ x.tenDigits.1.drop 1, isNumberChar c = true :=
    fun c hc => hdigits c (List.mem_of_mem_drop hc)
  have hexponent := isNumberChar_exponentText x.tenDigits.2
  rw [Binary64.glsl]
  split
  · exact List.all_eq_true.mp (by decide)
  · dsimp only
    split
    · rw [String.toList_append]
      exact List.forall_mem_append.mpr ⟨hsign, List.all_eq_true.mp (by decide)⟩
    · rw [String.toList_append, String.toList_ofList]
      simp only [List.forall_mem_append, List.forall_mem_cons]
      exact ⟨hsign, ⟨htake, by decide, hdrop⟩, by decide, hexponent⟩

theorem glsl_ne_nil (x : Binary64) : x.glsl.toList ≠ [] := by
  rw [Binary64.glsl]
  split
  · decide
  · dsimp only
    split <;> simp

def isTermChar (c : Char) : Bool := !([' ', '(', ')', ';'].contains c)

theorem isTermChar_of_isNumberChar {c : Char} (h : isNumberChar c = true) :
    isTermChar c = true := by
  rw [isTermChar, Bool.not_eq_true', Bool.eq_false_iff]
  intro hc
  have hmem := List.contains_iff_mem.mp hc
  simp only [List.mem_cons, List.not_mem_nil, or_false] at hmem
  obtain rfl | rfl | rfl | rfl := hmem <;> cases h

theorem toList_glslName (v : Variable) :
    v.glslName.toList = letter v.category :: Nat.toDigits 10 v.index.toNat := indexed_toList _ _

theorem isNumberChar_letter (c : Category) : isNumberChar (letter c) = false := by
  cases c <;> decide

theorem isTermChar_glslName (v : Variable) : ∀ c ∈ v.glslName.toList, isTermChar c = true := by
  intro c hc
  rw [toList_glslName] at hc
  obtain rfl | hc := List.mem_cons.mp hc
  · cases v.category <;> decide
  · exact isTermChar_of_isNumberChar
      (isNumberChar_of_isDigit (Parser.isDigit_toDigits _ c hc))

theorem glslName_injective : Function.Injective Variable.glslName := by
  rintro ⟨c, i⟩ ⟨d, j⟩ h
  have hl := congrArg String.toList h
  rw [toList_glslName, toList_glslName, List.cons.injEq] at hl
  obtain ⟨hletter, hdigits⟩ := hl
  have hcategory : c = d := by cases c <;> cases d <;> first | rfl | simp [letter] at hletter
  have hindex : i = j := by
    apply UInt64.toNat_inj.mp
    rw [← Parser.natural_toDigits i.toNat, hdigits, Parser.natural_toDigits]
  rw [hcategory, hindex]

theorem toList_glsl_binary (op : Operator) (lhs rhs : Expr) (r : List Char) :
    (Expr.binary op lhs rhs).glsl.toList ++ r =
      '(' :: (lhs.glsl.toList ++ ')' :: ' ' ::
        (op.token.toList ++ ' ' :: '(' :: (rhs.glsl.toList ++ ')' :: r))) := by
  simp [Expr.glsl]

theorem token_injective : Function.Injective Operator.token := by
  intro op op' h
  cases op <;> cases op' <;> first | rfl | simp [Operator.token] at h

theorem token_ne_space (op : Operator) :
    ∀ c ∈ op.token.toList, (c != ' ') = true :=
  List.all_eq_true.mp (by cases op <;> decide)

theorem append_ne_paren {word s : List Char} (hne : word ≠ [])
    (hword : ∀ c ∈ word, isTermChar c = true) : word ++ r ≠ '(' :: s := by
  obtain ⟨c, cs, rfl⟩ := List.exists_cons_of_ne_nil hne
  rintro ⟨rfl, -⟩
  cases hword '(' List.mem_cons_self

/-- No expression goes on where another one ends. -/
theorem glsl_unique {e e' : Expr} (hr : Parser.Ends isTermChar r) (hr' : Parser.Ends isTermChar r')
    (h : e.glsl.toList ++ r = e'.glsl.toList ++ r') : e.SameText e' ∧ r = r' := by
  have hnum (x : Binary64) : ∀ c ∈ x.glsl.toList, isTermChar c = true :=
    fun c hc => isTermChar_of_isNumberChar (isNumberChar_glsl x c hc)
  have hname (v : Variable) : v.glslName.toList ≠ [] := by simp [toList_glslName]
  have hmixed (x : Binary64) (v : Variable) : x.glsl.toList ≠ v.glslName.toList := by
    intro heq
    have hletter := isNumberChar_glsl x (letter v.category)
    rw [heq, toList_glslName, isNumberChar_letter] at hletter
    cases hletter List.mem_cons_self
  induction e generalizing e' r r' with
  | num x =>
    cases e' with
    | num y =>
      obtain ⟨htext, hrest⟩ := append_unique (hnum x) (hnum y) hr hr' h
      exact ⟨String.toList_inj.mp htext, hrest⟩
    | var w => exact absurd (append_unique (hnum x) (isTermChar_glslName w) hr hr' h).1 (hmixed x w)
    | binary op lhs rhs =>
      rw [toList_glsl_binary] at h
      exact absurd h (append_ne_paren (glsl_ne_nil x) (hnum x))
  | var v =>
    cases e' with
    | num y =>
      exact absurd (append_unique (isTermChar_glslName v) (hnum y) hr hr' h).1.symm (hmixed y v)
    | var w =>
      obtain ⟨htext, hrest⟩ :=
        append_unique (isTermChar_glslName v) (isTermChar_glslName w) hr hr' h
      exact ⟨glslName_injective (String.toList_inj.mp htext), hrest⟩
    | binary op lhs rhs =>
      rw [toList_glsl_binary] at h
      exact absurd h (append_ne_paren (hname v) (isTermChar_glslName v))
  | binary op lhs rhs ihl ihr =>
    rw [toList_glsl_binary] at h
    cases e' with
    | num y => exact absurd h.symm (append_ne_paren (glsl_ne_nil y) (hnum y))
    | var w => exact absurd h.symm (append_ne_paren (hname w) (isTermChar_glslName w))
    | binary op' lhs' rhs' =>
      rw [toList_glsl_binary, List.cons.injEq] at h
      obtain ⟨hl, hop⟩ := ihl (Parser.ends_cons (by decide)) (Parser.ends_cons (by decide)) h.2
      simp only [List.cons.injEq, true_and] at hop
      obtain ⟨htoken, hrest⟩ := append_unique (token_ne_space op) (token_ne_space op')
        (Parser.ends_cons rfl) (Parser.ends_cons rfl) hop
      simp only [List.cons.injEq, true_and] at hrest
      obtain ⟨hr, hend⟩ := ihr (Parser.ends_cons (by decide)) (Parser.ends_cons (by decide)) hrest
      exact ⟨⟨token_injective (String.toList_inj.mp htoken), hl, hr⟩, (List.cons.inj hend).2⟩

/-- The text of the clause up to the first space. -/
def Clause.word : Clause → String
  | structOpen _ => "struct"
  | member t _ | «local» t _ => t.text
  | structClose => "\x7d;"
  | global c _ _ => qualifier c
  | funcOpen _ _ => "void"
  | blockOpen => "\x7b"
  | assign target _ => target.glsl
  | ifOpen _ => "if"
  | elseOpen | close => "\x7d"
  | forOpen _ _ _ _ => "for"

/-- The text of the clause behind its first word. -/
def Clause.rest : Clause → List Char
  | structOpen i => ' ' :: ((structName i).toList ++ " \x7b".toList)
  | member _ i => ' ' :: ((memberName i).toList ++ [';'])
  | structClose | blockOpen | close => []
  | global c t i => ' ' :: (t.text.toList ++ ' ' :: ((variableName c i).toList ++ [';']))
  | funcOpen name ps => ' ' :: (name.toList ++ '(' :: ((paramsText ps).toList ++ ") \x7b".toList))
  | «local» _ i => ' ' :: ((localName i).toList ++ [';'])
  | assign _ value => ' ' :: '=' :: ' ' :: (value.glsl.toList ++ [';'])
  | ifOpen cond => ' ' :: '(' :: (cond.glsl.toList ++ ") \x7b".toList)
  | elseOpen => ' ' :: "else \x7b".toList
  | forOpen k init limit step =>
    ' ' :: ("(int ".toList ++ ((localName k).toList ++ ' ' :: ("= ".toList ++
      ((toString init.toInt).toList ++ ';' :: ' ' :: ((localName k).toList ++ (" < ".toList ++
        ((toString limit.toInt).toList ++ ';' :: ' ' :: ((localName k).toList ++
          ((increment step).toList ++ ") \x7b".toList)))))))))

-- the text is unfolded by `change`, since its equations take long to be stated
theorem Clause.toList_text (c : Clause) : c.text.toList = c.word.toList ++ c.rest := by
  cases c with
  | structOpen i =>
    change ("struct " ++ structName i ++ " \x7b").toList = _
    simp [word, rest]
  | member t i =>
    change (t.text ++ " " ++ memberName i ++ ";").toList = _
    simp [word, rest]
  | structClose => rfl
  | global c t i =>
    change (qualifier c ++ " " ++ t.text ++ " " ++ variableName c i ++ ";").toList = _
    simp [word, rest]
  | funcOpen name ps =>
    change ("void " ++ name ++ "(" ++ paramsText ps ++ ") \x7b").toList = _
    simp [word, rest]
  | «local» t i =>
    change (t.text ++ " " ++ localName i ++ ";").toList = _
    simp [word, rest]
  | blockOpen => rfl
  | assign target value =>
    change (target.glsl ++ " = " ++ value.glsl ++ ";").toList = _
    simp [word, rest]
  | ifOpen cond =>
    change ("if (" ++ cond.glsl ++ ") \x7b").toList = _
    simp [word, rest]
  | elseOpen => rfl
  | forOpen k init limit step =>
    change ("for (int " ++ localName k ++ " = " ++ toString init.toInt ++ "; " ++ localName k ++
      " < " ++ toString limit.toInt ++ "; " ++ localName k ++ increment step ++ ") \x7b").toList = _
    simp [word, rest]
  | close => rfl

def isIdentifierChar (c : Char) : Bool := c.isAlphanum || c == '_'

/-- What the checker leaves of clauses: functions have identifiers for names, and the targets of
assignments are variables. No local is declared as a global variable. -/
def Clause.Plain : Clause → Prop
  | global c _ _ => c ≠ .local
  | funcOpen name _ => ∀ c ∈ name.toList, isIdentifierChar c = true
  | assign target _ => ∃ v, target = .var v
  | _ => True

theorem typeName_ne_space (t : TypeName) : ∀ c ∈ t.text.toList, (c != ' ') = true := by
  cases t with
  | basic b => exact List.all_eq_true.mp (by cases b <;> decide)
  | struct i =>
    intro c hc
    have htext : (TypeName.struct i).text = indexed 'S' i := rfl
    rw [htext, indexed_toList] at hc
    obtain rfl | hc := List.mem_cons.mp hc
    · decide
    · refine bne_iff_ne.mpr ?_
      rintro rfl
      cases Parser.isDigit_toDigits i _ hc

theorem Clause.word_ne_space {c : Clause} (hc : c.Plain) :
    ∀ d ∈ c.word.toList, (d != ' ') = true := by
  cases c with
  | member t i => exact typeName_ne_space t
  | «local» t i => exact typeName_ne_space t
  | global c t i =>
    rw [word]
    cases c <;> exact List.all_eq_true.mp (by decide)
  | assign target value =>
    obtain ⟨v, rfl⟩ := hc
    intro d hd
    refine bne_iff_ne.mpr ?_
    rintro rfl
    cases isTermChar_glslName v _ hd
  | _ =>
    rw [word]
    exact List.all_eq_true.mp (by decide)

theorem Clause.ends_rest (c : Clause) : Parser.Ends (· != ' ') c.rest := by
  cases c <;> first | exact Parser.ends_cons rfl | exact ends_nil _

inductive Kind
  | structOpen | member | structClose
  | global (c : Category)
  | funcOpen | «local» | blockOpen | assign | ifOpen | elseOpen | forOpen | close
deriving DecidableEq

def Clause.kind : Clause → Kind
  | structOpen _ => .structOpen
  | member _ _ => .member
  | structClose => .structClose
  | global c _ _ => .global c
  | funcOpen _ _ => .funcOpen
  | «local» _ _ => .local
  | blockOpen => .blockOpen
  | assign _ _ => .assign
  | ifOpen _ => .ifOpen
  | elseOpen => .elseOpen
  | forOpen _ _ _ _ => .forOpen
  | close => .close

def openings : List (List Char × Kind) :=
  [("struct".toList, .structOpen), ("\x7d;".toList, .structClose),
    ("uniform".toList, .global .uniform), ("attribute".toList, .global .attribute),
    ("varying".toList, .global .varying), ("void".toList, .funcOpen), ("\x7b".toList, .blockOpen),
    ("if".toList, .ifOpen), ("\x7d".toList, .elseOpen), ("for".toList, .forOpen)]

/-- The kind of a clause by what comes behind a type or a variable. -/
def kindBehind : List Char → Kind
  | ' ' :: 'M' :: _ => .member
  | ' ' :: 'l' :: _ => .local
  | _ => .assign

def kindOf (word rest : List Char) : Kind :=
  match openings.lookup word with
  | some k => if rest = [] ∧ k = .elseOpen then .close else k
  | none => kindBehind rest

theorem kindOf_of_lookup {word : List Char} (h : openings.lookup word = none) (rest : List Char) :
    kindOf word rest = kindBehind rest := by
  rw [kindOf, h]

theorem lookup_typeName (t : TypeName) : openings.lookup t.text.toList = none := by
  cases t with
  | basic b => cases b <;> rfl
  | struct i =>
    have htext : (TypeName.struct i).text = indexed 'S' i := rfl
    rw [htext, indexed_toList]
    rfl

theorem lookup_glslName (v : Variable) : openings.lookup v.glslName.toList = none := by
  obtain ⟨c, i⟩ := v
  rw [toList_glslName]
  cases c <;> rfl

theorem Clause.kindOf_eq {c : Clause} (hc : c.Plain) : kindOf c.word.toList c.rest = c.kind := by
  cases c with
  | member t i =>
    have hrest : (member t i).rest = ' ' :: 'M' :: (Nat.toDigits 10 i ++ [';']) :=
      congrArg (' ' :: · ++ [';']) (indexed_toList 'M' i)
    rw [hrest]
    exact kindOf_of_lookup (lookup_typeName t) _
  | «local» t i =>
    have hrest : (Clause.local t i).rest = ' ' :: 'l' :: (Nat.toDigits 10 i ++ [';']) :=
      congrArg (' ' :: · ++ [';']) (indexed_toList 'l' i)
    rw [hrest]
    exact kindOf_of_lookup (lookup_typeName t) _
  | assign target value =>
    obtain ⟨v, rfl⟩ := hc
    exact kindOf_of_lookup (lookup_glslName v) _
  | global c t i =>
    rw [word]
    cases c with
    | «local» => exact absurd rfl hc
    | _ => rfl
  | _ =>
    rw [word]
    rfl

theorem keyword_injective : Function.Injective Direction.keyword := by
  intro d e h
  cases d <;> cases e <;> first | rfl | simp [Direction.keyword] at h

theorem declared_unique {t t' : TypeName} {i j : Nat} {letter : Char}
    (hr : Parser.Ends Char.isDigit r) (hr' : Parser.Ends Char.isDigit r')
    (h : t.text.toList ++ ' ' :: ((indexed letter i).toList ++ r) =
      t'.text.toList ++ ' ' :: ((indexed letter j).toList ++ r')) : t = t' ∧ i = j ∧ r = r' := by
  obtain ⟨htype, hname⟩ := append_unique (typeName_ne_space t) (typeName_ne_space t')
    (Parser.ends_cons rfl) (Parser.ends_cons rfl) h
  exact ⟨TypeName.text_injective (String.toList_inj.mp htype),
    indexed_unique hr hr' (List.cons.inj hname).2⟩

theorem param_unique {p q : Param} (hr : Parser.Ends Char.isDigit r)
    (hr' : Parser.Ends Char.isDigit r') (h : p.text.toList ++ r = q.text.toList ++ r') :
    p = q ∧ r = r' := by
  have htext (p : Param) (r : List Char) : p.text.toList ++ r = p.direction.keyword.toList ++
      ' ' :: (p.type.text.toList ++ ' ' :: ((indexed 'l' p.index).toList ++ r)) := by
    simp [Param.text, localName, variableName, letter]
  have hkeyword (d : Direction) : ∀ c ∈ d.keyword.toList, (c != ' ') = true :=
    List.all_eq_true.mp (by cases d <;> decide)
  rw [htext, htext] at h
  obtain ⟨hdirection, hrest⟩ := append_unique (hkeyword _) (hkeyword _) (Parser.ends_cons rfl)
    (Parser.ends_cons rfl) h
  obtain ⟨htype, hindex, hr⟩ := declared_unique hr hr' (List.cons.inj hrest).2
  obtain ⟨d, t, i⟩ := p
  obtain ⟨e, u, j⟩ := q
  obtain rfl : d = e := keyword_injective (String.toList_inj.mp hdirection)
  obtain rfl : t = u := htype
  obtain rfl : i = j := hindex
  exact ⟨rfl, hr⟩

theorem ends_moreParams (ps : List Param) :
    Parser.Ends Char.isDigit ((ps.flatMap fun p => ", ".toList ++ p.text.toList) ++ ')' :: r) := by
  cases ps <;> exact Parser.ends_cons rfl

theorem moreParams_unique {ps qs : List Param}
    (h : (ps.flatMap fun p => ", ".toList ++ p.text.toList) ++ ')' :: r =
      (qs.flatMap fun p => ", ".toList ++ p.text.toList) ++ ')' :: r') : ps = qs ∧ r = r' := by
  induction ps generalizing qs with
  | nil =>
    cases qs with
    | nil => exact ⟨rfl, (List.cons.inj h).2⟩
    | cons q qs => simp at h
  | cons p ps ih =>
    cases qs with
    | nil => simp at h
    | cons q qs =>
      simp only [List.flatMap_cons, List.append_assoc] at h
      obtain ⟨rfl, hrest⟩ :=
        param_unique (ends_moreParams ps) (ends_moreParams qs) (List.append_cancel_left h)
      obtain ⟨rfl, hr⟩ := ih hrest
      exact ⟨rfl, hr⟩

theorem paramsText_cons (p : Param) (ps : List Param) : (paramsText (p :: ps)).toList =
    p.text.toList ++ ps.flatMap fun p => ", ".toList ++ p.text.toList :=
  toList_intercalate ", " Param.text p ps

theorem paramsText_cons_ne (p : Param) (ps : List Param) :
    (paramsText (p :: ps)).toList ++ r ≠ "void".toList ++ r' := by
  intro h
  rw [paramsText_cons] at h
  have hhead := congrArg List.head? h
  obtain ⟨d, t, i⟩ := p
  cases d <;> simp [Param.text, Direction.keyword] at hhead

theorem params_unique {ps qs : List Param}
    (h : (paramsText ps).toList ++ ')' :: r = (paramsText qs).toList ++ ')' :: r') :
    ps = qs ∧ r = r' := by
  cases ps with
  | nil =>
    cases qs with
    | nil => exact ⟨rfl, (List.cons.inj (List.append_cancel_left h)).2⟩
    | cons q qs => exact absurd h.symm (paramsText_cons_ne q qs)
  | cons p ps =>
    cases qs with
    | nil => exact absurd h (paramsText_cons_ne p ps)
    | cons q qs =>
      rw [paramsText_cons, paramsText_cons, List.append_assoc, List.append_assoc] at h
      obtain ⟨rfl, hmore⟩ := param_unique (ends_moreParams ps) (ends_moreParams qs) h
      obtain ⟨rfl, hr⟩ := moreParams_unique hmore
      exact ⟨rfl, hr⟩

theorem increment_injective : Function.Injective increment := by
  have hother (i : Int32) :
      "++" ≠ " += " ++ toString i.toInt ∧ "--" ≠ " += " ++ toString i.toInt := by
    constructor <;> exact fun h => by simpa using congrArg (·.toList.head?) h
  intro i j h
  simp only [increment] at h
  split at h
  · next hi =>
    split at h
    · next hj => rw [hi, hj]
    · split at h
      · exact absurd h (by decide)
      · exact absurd h (hother j).1
  · split at h
    · next hi =>
      split at h
      · exact absurd h (by decide)
      · split at h
        · next hj => rw [hi, hj]
        · exact absurd h (hother j).2
    · split at h
      · exact absurd h.symm (hother i).1
      · split at h
        · exact absurd h.symm (hother i).2
        · have hl := congrArg String.toList h
          rw [String.toList_append, String.toList_append] at hl
          have htext := congrArg (· ++ ([] : List Char)) (List.append_cancel_left hl)
          exact (int_unique (ends_nil _) (ends_nil _) htext).1

theorem marked_unique {letter mark : Char} {i j : Nat} (hmark : mark.isDigit = false)
    (h : ' ' :: ((indexed letter i).toList ++ mark :: r) =
      ' ' :: ((indexed letter j).toList ++ mark :: r')) : i = j :=
  (indexed_unique (Parser.ends_cons hmark) (Parser.ends_cons hmark) (List.cons.inj h).2).1

theorem funcOpen_unique {name name' : String} {ps qs : List Param}
    (hname : ∀ c ∈ name.toList, isIdentifierChar c = true)
    (hname' : ∀ c ∈ name'.toList, isIdentifierChar c = true)
    (h : (Clause.funcOpen name ps).rest = (Clause.funcOpen name' qs).rest) :
    name = name' ∧ ps = qs := by
  have hparen {name : String} (hname : ∀ c ∈ name.toList, isIdentifierChar c = true) :
      ∀ c ∈ name.toList, (c != '(') = true := by
    intro c hc
    refine bne_iff_ne.mpr ?_
    rintro rfl
    cases hname _ hc
  obtain ⟨htext, hparams⟩ := append_unique (hparen hname) (hparen hname') (Parser.ends_cons rfl)
    (Parser.ends_cons rfl) (List.cons.inj h).2
  exact ⟨String.toList_inj.mp htext, (params_unique (List.cons.inj hparams).2).1⟩

theorem forOpen_unique {k k' : Nat} {init init' limit limit' step step' : Int32}
    (h : (Clause.forOpen k init limit step).rest = (Clause.forOpen k' init' limit' step').rest) :
    Clause.forOpen k init limit step = .forOpen k' init' limit' step' := by
  simp only [Clause.rest, List.cons.injEq, true_and, List.append_cancel_left_eq] at h
  obtain ⟨rfl, hinit⟩ := indexed_unique (Parser.ends_cons rfl) (Parser.ends_cons rfl) h
  simp only [List.cons.injEq, true_and, List.append_cancel_left_eq] at hinit
  obtain ⟨rfl, hlimit⟩ := int_unique (Parser.ends_cons rfl) (Parser.ends_cons rfl) hinit
  simp only [List.cons.injEq, true_and, List.append_cancel_left_eq] at hlimit
  obtain ⟨rfl, hstep⟩ := int_unique (Parser.ends_cons rfl) (Parser.ends_cons rfl) hlimit
  simp only [List.cons.injEq, true_and, List.append_cancel_left_eq,
    List.append_cancel_right_eq] at hstep
  rw [increment_injective (String.toList_inj.mp hstep)]

/-- Plain clauses of one text are the same but for their numbers. -/
theorem Clause.sameText_of_text_eq {c d : Clause} (hc : c.Plain) (hd : d.Plain)
    (h : c.text = d.text) : c.SameText d := by
  have hl := congrArg String.toList h
  rw [toList_text, toList_text] at hl
  obtain ⟨hword, hrest⟩ :=
    append_unique (word_ne_space hc) (word_ne_space hd) c.ends_rest d.ends_rest hl
  have hkind : c.kind = d.kind := by rw [← kindOf_eq hc, hword, hrest, kindOf_eq hd]
  have htype {t u : TypeName} (h : t.text.toList = u.text.toList) : t = u :=
    TypeName.text_injective (String.toList_inj.mp h)
  cases c with
  | structOpen i =>
    cases d with
    | structOpen j => exact congrArg structOpen (marked_unique rfl hrest)
    | _ => cases hkind
  | member t i =>
    cases d with
    | member u j => exact congrArg₂ member (htype hword) (marked_unique rfl hrest)
    | _ => cases hkind
  | structClose =>
    cases d with
    | structClose => rfl
    | _ => cases hkind
  | global c t i =>
    cases d with
    | global c' t' j =>
      obtain rfl := Kind.global.inj hkind
      obtain ⟨rfl, rfl, -⟩ := declared_unique (Parser.ends_cons rfl) (Parser.ends_cons rfl)
        (List.cons.inj hrest).2
      rfl
    | _ => cases hkind
  | funcOpen name ps =>
    cases d with
    | funcOpen name' qs =>
      obtain ⟨rfl, rfl⟩ := funcOpen_unique hc hd hrest
      rfl
    | _ => cases hkind
  | «local» t i =>
    cases d with
    | «local» u j => exact congrArg₂ Clause.local (htype hword) (marked_unique rfl hrest)
    | _ => cases hkind
  | blockOpen =>
    cases d with
    | blockOpen => rfl
    | _ => cases hkind
  | assign target value =>
    cases d with
    | assign target' value' =>
      have htarget := congrArg (· ++ ([] : List Char)) hword
      have hvalue := (List.cons.inj (List.cons.inj (List.cons.inj hrest).2).2).2
      exact ⟨(glsl_unique (ends_nil _) (ends_nil _) htarget).1,
        (glsl_unique (Parser.ends_cons (by decide)) (Parser.ends_cons (by decide)) hvalue).1⟩
    | _ => cases hkind
  | ifOpen cond =>
    cases d with
    | ifOpen cond' =>
      have hcond := (List.cons.inj (List.cons.inj hrest).2).2
      exact (glsl_unique (Parser.ends_cons (by decide)) (Parser.ends_cons (by decide)) hcond).1
    | _ => cases hkind
  | elseOpen =>
    cases d with
    | elseOpen => rfl
    | _ => cases hkind
  | forOpen k init limit step =>
    cases d with
    | forOpen k' init' limit' step' => exact forOpen_unique hrest
    | _ => cases hkind
  | close =>
    cases d with
    | close => rfl
    | _ => cases hkind

end Glsl

end ShaderTree
