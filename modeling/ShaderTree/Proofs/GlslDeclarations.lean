import ShaderTree.Proofs.GlslGrammar

namespace ShaderTree

namespace Glsl

/-- What the tokens say: a word behind a word for a type is the name of a declaration. -/
inductive Item
  | declared (type name : String)
  | word (text : String)
  | mark (text : String)

/-- The word, if a name right behind it is declared: a type, `void`, `struct` or a struct's name. -/
def announcer? (w : String) : Option String :=
  if w ∈ typeKeywords ∨ w ∈ ["void", "struct"] ∨ w ∉ reservedWords then some w else none

def items (before : Option String) : List Lexeme → List Item
  | [] => []
  | .word w :: ts =>
    match before with
    | some t => .declared t w :: items (announcer? w) ts
    | none => .word w :: items (announcer? w) ts
  | .mark m :: ts => .mark m :: items none ts
  | .number _ :: ts => items none ts

def Item.declaration? : Item → Option (String × String)
  | declared t name => some (t, name)
  | _ => none

/-- The names that the tokens declare in order, each with the word in front of it. -/
def declarations (ts : List Lexeme) : List (String × String) :=
  (items none ts).filterMap Item.declaration?

/-- What the lines declare, if all of them can be read as tokens. -/
def declarationsOn : List String → Option (List (String × String))
  | [] => some []
  | line :: lines => do
    let ts ← lex line.toList
    let ds ← declarationsOn lines
    some (declarations ts ++ ds)

theorem items_word (w : String) (ts : List Lexeme) :
    items none (.word w :: ts) = .word w :: items (announcer? w) ts := rfl

theorem items_declared (t w : String) (ts : List Lexeme) :
    items (some t) (.word w :: ts) = .declared t w :: items (announcer? w) ts := rfl

theorem items_mark (before : Option String) (m : String) (ts : List Lexeme) :
    items before (.mark m :: ts) = .mark m :: items none ts := by
  cases before <;> rfl

theorem items_append_mark (before : Option String) (ts : List Lexeme) (m : String)
    (us : List Lexeme) :
    items before (ts ++ .mark m :: us) = items before ts ++ .mark m :: items none us := by
  induction ts generalizing before with
  | nil => exact items_mark before m us
  | cons t ts ih =>
    cases t with
    | word w =>
      cases before with
      | none => exact congrArg (_ :: ·) (ih _)
      | some t => exact congrArg (_ :: ·) (ih _)
    | number n => exact ih none
    | mark n => exact congrArg (_ :: ·) (ih none)

theorem declarations_append_mark (ts : List Lexeme) (m : String) (us : List Lexeme) :
    declarations (ts ++ .mark m :: us) = declarations ts ++ declarations us := by
  rw [declarations, items_append_mark, List.filterMap_append]
  rfl

theorem declarations_mark (m : String) (ts : List Lexeme) :
    declarations (.mark m :: ts) = declarations ts := rfl

theorem announcer?_typeName (t : TypeName) : announcer? t.text = some t.text := by
  refine if_pos ?_
  cases t with
  | basic b => exact Or.inl (by cases b <;> decide)
  | struct i => exact Or.inr (Or.inr (isName_structName i).2)

theorem announcer?_keyword (d : Direction) : announcer? d.keyword = none := by
  cases d <;> decide +kernel

theorem announcer?_qualifier {c : Category} (h : c ≠ .local) : announcer? (qualifier c) = none := by
  cases c with
  | «local» => exact absurd rfl h
  | _ => decide +kernel

theorem announcer?_eq : ∀ w ∈ ["void", "struct", "int"], announcer? w = some w := by
  decide +kernel

theorem items_announced {t : String} (ht : announcer? t = some t) (name m : String)
    (ts : List Lexeme) :
    items none (.word t :: .word name :: .mark m :: ts) =
      .word t :: .declared t name :: .mark m :: items none ts := by
  rw [items_word, ht, items_declared, items_mark]

theorem declarations_announced {t : String} (ht : announcer? t = some t) (name m : String)
    (ts : List Lexeme) :
    declarations (.word t :: .word name :: .mark m :: ts) = (t, name) :: declarations ts := by
  rw [declarations, items_announced ht]
  rfl

theorem declarations_word_mark (w m : String) (ts : List Lexeme) :
    declarations (.word w :: .mark m :: ts) = declarations ts := by
  rw [declarations, items_word, items_mark]
  rfl

theorem declarations_word {w : String} (hw : announcer? w = none) (ts : List Lexeme) :
    declarations (.word w :: ts) = declarations ts := by
  rw [declarations, items_word, hw]
  rfl

theorem declarations_int (i : Int32) : declarations (intLexemes i) = [] := by
  rw [intLexemes]
  split <;> rfl

theorem declarations_increment (w : String) (step : Int32) :
    declarations (.word w :: incrementLexemes step) = [] := by
  rw [incrementLexemes]
  split
  · exact declarations_word_mark w "++" []
  · split
    · exact declarations_word_mark w "--" []
    · exact (declarations_word_mark w "+=" _).trans (declarations_int step)

theorem declarations_expr (e : Expr) : declarations (exprLexemes e) = [] := by
  induction e with
  | num x =>
    rw [exprLexemes, literalLexemes]
    split
    · rfl
    · split <;> split <;> rfl
  | var v => rfl
  | binary op lhs rhs ihl ihr =>
    simp only [exprLexemes, List.cons_append, List.append_assoc, declarations_mark,
      declarations_append_mark, ihl, ihr, List.nil_append]
    rfl

def Param.declaration (q : Param) : String × String := (q.type.text, localName q.index)

theorem declarations_param (q : Param) (m : String) (ts : List Lexeme) :
    declarations (paramLexemes q ++ .mark m :: ts) = q.declaration :: declarations ts :=
  (declarations_word (announcer?_keyword q.direction) _).trans
    (declarations_announced (announcer?_typeName q.type) _ _ _)

theorem declarations_params (qs : List Param) (m : String) (ts : List Lexeme) :
    declarations (paramsLexemes qs ++ .mark m :: ts) =
      qs.map Param.declaration ++ declarations ts := by
  have hmore (q : Param) (qs : List Param) :
      declarations (paramLexemes q ++ ((qs.flatMap fun q => .mark "," :: paramLexemes q) ++
        .mark m :: ts)) = q.declaration :: (qs.map Param.declaration ++ declarations ts) := by
    induction qs generalizing q with
    | nil => exact declarations_param q m ts
    | cons r qs ih =>
      rw [List.flatMap_cons, List.append_assoc, List.cons_append, declarations_param, ih]
      rfl
  cases qs with
  | nil => exact declarations_word_mark "void" m ts
  | cons q qs =>
    rw [paramsLexemes, List.append_assoc]
    exact hmore q qs

def Clause.declarations : Clause → List (String × String)
  | structOpen i => [("struct", structName i)]
  | member t i => [(t.text, memberName i)]
  | global c t i => [(t.text, variableName c i)]
  | funcOpen name ps => ("void", name) :: ps.map Param.declaration
  | «local» t i => [(t.text, localName i)]
  | forOpen k _ _ _ => [("int", localName k)]
  | _ => []

theorem declarations_signature (ps : List Param) :
    declarations (signatureLexemes ps) = ps.map Param.declaration := by
  rw [signatureLexemes, List.cons_append, declarations_mark, declarations_params,
    declarations_mark]
  exact List.append_nil _

theorem declarations_lexemes {c : Clause} (hc : ∀ t i, c ≠ .global .local t i) :
    declarations c.lexemes = c.declarations := by
  cases c with
  | structOpen i => exact declarations_announced (announcer?_eq _ (by decide)) _ _ _
  | member t i => exact declarations_announced (announcer?_typeName t) _ _ _
  | global c t i =>
    have hlocal : c ≠ .local := by
      rintro rfl
      exact hc t i rfl
    exact (declarations_word (announcer?_qualifier hlocal) _).trans
      (declarations_announced (announcer?_typeName t) _ _ _)
  | funcOpen name ps =>
    refine (declarations_announced (announcer?_eq _ (by decide)) _ _ _).trans
      (congrArg (_ :: ·) ?_)
    exact declarations_signature ps
  | «local» t i => exact declarations_announced (announcer?_typeName t) _ _ _
  | assign target value =>
    simp only [Clause.lexemes, List.append_assoc, declarations_append_mark, declarations_expr,
      List.cons_append]
    rfl
  | ifOpen cond =>
    simp only [Clause.lexemes, List.cons_append, declarations_word_mark, declarations_append_mark,
      declarations_expr]
    rfl
  | forOpen k init limit step =>
    have hchange : declarations (.word (localName k) :: (incrementLexemes step ++
        [.mark ")", .mark "\x7b"])) = [] := by
      rw [← List.cons_append, declarations_append_mark, declarations_increment]
      rfl
    simp only [Clause.lexemes, List.cons_append, List.append_assoc, declarations_word_mark,
      declarations_announced (announcer?_eq "int" (by decide)), declarations_append_mark,
      declarations_int, hchange]
    rfl
  | structClose | blockOpen | elseOpen | close => rfl

theorem globalNames_of_isHead {c : Clause} (h : c.IsHead) :
    ∀ name ∈ c.globalNames, IsIdentifier name := by
  cases c with
  | structOpen i => exact List.forall_mem_singleton.mpr (isIdentifier_structName i)
  | global c t i => exact List.forall_mem_singleton.mpr (isIdentifier_variableName c i)
  | funcOpen => exact h.elim
  | _ => exact List.forall_mem_nil _

def lineTexts (cs : List Placed) : List String := cs.map fun c => c.line.indented "\t"

theorem lineTexts_cons (c : Placed) (cs : List Placed) :
    lineTexts (c :: cs) = c.line.indented "\t" :: lineTexts cs := rfl

theorem lineTexts_append (cs ds : List Placed) :
    lineTexts (cs ++ ds) = lineTexts cs ++ lineTexts ds := List.map_append

theorem lineTexts_flatMap {α : Type} (f : α → List Placed) (as : List α) :
    lineTexts (as.flatMap f) = as.flatMap fun a => lineTexts (f a) := List.map_flatMap

theorem declarationsOn_cons {line : String} {lines : List String} {ts : List Lexeme}
    {ds : List (String × String)} (hline : Lexes line.toList ts)
    (hlines : declarationsOn lines = some ds) :
    declarationsOn (line :: lines) = some (declarations ts ++ ds) := by
  rw [declarationsOn, show lex line.toList = some ts from hline, hlines]
  rfl

/-- The lines in front of the functions and those inside of them declare what their clauses do. -/
theorem declarationsOn_lineTexts {cs : List Placed}
    (hcs : ∀ c ∈ cs, c.clause.IsHead ∨ c.clause.IsInner) :
    declarationsOn (lineTexts cs) = some (cs.flatMap (·.clause.declarations)) := by
  induction cs with
  | nil => rfl
  | cons c cs ih =>
    obtain ⟨hc, hcs⟩ := List.forall_mem_cons.mp hcs
    have hnames : ∀ name ∈ c.clause.globalNames, IsIdentifier name := by
      obtain hc | hc := hc
      · exact globalNames_of_isHead hc
      · rw [Clause.globalNames_of_isInner hc]
        exact List.forall_mem_nil _
    have hglobal : ∀ t i, c.clause ≠ .global .local t i := by
      rintro t i heq
      rw [heq] at hc
      exact hc.elim (fun h => h rfl) id
    have hline : Lexes c.chars c.clause.lexemes := by simpa using Lexes.nil.line c hnames
    rw [List.flatMap_cons, ← declarations_lexemes hglobal]
    exact declarationsOn_cons hline (ih hcs)

def signatureText (ps : List Param) : String := "(" ++ paramsText ps ++ ") \x7b"

theorem line_unindented (c : Clause) : (Placed.line ⟨0, c⟩).indented "\t" = c.text :=
  String.toList_injective (Placed.chars_eq ⟨0, c⟩)

theorem line_funcOpen (name : String) (ps : List Param) :
    (Placed.line ⟨0, .funcOpen name ps⟩).indented "\t" = "void " ++ name ++ signatureText ps := by
  have htext : (Clause.funcOpen name ps).text =
      "void " ++ name ++ "(" ++ paramsText ps ++ ") \x7b" := rfl
  rw [line_unindented, htext, signatureText]
  simp only [String.append_assoc]

theorem lineTexts_funcClauses (table : StructTable) (f : Func) :
    lineTexts (funcClauses table f) =
      ("void " ++ f.name ++ signatureText (paramsOf table 0 f.params)) ::
        lineTexts (bodyClauses table f) := by
  rw [funcClauses_eq, lineTexts_cons, line_funcOpen]

theorem lexes_signature (ps : List Param) :
    Lexes (signatureText ps).toList (signatureLexemes ps) := by
  simpa [signatureText] using Lexes.nil.signature ps

theorem declarationsOn_signature (ps : List Param) :
    declarationsOn [signatureText ps] = some (ps.map Param.declaration) := by
  rw [declarationsOn_cons (lexes_signature ps) rfl, declarations_signature, List.append_nil]

/-- What a function declares behind its name is its parameters and what its body declares. -/
theorem declarationsOn_func (table : StructTable) (f : Func) :
    declarationsOn (signatureText (paramsOf table 0 f.params) :: lineTexts (bodyClauses table f)) =
      some ((paramsOf table 0 f.params).map Param.declaration ++
        (bodyClauses table f).flatMap (·.clause.declarations)) := by
  have hbody := declarationsOn_lineTexts fun c hc => Or.inr (isInner_bodyClauses table f c hc)
  rw [declarationsOn_cons (lexes_signature _) hbody, declarations_signature]

end Glsl

end ShaderTree
