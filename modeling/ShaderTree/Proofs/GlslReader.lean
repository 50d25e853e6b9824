import ShaderTree.Proofs.GlslDeclarations
import ShaderTree.Proofs.LocalScopes

namespace ShaderTree

namespace Glsl

def localIndex? (name : String) : Option Nat :=
  let k := Parser.natural (name.toList.drop 1)
  if name = localName k then some k else none

/-- What is known in the middle of a text. A local that is declared in parentheses is visible in
them and in the braces behind them. -/
structure Reader where
  parens : Nat := 0
  header : List Nat := []
  scopes : Scopes := {}

namespace Reader

def IsOutside (r : Reader) : Prop := r.parens = 0 ∧ r.scopes.outside = []

instance (r : Reader) : Decidable r.IsOutside := inferInstanceAs (Decidable (_ ∧ _))

def declareInHeader (r : Reader) (ks : List Nat) : Reader :=
  { r with
    header := r.header ++ ks
    scopes := { r.scopes with declared := r.scopes.declared ++ ks } }

/-- A declaration outside of all braces ends what is known of the function in front of it. -/
def declare (r : Reader) (name : String) : Reader :=
  if r.IsOutside then {}
  else
    match localIndex? name with
    | none => r
    | some k =>
      if r.parens = 0 then { r with scopes := r.scopes.declare [k] } else r.declareInHeader [k]

def brace (r : Reader) : Reader :=
  { r with
    header := []
    scopes := { r.scopes.enter with visible := r.scopes.visible ++ r.header } }

def step (r : Reader) : Item → Reader
  | .declared _ name => r.declare name
  | .word _ => r
  | .mark m =>
    if m = "(" then { r with parens := r.parens + 1 }
    else if m = ")" then { r with parens := r.parens - 1 }
    else if m = "\x7b" then r.brace
    else if m = "\x7d" then { r with scopes := r.scopes.leave }
    else r

def run (r : Reader) (is : List Item) : Reader := is.foldl step r

def globalName (r : Reader) : Item → List String
  | .declared _ name => if r.IsOutside then [name] else []
  | _ => []

def mention (r : Reader) (k : Nat) : Mention :=
  ⟨k, r.scopes.declared, r.scopes.visible ++ r.header⟩

def mentioned (r : Reader) : Item → List Mention
  | .word name => (localIndex? name).toList.map r.mention
  | _ => []

def globalNames (r : Reader) : List Item → List String
  | [] => []
  | i :: is => r.globalName i ++ globalNames (r.step i) is

def mentions (r : Reader) : List Item → List Mention
  | [] => []
  | i :: is => r.mentioned i ++ mentions (r.step i) is

end Reader

theorem Reader.declareInHeader_nil (r : Reader) : r.declareInHeader [] = r := by
  simp [declareInHeader]

theorem Reader.declareInHeader_cons (r : Reader) (k : Nat) (ks : List Nat) :
    r.declareInHeader (k :: ks) = (r.declareInHeader [k]).declareInHeader ks := by
  simp [declareInHeader]

/-- The names that the tokens of a text declare outside of all braces and parentheses. -/
def globalNamesIn (ts : List Lexeme) : List String := Reader.globalNames {} (items none ts)

/-- The mentions of locals in the tokens of a text. -/
def mentionsIn (ts : List Lexeme) : List Mention := Reader.mentions {} (items none ts)

theorem localIndex?_localName (k : Nat) : localIndex? (localName k) = some k := by
  have hnatural : Parser.natural ((localName k).toList.drop 1) = k := by
    rw [localName, variableName, indexed_toList, List.drop_one, List.tail_cons]
    exact Parser.natural_toDigits k
  rw [localIndex?, hnatural]
  exact if_pos rfl

theorem localIndex?_of_head {name : String} (h : name.toList.head? ≠ some 'l') :
    localIndex? name = none := by
  refine if_neg fun heq => h ?_
  rw [heq, localName, variableName, indexed_toList]
  rfl

theorem localIndex?_variableName {c : Category} (h : c ≠ .local) (i : Nat) :
    localIndex? (variableName c i) = none := by
  apply localIndex?_of_head
  rw [variableName, indexed_toList, List.head?_cons]
  cases c with
  | «local» => exact absurd rfl h
  | _ => decide

theorem localIndex?_typeName (t : TypeName) : localIndex? t.text = none := by
  apply localIndex?_of_head
  cases t with
  | basic b => cases b <;> decide
  | struct i =>
    rw [TypeName.text, structName, indexed_toList, List.head?_cons]
    decide

structure Reads (r : Reader) (is : List Item) (r' : Reader) (names : List String)
    (ms : List Mention) : Prop where
  run : r.run is = r'
  globalNames : r.globalNames is = names
  mentions : r.mentions is = ms

namespace Reads

variable {r r' : Reader} {is : List Item} {names : List String} {ms : List Mention}

theorem nil (r : Reader) : Reads r [] r [] [] := ⟨rfl, rfl, rfl⟩

theorem cons {i : Item} {name : List String} {mention : List Mention} {r₁ : Reader}
    (hstep : r.step i = r₁) (hname : r.globalName i = name) (hmention : r.mentioned i = mention)
    (h : Reads r₁ is r' names ms) : Reads r (i :: is) r' (name ++ names) (mention ++ ms) := by
  subst hstep hname hmention
  exact ⟨h.run, congrArg (_ ++ ·) h.globalNames, congrArg (_ ++ ·) h.mentions⟩

theorem append {r'' : Reader} {js : List Item} {names' : List String} {ms' : List Mention}
    (h : Reads r is r' names ms) (h' : Reads r' js r'' names' ms') :
    Reads r (is ++ js) r'' (names ++ names') (ms ++ ms') := by
  induction is generalizing r names ms with
  | nil =>
    obtain ⟨rfl, rfl, rfl⟩ := h
    exact h'
  | cons i is ih =>
    obtain ⟨hrun, rfl, rfl⟩ := h
    rw [List.cons_append, Reader.globalNames, Reader.mentions, List.append_assoc,
      List.append_assoc]
    exact (ih ⟨hrun, rfl, rfl⟩).cons rfl rfl rfl

/-- An item that neither declares a name for all of the text nor mentions a local. -/
theorem silent {i : Item} {r₁ : Reader} (hstep : r.step i = r₁) (hname : r.globalName i = [])
    (hmention : r.mentioned i = []) (h : Reads r₁ is r' names ms) :
    Reads r (i :: is) r' names ms := by
  simpa only [List.nil_append] using cons hstep hname hmention h

theorem opening (h : Reads { r with parens := r.parens + 1 } is r' names ms) :
    Reads r (.mark "(" :: is) r' names ms := silent rfl rfl rfl h

theorem closing (h : Reads { r with parens := r.parens - 1 } is r' names ms) :
    Reads r (.mark ")" :: is) r' names ms := silent rfl rfl rfl h

theorem openBrace (h : Reads r.brace is r' names ms) :
    Reads r (.mark "\x7b" :: is) r' names ms := silent rfl rfl rfl h

theorem closeBrace (h : Reads { r with scopes := r.scopes.leave } is r' names ms) :
    Reads r (.mark "\x7d" :: is) r' names ms := silent rfl rfl rfl h

theorem mark {m : String} (hm : m ∉ ["(", ")", "\x7b", "\x7d"]) (h : Reads r is r' names ms) :
    Reads r (.mark m :: is) r' names ms := by
  have hstep : r.step (.mark m) = r := by
    simp only [List.mem_cons, List.not_mem_nil, or_false, not_or] at hm
    obtain ⟨ho, hc, hob, hcb⟩ := hm
    rw [Reader.step, if_neg ho, if_neg hc, if_neg hob, if_neg hcb]
  exact silent hstep rfl rfl h

theorem word {w : String} (hw : localIndex? w = none) (h : Reads r is r' names ms) :
    Reads r (.word w :: is) r' names ms := by
  have hmention : r.mentioned (.word w) = [] := by
    rw [Reader.mentioned, hw]
    rfl
  exact silent rfl rfl hmention h

theorem mentioning (k : Nat) (h : Reads r is r' names ms) :
    Reads r (.word (localName k) :: is) r' names (r.mention k :: ms) := by
  have hname : r.globalName (.word (localName k)) = [] := rfl
  have hmention : r.mentioned (.word (localName k)) = [r.mention k] := by
    rw [Reader.mentioned, localIndex?_localName]
    rfl
  simpa only [List.nil_append, List.singleton_append] using cons rfl hname hmention h

theorem declared (t : String) {name : String} (hr : ¬r.IsOutside)
    (h : Reads (r.declare name) is r' names ms) : Reads r (.declared t name :: is) r' names ms :=
  silent rfl (if_neg hr) rfl h

theorem declaredOutside (t name : String) (hr : r.IsOutside) (h : Reads {} is r' names ms) :
    Reads r (.declared t name :: is) r' (name :: names) ms := by
  have hstep : r.step (.declared t name) = {} := if_pos hr
  have hname : r.globalName (.declared t name) = [name] := if_pos hr
  have hmention : r.mentioned (.declared t name) = [] := rfl
  simpa only [List.nil_append, List.singleton_append] using cons hstep hname hmention h

theorem declaredInHeader (t : String) {k : Nat} {r₁ : Reader} (hr : r.parens ≠ 0)
    (hk : r.declareInHeader [k] = r₁) (h : Reads r₁ is r' names ms) :
    Reads r (.declared t (localName k) :: is) r' names ms := by
  have hdeclare : r.declare (localName k) = r₁ := by
    rw [Reader.declare, if_neg fun hout => hr hout.1, localIndex?_localName, ← hk]
    exact if_neg hr
  exact declared t (fun hout => hr hout.1) (hdeclare ▸ h)

theorem expr (e : Expr) (h : Reads r is r' names ms) :
    Reads r (items none (exprLexemes e) ++ is) r' names (e.locals.map r.mention ++ ms) := by
  induction e generalizing r is r' names ms with
  | num x =>
    have hword {w : String} (hw : w.toList.head? ≠ some 'l') :
        Reads r (.word w :: is) r' names ms := h.word (localIndex?_of_head hw)
    rw [exprLexemes, literalLexemes]
    split
    · exact hword (by decide)
    · split <;> split
      · exact h.mark (by decide)
      · exact (hword (by decide)).mark (by decide)
      · exact h
      · exact hword (by decide)
  | var v =>
    obtain ⟨c, i⟩ := v
    by_cases hc : c = .local
    · subst hc
      exact h.mentioning i.toNat
    · have hlocals : (Expr.var ⟨c, i⟩).locals = [] := by
        cases c with
        | «local» => exact absurd rfl hc
        | _ => rfl
      rw [hlocals]
      exact h.word (localIndex?_variableName hc i.toNat)
  | binary op lhs rhs ihl ihr =>
    have hoperator : op.token ∉ ["(", ")", "\x7b", "\x7d"] := by cases op <;> decide
    have hclosing {is : List Item} {ms : List Mention} (h : Reads r is r' names ms) :
        Reads { r with parens := r.parens + 1 } (.mark ")" :: is) r' names ms := closing h
    have hright := (ihr (hclosing h)).opening
    have hleft := ihl (hclosing (hright.mark hoperator))
    have hmention : ({ r with parens := r.parens + 1 } : Reader).mention = r.mention := rfl
    rw [exprLexemes, Expr.locals, List.map_append, List.append_assoc]
    simpa only [List.cons_append, List.append_assoc, items_mark, items_append_mark,
      List.nil_append, items, hmention] using hleft.opening

theorem int (i : Int32) (h : Reads r is r' names ms) :
    Reads r (items none (intLexemes i) ++ is) r' names ms := by
  rw [intLexemes]
  split
  · exact h.mark (by decide)
  · exact h

theorem increment (step : Int32) (h : Reads r is r' names ms) :
    Reads r (items none (incrementLexemes step) ++ is) r' names ms := by
  rw [incrementLexemes]
  split
  · exact h.mark (by decide)
  · split
    · exact h.mark (by decide)
    · exact (h.int step).mark (by decide)

theorem param (q : Param) (hr : r.parens ≠ 0)
    (h : Reads (r.declareInHeader [q.index]) is r' names ms) :
    Reads r (items none (paramLexemes q) ++ is) r' names ms := by
  have hitems : items none (paramLexemes q) = [.word q.direction.keyword, .word q.type.text,
      .declared q.type.text (localName q.index)] := by
    rw [paramLexemes, items_word, announcer?_keyword, items_word, announcer?_typeName,
      items_declared]
    rfl
  rw [hitems]
  refine word ?_ (word ?_ (h.declaredInHeader q.type.text hr rfl))
  · cases q.direction <;> decide
  · exact localIndex?_typeName q.type

theorem params (qs : List Param) (hr : r.parens ≠ 0)
    (h : Reads (r.declareInHeader (qs.map (·.index))) is r' names ms) :
    Reads r (items none (paramsLexemes qs) ++ is) r' names ms := by
  have hmore (q : Param) (qs : List Param) {r : Reader} (hr : r.parens ≠ 0)
      (h : Reads (r.declareInHeader ((q :: qs).map (·.index))) is r' names ms) :
      Reads r (items none (paramLexemes q ++ qs.flatMap fun q => .mark "," :: paramLexemes q) ++ is)
        r' names ms := by
    induction qs generalizing q r with
    | nil =>
      rw [List.flatMap_nil, List.append_nil]
      exact h.param q hr
    | cons p qs ih =>
      rw [List.map_cons, Reader.declareInHeader_cons] at h
      rw [List.flatMap_cons, List.cons_append, items_append_mark, List.append_assoc]
      exact param q hr (mark (by decide) (ih p hr h))
  cases qs with
  | nil =>
    rw [List.map_nil, Reader.declareInHeader_nil] at h
    exact h.word (localIndex?_of_head (by decide))
  | cons q qs => exact hmore q qs hr h

end Reads

end Glsl

end ShaderTree
