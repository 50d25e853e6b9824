import ShaderTree.Proofs.GlslReader
import ShaderTree.Proofs.Refusal

namespace ShaderTree

namespace Glsl

def Scopes.reader (s : Scopes) : Reader := { scopes := s }

section

variable {s : Scopes}

theorem Scopes.reader_mention (s : Scopes) :
    s.reader.mention = (⟨·, s.declared, s.visible⟩) := by
  funext k
  simp [Reader.mention, reader]

theorem Scopes.reader_brace (s : Scopes) : s.reader.brace = s.enter.reader := by
  simp [Reader.brace, reader, enter]

theorem Scopes.reader_declare (hs : s.outside ≠ []) (i : Nat) :
    s.reader.declare (localName i) = (s.declare [i]).reader := by
  rw [Reader.declare, if_neg fun hout => hs hout.2, localIndex?_localName]
  rfl

def Scopes.headerReader (s : Scopes) (ks : List Nat) : Reader where
  parens := 1
  header := ks
  scopes := { s with declared := s.declared ++ ks }

theorem Scopes.headerReader_declare (s : Scopes) (ks : List Nat) :
    (s.headerReader []).declareInHeader ks = s.headerReader ks := by
  simp [Reader.declareInHeader, headerReader]

theorem Scopes.reads_opening (s : Scopes) {is : List Item} {r' : Reader} {names : List String}
    {ms : List Mention} (h : Reads (s.headerReader []) is r' names ms) :
    Reads s.reader (.mark "(" :: is) r' names ms := by
  have hheader : s.headerReader [] = { s.reader with parens := 1 } := by
    simp [headerReader, reader]
  exact Reads.opening (hheader ▸ h)

theorem Scopes.reads_closing (s : Scopes) (ks : List Nat) :
    Reads (s.headerReader ks) [.mark ")", .mark "\x7b"] (s.enter.declare ks).reader [] [] :=
  (Reads.nil _).openBrace.closing

theorem items_increment (before : Option String) (step : Int32) :
    items before (incrementLexemes step) = items none (incrementLexemes step) := by
  rw [incrementLexemes]
  split
  · rw [items_mark, items_mark]
  · split <;> rw [items_mark, items_mark]

theorem Scopes.reads_forOpen (s : Scopes) (k : Nat) (init limit step : Int32) :
    Reads s.reader (items none (Clause.forOpen k init limit step).lexemes)
      (s.enter.declare [k]).reader [] ([k, k].map (s.headerReader [k]).mention) := by
  have hchange := ((s.reads_closing [k]).increment step).mentioning k
  have hlimit := (((hchange.mark (m := ";") (by decide)).int limit).mark (m := "<")
    (by decide)).mentioning k
  have hinit := ((hlimit.mark (m := ";") (by decide)).int init).mark (m := "=") (by decide)
  have hcounter := hinit.declaredInHeader "int" Nat.one_ne_zero (s.headerReader_declare [k])
  have hloop := (s.reads_opening (hcounter.word (w := "int")
    (localIndex?_of_head (by decide)))).word (w := "for") (localIndex?_of_head (by decide))
  have hitems : items none (Clause.forOpen k init limit step).lexemes =
      .word "for" :: .mark "(" :: .word "int" :: .declared "int" (localName k) :: .mark "=" ::
        (items none (intLexemes init) ++ .mark ";" :: .word (localName k) :: .mark "<" ::
          (items none (intLexemes limit) ++ .mark ";" :: .word (localName k) ::
            (items none (incrementLexemes step) ++ [.mark ")", .mark "\x7b"]))) := by
    simp only [Clause.lexemes, List.cons_append, List.append_assoc, items_word,
      items_append_mark, announcer?_eq "int" (by decide), items,
      items_increment (announcer? (localName k))]
  rw [hitems]
  exact hloop

/-- Reading the line of a clause in a function is a step of its scopes. -/
theorem reads_clause {c : Clause} (hc : c.IsInner) (hs : s.outside ≠ []) :
    Reads s.reader (items none c.lexemes) (s.step c).reader []
      (c.mentions.map (⟨·, (s.step c).declared, (s.step c).visible⟩)) := by
  have hbrace (s : Scopes) : Reads s.reader [.mark "\x7b"] s.enter.reader [] [] :=
    Reads.openBrace (s.reader_brace ▸ .nil _)
  cases c with
  | structOpen | member | structClose | global | funcOpen => exact hc.elim
  | «local» t i =>
    have hrest : Reads (s.reader.declare (localName i)) [.mark ";"] (s.declare [i]).reader [] [] :=
      Scopes.reader_declare hs i ▸ (Reads.nil _).mark (by decide)
    rw [Clause.lexemes, items_announced (announcer?_typeName t)]
    exact (hrest.declared t.text fun hout => hs hout.2).word (localIndex?_typeName t)
  | blockOpen =>
    rw [Scopes.step_of_declares rfl]
    exact hbrace s
  | assign target value =>
    have hvalue := ((Reads.nil s.reader).mark (m := ";") (by decide)).expr value
    have htarget := (hvalue.mark (m := "=") (by decide)).expr target
    have hstep : s.step (.assign target value) = s := s.declare_nil
    rw [hstep, ← Scopes.reader_mention, Clause.mentions, List.map_append]
    simpa only [Clause.lexemes, List.append_assoc, List.cons_append, List.nil_append,
      items_append_mark, items, List.append_nil] using htarget
  | ifOpen cond =>
    have hcond := (s.reads_opening ((s.reads_closing []).expr cond)).word (w := "if")
      (localIndex?_of_head (by decide))
    have hitems : items none (Clause.ifOpen cond).lexemes = .word "if" :: .mark "(" ::
        (items none (exprLexemes cond) ++ [.mark ")", .mark "\x7b"]) := by
      simp only [Clause.lexemes, List.cons_append, items_word, items_append_mark, items]
    rw [List.append_nil] at hcond
    rw [hitems]
    exact hcond
  | elseOpen =>
    rw [Scopes.step_of_declares rfl]
    exact ((hbrace s.leave).word (localIndex?_of_head (by decide))).closeBrace
  | forOpen k init limit step => exact s.reads_forOpen k init limit step
  | close =>
    rw [Scopes.step_of_declares rfl]
    exact (Reads.nil _).closeBrace

theorem items_clause_append (c : Clause) (ts : List Lexeme) :
    items none (c.lexemes ++ ts) = items none c.lexemes ++ items none ts := by
  have hlast : ∃ m, c.lexemes.getLast? = some (.mark m) := by
    cases c <;> simp [Clause.lexemes, List.getLast?_cons]
  obtain ⟨m, hm⟩ := hlast
  obtain ⟨us, hus⟩ := List.getLast?_eq_some_iff.mp hm
  rw [hus, List.append_assoc, items_append_mark, List.singleton_append, items_append_mark,
    List.append_assoc]
  rfl

theorem items_append (cs ds : List Placed) :
    items none (lexemes (cs ++ ds)) = items none (lexemes cs) ++ items none (lexemes ds) := by
  induction cs with
  | nil => rfl
  | cons c cs ih =>
    rw [List.cons_append, lexemes_cons, lexemes_cons, items_clause_append, items_clause_append, ih,
      List.append_assoc]

def ReadAs (s : Scopes) (cs : List Placed) : Prop :=
  Reads s.reader (items none (lexemes cs)) (s.run cs).reader [] (s.mentions cs)

namespace ReadAs

variable {cs ds : List Placed}

theorem nil (s : Scopes) : ReadAs s [] := Reads.nil _

theorem cons {c : Placed} (hc : c.clause.IsInner) (hs : s.outside ≠ [])
    (h : ReadAs (s.step c.clause) cs) : ReadAs s (c :: cs) := by
  rw [ReadAs, lexemes_cons, items_clause_append]
  exact (reads_clause hc hs).append h

theorem append (hcs : ReadAs s cs) (hds : ReadAs (s.run cs) ds) : ReadAs s (cs ++ ds) := by
  rw [ReadAs, items_append, Scopes.run_append, Scopes.mentions_append]
  exact Reads.append hcs hds

theorem close {depth : Nat} (hs : s.outside ≠ []) : ReadAs s [⟨depth, .close⟩] :=
  (nil _).cons trivial hs

end ReadAs

section

variable (table : StructTable)

theorem outside_blockClauses (s : Scopes) (depth next : Nat) (b : Block Stmt) :
    (s.run (blockClauses table depth next b)).outside = s.outside := by
  rw [Scopes.run_blockClauses]

theorem ReadAs.closed {depth next : Nat} {b : Block Stmt} (hs : s.outside ≠ [])
    (h : ReadAs s (blockClauses table depth next b)) (outer : Nat) :
    ReadAs s (blockClauses table depth next b ++ [⟨outer, .close⟩]) := by
  refine h.append (ReadAs.close ?_)
  rw [outside_blockClauses]
  exact hs

theorem readAs_localClauses (hs : s.outside ≠ []) (depth next : Nat) (ts : List Ty) :
    ReadAs s (localClauses table depth next ts) := by
  induction ts generalizing s next with
  | nil => exact ReadAs.nil s
  | cons t ts ih =>
    have hrest : ReadAs (s.declare [next]) (localClauses table depth (next + 1) ts) :=
      ih (s := s.declare [next]) hs (next + 1)
    exact ReadAs.cons (c := ⟨depth, .local (table.nameOf t) next⟩) trivial hs hrest

mutual

theorem readAs_stmtClauses (s : Scopes) (hs : s.outside ≠ []) (depth next : Nat) (st : Stmt) :
    ReadAs s (stmtClauses table depth next st) := by
  have hinside (ks : List Nat) (outside : List (List Nat)) : ks :: outside ≠ [] :=
    List.cons_ne_nil ks outside
  cases st with
  | block b =>
    have hb := readAs_blockClauses (s.step .blockOpen) (hinside _ _) (depth + 1) next b
    exact (hb.closed table (hinside _ _) depth).cons (c := ⟨depth, .blockOpen⟩) trivial hs
  | assign target value => exact (ReadAs.nil _).cons trivial hs
  | ifElse cond t e =>
    have ht := readAs_blockClauses (s.step (.ifOpen cond)) (hinside _ _) (depth + 1) next t
    have hbetween : ((s.step (.ifOpen cond)).run
        (blockClauses table (depth + 1) next t)).outside ≠ [] := by
      rw [outside_blockClauses]
      exact hinside _ _
    have he := readAs_blockClauses (((s.step (.ifOpen cond)).run
      (blockClauses table (depth + 1) next t)).step .elseOpen) (hinside _ _) (depth + 1)
        (next + t.localCount) e
    have helse := (he.closed table (hinside _ _) depth).cons (c := ⟨depth, .elseOpen⟩)
      trivial hbetween
    rw [stmtClauses, List.append_assoc]
    exact (ht.append helse).cons (c := ⟨depth, .ifOpen cond⟩) trivial hs
  | forRange init limit step b =>
    have hb := readAs_blockClauses (s.step (.forOpen next init limit step)) (hinside _ _)
      (depth + 1) (next + 1) b
    exact (hb.closed table (hinside _ _) depth).cons (c := ⟨depth, .forOpen next init limit step⟩)
      trivial hs

theorem readAs_blockClauses (s : Scopes) (hs : s.outside ≠ []) (depth next : Nat)
    (b : Block Stmt) : ReadAs s (blockClauses table depth next b) := by
  cases b with
  | mk ts ss =>
    refine (readAs_localClauses table hs depth next ts).append
      (readAs_stmtsClauses _ ?_ depth (next + ts.length) ss)
    rw [Scopes.run_localClauses]
    exact hs

theorem readAs_stmtsClauses (s : Scopes) (hs : s.outside ≠ []) (depth next : Nat)
    (ss : List Stmt) : ReadAs s (stmtsClauses table depth next ss) := by
  cases ss with
  | nil => exact ReadAs.nil s
  | cons st ss =>
    refine (readAs_stmtClauses s hs depth next st).append
      (readAs_stmtsClauses _ ?_ depth (next + st.localCount) ss)
    rw [Scopes.run_stmtClauses]
    exact hs

end

end

/-- The text of the clauses is read from outside of all braces, and back to there. -/
def ReadsOutside (cs : List Placed) (ms : List Mention) : Prop :=
  ∀ s : Scopes, s.outside = [] → ∃ s' : Scopes, s'.outside = [] ∧
    Reads s.reader (items none (lexemes cs)) s'.reader (globalNames cs) ms

namespace ReadsOutside

variable {cs ds : List Placed} {ms ns : List Mention}

theorem nil : ReadsOutside [] [] := fun s hs => ⟨s, hs, Reads.nil _⟩

theorem append (hcs : ReadsOutside cs ms) (hds : ReadsOutside ds ns) :
    ReadsOutside (cs ++ ds) (ms ++ ns) := by
  intro s hs
  obtain ⟨s₁, hs₁, h₁⟩ := hcs s hs
  obtain ⟨s₂, hs₂, h₂⟩ := hds s₁ hs₁
  rw [items_append, globalNames_append]
  exact ⟨s₂, hs₂, h₁.append h₂⟩

theorem flatMap {α : Type} {f : α → List Placed} {g : α → List Mention}
    (h : ∀ a, ReadsOutside (f a) (g a)) (as : List α) :
    ReadsOutside (as.flatMap f) (as.flatMap g) := by
  induction as with
  | nil => exact nil
  | cons a as ih =>
    rw [List.flatMap_cons, List.flatMap_cons]
    exact (h a).append ih

end ReadsOutside

section

variable (table : StructTable)

theorem reads_memberClauses (hs : s.outside ≠ []) (i : Nat) (ts : List Ty) :
    Reads s.reader (items none (lexemes (memberClauses table i ts))) s.reader [] [] := by
  induction ts generalizing i with
  | nil => exact Reads.nil _
  | cons t ts ih =>
    have hlexemes : lexemes (memberClauses table i (t :: ts)) =
        .word (table.nameOf t).text :: .word (memberName i) :: .mark ";" ::
          lexemes (memberClauses table (i + 1) ts) := rfl
    have hmember : localIndex? (memberName i) = none := by
      apply localIndex?_of_head
      rw [memberName, indexed_toList, List.head?_cons]
      decide
    have hdeclare : s.reader.declare (memberName i) = s.reader := by
      rw [Reader.declare, if_neg fun hout => hs hout.2, hmember]
    have hrest := (ih (i + 1)).mark (m := ";") (by decide)
    rw [hlexemes, items_announced (announcer?_typeName _)]
    exact (Reads.declared _ (fun hout => hs hout.2) (hdeclare.symm ▸ hrest)).word
      (localIndex?_typeName _)

theorem readsOutside_definition (ms : List Ty) : ReadsOutside (definition table ms) [] := by
  intro s hs
  have hclose : Reads (Scopes.enter {}).reader [.mark "\x7d", .mark ";"]
      ({} : Scopes).reader [] [] := ((Reads.nil _).mark (by decide)).closeBrace
  have hmembers := (reads_memberClauses table (List.cons_ne_nil _ _) 0 ms).append hclose
  have hopen := Reads.openBrace (r := {}) hmembers
  have hdefinition := (hopen.declaredOutside (r := s.reader) "struct"
    (structName (table.idxOf ms)) ⟨rfl, hs⟩).word (w := "struct") (localIndex?_of_head (by decide))
  have hitems : items none (lexemes (definition table ms)) =
      .word "struct" :: .declared "struct" (structName (table.idxOf ms)) :: .mark "\x7b" ::
        (items none (lexemes (memberClauses table 0 ms)) ++ [.mark "\x7d", .mark ";"]) := by
    rw [definition, items_append, lexemes_cons, items_clause_append, Clause.lexemes,
      items_announced (announcer?_eq _ (by decide))]
    rfl
  refine ⟨{}, rfl, ?_⟩
  rw [hitems, globalNames_definition]
  exact hdefinition

theorem readsOutside_globalClauses {c : Category} (hc : c ≠ .local) (i : Nat) (ts : List Ty) :
    ReadsOutside (globalClauses table c i ts) [] := by
  induction ts generalizing i with
  | nil => exact ReadsOutside.nil
  | cons t ts ih =>
    intro s hs
    obtain ⟨s', hs', hrest⟩ := ih (i + 1) {} rfl
    have hqualifier : localIndex? (qualifier c) = none := by
      apply localIndex?_of_head
      cases c with
      | «local» => exact absurd rfl hc
      | _ => decide
    have hlexemes : lexemes (globalClauses table c i (t :: ts)) =
        .word (qualifier c) :: .word (table.nameOf t).text :: .word (variableName c i) ::
          .mark ";" :: lexemes (globalClauses table c (i + 1) ts) := rfl
    have hdeclared := (hrest.mark (m := ";") (by decide)).declaredOutside (r := s.reader)
      (table.nameOf t).text (variableName c i) ⟨rfl, hs⟩
    refine ⟨s', hs', ?_⟩
    rw [hlexemes, items_word, announcer?_qualifier hc, items_announced (announcer?_typeName _)]
    exact (hdeclared.word (localIndex?_typeName _)).word hqualifier

theorem reads_funcOpen (hs : s.outside = []) (name : String) (ps : List Param) :
    Reads s.reader (items none (Clause.funcOpen name ps).lexemes)
      (s.step (.funcOpen name ps)).reader [name] [] := by
  have hheader : Reads ((Scopes.headerReader {} []).declareInHeader (ps.map (·.index)))
      [.mark ")", .mark "\x7b"] (s.step (.funcOpen name ps)).reader [] [] := by
    rw [Scopes.headerReader_declare]
    exact Scopes.reads_closing {} _
  have hsignature := Scopes.reads_opening {} (hheader.params ps Nat.one_ne_zero)
  have hitems : items none (Clause.funcOpen name ps).lexemes =
      .word "void" :: .declared "void" name :: .mark "(" ::
        (items none (paramsLexemes ps) ++ [.mark ")", .mark "\x7b"]) := by
    rw [Clause.lexemes, List.cons_append, List.cons_append, List.cons_append,
      items_announced (announcer?_eq _ (by decide)), items_append_mark]
    rfl
  rw [hitems]
  exact (hsignature.declaredOutside "void" name ⟨rfl, hs⟩).word (localIndex?_of_head (by decide))

theorem readAs_bodyClauses (hs : s.outside ≠ []) (f : Func) :
    ReadAs s (bodyClauses table f) :=
  (readAs_blockClauses table s hs 1 f.paramCount f.body).closed table hs 0

theorem outside_bodyClauses (s : Scopes) (f : Func) :
    (s.run (bodyClauses table f)).outside = s.outside.tail := by
  rw [bodyClauses, Scopes.run_append, Scopes.run_singleton, Scopes.step_of_declares rfl,
    Scopes.brace, Scopes.leave, outside_blockClauses]

theorem readsOutside_funcClauses (f : Func) : ReadsOutside (funcClauses table f) f.mentions := by
  intro s hs
  have hopen := reads_funcOpen hs f.name (paramsOf table 0 f.params)
  have hinside : (s.step (.funcOpen f.name (paramsOf table 0 f.params))).outside ≠ [] :=
    List.cons_ne_nil _ _
  refine ⟨s.run (funcClauses table f), ?_, ?_⟩
  · rw [funcClauses_eq, Scopes.run_cons, outside_bodyClauses]
    rfl
  · rw [← Scopes.mentions_funcClauses table s f, globalNames_funcClauses, funcClauses_eq,
      lexemes_cons, items_clause_append]
    exact hopen.append (readAs_bodyClauses table hinside f)

theorem readsOutside_headClauses (p : Program) : ReadsOutside (headClauses table p) [] := by
  have hdefinitions : ReadsOutside (definitions table) [] := by
    have h := ReadsOutside.flatMap (readsOutside_definition table) table.definitionOrder
    rwa [List.flatMap_eq_nil_iff.mpr fun _ _ => rfl] at h
  have huniforms := readsOutside_globalClauses table (c := .uniform) (by decide) 0 p.uniforms
  have hattributes := readsOutside_globalClauses table (c := .attribute) (by decide) 0 p.attributes
  have hvaryings := readsOutside_globalClauses table (c := .varying) (by decide) 0 p.varyings
  exact ((hdefinitions.append huniforms).append hattributes).append hvaryings

end

end

end Glsl

namespace Program

theorem readsOutside_clauses (p : Program) :
    Glsl.ReadsOutside p.clauses (p.funcs.flatMap Func.mentions) :=
  (Glsl.readsOutside_headClauses _ p).append
    (Glsl.ReadsOutside.flatMap (Glsl.readsOutside_funcClauses _) p.funcs)

/-- The tokens of the program's text declare the names that its clauses do. -/
theorem globalNamesIn_lexemes (p : Program) :
    Glsl.globalNamesIn (Glsl.lexemes p.clauses) = Glsl.globalNames p.clauses := by
  obtain ⟨s, -, hreads⟩ := p.readsOutside_clauses {} rfl
  exact hreads.globalNames

theorem mentionsIn_lexemes (p : Program) :
    Glsl.mentionsIn (Glsl.lexemes p.clauses) = Glsl.Scopes.mentions {} p.clauses := by
  obtain ⟨s, -, hreads⟩ := p.readsOutside_clauses {} rfl
  exact hreads.mentions.trans p.mentions_clauses.symm

/-- A program without issues is rendered, and the names declared for all of the text are those of
its structs and global variables, which are all different, and those of its functions, which are
all different too. So no name is declared twice exactly if no function is named like one of these
structs and variables. -/
theorem global_names_distinct_iff {p : Program} (h : p.issues = []) :
    ∃ text ts, p.render = .ok text ∧ text = Glsl.text p.clauses ∧ Glsl.Lexes text.toList ts ∧
      Glsl.globalNamesIn ts = Glsl.globalNames p.clauses ∧
      (Glsl.globalNamesIn ts).Perm (p.synthesizedNames ++ p.funcs.map Func.name) ∧
      p.synthesizedNames.Nodup ∧ (p.funcs.map Func.name).Nodup ∧
      ((Glsl.globalNamesIn ts).Nodup ↔ ∀ f ∈ p.funcs, f.name ∉ p.synthesizedNames) := by
  have hsynthesized := nodup_synthesizedNames p
  have hfuncs : (p.funcs.map Func.name).Nodup := (wellFormed_of_issues h).distinct
  have hnames := globalNamesIn_lexemes p
  refine ⟨_, _, render_of_issues h, rfl, lexes_clauses h, hnames, hnames ▸ globalNames_clauses p,
    hsynthesized, hfuncs, ?_⟩
  rw [hnames, (globalNames_clauses p).nodup_iff, List.nodup_append']
  constructor
  · rintro ⟨-, -, hdisjoint⟩ f hf hname
    exact hdisjoint hname (List.mem_map_of_mem hf)
  · refine fun hfresh => ⟨hsynthesized, hfuncs, fun name hname hfunc => ?_⟩
    obtain ⟨f, hf, rfl⟩ := List.mem_map.mp hfunc
    exact hfresh f hf hname

def fiveNames : Program where
  uniforms := [.struct [.basic .vec2]]
  varyings := [.basic .float]
  funcs := [{ name := "main" }, { name := "V1" }]

theorem fiveNames_distinct :
    fiveNames.issues = [] ∧ ∃ text ts, fiveNames.render = .ok text ∧ Glsl.Lexes text.toList ts ∧
      (Glsl.globalNamesIn ts).Nodup := by
  have h : fiveNames.issues = [] := by decide
  obtain ⟨text, ts, hrender, -, hlexes, -, -, -, -, hiff⟩ := global_names_distinct_iff h
  exact ⟨h, text, ts, hrender, hlexes, hiff.mpr (by decide)⟩

/-- A uniform, and a function with the name that the uniform gets. -/
def uniformAndFunc : Program where
  uniforms := [.basic .float]
  funcs := [{ name := "U0" }]

def uniformAndFuncText : String := "uniform float U0;\nvoid U0(void) \x7b\n\x7d\n"

theorem uniformAndFunc_share_name :
    uniformAndFunc.issues = [] ∧ uniformAndFunc.render = .ok uniformAndFuncText ∧
      ∃ ts, Glsl.Lexes uniformAndFuncText.toList ts ∧ Glsl.globalNamesIn ts = ["U0", "U0"] ∧
        ¬(Glsl.globalNamesIn ts).Nodup := by
  have h : uniformAndFunc.issues = [] := by decide
  have hnames : Glsl.globalNamesIn (Glsl.lexemes uniformAndFunc.clauses) = ["U0", "U0"] := by
    rw [globalNamesIn_lexemes]
    decide
  have htext : uniformAndFuncText = Glsl.text uniformAndFunc.clauses := rfl
  refine ⟨h, rfl, _, htext ▸ lexes_clauses h, hnames, ?_⟩
  rw [hnames]
  decide

/-- A program without issues is rendered, and its text mentions a local only behind the declaration
of it in the same function. The scope of the declaration is still open at all of these mentions
exactly if each of them is in the block or the loop of its local. -/
theorem locals_declared_before {p : Program} (h : p.issues = []) :
    ∃ text ts, p.render = .ok text ∧ text = Glsl.text p.clauses ∧ Glsl.Lexes text.toList ts ∧
      Glsl.mentionsIn ts = Glsl.Scopes.mentions {} p.clauses ∧
      (∀ m ∈ Glsl.mentionsIn ts, m.IsDeclared) ∧
      ((∀ m ∈ Glsl.mentionsIn ts, m.IsVisible) ↔ p.localsInScope = true) := by
  have hmentions : Glsl.mentionsIn (Glsl.lexemes p.clauses) = p.funcs.flatMap Func.mentions :=
    (mentionsIn_lexemes p).trans (mentions_clauses p)
  refine ⟨_, _, render_of_issues h, rfl, lexes_clauses h, mentionsIn_lexemes p, ?_, ?_⟩
  · rw [hmentions]
    intro m hm
    obtain ⟨f, hf, hm⟩ := List.mem_flatMap.mp hm
    exact Block.isDeclared_of_mem_mentions _ _ (bodyIssues_of_issues h f hf) m hm
  · rw [hmentions, localsInScope]
    simp only [List.forall_mem_flatMap, List.all_eq_true, decide_eq_true_eq]

def counterInLoop : Program where
  funcs := [{
    name := "F0"
    inParams := [.basic .float]
    outParams := [.basic .float]
    body := ⟨[], [.forRange 0 4 1
      ⟨[], [.assign (.var ⟨.local, 1⟩) (.var ⟨.local, 2⟩)]⟩]⟩ }]

theorem counterInLoop_inScope :
    counterInLoop.issues = [] ∧ counterInLoop.localsInScope = true ∧
      ∃ text ts, counterInLoop.render = .ok text ∧ Glsl.Lexes text.toList ts ∧
        ∀ m ∈ Glsl.mentionsIn ts, m.IsDeclared ∧ m.IsVisible := by
  have h : counterInLoop.issues = [] := by decide
  have hscope : counterInLoop.localsInScope = true := by decide
  obtain ⟨text, ts, hrender, -, hlexes, -, hdeclared, hvisible⟩ := locals_declared_before h
  exact ⟨h, hscope, text, ts, hrender, hlexes,
    fun m hm => ⟨hdeclared m hm, hvisible.mpr hscope m hm⟩⟩

/-- A loop, and behind it an assignment of its counter. -/
def counterBehindLoop : Program where
  funcs := [{
    name := "F0"
    inParams := [.basic .float]
    outParams := [.basic .float]
    body := ⟨[], [.forRange 0 4 1 {}, .assign (.var ⟨.local, 1⟩) (.var ⟨.local, 2⟩)]⟩ }]

def counterBehindLoopText : String :=
  "void F0(in float l0, out float l1) \x7b\n" ++
    "\tfor (int l2 = 0; l2 < 4; l2++) \x7b\n\t\x7d\n\tl1 = l2;\n\x7d\n"

theorem counterBehindLoop_not_visible :
    counterBehindLoop.issues = [] ∧ counterBehindLoop.render = .ok counterBehindLoopText ∧
      ∃ ts, Glsl.Lexes counterBehindLoopText.toList ts ∧
        Glsl.mentionsIn ts =
          [⟨2, [0, 1, 2], [0, 1, 2]⟩, ⟨2, [0, 1, 2], [0, 1, 2]⟩,
            ⟨1, [0, 1, 2], [0, 1]⟩, ⟨2, [0, 1, 2], [0, 1]⟩] ∧
        ¬∀ m ∈ Glsl.mentionsIn ts, m.IsVisible := by
  have h : counterBehindLoop.issues = [] := by decide
  have hmentions : Glsl.mentionsIn (Glsl.lexemes counterBehindLoop.clauses) =
      [⟨2, [0, 1, 2], [0, 1, 2]⟩, ⟨2, [0, 1, 2], [0, 1, 2]⟩,
        ⟨1, [0, 1, 2], [0, 1]⟩, ⟨2, [0, 1, 2], [0, 1]⟩] := by
    rw [mentionsIn_lexemes]
    decide
  have htext : counterBehindLoopText = Glsl.text counterBehindLoop.clauses := rfl
  refine ⟨h, rfl, _, htext ▸ lexes_clauses h, hmentions, ?_⟩
  rw [hmentions]
  decide

end Program

end ShaderTree
