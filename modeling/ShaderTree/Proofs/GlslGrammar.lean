import ShaderTree.Proofs.GlslLexemes

namespace ShaderTree

namespace Glsl

/-- The keywords of GLSL, the names of its types among them, and the words it keeps for later. -/
def reservedWords : List String :=
  ["const", "uniform", "buffer", "shared", "attribute", "varying", "coherent", "volatile",
    "restrict", "readonly", "writeonly", "atomic_uint", "layout", "centroid", "flat", "smooth",
    "noperspective", "patch", "sample", "invariant", "precise", "break", "continue", "do", "for",
    "while", "switch", "case", "default", "if", "else", "subroutine", "in", "out", "inout", "int",
    "void", "bool", "true", "false", "float", "double", "discard", "return",
    "vec2", "vec3", "vec4", "ivec2", "ivec3", "ivec4", "bvec2", "bvec3", "bvec4", "uint", "uvec2",
    "uvec3", "uvec4", "dvec2", "dvec3", "dvec4", "mat2", "mat3", "mat4", "mat2x2", "mat2x3",
    "mat2x4", "mat3x2", "mat3x3", "mat3x4", "mat4x2", "mat4x3", "mat4x4", "dmat2", "dmat3",
    "dmat4", "dmat2x2", "dmat2x3", "dmat2x4", "dmat3x2", "dmat3x3", "dmat3x4", "dmat4x2",
    "dmat4x3", "dmat4x4", "lowp", "mediump", "highp", "precision", "struct",
    "sampler1D", "sampler1DShadow", "sampler1DArray", "sampler1DArrayShadow", "isampler1D",
    "isampler1DArray", "usampler1D", "usampler1DArray", "sampler2D", "sampler2DShadow",
    "sampler2DArray", "sampler2DArrayShadow", "isampler2D", "isampler2DArray", "usampler2D",
    "usampler2DArray", "sampler2DRect", "sampler2DRectShadow", "isampler2DRect", "usampler2DRect",
    "sampler2DMS", "isampler2DMS", "usampler2DMS", "sampler2DMSArray", "isampler2DMSArray",
    "usampler2DMSArray", "sampler3D", "isampler3D", "usampler3D", "samplerCube",
    "samplerCubeShadow", "isamplerCube", "usamplerCube", "samplerCubeArray",
    "samplerCubeArrayShadow", "isamplerCubeArray", "usamplerCubeArray", "samplerBuffer",
    "isamplerBuffer", "usamplerBuffer", "image1D", "iimage1D", "uimage1D", "image1DArray",
    "iimage1DArray", "uimage1DArray", "image2D", "iimage2D", "uimage2D", "image2DArray",
    "iimage2DArray", "uimage2DArray", "image2DRect", "iimage2DRect", "uimage2DRect", "image2DMS",
    "iimage2DMS", "uimage2DMS", "image2DMSArray", "iimage2DMSArray", "uimage2DMSArray", "image3D",
    "iimage3D", "uimage3D", "imageCube", "iimageCube", "uimageCube", "imageCubeArray",
    "iimageCubeArray", "uimageCubeArray", "imageBuffer", "iimageBuffer", "uimageBuffer",
    "common", "partition", "active", "asm", "class", "union", "enum", "typedef", "template",
    "this", "packed", "resource", "goto", "inline", "noinline", "public", "static", "extern",
    "external", "interface", "long", "short", "half", "fixed", "unsigned", "superp", "input",
    "output", "hvec2", "hvec3", "hvec4", "fvec2", "fvec3", "fvec4", "sampler3DRect", "filter",
    "sizeof", "cast", "namespace", "using"]

def IsName (name : String) : Prop := IsIdentifier name ∧ name ∉ reservedWords

def typeKeywords : List String :=
  ["bool", "int", "float", "vec2", "vec3", "vec4", "mat2", "mat3", "mat4"]

def binaryMarks : List String :=
  ["+", "-", "*", "/", "%", "<<", ">>", "<", "<=", ">", ">=", "==", "!=", "&", "^", "|", "&&",
    "||"]

def IsIntConstant (text : String) : Prop :=
  text = "0" ∨ ∃ c cs, text.toList = c :: cs ∧ c.isDigit = true ∧ c ≠ '0' ∧
    ∀ d ∈ cs, d.isDigit = true

/-- Digits, a point and perhaps more digits, and an exponent with its sign. -/
def IsFloatConstant (text : String) : Prop :=
  ∃ whole fraction exponent sign,
    text.toList = whole ++ '.' :: fraction ++ 'e' :: sign :: exponent ∧
      (sign = '+' ∨ sign = '-') ∧ whole ≠ [] ∧ exponent ≠ [] ∧
        ∀ d ∈ whole ++ fraction ++ exponent, d.isDigit = true

inductive Symbol
  | many (s : Symbol)
  | type | declaration | integer | change | expression | statement | body
  | parameter | moreParameter | parameters | structDefinition | global | function | unit

/-- The symbol derives the tokens. -/
inductive Derives : Symbol → List Lexeme → Prop
  | nil {s : Symbol} : Derives (.many s) []
  | cons {s : Symbol} {a b : List Lexeme} (ha : Derives s a) (hb : Derives (.many s) b) :
      Derives (.many s) (a ++ b)
  | basic {t : String} (ht : t ∈ typeKeywords) : Derives .type [.word t]
  | struct {name : String} (hname : IsName name) : Derives .type [.word name]
  | declaration {t : List Lexeme} {name : String} (ht : Derives .type t) (hname : IsName name) :
      Derives .declaration (t ++ [.word name, .mark ";"])
  | natural {text : String} (h : IsIntConstant text) : Derives .integer [.number text]
  | negative {text : String} (h : IsIntConstant text) :
      Derives .integer [.mark "-", .number text]
  | increment : Derives .change [.mark "++"]
  | decrement : Derives .change [.mark "--"]
  | addition {n : List Lexeme} (hn : Derives .integer n) : Derives .change (.mark "+=" :: n)
  | literal {text : String} (h : IsFloatConstant text) : Derives .expression [.number text]
  | negated {text : String} (h : IsFloatConstant text) :
      Derives .expression [.mark "-", .number text]
  | named {name : String} (hname : IsName name) : Derives .expression [.word name]
  | binary {m : String} {a b : List Lexeme} (hm : m ∈ binaryMarks) (ha : Derives .expression a)
      (hb : Derives .expression b) :
      Derives .expression
        (.mark "(" :: a ++ .mark ")" :: .mark m :: .mark "(" :: b ++ [.mark ")"])
  | assignment {name : String} {e : List Lexeme} (hname : IsName name)
      (he : Derives .expression e) :
      Derives .statement (.word name :: .mark "=" :: e ++ [.mark ";"])
  | block {b : List Lexeme} (hb : Derives .body b) :
      Derives .statement (.mark "\x7b" :: b ++ [.mark "\x7d"])
  | ifElse {c t e : List Lexeme} (hc : Derives .expression c) (ht : Derives .body t)
      (he : Derives .body e) :
      Derives .statement
        (.word "if" :: .mark "(" :: c ++ .mark ")" :: .mark "\x7b" :: t ++
          .mark "\x7d" :: .word "else" :: .mark "\x7b" :: e ++ [.mark "\x7d"])
  | loop {name : String} {i l c b : List Lexeme} (hname : IsName name) (hi : Derives .integer i)
      (hl : Derives .integer l) (hc : Derives .change c) (hb : Derives .body b) :
      Derives .statement
        (.word "for" :: .mark "(" :: .word "int" :: .word name :: .mark "=" :: i ++
          .mark ";" :: .word name :: .mark "<" :: l ++ .mark ";" :: .word name :: c ++
          .mark ")" :: .mark "\x7b" :: b ++ [.mark "\x7d"])
  | body {ds ss : List Lexeme} (hds : Derives (.many .declaration) ds)
      (hss : Derives (.many .statement) ss) : Derives .body (ds ++ ss)
  | parameter {d name : String} {t : List Lexeme} (hd : d ∈ ["in", "inout", "out"])
      (ht : Derives .type t) (hname : IsName name) :
      Derives .parameter (.word d :: t ++ [.word name])
  | moreParameter {q : List Lexeme} (hq : Derives .parameter q) :
      Derives .moreParameter (.mark "," :: q)
  | noParameters : Derives .parameters [.mark "(", .word "void", .mark ")"]
  | parameters {q qs : List Lexeme} (hq : Derives .parameter q)
      (hqs : Derives (.many .moreParameter) qs) :
      Derives .parameters (.mark "(" :: (q ++ qs) ++ [.mark ")"])
  | structDefinition {name : String} {m ms : List Lexeme} (hname : IsName name)
      (hm : Derives .declaration m) (hms : Derives (.many .declaration) ms) :
      Derives .structDefinition
        (.word "struct" :: .word name :: .mark "\x7b" :: (m ++ ms) ++ [.mark "\x7d", .mark ";"])
  | global {q : String} {d : List Lexeme} (hq : q ∈ ["uniform", "attribute", "varying"])
      (hd : Derives .declaration d) : Derives .global (.word q :: d)
  | function {name : String} {q b : List Lexeme} (hname : IsName name)
      (hq : Derives .parameters q) (hb : Derives .body b) :
      Derives .function
        (.word "void" :: .word name :: q ++ .mark "\x7b" :: b ++ [.mark "\x7d"])
  | unit {ss gs fs : List Lexeme} (hss : Derives (.many .structDefinition) ss)
      (hgs : Derives (.many .global) gs) (hfs : Derives (.many .function) fs) :
      Derives .unit (ss ++ gs ++ fs)

/-- The text is read as tokens that the grammar derives. -/
def IsSentence (text : String) : Prop := ∃ ts, Lexes text.toList ts ∧ Derives .unit ts

theorem isName_indexed {letter : Char} (h : BeginsIdentifier letter) (i : Nat) :
    IsName (indexed letter i) := by
  have hsecond : ∀ w ∈ reservedWords, w.toList.tail.head?.any Char.isDigit = false := by
    decide +kernel
  refine ⟨isIdentifier_indexed h i, fun hmem => ?_⟩
  obtain ⟨c, cs, hcs, hc, -⟩ := exists_toDigits i
  have hnone := hsecond _ hmem
  rw [indexed_toList, hcs] at hnone
  cases hc.symm.trans hnone

theorem isName_variableName (c : Category) (i : Nat) : IsName (variableName c i) :=
  isName_indexed ((beginsIdentifier_iff _).mpr (by cases c <;> rfl)) i

theorem isName_structName (i : Nat) : IsName (structName i) :=
  isName_indexed ((beginsIdentifier_iff 'S').mpr rfl) i

theorem isName_memberName (i : Nat) : IsName (memberName i) :=
  isName_indexed ((beginsIdentifier_iff 'M').mpr rfl) i

theorem head?_toDigits_ne {n : Nat} (h : 0 < n) : (Nat.toDigits 10 n).head? ≠ some '0' := by
  induction n using Nat.strongRecOn with
  | ind n ih =>
    by_cases hlt : n < 10
    · rw [Nat.toDigits_of_lt_base hlt, List.head?_singleton, ne_eq, Option.some.injEq,
        Nat.digitChar_eq_zero]
      omega
    · have hrest := ih (n / 10) (by omega) (by omega)
      rwa [Nat.toDigits_of_base_le (by decide) (by omega),
        List.head?_append_of_ne_nil _ Nat.toDigits_ne_nil]

theorem isIntConstant_toString (n : Nat) : IsIntConstant (toString n) := by
  by_cases hzero : n = 0
  · rw [hzero]
    exact Or.inl rfl
  · have htext : (toString n).toList = Nat.toDigits 10 n := Nat.toList_repr
    have hhead := head?_toDigits_ne (Nat.pos_of_ne_zero hzero)
    obtain ⟨c, cs, hcs, hc, hrest⟩ := exists_toDigits n
    rw [hcs] at htext hhead
    exact Or.inr ⟨c, cs, htext, hc, fun h => hhead (congrArg some h), hrest⟩

theorem isFloatConstant_magnitudeText (x : Binary64) : IsFloatConstant (magnitudeText x) := by
  obtain ⟨c, cs, hcs⟩ := exists_tenDigits x
  have hdigits := isDigit_tenDigits x
  have hexponent : exponentDigits x.tenDigits.2.natAbs ≠ [] := by simp [exponentDigits]
  refine ⟨[c], cs, exponentDigits x.tenDigits.2.natAbs, if x.tenDigits.2 < 0 then '-' else '+',
    toList_magnitudeText hcs, ?_, List.cons_ne_nil _ _, hexponent, ?_⟩
  · split
    · exact Or.inr rfl
    · exact Or.inl rfl
  · rw [hcs] at hdigits
    exact List.forall_mem_append.mpr ⟨hdigits, isDigit_exponentDigits _⟩

theorem derives_many {α : Type} {s : Symbol} {f : α → List Lexeme} {as : List α}
    (h : ∀ a ∈ as, Derives s (f a)) : Derives (.many s) (as.flatMap f) := by
  induction as with
  | nil => exact .nil
  | cons a as ih =>
    obtain ⟨ha, has⟩ := List.forall_mem_cons.mp h
    exact .cons ha (ih has)

theorem derives_typeName (t : TypeName) : Derives .type [.word t.text] := by
  cases t with
  | basic b => exact .basic (by cases b <;> decide)
  | struct i => exact .struct (isName_structName i)

theorem derives_int (i : Int32) : Derives .integer (intLexemes i) := by
  rw [intLexemes]
  split
  · exact .negative (isIntConstant_toString _)
  · exact .natural (isIntConstant_toString _)

theorem derives_increment (step : Int32) : Derives .change (incrementLexemes step) := by
  rw [incrementLexemes]
  split
  · exact .increment
  · split
    · exact .decrement
    · exact .addition (derives_int step)

theorem derives_param (q : Param) : Derives .parameter (paramLexemes q) :=
  .parameter (by cases q.direction <;> decide) (derives_typeName q.type)
    (isName_variableName .local q.index)

theorem derives_params (qs : List Param) :
    Derives .parameters (.mark "(" :: paramsLexemes qs ++ [.mark ")"]) := by
  cases qs with
  | nil => exact .noParameters
  | cons q qs =>
    exact .parameters (derives_param q) (derives_many fun r _ => .moreParameter (derives_param r))

section

variable {p : Program} {func : String} {table : StructTable}

theorem derives_expr {locals : Nat} {e : Expr} (h : e.issues p func locals = []) :
    Derives .expression (exprLexemes e) := by
  induction e with
  | num x =>
    obtain ⟨hfinite, hnan⟩ := finite_of_issues h
    rw [exprLexemes, literalLexemes, if_neg hnan, if_pos hfinite]
    split
    · exact .negated (isFloatConstant_magnitudeText x)
    · exact .literal (isFloatConstant_magnitudeText x)
  | var v => exact .named (isName_variableName v.category v.index.toNat)
  | binary op lhs rhs ihl ihr =>
    obtain ⟨hl, hr⟩ := List.append_eq_nil_iff.mp h
    exact .binary (by cases op <;> decide) (ihl hl) (ihr hr)

theorem derives_declarations (clause : TypeName → Nat → Clause)
    (h : ∀ n i, Derives .declaration (clause n i).lexemes) (depth next : Nat) (ts : List Ty) :
    Derives (.many .declaration)
      (lexemes ((ts.zipIdx next).map fun (t, i) => ⟨depth, clause (table.nameOf t) i⟩)) := by
  refine derives_many fun c hc => ?_
  obtain ⟨⟨t, i⟩, -, rfl⟩ := List.mem_map.mp hc
  exact h _ i

theorem derives_local (n : TypeName) (i : Nat) : Derives .declaration (Clause.local n i).lexemes :=
  .declaration (derives_typeName n) (isName_variableName .local i)

theorem derives_member (n : TypeName) (i : Nat) :
    Derives .declaration (Clause.member n i).lexemes :=
  .declaration (derives_typeName n) (isName_memberName i)

mutual

/-- A statement without issues is written as a statement. -/
theorem derives_stmtClauses {depth next locals : Nat} {s : Stmt}
    (h : (s.issues p func locals).1 = []) :
    Derives .statement (lexemes (stmtClauses table depth next s)) := by
  cases s with
  | block b =>
    have hb : Derives .body (lexemes (blockClauses table (depth + 1) next b)) :=
      derives_blockClauses h
    simpa [stmtClauses, lexemes_append, lexemes_cons, lexemes_nil, Clause.lexemes] using
      Derives.block hb
  | assign target value =>
    obtain ⟨hleft, hvalue⟩ := List.append_eq_nil_iff.mp h
    have htarget := (List.append_eq_nil_iff.mp hleft).1
    obtain ⟨v, rfl⟩ : ∃ v, target = .var v := by
      obtain ⟨i, hi | hi⟩ := Expr.isPlace_of_targetIssues func htarget <;> exact ⟨_, hi⟩
    have hassign := Derives.assignment (isName_variableName v.category v.index.toNat)
      (derives_expr hvalue)
    rw [stmtClauses, lexemes_cons, lexemes_nil, List.append_nil]
    exact hassign
  | ifElse cond t e =>
    rw [Stmt.issues_ifElse, List.append_eq_nil_iff, List.append_eq_nil_iff] at h
    have ht : Derives .body (lexemes (blockClauses table (depth + 1) next t)) :=
      derives_blockClauses h.2.1
    have he : Derives .body
        (lexemes (blockClauses table (depth + 1) (next + t.localCount) e)) :=
      derives_blockClauses h.2.2
    simpa [stmtClauses, lexemes_append, lexemes_cons, lexemes_nil, Clause.lexemes] using
      Derives.ifElse (derives_expr h.1) ht he
  | forRange init limit step b =>
    have hb : Derives .body (lexemes (blockClauses table (depth + 1) (next + 1) b)) :=
      derives_blockClauses (List.append_eq_nil_iff.mp h).2
    have hloop := Derives.loop (isName_variableName .local next) (derives_int init)
      (derives_int limit) (derives_increment step) hb
    simpa [stmtClauses, lexemes_append, lexemes_cons, lexemes_nil, Clause.lexemes, localName] using
      hloop

theorem derives_blockClauses {depth next locals : Nat} {b : Block Stmt}
    (h : (b.issues p func locals).1 = []) :
    Derives .body (lexemes (blockClauses table depth next b)) := by
  cases b with
  | mk ts ss =>
    rw [blockClauses, lexemes_append]
    exact .body (derives_declarations .local derives_local depth next ts) (derives_stmtsClauses h)

theorem derives_stmtsClauses {depth next locals : Nat} {ss : List Stmt}
    (h : (Stmt.issuesOf p func locals ss).1 = []) :
    Derives (.many .statement) (lexemes (stmtsClauses table depth next ss)) := by
  cases ss with
  | nil => exact .nil
  | cons s ss =>
    rw [Stmt.issuesOf_cons, List.append_eq_nil_iff] at h
    rw [stmtsClauses, lexemes_append]
    exact .cons (derives_stmtClauses h.1) (derives_stmtsClauses h.2)

end

theorem derives_funcClauses {f : Func} (hname : IsName f.name) (hbody : f.bodyIssues p = []) :
    Derives .function (lexemes (funcClauses table f)) := by
  have hb : Derives .body (lexemes (blockClauses table 1 f.paramCount f.body)) :=
    derives_blockClauses hbody
  simpa [funcClauses, lexemes_append, lexemes_cons, lexemes_nil, Clause.lexemes] using
    Derives.function hname (derives_params (paramsOf table 0 f.params)) hb

theorem derives_definition {ms : List Ty} (hne : ms ≠ []) :
    Derives .structDefinition (lexemes (definition table ms)) := by
  obtain ⟨t, ts, rfl⟩ := List.exists_cons_of_ne_nil hne
  have hrest : Derives (.many .declaration) (lexemes (memberClauses table 1 ts)) :=
    derives_declarations .member derives_member 1 1 ts
  have hdefinition := Derives.structDefinition (isName_structName (table.idxOf (t :: ts)))
    (derives_member (table.nameOf t) 0) hrest
  have hmembers : lexemes (memberClauses table 0 (t :: ts)) =
      (Clause.member (table.nameOf t) 0).lexemes ++ lexemes (memberClauses table 1 ts) := rfl
  rw [definition, lexemes_append, lexemes_cons, hmembers]
  exact hdefinition

theorem derives_globalClauses {c : Category} (hc : c ≠ .local) (i : Nat) (ts : List Ty) :
    ∀ d ∈ globalClauses table c i ts, Derives .global d.clause.lexemes := by
  intro d hd
  obtain ⟨⟨t, j⟩, -, rfl⟩ := List.mem_map.mp hd
  refine .global ?_ (.declaration (derives_typeName _) (isName_variableName c j))
  cases c with
  | «local» => exact absurd rfl hc
  | _ => decide

end

end Glsl

namespace Program

open Glsl

theorem derives_clauses {p : Program} (h : p.issues = [])
    (hstructs : [] ∉ Ty.structsOf p.declared) (hnames : ∀ f ∈ p.funcs, f.name ∉ reservedWords) :
    Derives .unit (lexemes p.clauses) := by
  have hwell := wellFormed_of_issues h
  have hbodies := bodyIssues_of_issues h
  have hcomplete := StructTable.complete_ofProgram p
  have hdefinitions : Derives (.many .structDefinition)
      (lexemes (definitions (StructTable.ofProgram p))) := by
    rw [definitions, lexemes, List.flatMap_assoc]
    refine derives_many fun ms hms => derives_definition ?_
    rintro rfl
    have hmem := (StructTable.mem_definitionOrder hcomplete).mp hms
    exact hstructs (StructTable.mem_ofProgram.mp hmem)
  have hglobals : Derives (.many .global) (lexemes
      (globalClauses (StructTable.ofProgram p) .uniform 0 p.uniforms ++
        globalClauses (StructTable.ofProgram p) .attribute 0 p.attributes ++
        globalClauses (StructTable.ofProgram p) .varying 0 p.varyings)) := by
    apply derives_many
    simp only [List.forall_mem_append]
    exact ⟨⟨derives_globalClauses (by decide) 0 _, derives_globalClauses (by decide) 0 _⟩,
      derives_globalClauses (by decide) 0 _⟩
  have hfuncs : Derives (.many .function)
      (lexemes (p.funcs.flatMap (funcClauses (StructTable.ofProgram p)))) := by
    rw [lexemes, List.flatMap_assoc]
    exact derives_many fun f hf =>
      derives_funcClauses ⟨hwell.names f hf, hnames f hf⟩ (hbodies f hf)
  have hunit := Derives.unit hdefinitions hglobals hfuncs
  rw [← lexemes_append, ← lexemes_append] at hunit
  simpa [clauses, headClauses] using hunit

end Program

end ShaderTree
