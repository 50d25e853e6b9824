import ShaderTree.Proofs.Brackets
import ShaderTree.Proofs.LineText
import ShaderTree.Proofs.Faithful
import ShaderTree.Proofs.Refusal

namespace ShaderTree

def isBracket (c : Char) : Bool := ['(', ')', '{', '}'].contains c

def brackets (s : List Char) : List Char := s.filter isBracket

theorem brackets_append (s t : List Char) : brackets (s ++ t) = brackets s ++ brackets t :=
  List.filter_append s t

theorem brackets_cons (c : Char) (s : List Char) :
    brackets (c :: s) = if isBracket c then c :: brackets s else brackets s := List.filter_cons

theorem brackets_nil : brackets [] = [] := rfl

def Expr.brackets : Expr → List Char
  | num _ | var _ => []
  | binary _ lhs rhs => '(' :: (lhs.brackets ++ [')']) ++ '(' :: (rhs.brackets ++ [')'])

namespace Glsl

theorem brackets_of_bare {s : List Char} (h : Bare s) : brackets s = [] := by
  refine List.filter_eq_nil_iff.mpr fun c hc hbracket => ?_
  have hmem := List.contains_iff_mem.mp hbracket
  simp only [List.mem_cons, List.not_mem_nil, or_false] at hmem
  obtain rfl | rfl | rfl | rfl := hmem <;> cases h _ hc

theorem brackets_glsl (e : Expr) : brackets e.glsl.toList = e.brackets := by
  induction e with
  | num x => exact brackets_of_bare (bare_number x)
  | var v => exact brackets_of_bare (bare_variableName v.category v.index.toNat)
  | binary op lhs rhs ihl ihr =>
    have htext := toList_glsl_binary op lhs rhs []
    rw [List.append_nil] at htext
    simp [htext, brackets_append, brackets_cons, brackets_nil, isBracket, ihl, ihr,
      brackets_of_bare (bare_token op), Expr.brackets]

namespace Clause

def brackets : Clause → List Char
  | structOpen _ | blockOpen => ['{']
  | structClose | close => ['}']
  | elseOpen => ['}', '{']
  | funcOpen _ _ | forOpen _ _ _ _ => ['(', ')', '{']
  | ifOpen cond => '(' :: (cond.brackets ++ [')']) ++ ['{']
  | assign target value => target.brackets ++ value.brackets
  | member _ _ | global _ _ _ | «local» _ _ => []

theorem brackets_text {c : Clause} (hc : c.Plain) :
    ShaderTree.brackets c.text.toList = c.brackets := by
  rw [toList_text]
  cases c with
  | structOpen i =>
    simp [word, rest, brackets_append, brackets_cons, brackets_nil, isBracket, brackets,
      brackets_of_bare (bare_structName i)]
  | member t i =>
    simp [word, rest, brackets_append, brackets_cons, brackets_nil, isBracket, brackets,
      brackets_of_bare (bare_typeName t), brackets_of_bare (bare_memberName i)]
  | global c t i =>
    have hword : Bare (qualifier c).toList := by cases c <;> decide
    simp [word, rest, brackets_append, brackets_cons, brackets_nil, isBracket, brackets,
      brackets_of_bare hword, brackets_of_bare (bare_typeName t),
      brackets_of_bare (bare_variableName c i)]
  | funcOpen name ps =>
    simp [word, rest, brackets_append, brackets_cons, brackets_nil, isBracket, brackets,
      brackets_of_bare (bare_identifier hc), brackets_of_bare (bare_paramsText ps)]
  | «local» t i =>
    simp [word, rest, brackets_append, brackets_cons, brackets_nil, isBracket, brackets,
      brackets_of_bare (bare_typeName t), localName, brackets_of_bare (bare_variableName .local i)]
  | assign target value =>
    simp [word, rest, brackets_append, brackets_cons, brackets_nil, isBracket, brackets,
      brackets_glsl]
  | ifOpen cond =>
    simp [word, rest, brackets_append, brackets_cons, brackets_nil, isBracket, brackets,
      brackets_glsl]
  | forOpen k init limit step =>
    simp only [word, rest, brackets_append, brackets_cons, localName,
      brackets_of_bare (bare_variableName .local k), brackets_of_bare (bare_int init),
      brackets_of_bare (bare_int limit), brackets_of_bare (bare_increment step)]
    rfl
  | structClose | blockOpen | elseOpen | close =>
    rw [word]
    rfl

def closes : Clause → Nat
  | structClose | elseOpen | close => 1
  | _ => 0

def opens : Clause → Nat
  | structOpen _ | funcOpen _ _ | blockOpen | ifOpen _ | elseOpen | forOpen _ _ _ _ => 1
  | _ => 0

end Clause

end Glsl

theorem Expr.brace_not_mem_brackets (e : Expr) : '{' ∉ e.brackets ∧ '}' ∉ e.brackets := by
  induction e with
  | num x => exact ⟨nofun, nofun⟩
  | var v => exact ⟨nofun, nofun⟩
  | binary op lhs rhs ihl ihr => simp [brackets, ihl, ihr]

theorem Expr.isNested_brackets (e : Expr) : IsNested '(' ')' e.brackets := by
  induction e with
  | num x => exact .of_not_mem nofun nofun
  | var v => exact .of_not_mem nofun nofun
  | binary op lhs rhs ihl ihr => exact (ihl.wrap (by decide)).append (ihr.wrap (by decide))

namespace Glsl

namespace Clause

variable {c : Clause}

theorem isNested_brackets (c : Clause) : IsNested '(' ')' c.brackets := by
  have hbraces {s : List Char} (h : s = ['{'] ∨ s = ['}'] ∨ s = ['}', '{'] ∨ s = []) :
      IsNested '(' ')' s := by
    obtain rfl | rfl | rfl | rfl := h <;> exact .of_not_mem (by decide) (by decide)
  have hempty : IsNested '(' ')' [] := hbraces (by simp)
  cases c with
  | funcOpen name ps => exact (hempty.wrap (by decide)).append (hbraces (Or.inl rfl))
  | forOpen k init limit step => exact (hempty.wrap (by decide)).append (hbraces (Or.inl rfl))
  | ifOpen cond => exact (cond.isNested_brackets.wrap (by decide)).append (hbraces (Or.inl rfl))
  | assign target value => exact target.isNested_brackets.append value.isNested_brackets
  | _ => exact hbraces (by simp [brackets])

theorem count_brackets (c : Clause) :
    c.brackets.count '{' = c.opens ∧ c.brackets.count '}' = c.closes := by
  have hexpr (e : Expr) : e.brackets.count '{' = 0 ∧ e.brackets.count '}' = 0 :=
    ⟨List.count_eq_zero.mpr e.brace_not_mem_brackets.1,
      List.count_eq_zero.mpr e.brace_not_mem_brackets.2⟩
  cases c <;> simp [brackets, opens, closes, hexpr]

theorem closes_eq (hc : c.Plain) :
    c.closes = if c.text.toList.head? = some '}' then 1 else 0 := by
  have hnone (h : c.closes = 0) : c.text.toList.head? ≠ some '}' := by
    intro hhead
    obtain ⟨s, hs⟩ := List.head?_eq_some_iff.mp hhead
    have hcount := (count_brackets c).2
    rw [← brackets_text hc, hs, ShaderTree.brackets, List.count_filter rfl,
      List.count_cons_self, h] at hcount
    exact Nat.succ_ne_zero _ hcount
  cases c with
  | structClose | elseOpen | close => rfl
  | _ => exact (if_neg (hnone rfl)).symm

theorem getLast?_text (c : Clause) :
    ∃ d, c.text.toList.getLast? = some d ∧ (d = ';' ∨ d = '{' ∨ d = '}') := by
  rw [toList_text]
  cases c <;> simp [word, rest, List.getLast?_append, List.getLast?_cons]

end Clause

/-- The braces along the clauses lead from a depth to a depth. A clause is placed at the depth that
is left when the braces at its beginning are closed. -/
inductive Climbs : Nat → List Placed → Nat → Prop
  | nil {d : Nat} : Climbs d [] d
  | cons {c : Placed} {cs : List Placed} {d : Nat}
    (hcs : Climbs (c.depth + c.clause.opens) cs d) : Climbs (c.depth + c.clause.closes) (c :: cs) d

namespace Climbs

variable {d e k : Nat} {c : Placed} {cs ds : List Placed}

theorem single (c : Placed) :
    Climbs (c.depth + c.clause.closes) [c] (c.depth + c.clause.opens) := .cons .nil

theorem append (hcs : Climbs d cs e) (hds : Climbs e ds k) : Climbs d (cs ++ ds) k := by
  induction hcs with
  | nil => exact hds
  | cons _ ih => exact .cons (ih hds)

/-- In front of a clause the braces lead to its depth and those it closes. -/
theorem front (h : Climbs d (cs ++ c :: ds) e) : Climbs d cs (c.depth + c.clause.closes) := by
  induction cs generalizing d with
  | nil =>
    cases h with
    | cons _ => exact .nil
  | cons b cs ih =>
    cases h with
    | cons hrest => exact .cons (ih hrest)

theorem flat (h : ∀ c ∈ cs, c.depth = d ∧ c.clause.opens = 0 ∧ c.clause.closes = 0) :
    Climbs d cs d := by
  induction cs with
  | nil => exact .nil
  | cons c cs ih =>
    obtain ⟨⟨rfl, hopens, hcloses⟩, hcs⟩ := List.forall_mem_cons.mp h
    have hfirst := single c
    rw [hopens, hcloses] at hfirst
    exact hfirst.append (ih hcs)

theorem flatMap {α : Type} {f : α → List Placed} (as : List α) (h : ∀ a ∈ as, Climbs d (f a) d) :
    Climbs d (as.flatMap f) d := by
  induction as with
  | nil => exact .nil
  | cons a as ih =>
    obtain ⟨ha, has⟩ := List.forall_mem_cons.mp h
    exact ha.append (ih has)

theorem braced {opening closing : Clause} (hopening : opening.closes = 0 ∧ opening.opens = 1)
    (hclosing : closing.closes = 1 ∧ closing.opens = 0) (h : Climbs (d + 1) cs (d + 1)) :
    Climbs d (⟨d, opening⟩ :: cs ++ [⟨d, closing⟩]) d := by
  have hfirst := Climbs.single ⟨d, opening⟩
  have hlast := Climbs.single ⟨d, closing⟩
  rw [hopening.1, hopening.2] at hfirst
  rw [hclosing.1, hclosing.2] at hlast
  exact (hfirst.append h).append hlast

theorem declarations (clause : TypeName → Nat → Clause)
    (h : ∀ n i, (clause n i).opens = 0 ∧ (clause n i).closes = 0) (table : StructTable)
    (d i : Nat) (ts : List Ty) :
    Climbs d ((ts.zipIdx i).map fun (t, j) => ⟨d, clause (table.nameOf t) j⟩) d := by
  refine flat fun c hc => ?_
  obtain ⟨⟨t, j⟩, -, rfl⟩ := List.mem_map.mp hc
  exact ⟨rfl, h _ _⟩

end Climbs

section

variable (table : StructTable)

mutual

theorem climbs_stmtClauses (depth next : Nat) (s : Stmt) :
    Climbs depth (stmtClauses table depth next s) depth := by
  cases s with
  | block b => exact .braced ⟨rfl, rfl⟩ ⟨rfl, rfl⟩ (climbs_blockClauses (depth + 1) next b)
  | assign target value => exact .single ⟨depth, .assign target value⟩
  | ifElse cond t e =>
    have hthen := climbs_blockClauses (depth + 1) next t
    have helse := climbs_blockClauses (depth + 1) (next + t.localCount) e
    have hcases := (hthen.append (.single ⟨depth, .elseOpen⟩)).append helse
    rw [List.append_assoc] at hcases
    exact .braced ⟨rfl, rfl⟩ ⟨rfl, rfl⟩ hcases
  | forRange init limit step b =>
    exact .braced ⟨rfl, rfl⟩ ⟨rfl, rfl⟩ (climbs_blockClauses (depth + 1) (next + 1) b)

theorem climbs_blockClauses (depth next : Nat) (b : Block Stmt) :
    Climbs depth (blockClauses table depth next b) depth := by
  cases b with
  | mk ts ss =>
    exact (Climbs.declarations .local (fun _ _ => ⟨rfl, rfl⟩) table depth next ts).append
      (climbs_stmtsClauses depth (next + ts.length) ss)

theorem climbs_stmtsClauses (depth next : Nat) (ss : List Stmt) :
    Climbs depth (stmtsClauses table depth next ss) depth := by
  cases ss with
  | nil => exact .nil
  | cons s ss =>
    exact (climbs_stmtClauses depth next s).append
      (climbs_stmtsClauses depth (next + s.localCount) ss)

end

theorem climbs_funcClauses (f : Func) : Climbs 0 (funcClauses table f) 0 :=
  .braced ⟨rfl, rfl⟩ ⟨rfl, rfl⟩ (climbs_blockClauses table 1 f.paramCount f.body)

theorem climbs_definition (ms : List Ty) : Climbs 0 (definition table ms) 0 :=
  .braced ⟨rfl, rfl⟩ ⟨rfl, rfl⟩ (.declarations .member (fun _ _ => ⟨rfl, rfl⟩) table 1 0 ms)

theorem climbs_headClauses (p : Program) : Climbs 0 (headClauses table p) 0 := by
  have hdefinitions : Climbs 0 (definitions table) 0 :=
    Climbs.flatMap _ fun ms _ => climbs_definition table ms
  have hglobals (c : Category) (ts : List Ty) : Climbs 0 (globalClauses table c 0 ts) 0 :=
    Climbs.declarations (.global c) (fun _ _ => ⟨rfl, rfl⟩) table 0 0 ts
  exact ((hdefinitions.append (hglobals _ _)).append (hglobals _ _)).append (hglobals _ _)

end

theorem climbs_clauses (p : Program) : Climbs 0 p.clauses 0 :=
  (climbs_headClauses _ p).append (Climbs.flatMap _ fun f _ => climbs_funcClauses _ f)

/-- The braces that the text opens, less those that it closes. -/
def braceDepth (s : List Char) : Int := s.count '{' - s.count '}'

def indentation (line : List Char) : Nat := (line.takeWhile (· == '\t')).length

/-- Each line has a tab for each brace that is open where the line begins, less the one that is
closed at its beginning. -/
structure IsIndented (ls : List (List Char)) : Prop where
  braces : IsNested '{' '}' ls.flatten
  parens : ∀ line ∈ ls, IsNested '(' ')' line
  tabs : ∀ before line after, ls = before ++ line :: after →
    (indentation line : Int) = braceDepth before.flatten -
      if (line.drop (indentation line)).head? = some '}' then 1 else 0

variable {c : Placed} {cs : List Placed}

theorem brackets_chars (hc : c.clause.Plain) : brackets c.chars = c.clause.brackets := by
  have htabs : brackets (List.replicate c.depth '\t') = [] :=
    List.filter_replicate_of_neg (by decide)
  rw [Placed.chars_eq, brackets_append, htabs, Clause.brackets_text hc, List.nil_append]

theorem count_chars (hc : c.clause.Plain) :
    c.chars.count '{' = c.clause.opens ∧ c.chars.count '}' = c.clause.closes := by
  have hcount := c.clause.count_brackets
  rw [← brackets_chars hc] at hcount
  exact hcount.imp (List.count_filter rfl).symm.trans (List.count_filter rfl).symm.trans

theorem indentation_chars (hc : c.clause.Plain) :
    indentation c.chars = c.depth ∧ c.chars.drop c.depth = c.clause.text.toList := by
  have hhead : c.clause.text.toList.takeWhile (· == '\t') = [] := by
    cases htext : c.clause.text.toList with
    | nil => rfl
    | cons d s =>
      have hink := Clause.inked_text hc
      rw [htext] at hink
      refine List.takeWhile_cons_of_neg ?_
      rintro htab
      cases (beq_iff_eq.mp htab) ▸ (inked_cons.mp hink).1
  constructor
  · rw [indentation, Placed.chars_eq, List.takeWhile_append_of_pos, hhead, List.append_nil,
      List.length_replicate]
    exact fun d hd => beq_iff_eq.mpr (List.eq_of_mem_replicate hd)
  · rw [Placed.chars_eq]
    exact List.drop_left' List.length_replicate

namespace Climbs

variable {d e : Nat}

theorem count (h : Climbs d cs e) (hplain : AllPlain cs) :
    d + (cs.map Placed.chars).flatten.count '{' = e + (cs.map Placed.chars).flatten.count '}' := by
  induction h with
  | nil => rfl
  | cons _ ih =>
    obtain ⟨hc, hcs⟩ := allPlain_cons.mp hplain
    have hrest := ih hcs
    obtain ⟨hopens, hcloses⟩ := count_chars hc
    rw [List.map_cons, List.flatten_cons, List.count_append, List.count_append, hopens, hcloses]
    omega

theorem above (h : Climbs d cs e) (hplain : AllPlain cs) (front : List Char)
    (hfront : front <+: (cs.map Placed.chars).flatten) :
    front.count '}' ≤ d + front.count '{' := by
  induction h generalizing front with
  | nil => simp [List.prefix_nil.mp hfront]
  | @cons c cs d _ ih =>
    obtain ⟨hc, hcs⟩ := allPlain_cons.mp hplain
    obtain ⟨hopens, hcloses⟩ := count_chars hc
    obtain hline | ⟨u, rfl⟩ := List.prefix_or_prefix_of_prefix hfront (List.prefix_append c.chars _)
    · have hle := hline.count_le '}'
      omega
    · have hu := ih hcs u ((List.prefix_append_right_inj c.chars).mp hfront)
      rw [List.count_append, List.count_append, hopens, hcloses]
      omega

end Climbs

theorem isIndented_chars (h : Climbs 0 cs 0) (hplain : AllPlain cs) :
    IsIndented (cs.map Placed.chars) where
  braces := by
    refine ⟨fun front hfront => ?_, ?_⟩
    · have habove := h.above hplain front hfront
      rwa [Nat.zero_add] at habove
    · have hcount := h.count hplain
      rwa [Nat.zero_add, Nat.zero_add] at hcount
  parens := by
    intro line hline
    obtain ⟨c, hc, rfl⟩ := List.mem_map.mp hline
    have hnested := c.clause.isNested_brackets
    rw [← brackets_chars (hplain c hc)] at hnested
    exact hnested.of_filter rfl rfl
  tabs := by
    intro before line after hsplit
    obtain ⟨bs, ds, rfl, rfl, hds⟩ := List.map_eq_append_iff.mp hsplit
    obtain ⟨c, as, rfl, rfl, rfl⟩ := List.map_eq_cons_iff.mp hds
    obtain ⟨hbs, hc, -⟩ := (allPlain_append.mp hplain).imp_right allPlain_cons.mp
    obtain ⟨htabs, hdrop⟩ := indentation_chars hc
    have hcount := h.front.count hbs
    have hcloses : (if c.clause.text.toList.head? = some '}' then 1 else 0 : Int) =
        c.clause.closes := by
      rw [Clause.closes_eq hc]
      split <;> rfl
    rw [htabs, hdrop, hcloses, braceDepth]
    omega

theorem getLast?_chars (c : Placed) :
    ∃ d, c.chars.getLast? = some d ∧ Text.isWhiteSpace d = false := by
  obtain ⟨d, hd, hmark⟩ := c.clause.getLast?_text
  refine ⟨d, ?_, ?_⟩
  · rw [Placed.chars_eq, List.getLast?_append, hd, Option.some_or]
  · obtain rfl | rfl | rfl := hmark <;> decide

theorem feed_not_mem_chars (hc : c.clause.Plain) : '\n' ∉ c.chars := by
  rw [Placed.chars_eq, List.mem_append]
  rintro (htab | htext)
  · cases List.eq_of_mem_replicate htab
  · cases Clause.inked_text hc _ htext

/-- The text of some clauses is their lines, each with its end. -/
theorem toList_text (hne : cs ≠ []) :
    (text cs).toList = (cs.map Placed.chars).flatMap (· ++ ['\n']) := by
  obtain ⟨c, cs, rfl⟩ := List.exists_cons_of_ne_nil hne
  rw [toList_text_cons, List.flatMap_map, List.flatMap_cons, List.append_assoc]
  rfl

theorem lines_text (hne : cs ≠ []) (hplain : AllPlain cs) :
    Text.lines (text cs).toList = cs.map Placed.chars := by
  rw [toList_text hne]
  clear hne
  induction cs with
  | nil => rfl
  | cons c cs ih =>
    obtain ⟨hc, hcs⟩ := allPlain_cons.mp hplain
    have hreturn : c.chars.getLast? ≠ some '\r' := by
      obtain ⟨d, hd, hspace⟩ := getLast?_chars c
      intro hr
      cases hd.symm.trans hr
      cases hspace
    rw [List.map_cons, List.flatMap_cons, List.append_assoc]
    exact (Text.lines_append_feed (feed_not_mem_chars hc) hreturn).trans
      (congrArg (c.chars :: ·) (ih hcs))

theorem exists_toList_text (cs : List Placed) :
    ∃ body, (text cs).toList = body ++ ['\n'] ∧ body.getLast? ≠ some '\n' := by
  obtain rfl | ⟨cs, c, rfl⟩ := List.eq_nil_or_concat cs
  · exact ⟨[], rfl, nofun⟩
  · obtain ⟨d, hd, hspace⟩ := getLast?_chars c
    refine ⟨(cs.map Placed.chars).flatMap (· ++ ['\n']) ++ c.chars, ?_, ?_⟩
    · rw [toList_text (by simp)]
      simp
    · rw [List.getLast?_append, hd, Option.some_or]
      rintro ⟨rfl⟩
      cases hspace

theorem isIndented_blank : IsIndented [[]] where
  braces := .of_not_mem nofun nofun
  parens := List.forall_mem_singleton.mpr (.of_not_mem nofun nofun)
  tabs := by
    intro before line after hsplit
    obtain ⟨rfl, hline⟩ | ⟨rfl, hline⟩ := List.append_eq_singleton_iff.mp hsplit.symm
    · cases hline
      rfl
    · cases hline

end Glsl

namespace Program

open Glsl

variable {p : Program}

theorem clauses_eq_nil_iff : p.clauses = [] ↔ p.isEmpty = true := by
  obtain ⟨us, as, vs, fs⟩ := p
  simp only [isEmpty, Bool.and_eq_true, List.isEmpty_iff]
  constructor
  · intro h
    have hglobals {table : StructTable} {c : Category} {ts : List Ty}
        (h : globalClauses table c 0 ts = []) : ts = [] := by
      simpa [globalClauses] using h
    simp only [clauses, headClauses, List.append_eq_nil_iff] at h
    obtain ⟨⟨⟨⟨-, hus⟩, has⟩, hvs⟩, hfs⟩ := h
    refine ⟨⟨⟨hglobals hus, hglobals has⟩, hglobals hvs⟩, ?_⟩
    cases fs with
    | nil => rfl
    | cons f fs => cases (List.append_eq_nil_iff.mp hfs).1
  · rintro ⟨⟨⟨rfl, rfl⟩, rfl⟩, rfl⟩
    rfl

/-- The text of a program without issues is indented by its braces. It ends in one line feed, and no
line of it is blank or ends in white space unless the program is empty. -/
theorem rendered_indented (h : p.issues = []) :
    ∃ text, p.render = .ok text ∧
      (∃ body, text.toList = body ++ ['\n'] ∧ body.getLast? ≠ some '\n') ∧
      (text = "\n" ↔ p.isEmpty = true) ∧
      text.toList = (Text.lines text.toList).flatMap (· ++ ['\n']) ∧
      (p.isEmpty = false → ∀ line ∈ Text.lines text.toList,
        ∃ c, line.getLast? = some c ∧ Text.isWhiteSpace c = false) ∧
      IsIndented (Text.lines text.toList) := by
  have hplain : AllPlain p.clauses := allPlain_clauses h
  have hempty : text p.clauses = "\n" ↔ p.isEmpty = true :=
    (text_eq_feed_iff p.clauses).trans clauses_eq_nil_iff
  refine ⟨_, render_of_issues h, exists_toList_text p.clauses, hempty, ?_⟩
  by_cases hnil : p.clauses = []
  · have hno : ¬p.isEmpty = false := by simp [clauses_eq_nil_iff.mp hnil]
    rw [hnil]
    exact ⟨rfl, fun hne => absurd hne hno, isIndented_blank⟩
  · rw [lines_text hnil hplain]
    refine ⟨toList_text hnil, fun _ line hline => ?_, isIndented_chars (climbs_clauses p) hplain⟩
    obtain ⟨c, -, rfl⟩ := List.mem_map.mp hline
    exact getLast?_chars c

def branchInLoop : Program where
  uniforms := [.struct [.basic .float]]
  varyings := [.basic .float]
  funcs := [{
    name := "main"
    body := ⟨[], [.forRange 0 4 1 ⟨[],
      [.ifElse (.var ⟨.local, 0⟩) ⟨[], [.assign (.var ⟨.varying, 0⟩) (.var ⟨.local, 0⟩)]⟩ {}]⟩]⟩ }]

def branchInLoopText : String :=
  "struct S0 \x7b\n\tfloat M0;\n\x7d;\nuniform S0 U0;\nvarying float V0;\nvoid main(void) \x7b\n" ++
    "\tfor (int l0 = 0; l0 < 4; l0++) \x7b\n\t\tif (l0) \x7b\n\t\t\tV0 = l0;\n" ++
    "\t\t\x7d else \x7b\n\t\t\x7d\n\t\x7d\n\x7d\n"

theorem branchInLoop_indented : branchInLoop.issues = [] ∧
    branchInLoop.render = .ok branchInLoopText ∧
      IsIndented (Text.lines branchInLoopText.toList) := by
  have h : branchInLoop.issues = [] := by decide
  have hrender : branchInLoop.render = .ok branchInLoopText := by rfl
  obtain ⟨text, htext, -, -, -, -, hindented⟩ := rendered_indented h
  obtain rfl : branchInLoopText = text := Except.ok.inj (hrender.symm.trans htext)
  exact ⟨h, hrender, hindented⟩

end Program

end ShaderTree
