import ShaderTree.Proofs.ClauseText

namespace ShaderTree

namespace Glsl

/-- The character neither ends a line nor is part of the space in front of one. -/
def isInk (c : Char) : Bool := c != '\n' && c != '\t'

def Inked (s : List Char) : Prop := ∀ c ∈ s, isInk c = true

theorem inked_nil : Inked [] := List.forall_mem_nil _

theorem inked_cons {c : Char} {s : List Char} : Inked (c :: s) ↔ isInk c = true ∧ Inked s :=
  List.forall_mem_cons

theorem inked_append {s t : List Char} : Inked (s ++ t) ↔ Inked s ∧ Inked t :=
  List.forall_mem_append

instance (s : List Char) : Decidable (Inked s) :=
  decidable_of_iff (s.all isInk = true) List.all_eq_true

def isBare (c : Char) : Bool := !(['\n', '\t', '(', ')', '{', '}'].contains c)

def Bare (s : List Char) : Prop := ∀ c ∈ s, isBare c = true

instance (s : List Char) : Decidable (Bare s) :=
  decidable_of_iff (s.all isBare = true) List.all_eq_true

theorem isInk_of_isBare {c : Char} (h : isBare c = true) : isInk c = true := by
  rw [isInk, Bool.and_eq_true, bne_iff_ne, bne_iff_ne]
  constructor <;> rintro rfl <;> cases h

theorem Bare.inked {s : List Char} (h : Bare s) : Inked s := fun c hc => isInk_of_isBare (h c hc)

theorem bare_append {s t : List Char} : Bare (s ++ t) ↔ Bare s ∧ Bare t := List.forall_mem_append

theorem isBare_of_class {isIn : Char → Bool}
    (hno : ['\n', '\t', '(', ')', '{', '}'].any isIn = false) {c : Char} (h : isIn c = true) :
    isBare c = true := by
  rw [isBare, Bool.not_eq_true', Bool.eq_false_iff]
  intro hmem
  exact List.any_eq_false.mp hno c (List.contains_iff_mem.mp hmem) h

theorem bare_digits (n : Nat) : Bare (Nat.toDigits 10 n) :=
  fun c hc => isBare_of_class rfl (Parser.isDigit_toDigits n c hc)

theorem bare_indexed {letter : Char} (h : isBare letter = true) (i : Nat) :
    Bare (indexed letter i).toList := by
  rw [indexed_toList]
  exact List.forall_mem_cons.mpr ⟨h, bare_digits i⟩

theorem bare_variableName (c : Category) (i : Nat) : Bare (variableName c i).toList :=
  bare_indexed (by cases c <;> rfl) i

theorem bare_structName (i : Nat) : Bare (structName i).toList := bare_indexed (by rfl) i

theorem bare_memberName (i : Nat) : Bare (memberName i).toList := bare_indexed (by rfl) i

theorem bare_int (i : Int32) : Bare (toString i.toInt).toList := by
  rw [Parser.toList_toString]
  exact bare_append.mpr ⟨by split <;> decide, bare_digits _⟩

theorem bare_typeName (t : TypeName) : Bare t.text.toList := by
  cases t with
  | basic b => cases b <;> decide
  | struct i => exact bare_structName i

theorem bare_number (x : Binary64) : Bare x.glsl.toList :=
  fun c hc => isBare_of_class rfl (isNumberChar_glsl x c hc)

theorem bare_identifier {name : String} (h : ∀ c ∈ name.toList, isIdentifierChar c = true) :
    Bare name.toList :=
  fun c hc => isBare_of_class rfl (h c hc)

theorem bare_token (op : Operator) : Bare op.token.toList := by cases op <;> decide

theorem bare_paramsText (ps : List Param) : Bare (paramsText ps).toList := by
  have hparam (p : Param) : Bare p.text.toList := by
    have hkeyword : Bare p.direction.keyword.toList := by
      cases p.direction <;> decide
    rw [Param.text]
    simp only [String.toList_append, bare_append]
    exact ⟨⟨⟨⟨hkeyword, by decide⟩, bare_typeName p.type⟩, by decide⟩,
      bare_variableName .local p.index⟩
  cases ps with
  | nil => decide
  | cons p ps =>
    rw [paramsText_cons]
    refine bare_append.mpr ⟨hparam p, fun c hc => ?_⟩
    obtain ⟨q, -, hc⟩ := List.mem_flatMap.mp hc
    exact bare_append.mpr ⟨by decide, hparam q⟩ c hc

theorem bare_increment (step : Int32) : Bare (increment step).toList := by
  rw [increment]
  split
  · decide
  · split
    · decide
    · rw [String.toList_append]
      exact bare_append.mpr ⟨by decide, bare_int step⟩

theorem inked_glsl (e : Expr) : Inked e.glsl.toList := by
  induction e with
  | num x => exact (bare_number x).inked
  | var v => exact (bare_variableName v.category v.index.toNat).inked
  | binary op lhs rhs ihl ihr =>
    have htext := toList_glsl_binary op lhs rhs []
    rw [List.append_nil] at htext
    rw [htext]
    simp only [inked_cons, inked_append]
    exact ⟨rfl, ihl, rfl, rfl, (bare_token op).inked, rfl, rfl, ihr, rfl, inked_nil⟩

theorem Clause.inked_text {c : Clause} (hc : c.Plain) : Inked c.text.toList := by
  rw [toList_text, inked_append]
  cases c with
  | structOpen i =>
    simp only [word, rest, inked_cons, inked_append]
    exact ⟨by decide, rfl, (bare_structName i).inked, by decide⟩
  | member t i =>
    simp only [word, rest, inked_cons, inked_append]
    exact ⟨(bare_typeName t).inked, rfl, (bare_memberName i).inked, rfl, inked_nil⟩
  | global c t i =>
    simp only [word, rest, inked_cons, inked_append]
    refine ⟨?_, rfl, (bare_typeName t).inked, rfl, (bare_variableName c i).inked, rfl, inked_nil⟩
    cases c <;> decide
  | funcOpen name ps =>
    simp only [word, rest, inked_cons, inked_append]
    exact ⟨by decide, rfl, (bare_identifier hc).inked, rfl, (bare_paramsText ps).inked, by decide⟩
  | «local» t i =>
    simp only [word, rest, inked_cons, inked_append]
    exact ⟨(bare_typeName t).inked, rfl, (bare_variableName .local i).inked, rfl, inked_nil⟩
  | assign target value =>
    simp only [word, rest, inked_cons, inked_append]
    exact ⟨inked_glsl target, rfl, rfl, rfl, inked_glsl value, rfl, inked_nil⟩
  | ifOpen cond =>
    simp only [word, rest, inked_cons, inked_append]
    exact ⟨by decide, rfl, rfl, inked_glsl cond, by decide⟩
  | forOpen k init limit step =>
    have hk : Inked (localName k).toList := (bare_variableName .local k).inked
    simp only [word, rest, inked_cons, inked_append]
    exact ⟨by decide, rfl, by decide, hk, rfl, by decide, (bare_int init).inked, rfl, rfl, hk,
      by decide, (bare_int limit).inked, rfl, rfl, hk, (bare_increment step).inked, by decide⟩
  | structClose | blockOpen | elseOpen | close =>
    rw [word]
    decide

theorem Clause.text_ne_nil (c : Clause) : c.text.toList ≠ [] := by
  rw [toList_text]
  cases c with
  | structClose | blockOpen | close =>
    rw [word]
    decide
  | _ => exact List.append_ne_nil_of_right_ne_nil _ (List.cons_ne_nil _ _)

def Placed.chars (c : Placed) : List Char := (c.line.indented "\t").toList

def Placed.SameText (c d : Placed) : Prop := c.depth = d.depth ∧ c.clause.SameText d.clause

theorem Placed.chars_eq (c : Placed) :
    c.chars = List.replicate c.depth '\t' ++ c.clause.text.toList := by
  have htab : "\t".toList = ['\t'] := by decide
  have htabs (n : Nat) : (String.join (List.replicate n "\t")).toList = List.replicate n '\t' := by
    induction n with
    | zero => rfl
    | succ n ih =>
      rw [List.replicate_succ, String.join_cons, String.toList_append, ih, htab]
      rfl
  rw [chars, Line.indented, String.toList_append, line, htabs]

theorem toList_text_cons (c : Placed) (cs : List Placed) :
    (text (c :: cs)).toList = c.chars ++ '\n' :: cs.flatMap fun d => d.chars ++ ['\n'] := by
  have hfeed : "\n".toList = ['\n'] := by decide
  have hshift : (cs.flatMap fun d => ['\n'] ++ d.chars) ++ ['\n'] =
      '\n' :: cs.flatMap fun d => d.chars ++ ['\n'] := by
    induction cs with
    | nil => rfl
    | cons d cs ih =>
      rw [List.flatMap_cons, List.flatMap_cons, List.append_assoc, ih, List.append_assoc,
        List.append_assoc]
      rfl
  rw [text, String.toList_append, toList_intercalate, hfeed, List.append_assoc]
  exact congrArg (c.chars ++ ·) hshift

theorem text_eq_feed_iff (cs : List Placed) : text cs = "\n" ↔ cs = [] := by
  constructor
  · intro h
    cases cs with
    | nil => rfl
    | cons c cs =>
      have hl := congrArg List.length (congrArg String.toList h)
      have hfeed : "\n".toList.length = 1 := rfl
      have hpos := List.length_pos_of_ne_nil c.clause.text_ne_nil
      rw [toList_text_cons, Placed.chars_eq, hfeed] at hl
      simp only [List.length_append, List.length_cons] at hl
      omega
  · rintro rfl
    rfl

/-- A line ends at its line feed. -/
theorem Placed.line_unique {c d : Placed} {r r' : List Char} (hc : c.clause.Plain)
    (hd : d.clause.Plain) (h : c.chars ++ '\n' :: r = d.chars ++ '\n' :: r') :
    c.SameText d ∧ r = r' := by
  have hline {e : Placed} (he : e.clause.Plain) : ∀ x ∈ e.chars, (x != '\n') = true := by
    intro x hx
    rw [Placed.chars_eq] at hx
    obtain hx | hx := List.mem_append.mp hx
    · rw [List.eq_of_mem_replicate hx]
      decide
    · exact (Bool.and_eq_true_iff.mp (Clause.inked_text he x hx)).1
  have htext {e : Placed} (he : e.clause.Plain) :
      Parser.Ends (· == '\t') e.clause.text.toList := by
    intro x hx
    have hink := Clause.inked_text he x (List.mem_of_head? hx)
    exact beq_eq_false_iff_ne.mpr (bne_iff_ne.mp (Bool.and_eq_true_iff.mp hink).2)
  have htabs (n : Nat) : ∀ x ∈ List.replicate n '\t', (x == '\t') = true :=
    fun x hx => beq_iff_eq.mpr (List.eq_of_mem_replicate hx)
  obtain ⟨hchars, hrest⟩ := append_unique (hline hc) (hline hd) (Parser.ends_cons rfl)
    (Parser.ends_cons rfl) h
  rw [chars_eq, chars_eq] at hchars
  obtain ⟨hdepth, hclause⟩ := append_unique (htabs _) (htabs _) (htext hc) (htext hd) hchars
  refine ⟨⟨?_, ?_⟩, (List.cons.inj hrest).2⟩
  · simpa only [List.length_replicate] using congrArg List.length hdepth
  · exact Clause.sameText_of_text_eq hc hd (String.toList_inj.mp hclause)

theorem sameText_of_lines {cs ds : List Placed} (hcs : ∀ c ∈ cs, c.clause.Plain)
    (hds : ∀ d ∈ ds, d.clause.Plain)
    (h : (cs.flatMap fun c => c.chars ++ ['\n']) = ds.flatMap fun d => d.chars ++ ['\n']) :
    List.Forall₂ Placed.SameText cs ds := by
  induction cs generalizing ds with
  | nil =>
    cases ds with
    | nil => exact .nil
    | cons d ds => simp at h
  | cons c cs ih =>
    cases ds with
    | nil => simp at h
    | cons d ds =>
      obtain ⟨hc, hcs⟩ := List.forall_mem_cons.mp hcs
      obtain ⟨hd, hds⟩ := List.forall_mem_cons.mp hds
      simp only [List.flatMap_cons, List.append_assoc, List.singleton_append] at h
      obtain ⟨hfirst, hrest⟩ := Placed.line_unique hc hd h
      exact .cons hfirst (ih hcs hds hrest)

/-- A text gives the clauses up to their numbers. -/
theorem sameText_of_text {cs ds : List Placed} (hcs : ∀ c ∈ cs, c.clause.Plain)
    (hds : ∀ d ∈ ds, d.clause.Plain) (h : text cs = text ds) :
    List.Forall₂ Placed.SameText cs ds := by
  cases cs with
  | nil =>
    cases ds with
    | nil => exact .nil
    | cons d ds => cases (text_eq_feed_iff (d :: ds)).mp h.symm
  | cons c cs =>
    cases ds with
    | nil => cases (text_eq_feed_iff (c :: cs)).mp h
    | cons d ds =>
      have hl := congrArg String.toList h
      rw [toList_text_cons, toList_text_cons] at hl
      refine sameText_of_lines hcs hds ?_
      simpa only [List.flatMap_cons, List.append_assoc, List.singleton_append] using hl

end Glsl

end ShaderTree
