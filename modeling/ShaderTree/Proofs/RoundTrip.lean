import ShaderTree.Listing.Read
import ShaderTree.Proofs.StmtReading

namespace ShaderTree

def isNameChar (c : Char) : Bool := Text.isAlphanumeric c || c == '_'

/-- The listing of the function can be read. -/
structure Func.Readable (f : Func) : Prop where
  name_ne : f.name ≠ ""
  name_chars : f.name.toList.all isNameChar = true
  nanFree : f.body.nanFree = true

instance (f : Func) : Decidable f.Readable :=
  decidable_of_iff (f.name ≠ "" ∧ f.name.toList.all isNameChar = true ∧ f.body.nanFree = true)
    ⟨fun ⟨hne, hname, hbody⟩ => ⟨hne, hname, hbody⟩, fun ⟨hne, hname, hbody⟩ => ⟨hne, hname, hbody⟩⟩

def Program.Readable (p : Program) : Prop := ∀ f ∈ p.funcs, f.Readable

instance (p : Program) : Decidable p.Readable :=
  inferInstanceAs (Decidable (∀ f ∈ p.funcs, f.Readable))

def Func.Named (f : Func) : Prop := f.name ≠ "" ∧ ∀ c ∈ f.name.toList, isNameChar c = true

theorem Func.Readable.named {f : Func} (h : f.Readable) : f.Named :=
  ⟨h.name_ne, List.all_eq_true.mp h.name_chars⟩

def Func.quiet (f : Func) : Func := { f with body := f.body.quiet }

def Program.quiet (p : Program) : Program := { p with funcs := p.funcs.map Func.quiet }

theorem Func.quiet_eq_self {f : Func} (h : f.Readable) : f.quiet = f := by
  rw [quiet, Block.quiet_eq_self h.nanFree]

theorem Program.quiet_eq_self {p : Program} (h : p.Readable) : p.quiet = p := by
  have hfuncs : p.funcs.map Func.quiet = p.funcs.map id :=
    List.map_congr_left fun f hf => Func.quiet_eq_self (h f hf)
  rw [quiet, hfuncs, List.map_id]

theorem toList_intercalate {α : Type} (between : String) (text : α → String) (a : α)
    (as : List α) :
    (between.intercalate ((a :: as).map text)).toList =
      (text a).toList ++ as.flatMap fun b => between.toList ++ (text b).toList := by
  induction as generalizing a with
  | nil => rw [List.map_singleton, String.intercalate_singleton, List.flatMap_nil, List.append_nil]
  | cons b bs ih =>
    have hcons := ih b
    rw [List.map_cons] at hcons
    rw [List.map_cons, List.map_cons, String.intercalate_cons_cons, String.toList_append,
      String.toList_append, hcons, List.flatMap_cons, List.append_assoc, List.append_assoc]

namespace Parser

variable {r s : List Char} {depth : Nat}

theorem inOrder_of_pairwise {ps : List (Direction × Ty)}
    (h : ps.Pairwise fun a b => a.1.rank ≤ b.1.rank) : inOrder ps = true := by
  induction ps with
  | nil => rfl
  | cons a ps ih =>
    obtain ⟨ha, hps⟩ := List.pairwise_cons.mp h
    cases ps with
    | nil => rfl
    | cons b ps =>
      have hab := ha b List.mem_cons_self
      exact Bool.and_eq_true_iff.mpr ⟨decide_eq_true hab, ih hps⟩

theorem inOrder_params (f : Func) : inOrder f.params = true := by
  apply inOrder_of_pairwise
  have hsame (d : Direction) (ts : List Ty) :
      (ts.map (d, ·)).Pairwise fun a b => a.1.rank ≤ b.1.rank :=
    List.pairwise_map.mpr (List.pairwise_of_forall fun _ _ => Nat.le_refl _)
  simp only [Func.params, List.pairwise_append, hsame, true_and, List.mem_append, List.mem_map]
  refine ⟨?_, ?_⟩
  · rintro _ ⟨t, _, rfl⟩ _ _
    exact Nat.zero_le _
  · rintro _ (⟨t, _, rfl⟩ | ⟨t, _, rfl⟩) _ ⟨u, _, rfl⟩
    · exact Nat.zero_le _
    · exact Nat.le_succ 1

theorem typesOf_map (d e : Direction) (ts : List Ty) :
    typesOf d (ts.map (e, ·)) = if e = d then ts else [] := by
  rw [typesOf]
  split
  next h =>
    have hall : (ts.map (e, ·)).filter (·.1 == d) = ts.map (e, ·) := by
      rw [List.filter_eq_self]
      rintro _ hp
      obtain ⟨t, -, rfl⟩ := List.mem_map.mp hp
      exact beq_iff_eq.mpr h
    rw [hall, List.map_map]
    exact List.map_id ts
  next h =>
    have hnone : (ts.map (e, ·)).filter (·.1 == d) = [] := by
      rw [List.filter_eq_nil_iff]
      rintro _ hp
      obtain ⟨t, -, rfl⟩ := List.mem_map.mp hp
      exact fun hed => h (beq_iff_eq.mp hed)
    rw [hnone]
    rfl

theorem typesOf_append (d : Direction) (ps qs : List (Direction × Ty)) :
    typesOf d (ps ++ qs) = typesOf d ps ++ typesOf d qs := by
  unfold typesOf
  rw [List.filter_append, List.map_append]

theorem typesOf_params (f : Func) :
    typesOf .in f.params = f.inParams ∧ typesOf .inout f.params = f.inoutParams ∧
      typesOf .out f.params = f.outParams := by
  simp [Func.params, typesOf_append, typesOf_map]

theorem param_done (p : Direction × Ty) (r : List Char) :
    param ((Func.paramText p).toList ++ r) = .done p r := by
  obtain ⟨d, t⟩ := p
  have htext : (Func.paramText (d, t)).toList ++ r =
      d.keyword.toList ++ ' ' :: (t.text.toList ++ r) := by
    simp [Func.paramText]
  have hdirection (u : List Char) : firstOf .keyword (fun d : Direction => d.keyword.toList)
      [.inout, .in, .out] (d.keyword.toList ++ ' ' :: u) = .done d (' ' :: u) := by
    cases d <;> rfl
  rw [param, htext, bind_done (lexeme_done (hdirection _)), t.solid_text.append.skipBlank_space,
    bind_done (ty_done t r)]
  rfl

theorem solid_paramText (p : Direction × Ty) : Solid (Func.paramText p).toList := by
  obtain ⟨d, t⟩ := p
  have hword : Solid d.keyword.toList := by cases d <;> exact solid_cons rfl
  rw [Func.paramText, String.toList_append, String.toList_append]
  exact hword.append.append

theorem paramList_done (ps : List (Direction × Ty)) :
    sepBy (lexeme (symbol ',')) (lexeme param)
      (skipBlank ((", ".intercalate (ps.map Func.paramText)).toList ++ ')' :: r)) =
        .done ps (')' :: r) := by
  have hclose : Solid (')' :: r) := solid_cons rfl
  cases ps with
  | nil =>
    have hnone : Declines (lexeme param) (')' :: r) := ⟨_, rfl⟩
    have htext : (", ".intercalate (([] : List (Direction × Ty)).map Func.paramText)).toList ++
      ')' :: r = ')' :: r := rfl
    rw [htext, hclose.skipBlank_eq]
    exact sepBy_nil hnone
  | cons p ps =>
    have hdone := sepBy_done (fun p => (Func.paramText p).toList) p ps
      (r := ')' :: r) (fun n => (alike_param n).lexeme) (fun q _ => solid_paramText q)
      (fun q _ t => lexeme_done (param_done q t)) (by rw [hclose.skipBlank_eq]; simp)
    rw [hclose.skipBlank_eq] at hdone
    rw [toList_intercalate, List.append_assoc, (solid_paramText p).append.skipBlank_eq]
    exact hdone

theorem params_done {f : Func} :
    params ('(' :: ((", ".intercalate (f.params.map Func.paramText)).toList ++ ')' :: r)) =
      .done f.params r := by
  refine accept_done (a := f.params) ?_ (if_pos (inOrder_params f))
  rw [bind_done (lexeme_done symbol_done), bind_done (paramList_done f.params),
    bind_done symbol_done]
  rfl

theorem funcName_done {name : String} (hne : name ≠ "")
    (hname : ∀ c ∈ name.toList, isNameChar c = true) (hr : Ends isNameChar r) :
    funcName ('@' :: (name.toList ++ r)) = .done name r := by
  have hchars : name.toList ≠ [] := fun h => hne (String.toList_eq_nil_iff.mp h)
  have hspan : span .name (fun c => Text.isAlphanumeric c || c == '_') (name.toList ++ r) =
      .done name.toList r := span_done hchars hname hr
  rw [funcName, bind_done symbol_done, bind_done hspan, String.ofList_toList]
  rfl

theorem skipBlank_func (f : Func) :
    skipBlank (linesChars (f.lines depth) ++ s) =
      "func".toList ++ ' ' :: '@' :: (f.name.toList ++
        '(' :: ((", ".intercalate (f.params.map Func.paramText)).toList ++
          ')' :: ' ' :: '{' :: '\n' ::
            (linesChars (f.body.lines (depth + 1)) ++ (Line.chars ⟨depth, "\x7d"⟩ ++ s)))) := by
  have hfunc : "func @".toList = "func".toList ++ [' ', '@'] := by decide
  have hopen : "(".toList = ['('] := by decide
  have hclose : ") \x7b".toList = [')', ' ', '{'] := by decide
  have hsolid : Solid ("func @" ++ f.name ++ "(" ++
      ", ".intercalate (f.params.map Func.paramText) ++ ") \x7b").toList := by
    have hword : Solid "func @".toList := solid_cons rfl
    simp only [String.toList_append, List.append_assoc]
    exact hword.append
  simp only [Func.lines, linesChars_append, linesChars_cons, linesChars_nil, List.append_assoc,
    List.append_nil]
  apply (skipBlank_line (l := ⟨depth, _⟩) hsolid).trans
  simp only [String.toList_append, hfunc, hopen, hclose, List.append_assoc, List.cons_append,
    List.nil_append]

theorem func_done {f : Func} (hf : f.Named) (depth : Nat) (s : List Char) :
    func (skipBlank (linesChars (f.lines depth) ++ s)) = .done f.quiet ('\n' :: s) := by
  have hat {u : List Char} : Solid ('@' :: u) := solid_cons rfl
  have hparams {u : List Char} : Solid ('(' :: u) := solid_cons rfl
  have hbrace {u : List Char} : Solid ('{' :: u) := solid_cons rfl
  have hname {u : List Char} := funcName_done (r := '(' :: u) hf.1 hf.2 (ends_cons rfl)
  obtain ⟨hin, hinout, hout⟩ := typesOf_params f
  rw [skipBlank_func, func, bind_done (lexeme_done keyword_done), hat.skipBlank_space]
  apply commit_done
  rw [bind_done (lexeme_done hname), hparams.skipBlank_eq, bind_done (lexeme_done params_done),
    hbrace.skipBlank_space, bind_done (readsBody f.body _ _ _ skipBlank_close), hin,
    hinout, hout]
  rfl

theorem funcs_done {fs : List Func} (hfs : ∀ f ∈ fs, f.Named) (hs : skipBlank s = '}' :: r) :
    many (lexeme func) (skipBlank (linesChars (fs.flatMap (Func.lines 1)) ++ s)) =
      .done (fs.map Func.quiet) (skipBlank s) := by
  have hlines : linesChars (fs.flatMap (Func.lines 1)) =
      fs.flatMap fun f => linesChars (f.lines 1) := List.flatMap_assoc
  have hend : Declines (lexeme func) (skipBlank s) := by
    rw [hs]
    exact (declines_keyword rfl).lexeme.bind.lexeme
  rw [hlines]
  exact many_flatMap_map (fun n => (alike_func n).lexeme)
    (fun f hf t => lexeme_line (func_done (hfs f hf) 1 t)) hend

theorem globals_done (word : String) (ts : List Ty) (hword : Solid word.toList)
    (hs : strip? word.toList (skipBlank s) = none) :
    many (globalDecl word) (skipBlank (linesChars (globalLines word ts) ++ s)) =
      .done ts (skipBlank s) := by
  have hspace : " ".toList = [' '] := by decide
  refine decls_done word hword (fun t => ?_) hs
  rw [String.toList_append, String.toList_append, hspace, List.append_assoc]
  rfl

theorem strip?_globals {word other : String} (ts : List Ty) (hother : Solid other.toList)
    (hne : ∀ u, strip? word.toList (other.toList ++ u) = none)
    (hs : strip? word.toList (skipBlank s) = none) :
    strip? word.toList (skipBlank (linesChars (globalLines other ts) ++ s)) = none := by
  cases ts with
  | nil => exact hs
  | cons t ts =>
    have hlines : globalLines other (t :: ts) =
        ⟨1, other ++ " " ++ t.text⟩ :: globalLines other ts := rfl
    have htext : (other ++ " " ++ t.text).toList = other.toList ++ ' ' :: t.text.toList := by simp
    have hsolid : Solid (other ++ " " ++ t.text).toList := by
      rw [htext]
      exact hother.append
    rw [hlines, linesChars_cons, List.append_assoc, skipBlank_line (l := ⟨1, _⟩) hsolid]
    dsimp only
    rw [htext, List.append_assoc]
    exact hne _

theorem strip?_funcs {word : String} (fs : List Func)
    (hfunc : ∀ u, strip? word.toList ("func".toList ++ u) = none)
    (hs : strip? word.toList (skipBlank s) = none) :
    strip? word.toList (skipBlank (linesChars (fs.flatMap (Func.lines 1)) ++ s)) = none := by
  cases fs with
  | nil => exact hs
  | cons f fs =>
    rw [List.flatMap_cons, linesChars_append, List.append_assoc, skipBlank_func]
    exact hfunc _

theorem skipBlank_program (p : Program) :
    skipBlank (linesChars p.lines ++ s) = "program".toList ++ ' ' :: '{' :: '\n' ::
      (linesChars (globalLines "uniform" p.uniforms) ++
        (linesChars (globalLines "attribute" p.attributes) ++
          (linesChars (globalLines "varying" p.varyings) ++
            (linesChars (p.funcs.flatMap (Func.lines 1)) ++ (Line.chars ⟨0, "\x7d"⟩ ++ s))))) := by
  have hopen : "program \x7b".toList = "program".toList ++ [' ', '{'] := by decide
  have hsolid : Solid "program \x7b".toList := solid_cons rfl
  simp only [Program.lines, linesChars_append, linesChars_cons, linesChars_nil, List.append_assoc,
    List.append_nil]
  apply (skipBlank_line (l := ⟨0, "program \x7b"⟩) hsolid).trans
  simp only [hopen, List.append_assoc, List.cons_append, List.nil_append]

theorem program_done {p : Program} (hp : ∀ f ∈ p.funcs, f.Named) (s : List Char) :
    program (skipBlank (linesChars p.lines ++ s)) = .done p.quiet (skipBlank s) := by
  have hbrace {u : List Char} : Solid ('{' :: u) := solid_cons rfl
  have hclose : skipBlank (Line.chars ⟨0, "\x7d"⟩ ++ s) = '}' :: '\n' :: s := skipBlank_close
  have hnone {word : String} (h : ∀ u, strip? word.toList ('}' :: u) = none) :
      strip? word.toList (skipBlank (Line.chars ⟨0, "\x7d"⟩ ++ s)) = none := by
    rw [hclose]
    exact h _
  have hattribute : Solid "attribute".toList := solid_cons rfl
  have hvarying : Solid "varying".toList := solid_cons rfl
  -- each kind of declaration ends where those of a later kind, the functions or the brace follow
  have huniforms := globals_done "uniform" p.uniforms (solid_cons rfl) <|
    strip?_globals p.attributes hattribute (fun _ => rfl) <|
    strip?_globals p.varyings hvarying (fun _ => rfl) <|
    strip?_funcs p.funcs (fun _ => rfl) (hnone fun _ => rfl)
  have hattributes := globals_done "attribute" p.attributes hattribute <|
    strip?_globals p.varyings hvarying (fun _ => rfl) <|
    strip?_funcs p.funcs (fun _ => rfl) (hnone fun _ => rfl)
  have hvaryings := globals_done "varying" p.varyings hvarying <|
    strip?_funcs p.funcs (fun _ => rfl) (hnone fun _ => rfl)
  have hfuncs := funcs_done hp hclose
  rw [skipBlank_program, program, bind_done (lexeme_done keyword_done), hbrace.skipBlank_space,
    bind_done (lexeme_done symbol_done), skipBlank_newline, bind_done huniforms,
    bind_done hattributes, bind_done hvaryings, bind_done hfuncs, hclose,
    bind_done (lexeme_line symbol_done)]
  rfl

theorem readAll_done {α : Type} {p : Parser α} {a : α} (h : p (skipBlank s) = .done a r)
    (hr : skipBlank r = []) : readAll p s = .ok a := by
  rw [readAll, lexeme_done h, hr]

end Parser

/-- A listing with names that can be read is read as the program it was printed from, up to the
identity of NaNs. -/
theorem Program.parse_listing_of_named {p : Program} (hp : ∀ f ∈ p.funcs, f.Named) :
    Program.parse p.listing = .ok p.quiet := by
  have hread := Parser.program_done hp []
  rw [List.append_nil, Parser.skipBlank_nil] at hread
  rw [parse, listing, toList_listing]
  exact Parser.readAll_done hread Parser.skipBlank_nil

theorem Func.parse_listing_of_named {f : Func} (hf : f.Named) :
    Func.parse f.listing = .ok f.quiet := by
  have hread := Parser.func_done hf 0 []
  have hend : skipBlank ['\n'] = [] := Parser.skipBlank_newline.trans Parser.skipBlank_nil
  rw [List.append_nil] at hread
  rw [parse, listing, toList_listing]
  exact Parser.readAll_done hread hend

theorem Program.parse_listing {p : Program} (hp : p.Readable) :
    Program.parse p.listing = .ok p := by
  rw [parse_listing_of_named fun f hf => (hp f hf).named, quiet_eq_self hp]

theorem Func.parse_listing {f : Func} (hf : f.Readable) : Func.parse f.listing = .ok f := by
  rw [parse_listing_of_named hf.named, quiet_eq_self hf]

/-- What is printed of a program, or of a function alone, reads back as just that, with every
literal to its last bit. -/
theorem listing_reads_back :
    (∀ p : Program, p.Readable → Program.parse p.listing = .ok p) ∧
      ∀ f : Func, f.Readable → Func.parse f.listing = .ok f :=
  ⟨fun _ hp => Program.parse_listing hp, fun _ hf => Func.parse_listing hf⟩

def Func.extreme : Func where
  name := "main_0"
  inParams := [.struct [.struct [], .basic .vec2]]
  outParams := [.basic .bool]
  body := ⟨[.basic .float],
    [.forRange Int32.minValue Int32.maxValue (-1) ⟨[],
      [.assign (.var ⟨.local, 0xffffffffffffffff⟩)
        (.binary .le (.num ⟨true, 0, by decide⟩) (.num Binary64.infinity.neg))]⟩]⟩

theorem extreme_reads_back :
    Func.parse Func.extreme.listing = .ok Func.extreme ∧
      Program.parse (Program.listing ⟨[.basic .mat4], [], [], [Func.extreme]⟩) =
        .ok ⟨[.basic .mat4], [], [], [Func.extreme]⟩ :=
  ⟨listing_reads_back.2 Func.extreme (by decide), listing_reads_back.1 _ (by decide)⟩

end ShaderTree
