import ShaderTree.Proofs.TermReading

namespace ShaderTree

def Line.chars (l : Line) : List Char := (l.indented "    " ++ "\n").toList

def linesChars (ls : List Line) : List Char := ls.flatMap Line.chars

theorem linesChars_nil : linesChars [] = [] := rfl

theorem linesChars_cons (l : Line) (ls : List Line) :
    linesChars (l :: ls) = l.chars ++ linesChars ls := List.flatMap_cons

theorem linesChars_append (ls ms : List Line) :
    linesChars (ls ++ ms) = linesChars ls ++ linesChars ms := List.flatMap_append

theorem toList_listing (ls : List Line) : (listing ls).toList = linesChars ls := by
  unfold listing linesChars Line.chars
  rw [String.toList_join, List.flatMap_map]

open ShaderTree.Parser in
theorem skipBlank_line {l : Line} {s : List Char} (h : Solid l.text.toList) :
    skipBlank (l.chars ++ s) = l.text.toList ++ '\n' :: s := by
  obtain ⟨depth, text⟩ := l
  have hindent : skipBlank ((String.join (List.replicate depth "    ")).toList ++
      (text.toList ++ '\n' :: s)) = text.toList ++ '\n' :: s := by
    induction depth with
    | zero => exact Solid.skipBlank_eq h.append
    | succ depth ih =>
      have hfour : "    ".toList = [' ', ' ', ' ', ' '] := by decide
      have hblank (u : List Char) : skipBlank (' ' :: u) = skipBlank u := skipBlank_spacing rfl
      rw [List.replicate_succ, String.join_cons, String.toList_append, hfour]
      simp only [List.cons_append, List.nil_append, hblank]
      exact ih h
  have hend : "\n".toList = ['\n'] := by decide
  rw [Line.chars, Line.indented]
  rw [String.toList_append, String.toList_append, hend, List.append_assoc, List.append_assoc]
  exact hindent

mutual

def Stmt.nanFree : Stmt → Bool
  | .block b => Block.nanFree b
  | .assign target value => target.nanFree && value.nanFree
  | .ifElse cond t e => cond.nanFree && (Block.nanFree t && Block.nanFree e)
  | .forRange _ _ _ b => Block.nanFree b

def Block.nanFree : Block Stmt → Bool
  | ⟨_, stmts⟩ => Stmt.nanFreeAll stmts

def Stmt.nanFreeAll : List Stmt → Bool
  | [] => true
  | s :: ss => s.nanFree && Stmt.nanFreeAll ss

end

mutual

def Stmt.quiet : Stmt → Stmt
  | .block b => .block (Block.quiet b)
  | .assign target value => .assign target.quiet value.quiet
  | .ifElse cond t e => .ifElse cond.quiet (Block.quiet t) (Block.quiet e)
  | .forRange init limit step b => .forRange init limit step (Block.quiet b)

def Block.quiet : Block Stmt → Block Stmt
  | ⟨locals, stmts⟩ => ⟨locals, Stmt.quietAll stmts⟩

def Stmt.quietAll : List Stmt → List Stmt
  | [] => []
  | s :: ss => s.quiet :: Stmt.quietAll ss

end

theorem Stmt.quietAll_eq_map (ss : List Stmt) : Stmt.quietAll ss = ss.map Stmt.quiet := by
  induction ss with
  | nil => rfl
  | cons s ss ih => rw [quietAll, ih, List.map_cons]

mutual

theorem Stmt.quiet_eq_self {s : Stmt} (h : s.nanFree = true) : s.quiet = s := by
  cases s with
  | block b => rw [Stmt.quiet, Block.quiet_eq_self h]
  | assign target value =>
    obtain ⟨htarget, hvalue⟩ := Bool.and_eq_true_iff.mp h
    rw [Stmt.quiet, Expr.quiet_eq_self htarget, Expr.quiet_eq_self hvalue]
  | ifElse cond t e =>
    obtain ⟨hcond, hblocks⟩ := Bool.and_eq_true_iff.mp h
    obtain ⟨ht, he⟩ := Bool.and_eq_true_iff.mp hblocks
    rw [Stmt.quiet, Expr.quiet_eq_self hcond, Block.quiet_eq_self ht, Block.quiet_eq_self he]
  | forRange init limit step b => rw [Stmt.quiet, Block.quiet_eq_self h]

theorem Block.quiet_eq_self {b : Block Stmt} (h : b.nanFree = true) : b.quiet = b := by
  cases b with
  | mk locals stmts => rw [Block.quiet, Stmt.quietAll_eq_self h]

theorem Stmt.quietAll_eq_self {ss : List Stmt} (h : Stmt.nanFreeAll ss = true) :
    Stmt.quietAll ss = ss := by
  cases ss with
  | nil => rfl
  | cons s ss =>
    obtain ⟨hs, hss⟩ := Bool.and_eq_true_iff.mp h
    rw [Stmt.quietAll, Stmt.quiet_eq_self hs, Stmt.quietAll_eq_self hss]

end

theorem Stmt.linesOf_eq_flatMap (depth : Nat) (ss : List Stmt) :
    Stmt.linesOf depth ss = ss.flatMap (Stmt.lines depth) := by
  induction ss with
  | nil => rfl
  | cons s ss ih => rw [linesOf, ih, List.flatMap_cons]

namespace Parser

variable {depth : Nat} {s : List Char}

theorem skipBlank_block (b : Block Stmt) :
    skipBlank (linesChars ((Stmt.block b).lines depth) ++ s) =
      '{' :: '\n' :: (linesChars (b.lines (depth + 1)) ++ (Line.chars ⟨depth, "\x7d"⟩ ++ s)) := by
  have hopen : "\x7b".toList = ['{'] := by decide
  have hsolid : Solid "\x7b".toList := solid_cons rfl
  simp only [Stmt.lines, linesChars_append, linesChars_cons, linesChars_nil, List.append_assoc,
    List.append_nil]
  rw [skipBlank_line (l := ⟨depth, "\x7b"⟩) hsolid]
  simp only [hopen, List.cons_append, List.nil_append]

theorem skipBlank_assign (target value : Expr) :
    skipBlank (linesChars ((Stmt.assign target value).lines depth) ++ s) =
      target.text.toList ++ ' ' :: '=' :: ' ' :: (value.text.toList ++ '\n' :: s) := by
  have hequals : " = ".toList = [' ', '=', ' '] := by decide
  have hsolid : Solid (target.text ++ " = " ++ value.text).toList := by
    rw [String.toList_append, String.toList_append]
    exact target.solid_text.append.append
  simp only [Stmt.lines, linesChars_cons, linesChars_nil, List.append_nil]
  apply (skipBlank_line (l := ⟨depth, _⟩) hsolid).trans
  simp only [String.toList_append, hequals, List.append_assoc, List.cons_append, List.nil_append]

theorem skipBlank_ifElse (cond : Expr) (t e : Block Stmt) :
    skipBlank (linesChars ((Stmt.ifElse cond t e).lines depth) ++ s) =
      "if".toList ++ ' ' :: (cond.text.toList ++ ' ' :: '{' :: '\n' ::
        (linesChars (t.lines (depth + 1)) ++ (Line.chars ⟨depth, "\x7d else \x7b"⟩ ++
          (linesChars (e.lines (depth + 1)) ++ (Line.chars ⟨depth, "\x7d"⟩ ++ s))))) := by
  have hif : "if ".toList = "if".toList ++ [' '] := by decide
  have hopen : " \x7b".toList = [' ', '{'] := by decide
  have hsolid : Solid ("if " ++ cond.text ++ " \x7b").toList := by
    rw [String.toList_append, String.toList_append]
    exact Solid.append (Solid.append (solid_cons rfl))
  simp only [Stmt.lines, linesChars_append, linesChars_cons, linesChars_nil, List.append_assoc,
    List.append_nil]
  apply (skipBlank_line (l := ⟨depth, _⟩) hsolid).trans
  simp only [String.toList_append, hif, hopen, List.append_assoc, List.cons_append, List.nil_append]

theorem skipBlank_forRange (init limit step : Int32) (b : Block Stmt) :
    skipBlank (linesChars ((Stmt.forRange init limit step b).lines depth) ++ s) =
      "for".toList ++ ' ' :: ((toString init.toInt).toList ++ ("..".toList ++
        ((toString limit.toInt).toList ++ ' ' :: ("step".toList ++ ' ' ::
          ((toString step.toInt).toList ++ ' ' :: '{' :: '\n' ::
            (linesChars (b.lines (depth + 1)) ++ (Line.chars ⟨depth, "\x7d"⟩ ++ s))))))) := by
  have hfor : "for ".toList = "for".toList ++ [' '] := by decide
  have hstep : " step ".toList = ' ' :: "step".toList ++ [' '] := by decide
  have hopen : " \x7b".toList = [' ', '{'] := by decide
  have hsolid : Solid ("for " ++ toString init.toInt ++ ".." ++ toString limit.toInt ++ " step " ++
      toString step.toInt ++ " \x7b").toList := by
    have hword : Solid "for ".toList := solid_cons rfl
    simp only [String.toList_append, List.append_assoc]
    exact hword.append
  simp only [Stmt.lines, linesChars_append, linesChars_cons, linesChars_nil, List.append_assoc,
    List.append_nil]
  apply (skipBlank_line (l := ⟨depth, _⟩) hsolid).trans
  simp only [String.toList_append, hfor, hstep, hopen, List.append_assoc, List.cons_append,
    List.nil_append]

variable {r : List Char}

theorem decl_done {word : String} {l : Line} {t : Ty} (hword : Solid word.toList)
    (hline : l.text.toList = word.toList ++ ' ' :: t.text.toList) :
    (do lexeme (keyword word); commit ty : Parser Ty) (skipBlank (l.chars ++ s)) =
      .done t ('\n' :: s) := by
  have hsolid : Solid l.text.toList := hline ▸ hword.append
  have htext : word.toList ++ ' ' :: t.text.toList ++ '\n' :: s =
      word.toList ++ ' ' :: (t.text.toList ++ '\n' :: s) := List.append_assoc ..
  rw [skipBlank_line hsolid, hline, htext, bind_done (lexeme_done keyword_done),
    t.solid_text.append.skipBlank_space]
  exact commit_done (ty_done t _)

theorem declines_stmt_close : Declines stmt ('}' :: r) := by
  have hblock : Declines block ('}' :: r) := by
    rw [block_eq]
    exact (declines_symbol (by simp)).lexeme.bind
  have hif : Declines (ifStmt block) ('}' :: r) := (declines_keyword rfl).lexeme.bind
  have hfor : Declines (forStmt block) ('}' :: r) := (declines_keyword rfl).lexeme.bind
  exact hblock.bind.orElse (hif.orElse (hfor.orElse declines_expr_close.lexeme.bind))

theorem strip?_stmt (t : Stmt) :
    strip? "local".toList (skipBlank (linesChars (t.lines depth) ++ s)) = none := by
  cases t with
  | block b =>
    rw [skipBlank_block]
    rfl
  | assign target value =>
    rw [skipBlank_assign]
    exact strip?_expr target (by decide)
  | ifElse cond t e =>
    rw [skipBlank_ifElse]
    rfl
  | forRange init limit step b =>
    rw [skipBlank_forRange]
    rfl

theorem skipBlank_newline : skipBlank ('\n' :: s) = skipBlank s := skipBlank_spacing rfl

/-- The end of a line belongs to the blank behind what the line holds. -/
theorem lexeme_line {α : Type} {p : Parser α} {a : α} {t : List Char}
    (h : p t = .done a ('\n' :: s)) : lexeme p t = .done a (skipBlank s) := by
  rw [lexeme_done h, skipBlank_newline]

theorem decls_done (word : String) {line : Ty → Line} {ts : List Ty} (hword : Solid word.toList)
    (hline : ∀ t, (line t).text.toList = word.toList ++ ' ' :: t.text.toList)
    (hs : strip? word.toList (skipBlank s) = none) :
    many (globalDecl word) (skipBlank (linesChars (ts.map line) ++ s)) =
      .done ts (skipBlank s) := by
  have hlines : linesChars (ts.map line) = ts.flatMap fun t => (line t).chars :=
    List.flatMap_map ..
  have hread : ∀ t ∈ ts, ∀ s, globalDecl word (skipBlank ((line t).chars ++ s)) =
      .done t (skipBlank s) := fun t _ s => lexeme_line (decl_done hword (hline t))
  rw [hlines]
  exact many_flatMap (fun n => alike_globalDecl n word) hread
    (declines_keyword hs).lexeme.bind.lexeme

theorem locals_done (depth : Nat) (ts : List Ty) (hs : strip? "local".toList (skipBlank s) = none) :
    many (lexeme localDecl) (skipBlank (linesChars (localLines depth ts) ++ s)) =
      .done ts (skipBlank s) := by
  have hword : "local ".toList = "local".toList ++ [' '] := by decide
  refine decls_done "local" (solid_cons rfl) (fun t => ?_) hs
  rw [String.toList_append, hword, List.append_assoc]
  rfl

theorem stmts_done {ts : List Stmt} (hread : ∀ t ∈ ts, ∀ s,
      stmt (skipBlank (linesChars (t.lines depth) ++ s)) = .done t.quiet ('\n' :: s))
    (hs : skipBlank s = '}' :: r) :
    many (lexeme stmt) (skipBlank (linesChars (Stmt.linesOf depth ts) ++ s)) =
      .done (Stmt.quietAll ts) (skipBlank s) := by
  have hlines : linesChars (Stmt.linesOf depth ts) =
      ts.flatMap fun t => linesChars (t.lines depth) := by
    rw [Stmt.linesOf_eq_flatMap]
    exact List.flatMap_assoc
  have hlexeme : ∀ t ∈ ts, ∀ s,
      lexeme stmt (skipBlank (linesChars (t.lines depth) ++ s)) = .done t.quiet (skipBlank s) := by
    intro t ht s
    exact lexeme_line (hread t ht s)
  have hend : Declines (lexeme stmt) (skipBlank s) := by
    rw [hs]
    exact declines_stmt_close.lexeme
  rw [hlines, Stmt.quietAll_eq_map]
  exact many_flatMap_map (fun n => (alike_stmt n).lexeme) hlexeme hend

/-- Behind the locals comes a statement or the closing brace. -/
theorem strip?_stmts (depth : Nat) (ts : List Stmt) (hs : skipBlank s = '}' :: r) :
    strip? "local".toList (skipBlank (linesChars (Stmt.linesOf depth ts) ++ s)) = none := by
  cases ts with
  | nil =>
    have hnil : linesChars (Stmt.linesOf depth []) ++ s = s := rfl
    rw [hnil, hs]
    rfl
  | cons t ts =>
    rw [Stmt.linesOf, linesChars_append, List.append_assoc]
    exact strip?_stmt t

theorem block_done {b : Block Stmt} (hread : ∀ t ∈ b.stmts, ∀ s,
      stmt (skipBlank (linesChars (t.lines depth) ++ s)) = .done t.quiet ('\n' :: s))
    (hs : skipBlank s = '}' :: r) :
    block ('{' :: '\n' :: (linesChars (b.lines depth) ++ s)) = .done b.quiet r := by
  obtain ⟨locals, stmts⟩ := b
  have htext : linesChars (Block.lines depth ⟨locals, stmts⟩) ++ s =
      linesChars (localLines depth locals) ++ (linesChars (Stmt.linesOf depth stmts) ++ s) := by
    rw [Block.lines, linesChars_append, List.append_assoc]
  have hlocals := locals_done depth locals (strip?_stmts depth stmts hs)
  have hstmts := stmts_done hread hs
  rw [block_eq, htext]
  rw [blockStep, bind_done (lexeme_done symbol_done), skipBlank_newline]
  apply commit_done
  rw [bind_done hlocals]
  apply (bind_done hstmts).trans
  rw [hs, bind_done symbol_done]
  rfl

theorem skipBlank_close : skipBlank (Line.chars ⟨depth, "\x7d"⟩ ++ s) = '}' :: '\n' :: s := by
  have hclose : "\x7d".toList = ['}'] := by decide
  have hsolid : Solid "\x7d".toList := solid_cons rfl
  apply (skipBlank_line (l := ⟨depth, "\x7d"⟩) hsolid).trans
  simp only [hclose, List.cons_append, List.nil_append]

theorem skipBlank_else : skipBlank (Line.chars ⟨depth, "\x7d else \x7b"⟩ ++ s) =
    '}' :: ' ' :: ("else".toList ++ ' ' :: '{' :: '\n' :: s) := by
  have helse : "\x7d else \x7b".toList = '}' :: ' ' :: "else".toList ++ [' ', '{'] := by decide
  have hsolid : Solid "\x7d else \x7b".toList := solid_cons rfl
  apply (skipBlank_line (l := ⟨depth, "\x7d else \x7b"⟩) hsolid).trans
  simp only [helse, List.append_assoc, List.cons_append, List.nil_append]

theorem solid_int (n : Int) : Solid (toString n).toList := by
  rw [toList_toString]
  split
  · exact solid_of_isMark (by decide)
  · have hne : Nat.toDigits 10 n.natAbs ≠ [] := Nat.toDigits_ne_nil
    obtain ⟨c, cs, hcs⟩ := List.exists_cons_of_ne_nil hne
    have hdigit := isDigit_toDigits n.natAbs c (hcs ▸ List.mem_cons_self)
    rw [hcs]
    exact solid_of_isMark (by simp [isMark, hdigit])

/-- The lines of the block, with its opening brace in front, are read up to its closing one. -/
def ReadsBody (depth : Nat) (b : Block Stmt) : Prop :=
  ∀ s r, skipBlank s = '}' :: r →
    block ('{' :: '\n' :: (linesChars (b.lines depth) ++ s)) = .done b.quiet r

theorem stmt_block {b : Block Stmt} (hb : ReadsBody (depth + 1) b) :
    stmt (skipBlank (linesChars ((Stmt.block b).lines depth) ++ s)) =
      .done (.block b.quiet) ('\n' :: s) := by
  rw [skipBlank_block]
  exact orElse_done (bind_done (hb _ _ skipBlank_close))

theorem declines_block {t : List Char} (h : strip? ['{'] t = none) : Declines block t := by
  rw [block_eq]
  exact (declines_symbol_of_strip? h).lexeme.bind

theorem stmt_assign (target value : Expr) :
    stmt (skipBlank (linesChars ((Stmt.assign target value).lines depth) ++ s)) =
      .done (.assign target.quiet value.quiet) ('\n' :: s) := by
  rw [skipBlank_assign]
  have hword (word : String) (hword : word ∈ ["local", "if", "for", "\x7b"]) :=
    strip?_expr (r := ' ' :: '=' :: ' ' :: (value.text.toList ++ '\n' :: s)) target hword
  have hblock := (declines_block (hword "\x7b" (by decide))).bind
    (f := fun b => (pure (.block b) : Parser Stmt))
  have hif : Declines (ifStmt block) _ := (declines_keyword (hword "if" (by decide))).lexeme.bind
  have hfor : Declines (forStmt block) _ := (declines_keyword (hword "for" (by decide))).lexeme.bind
  have hequals : Solid ('=' :: ' ' :: (value.text.toList ++ '\n' :: s)) :=
    solid_cons rfl
  have hassign : assignStmt (target.text.toList ++ ' ' :: '=' :: ' ' ::
      (value.text.toList ++ '\n' :: s)) = .done (.assign target.quiet value.quiet) ('\n' :: s) := by
    rw [assignStmt, bind_done (lexeme_done (expr_done target (ends_cons rfl))),
      hequals.skipBlank_space, bind_done (lexeme_done symbol_done),
      value.solid_text.append.skipBlank_space,
      bind_done (commit_done (expr_done value (ends_cons rfl)))]
    rfl
  exact hblock.orElse_eq.trans (hif.orElse_eq.trans (hfor.orElse_eq.trans hassign))

theorem stmt_ifElse {cond : Expr} {t e : Block Stmt} (ht : ReadsBody (depth + 1) t)
    (he : ReadsBody (depth + 1) e) :
    stmt (skipBlank (linesChars ((Stmt.ifElse cond t e).lines depth) ++ s)) =
      .done (.ifElse cond.quiet t.quiet e.quiet) ('\n' :: s) := by
  rw [skipBlank_ifElse]
  have hblock {u : List Char} : Declines (do let b ← block; pure (.block b) : Parser Stmt)
      ("if".toList ++ u) := (declines_block rfl).bind
  refine hblock.orElse_eq.trans (orElse_done ?_)
  have hbrace {u : List Char} : Solid ('{' :: u) := solid_cons rfl
  have helse {u : List Char} : Solid ("else".toList ++ u) := solid_cons rfl
  rw [ifStmt, bind_done (lexeme_done keyword_done), cond.solid_text.append.skipBlank_space]
  apply commit_done
  rw [bind_done (lexeme_done (expr_done cond (ends_cons rfl))), hbrace.skipBlank_space,
    bind_done (lexeme_done (ht _ _ skipBlank_else)), helse.skipBlank_space,
    bind_done (lexeme_done keyword_done), hbrace.skipBlank_space,
    bind_done (he _ _ skipBlank_close)]
  rfl

theorem stmt_forRange {init limit step : Int32} {b : Block Stmt} (hb : ReadsBody (depth + 1) b) :
    stmt (skipBlank (linesChars ((Stmt.forRange init limit step b).lines depth) ++ s)) =
      .done (.forRange init limit step b.quiet) ('\n' :: s) := by
  rw [skipBlank_forRange]
  have hblock {u : List Char} : Declines (do let b ← block; pure (.block b) : Parser Stmt)
      ("for".toList ++ u) := (declines_block rfl).bind
  have hif {u : List Char} : Declines (ifStmt block) ("for".toList ++ u) :=
    (declines_keyword rfl).lexeme.bind
  refine hblock.orElse_eq.trans (hif.orElse_eq.trans (orElse_done ?_))
  have hbound (i : Int32) {u : List Char} : Solid ((toString i.toInt).toList ++ u) :=
    (solid_int i.toInt).append
  have hdots {u : List Char} : Solid ("..".toList ++ u) := solid_cons rfl
  have hstep {u : List Char} : Solid ("step".toList ++ u) := solid_cons rfl
  have hbrace {u : List Char} : Solid ('{' :: u) := solid_cons rfl
  have hends {u : List Char} : Ends Char.isDigit ("..".toList ++ u) :=
    ends_cons (c := '.') (by decide)
  rw [forStmt, bind_done (lexeme_done keyword_done), (hbound init).skipBlank_space]
  apply commit_done
  rw [bind_done (lexeme_done (bound_done init hends)), hdots.skipBlank_eq,
    bind_done (lexeme_done keyword_done), (hbound limit).skipBlank_eq,
    bind_done (lexeme_done (bound_done limit (ends_cons rfl))), hstep.skipBlank_space,
    bind_done (lexeme_done keyword_done), (hbound step).skipBlank_space,
    bind_done (lexeme_done (bound_done step (ends_cons rfl))), hbrace.skipBlank_space,
    bind_done (hb _ _ skipBlank_close)]
  rfl

mutual

/-- A statement is read up to the end of its last line. -/
theorem stmt_done (t : Stmt) (depth : Nat) (s : List Char) :
    stmt (skipBlank (linesChars (t.lines depth) ++ s)) = .done t.quiet ('\n' :: s) := by
  cases t with
  | block b => exact stmt_block (readsBody b (depth + 1))
  | assign target value => exact stmt_assign target value
  | ifElse cond t e => exact stmt_ifElse (readsBody t (depth + 1)) (readsBody e (depth + 1))
  | forRange init limit step b => exact stmt_forRange (readsBody b (depth + 1))

theorem readsBody (b : Block Stmt) (depth : Nat) : ReadsBody depth b := by
  obtain ⟨locals, stmts⟩ := b
  intro s r hs
  exact block_done (fun t ht s => stmt_done_of_mem stmts t ht depth s) hs

theorem stmt_done_of_mem (ts : List Stmt) :
    ∀ t ∈ ts, ∀ depth s,
      stmt (skipBlank (linesChars (t.lines depth) ++ s)) = .done t.quiet ('\n' :: s) := by
  intro u hu depth s
  cases ts with
  | nil => cases hu
  | cons t ts =>
    obtain heq | hu := List.mem_cons.mp hu
    · rw [heq]
      exact stmt_done t depth s
    · exact stmt_done_of_mem ts u hu depth s

end

end Parser

end ShaderTree
