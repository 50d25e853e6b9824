import ShaderTree.Proofs.TokenReading

namespace ShaderTree

/-- The tokens in front of each of the items and in front of each place inside them. -/
def startsBetween {α : Type} (tokens : α → List Token) (inner : α → List (List Token)) :
    List α → List (List Token)
  | [] => []
  | a :: as => [] :: (inner a ++ (startsBetween tokens inner as).map (tokens a ++ ·))

def startsWithDecls (w : Word) (ts : List Ty) (behind : List (List Token)) : List (List Token) :=
  startsBetween (fun t : Ty => .word w :: t.tokens) (fun _ => []) ts ++
    behind.map (declTokens w ts ++ ·)

mutual

def Stmt.starts : Stmt → List (List Token)
  | .block b => Block.starts b
  | .assign _ _ => []
  | .ifElse cond t e =>
    (Block.starts t).map (fun toks => .word .if :: (cond.tokens ++ toks)) ++
      (Block.starts e).map fun toks =>
        .word .if :: (cond.tokens ++ (Block.tokens t ++ .word .else :: toks))
  | .forRange init limit step b =>
    (Block.starts b).map fun toks =>
      .word .for :: .bound init :: .word .dots :: .bound limit :: .word .step :: .bound step :: toks

def Block.starts : Block Stmt → List (List Token)
  | ⟨locals, stmts⟩ =>
    (startsWithDecls .local locals (Stmt.startsOf stmts)).map (.word .openBrace :: ·)

def Stmt.startsOf : List Stmt → List (List Token)
  | [] => []
  | s :: ss => [] :: (s.starts ++ (Stmt.startsOf ss).map (s.tokens ++ ·))

end

def Func.starts (f : Func) : List (List Token) :=
  (Block.starts f.body).map fun toks => .word .func :: .name f.name :: .word .openParen ::
    (commaSeparated (f.params.map Func.paramTokens) ++ .word .closeParen :: toks)

/-- The tokens in front of each declaration, each function and each statement of the program. -/
def Program.starts (p : Program) : List (List Token) :=
  (startsWithDecls .uniform p.uniforms <| startsWithDecls .attribute p.attributes <|
    startsWithDecls .varying p.varyings <| startsBetween Func.tokens Func.starts p.funcs).map
      fun toks => .word .program :: .word .openBrace :: toks

theorem Stmt.startsOf_eq (ss : List Stmt) :
    Stmt.startsOf ss = startsBetween Stmt.tokens Stmt.starts ss := by
  induction ss with
  | nil => rfl
  | cons s ss ih => rw [startsOf, startsBetween, ih]

theorem Block.avoids_starts {w : Word} (hw : ∀ toks, Avoids w (.word .openBrace :: toks))
    (b : Block Stmt) : ∀ toks ∈ Block.starts b, Avoids w toks := by
  obtain ⟨locals, stmts⟩ := b
  intro toks h
  obtain ⟨toks, -, rfl⟩ := List.mem_map.mp h
  exact hw toks

theorem Stmt.avoids_starts (t : Stmt) : ∀ toks ∈ t.starts, Avoids .local toks := by
  intro toks h
  cases t with
  | block b => exact Block.avoids_starts (fun _ => avoids_word fun _ => rfl) b toks h
  | assign target value => cases h
  | ifElse cond t e =>
    obtain h | h := List.mem_append.mp h
    · obtain ⟨toks, -, rfl⟩ := List.mem_map.mp h
      exact avoids_word fun _ => rfl
    · obtain ⟨toks, -, rfl⟩ := List.mem_map.mp h
      exact avoids_word fun _ => rfl
  | forRange init limit step b =>
    obtain ⟨toks, -, rfl⟩ := List.mem_map.mp h
    exact avoids_word fun _ => rfl

def Precedes (toks whole : List Token) : Prop := ∃ tok rest, whole = toks ++ tok :: rest

section Precedes

variable {toks whole front behind : List Token} {tok : Token}

theorem precedes_nil (hne : whole ≠ []) : Precedes [] whole := List.exists_cons_of_ne_nil hne

theorem Precedes.append_left (h : Precedes toks whole) (front : List Token) :
    Precedes (front ++ toks) (front ++ whole) := by
  obtain ⟨tok, rest, rfl⟩ := h
  exact ⟨tok, rest, by rw [List.append_assoc]⟩

theorem Precedes.cons (h : Precedes toks whole) (tok : Token) :
    Precedes (tok :: toks) (tok :: whole) := h.append_left [tok]

theorem Precedes.append_right (h : Precedes toks whole) (behind : List Token) :
    Precedes toks (whole ++ behind) := by
  obtain ⟨tok, rest, rfl⟩ := h
  exact ⟨tok, rest ++ behind, by simp⟩

theorem precedes_startsBetween {α : Type} {tokens : α → List Token} {inner : α → List (List Token)}
    {as : List α} (hne : ∀ a, tokens a ≠ [])
    (hinner : ∀ a ∈ as, ∀ toks ∈ inner a, Precedes toks (tokens a))
    (h : toks ∈ startsBetween tokens inner as) : Precedes toks (as.flatMap tokens) := by
  induction as generalizing toks with
  | nil => cases h
  | cons a as ih =>
    obtain ⟨hinner, hinners⟩ := List.forall_mem_cons.mp hinner
    rw [List.flatMap_cons]
    obtain rfl | h := List.mem_cons.mp h
    · exact (precedes_nil (hne a)).append_right _
    obtain h | h := List.mem_append.mp h
    · exact (hinner toks h).append_right _
    · obtain ⟨toks, hmem, rfl⟩ := List.mem_map.mp h
      exact (ih hinners hmem).append_left _

theorem precedes_startsWithDecls {w : Word} {ts : List Ty} {starts : List (List Token)}
    (hbehind : ∀ toks ∈ starts, Precedes toks behind) (h : toks ∈ startsWithDecls w ts starts) :
    Precedes toks (declTokens w ts ++ behind) := by
  obtain h | h := List.mem_append.mp h
  · have hdecls := precedes_startsBetween (fun t => List.cons_ne_nil (Token.word w) (Ty.tokens t))
      (fun _ _ _ h => by cases h) h
    exact hdecls.append_right _
  · obtain ⟨toks, hmem, rfl⟩ := List.mem_map.mp h
    exact (hbehind toks hmem).append_left _

end Precedes

theorem Stmt.tokens_ne_nil (t : Stmt) : t.tokens ≠ [] := by
  obtain ⟨tok, rest, htokens, -⟩ := t.avoids_local
  rw [htokens]
  exact List.cons_ne_nil _ _

theorem precedes_block_of_stmts {locals : List Ty} {stmts : List Stmt}
    (hstmts : ∀ t ∈ stmts, ∀ toks ∈ t.starts, Precedes toks t.tokens) :
    ∀ toks ∈ Block.starts ⟨locals, stmts⟩, Precedes toks (Block.tokens ⟨locals, stmts⟩) := by
  intro toks h
  obtain ⟨toks, hmem, rfl⟩ := List.mem_map.mp h
  rw [Block.tokens, Stmt.tokensOf_eq_flatMap]
  refine (precedes_startsWithDecls (fun toks h => ?_) hmem).cons _
  rw [Stmt.startsOf_eq] at h
  exact (precedes_startsBetween Stmt.tokens_ne_nil hstmts h).append_right _

mutual

theorem Stmt.precedes_starts (t : Stmt) : ∀ toks ∈ t.starts, Precedes toks t.tokens := by
  intro toks h
  cases t with
  | block b => exact Block.precedes_starts b toks h
  | assign target value => cases h
  | ifElse cond t e =>
    obtain h | h := List.mem_append.mp h
    · obtain ⟨toks, hmem, rfl⟩ := List.mem_map.mp h
      exact (((Block.precedes_starts t toks hmem).append_right _).append_left _).cons _
    · obtain ⟨toks, hmem, rfl⟩ := List.mem_map.mp h
      exact ((((Block.precedes_starts e toks hmem).cons _).append_left _).append_left _).cons _
  | forRange init limit step b =>
    obtain ⟨toks, hmem, rfl⟩ := List.mem_map.mp h
    exact (Block.precedes_starts b toks hmem).append_left [_, _, _, _, _, _]

theorem Block.precedes_starts (b : Block Stmt) :
    ∀ toks ∈ Block.starts b, Precedes toks (Block.tokens b) := by
  obtain ⟨locals, stmts⟩ := b
  exact precedes_block_of_stmts (Stmt.precedes_starts_of_mem stmts)

theorem Stmt.precedes_starts_of_mem (ts : List Stmt) :
    ∀ t ∈ ts, ∀ toks ∈ t.starts, Precedes toks t.tokens := by
  intro t ht
  cases ts with
  | nil => cases ht
  | cons u us =>
    obtain rfl | ht := List.mem_cons.mp ht
    · exact Stmt.precedes_starts t
    · exact Stmt.precedes_starts_of_mem us t ht

end

theorem Func.precedes_starts (f : Func) : ∀ toks ∈ f.starts, Precedes toks f.tokens := by
  intro toks h
  obtain ⟨toks, hmem, rfl⟩ := List.mem_map.mp h
  have hbody := Block.precedes_starts f.body toks hmem
  exact ((((hbody.cons _).append_left _).cons _).cons _).cons _

theorem Program.precedes_starts (p : Program) : ∀ toks ∈ p.starts, Precedes toks p.tokens := by
  intro toks h
  obtain ⟨toks, hmem, rfl⟩ := List.mem_map.mp h
  refine ((precedes_startsWithDecls (fun toks h => ?_) hmem).cons _).cons _
  refine precedes_startsWithDecls (fun toks h => ?_) h
  refine precedes_startsWithDecls (fun toks h => ?_) h
  have hne (f : Func) : f.tokens ≠ [] := List.cons_ne_nil _ _
  exact (precedes_startsBetween hne (fun f _ => f.precedes_starts) h).append_right _

end ShaderTree
