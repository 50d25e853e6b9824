import ShaderTree.Proofs.SameClauses
import ShaderTree.Proofs.SameText
import ShaderTree.Proofs.Violations

namespace ShaderTree

namespace Glsl

variable {table : StructTable}

def Kind.inBlock : Kind → Bool
  | .local | .blockOpen | .assign | .ifOpen | .forOpen => true
  | _ => false

theorem stmtClauses_head (table : StructTable) (depth next : Nat) (s : Stmt) :
    ∃ c cs, stmtClauses table depth next s = c :: cs ∧
      c.clause.kind.inBlock = true ∧ c.clause.kind ≠ .local := by
  cases s <;> exact ⟨_, _, rfl, rfl, nofun⟩

theorem stops_stmts {depth next : Nat} {ss : List Stmt} {r : List Placed}
    (hr : Stops Kind.inBlock r) :
    Stops (· == .local) (stmtsClauses table depth next ss ++ r) := by
  cases ss with
  | nil =>
    intro c hc
    have hkind := hr c hc
    exact beq_eq_false_iff_ne.mpr fun hlocal => by rw [hlocal] at hkind; cases hkind
  | cons s ss =>
    obtain ⟨c, cs, hhead, -, hlocal⟩ := stmtClauses_head table depth next s
    rw [stmtsClauses, hhead]
    exact stops_cons.mpr (beq_eq_false_iff_ne.mpr hlocal)

theorem not_stops_stmts {depth next : Nat} {s : Stmt} {ss : List Stmt} {r : List Placed} :
    ¬Stops Kind.inBlock (stmtsClauses table depth next (s :: ss) ++ r) := by
  obtain ⟨c, cs, hhead, hblock, -⟩ := stmtClauses_head table depth next s
  rw [stmtsClauses, hhead]
  exact not_stops_cons hblock

mutual

/-- No statement goes on where another one ends. -/
theorem stmt_unique {depth depth' next next' : Nat} {s s' : Stmt} {r r' : List Placed}
    (hs : Ty.structsOf s.declared ⊆ table)
    (h : List.Forall₂ Placed.SameText (stmtClauses table depth next s ++ r)
      (stmtClauses table depth' next' s' ++ r')) :
    s.SameText s' ∧ List.Forall₂ Placed.SameText r r' := by
  cases s with
  | block b =>
    cases s' with
    | block b' =>
      simp only [stmtClauses, List.cons_append, List.append_assoc, List.nil_append] at h
      obtain ⟨hb, h⟩ := block_unique hs (stops_cons.mpr rfl) (stops_cons.mpr rfl)
        (List.forall₂_cons.mp h).2
      exact ⟨hb, (List.forall₂_cons.mp h).2⟩
    | _ => cases (List.forall₂_cons.mp h).1.2
  | assign target value =>
    cases s' with
    | assign target' value' =>
      obtain ⟨⟨-, hclause⟩, h⟩ := List.forall₂_cons.mp h
      exact ⟨hclause, h⟩
    | _ => cases (List.forall₂_cons.mp h).1.2
  | ifElse cond t e =>
    cases s' with
    | ifElse cond' t' e' =>
      rw [Stmt.declared, Ty.structsOf_append] at hs
      obtain ⟨ht, he⟩ := List.append_subset.mp hs
      simp only [stmtClauses, List.cons_append, List.append_assoc, List.nil_append] at h
      obtain ⟨⟨-, hcond⟩, h⟩ := List.forall₂_cons.mp h
      obtain ⟨ht, h⟩ := block_unique ht (stops_cons.mpr rfl) (stops_cons.mpr rfl) h
      obtain ⟨he, h⟩ := block_unique he (stops_cons.mpr rfl) (stops_cons.mpr rfl)
        (List.forall₂_cons.mp h).2
      exact ⟨⟨hcond, ht, he⟩, (List.forall₂_cons.mp h).2⟩
    | _ => cases (List.forall₂_cons.mp h).1.2
  | forRange init limit step b =>
    cases s' with
    | forRange init' limit' step' b' =>
      simp only [stmtClauses, List.cons_append, List.append_assoc, List.nil_append] at h
      obtain ⟨⟨-, hopen⟩, h⟩ := List.forall₂_cons.mp h
      obtain ⟨-, hinit, hlimit, hstep⟩ := Clause.forOpen.inj hopen
      obtain ⟨hb, h⟩ := block_unique hs (stops_cons.mpr rfl) (stops_cons.mpr rfl) h
      exact ⟨⟨hinit, hlimit, hstep, hb⟩, (List.forall₂_cons.mp h).2⟩
    | _ => cases (List.forall₂_cons.mp h).1.2

theorem block_unique {depth depth' next next' : Nat} {b b' : Block Stmt} {r r' : List Placed}
    (hb : Ty.structsOf b.declared ⊆ table)
    (hr : Stops Kind.inBlock r) (hr' : Stops Kind.inBlock r')
    (h : List.Forall₂ Placed.SameText (blockClauses table depth next b ++ r)
      (blockClauses table depth' next' b' ++ r')) :
    b.SameText b' ∧ List.Forall₂ Placed.SameText r r' := by
  cases b with
  | mk ts ss =>
    cases b' with
    | mk us rs =>
      rw [Block.declared, Ty.structsOf_append] at hb
      obtain ⟨hts, hss⟩ := List.append_subset.mp hb
      rw [blockClauses, blockClauses, List.append_assoc, List.append_assoc] at h
      obtain ⟨hnames, h⟩ := declarations_unique .local (fun _ _ => rfl)
        (fun _ _ _ _ h => (Clause.local.inj h).1) (stops_stmts hr) (stops_stmts hr') h
      obtain ⟨hstmts, h⟩ := stmts_unique hss hr hr' h
      exact ⟨⟨StructTable.map_nameOf_inj hts hnames, hstmts⟩, h⟩

theorem stmts_unique {depth depth' next next' : Nat} {ss ss' : List Stmt} {r r' : List Placed}
    (hss : Ty.structsOf (Stmt.declaredBy ss) ⊆ table)
    (hr : Stops Kind.inBlock r) (hr' : Stops Kind.inBlock r')
    (h : List.Forall₂ Placed.SameText (stmtsClauses table depth next ss ++ r)
      (stmtsClauses table depth' next' ss' ++ r')) :
    Stmt.SameTexts ss ss' ∧ List.Forall₂ Placed.SameText r r' := by
  cases ss with
  | nil =>
    cases ss' with
    | nil => exact ⟨trivial, h⟩
    | cons s' ss' => exact absurd ((stops_congr h).mp hr) not_stops_stmts
  | cons s ss =>
    cases ss' with
    | nil => exact absurd ((stops_congr h).mpr hr') not_stops_stmts
    | cons s' ss' =>
      rw [Stmt.declaredBy, Ty.structsOf_append] at hss
      obtain ⟨hs, hss⟩ := List.append_subset.mp hss
      rw [stmtsClauses, stmtsClauses, List.append_assoc, List.append_assoc] at h
      obtain ⟨hfirst, h⟩ := stmt_unique hs h
      obtain ⟨hall, h⟩ := stmts_unique hss hr hr' h
      exact ⟨⟨hfirst, hall⟩, h⟩

end

theorem paramsOf_inj {ps qs : List (Direction × Ty)} {next next' : Nat}
    (hps : Ty.structsOf (ps.map (·.2)) ⊆ table)
    (h : paramsOf table next ps = paramsOf table next' qs) : ps = qs := by
  induction ps generalizing qs next next' with
  | nil =>
    cases qs with
    | nil => rfl
    | cons q qs => cases h
  | cons p ps ih =>
    cases qs with
    | nil => cases h
    | cons q qs =>
      obtain ⟨ht, hps⟩ := List.append_subset.mp hps
      obtain ⟨hparam, hmore⟩ := List.cons.inj h
      obtain ⟨hdirection, hname, -⟩ := Param.mk.inj hparam
      rw [ih hps hmore, Prod.ext hdirection ((StructTable.nameOf_eq_iff ht).mp hname)]

theorem func_unique {f g : Func} {r r' : List Placed} (hf : Ty.structsOf f.declared ⊆ table)
    (h : List.Forall₂ Placed.SameText (funcClauses table f ++ r) (funcClauses table g ++ r')) :
    f.SameText g ∧ List.Forall₂ Placed.SameText r r' := by
  rw [Func.declared, Ty.structsOf_append] at hf
  obtain ⟨hps, hbody⟩ := List.append_subset.mp hf
  simp only [funcClauses, List.cons_append, List.append_assoc, List.nil_append] at h
  obtain ⟨⟨-, hopen⟩, h⟩ := List.forall₂_cons.mp h
  obtain ⟨hname, hparams⟩ := Clause.funcOpen.inj hopen
  obtain ⟨hsame, h⟩ := block_unique hbody (stops_cons.mpr rfl) (stops_cons.mpr rfl) h
  have htypes (d : Direction) : Parser.typesOf d f.params = Parser.typesOf d g.params := by
    rw [paramsOf_inj hps hparams]
  obtain ⟨hin, hinout, hout⟩ := Parser.typesOf_params f
  obtain ⟨hin', hinout', hout'⟩ := Parser.typesOf_params g
  refine ⟨⟨hname, ?_, ?_, ?_, hsame⟩, (List.forall₂_cons.mp h).2⟩
  · rw [← hin, htypes, hin']
  · rw [← hinout, htypes, hinout']
  · rw [← hout, htypes, hout']

theorem funcs_unique {fs gs : List Func} (hfs : Ty.structsOf (fs.flatMap Func.declared) ⊆ table)
    (h : List.Forall₂ Placed.SameText (fs.flatMap (funcClauses table))
      (gs.flatMap (funcClauses table))) : List.Forall₂ Func.SameText fs gs := by
  induction fs generalizing gs with
  | nil =>
    cases gs with
    | nil => exact .nil
    | cons g gs => cases h
  | cons f fs ih =>
    cases gs with
    | nil => cases h
    | cons g gs =>
      rw [List.flatMap_cons, Ty.structsOf_append] at hfs
      obtain ⟨hf, hfs⟩ := List.append_subset.mp hfs
      obtain ⟨hfirst, h⟩ := func_unique hf h
      exact .cons hfirst (ih hfs h)

theorem globals_unique {c : Category} {ts us : List Ty} {r r' : List Placed}
    (hts : Ty.structsOf ts ⊆ table) (hr : Stops (· == .global c) r)
    (hr' : Stops (· == .global c) r')
    (h : List.Forall₂ Placed.SameText (globalClauses table c 0 ts ++ r)
      (globalClauses table c 0 us ++ r')) : ts = us ∧ List.Forall₂ Placed.SameText r r' := by
  obtain ⟨hnames, h⟩ := declarations_unique (.global c) (fun _ _ => rfl)
    (fun _ _ _ _ h => (Clause.global.inj h).2.1) hr hr' h
  exact ⟨StructTable.map_nameOf_inj hts hnames, h⟩

theorem stops_globals {isIn : Kind → Bool} {c : Category} (hc : isIn (.global c) = false)
    {ts : List Ty} {r : List Placed} (hr : Stops isIn r) :
    Stops isIn (globalClauses table c 0 ts ++ r) := by
  refine stops_append (fun d hd => ?_) hr
  obtain ⟨_, -, rfl⟩ := List.mem_map.mp hd
  exact hc

theorem stops_funcs {isIn : Kind → Bool} (hopen : isIn .funcOpen = false) (fs : List Func) :
    Stops isIn (fs.flatMap (funcClauses table)) := by
  cases fs with
  | nil => exact stops_nil
  | cons f fs => exact stops_cons.mpr hopen

/-- Clauses that are the same but for their numbers come from programs that are. -/
theorem program_unique {p q : Program} (h : List.Forall₂ Placed.SameText p.clauses q.clauses) :
    p.SameText q := by
  have hall := StructTable.structsOf_declared_subset p
  simp only [Program.declared, Ty.structsOf_append, List.append_subset] at hall
  obtain ⟨⟨⟨hu, ha⟩, hv⟩, hfuncs⟩ := hall
  simp only [Program.clauses, headClauses, definitions, List.append_assoc] at h
  have hstops (p : Program) {table : StructTable} : Stops (· == .structOpen)
      (globalClauses table .uniform 0 p.uniforms ++ (globalClauses table .attribute 0 p.attributes
        ++ (globalClauses table .varying 0 p.varyings ++ p.funcs.flatMap (funcClauses table)))) :=
    stops_globals rfl (stops_globals rfl (stops_globals rfl (stops_funcs rfl _)))
  obtain ⟨hentries, h⟩ := definitions_unique (hstops p) (hstops q) h
  have htable : StructTable.ofProgram p = StructTable.ofProgram q :=
    StructTable.eq_of_entries (StructTable.complete_ofProgram p) (StructTable.complete_ofProgram q)
      (StructTable.nodup_ofProgram p) (StructTable.nodup_ofProgram q) hentries
  rw [← htable] at h
  obtain ⟨huniforms, h⟩ := globals_unique hu
    (stops_globals rfl (stops_globals rfl (stops_funcs rfl _)))
    (stops_globals rfl (stops_globals rfl (stops_funcs rfl _))) h
  obtain ⟨hattributes, h⟩ := globals_unique ha (stops_globals rfl (stops_funcs rfl _))
    (stops_globals rfl (stops_funcs rfl _)) h
  obtain ⟨hvaryings, h⟩ := globals_unique hv (stops_funcs rfl _) (stops_funcs rfl _) h
  exact ⟨huniforms, hattributes, hvaryings, funcs_unique hfuncs h⟩

section

variable {p : Program} {func : String}

def AllPlain (cs : List Placed) : Prop := ∀ c ∈ cs, c.clause.Plain

theorem allPlain_cons {c : Placed} {cs : List Placed} :
    AllPlain (c :: cs) ↔ c.clause.Plain ∧ AllPlain cs := List.forall_mem_cons

theorem allPlain_append {cs ds : List Placed} :
    AllPlain (cs ++ ds) ↔ AllPlain cs ∧ AllPlain ds := List.forall_mem_append

theorem allPlain_nil : AllPlain [] := nofun

theorem allPlain_declarations (clause : TypeName → Nat → Clause) (h : ∀ n i, (clause n i).Plain)
    {depth next : Nat} {ts : List Ty} :
    AllPlain ((ts.zipIdx next).map fun (t, i) => ⟨depth, clause (table.nameOf t) i⟩) := by
  intro c hc
  obtain ⟨_, -, rfl⟩ := List.mem_map.mp hc
  exact h _ _

mutual

theorem allPlain_stmt {depth next locals : Nat} {s : Stmt}
    (h : (s.issues p func locals).1 = []) : AllPlain (stmtClauses table depth next s) := by
  cases s with
  | block b =>
    simp only [stmtClauses, List.cons_append, allPlain_cons, allPlain_append]
    exact ⟨trivial, allPlain_block h, trivial, allPlain_nil⟩
  | assign target value =>
    have htarget : target.targetIssues func = [] :=
      (List.append_eq_nil_iff.mp (List.append_eq_nil_iff.mp h).1).1
    obtain ⟨i, rfl | rfl⟩ := Expr.isPlace_of_targetIssues func htarget
    · exact allPlain_cons.mpr ⟨⟨_, rfl⟩, allPlain_nil⟩
    · exact allPlain_cons.mpr ⟨⟨_, rfl⟩, allPlain_nil⟩
  | ifElse cond t e =>
    rw [Stmt.issues_ifElse, List.append_eq_nil_iff, List.append_eq_nil_iff] at h
    simp only [stmtClauses, List.cons_append, List.append_assoc, allPlain_cons, allPlain_append]
    exact ⟨trivial, allPlain_block h.2.1, trivial, allPlain_block h.2.2, trivial, allPlain_nil⟩
  | forRange init limit step b =>
    have hb := (List.append_eq_nil_iff.mp h).2
    simp only [stmtClauses, List.cons_append, allPlain_cons, allPlain_append]
    exact ⟨trivial, allPlain_block hb, trivial, allPlain_nil⟩

theorem allPlain_block {depth next locals : Nat} {b : Block Stmt}
    (h : (b.issues p func locals).1 = []) : AllPlain (blockClauses table depth next b) := by
  cases b with
  | mk ts ss =>
    exact allPlain_append.mpr ⟨allPlain_declarations .local fun _ _ => trivial, allPlain_stmts h⟩

theorem allPlain_stmts {depth next locals : Nat} {ss : List Stmt}
    (h : (Stmt.issuesOf p func locals ss).1 = []) :
    AllPlain (stmtsClauses table depth next ss) := by
  cases ss with
  | nil => exact allPlain_nil
  | cons s ss =>
    rw [Stmt.issuesOf_cons, List.append_eq_nil_iff] at h
    exact allPlain_append.mpr ⟨allPlain_stmt h.1, allPlain_stmts h.2⟩

end

theorem allPlain_func {f : Func} (hname : IsIdentifier f.name) (hbody : f.bodyIssues p = []) :
    AllPlain (funcClauses table f) := by
  have hchars : ∀ c ∈ f.name.toList, isIdentifierChar c = true := by
    obtain ⟨d, cs, hname, hd, hcs⟩ := hname
    rw [hname, List.forall_mem_cons]
    exact ⟨(continuesIdentifier_iff d).mp (Or.inl hd),
      fun c hc => (continuesIdentifier_iff c).mp (hcs c hc)⟩
  simp only [funcClauses, List.cons_append, allPlain_cons, allPlain_append]
  exact ⟨hchars, allPlain_block hbody, trivial, allPlain_nil⟩

theorem allPlain_clauses (h : p.issues = []) : AllPlain p.clauses := by
  have hwell := Program.wellFormed_of_issues h
  have hbodies := Program.bodyIssues_of_issues h
  simp only [Program.clauses, headClauses, allPlain_append]
  have hglobal {c : Category} (hc : c ≠ .local) (ts : List Ty) :
      AllPlain (globalClauses (StructTable.ofProgram p) c 0 ts) :=
    allPlain_declarations (.global c) fun _ _ => hc
  refine ⟨⟨⟨⟨?_, hglobal (by decide) _⟩, hglobal (by decide) _⟩, hglobal (by decide) _⟩, ?_⟩
  · intro c hc
    obtain ⟨ms, -, hc⟩ := List.mem_flatMap.mp hc
    have hdefinition : AllPlain (definition (StructTable.ofProgram p) ms) := by
      simp only [definition, List.cons_append, allPlain_cons, allPlain_append]
      exact ⟨trivial, allPlain_declarations .member fun _ _ => trivial, trivial, allPlain_nil⟩
    exact hdefinition c hc
  · intro c hc
    obtain ⟨f, hf, hc⟩ := List.mem_flatMap.mp hc
    exact allPlain_func (hwell.names f hf) (hbodies f hf) c hc

end

end Glsl

namespace Program

/-- Two programs without issues are rendered alike exactly if they are the same but for numbers that
have one text. -/
theorem render_faithful {p q : Program} (hp : p.issues = []) (hq : q.issues = []) :
    p.render = q.render ↔ p.SameText q := by
  have hrender {p : Program} (hp : p.issues = []) : p.render = .ok (Glsl.text p.clauses) :=
    render_ok_iff.mpr ⟨by rw [hp]; rfl, rfl⟩
  rw [hrender hp, hrender hq, Except.ok.injEq]
  constructor
  · intro h
    exact Glsl.program_unique (Glsl.sameText_of_text (Glsl.allPlain_clauses hp)
      (Glsl.allPlain_clauses hq) h)
  · exact fun h => Glsl.text_eq_of_sameText (Glsl.sameText_clauses h)

def painted (x : Binary64) : Program where
  uniforms := [.struct [.basic .vec2, .struct [.basic .float]]]
  varyings := [.basic .float]
  funcs := [{
    name := "main"
    body := ⟨[.basic .float], [.forRange 0 3 1 ⟨[], [.ifElse (.var ⟨.local, 1⟩)
      ⟨[], [.assign (.var ⟨.varying, 0⟩) (.binary .add (.num x) (.var ⟨.local, 0⟩))]⟩ {}]⟩]⟩ }]

theorem painted_same :
    let x := Binary64.ofBits 0x3fb999999999999a
    let y := Binary64.ofBits 0x3fb999999999999b
    x ≠ y ∧ (painted x).render = (painted y).render ∧ (painted x).SameText (painted y) := by
  have hrender : (painted (.ofBits 0x3fb999999999999a)).render =
      (painted (.ofBits 0x3fb999999999999b)).render := by decide +kernel
  exact ⟨by decide, hrender, (render_faithful (by decide) (by decide)).mp hrender⟩

end Program

end ShaderTree
