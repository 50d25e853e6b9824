import ShaderTree.Proofs.Refusal
import ShaderTree.Proofs.SameClauses

namespace ShaderTree

namespace Glsl

section

/-- The structs have the same indices in both tables. -/
def Agree (known : List (List Ty)) (table table' : StructTable) : Prop :=
  ∀ ms ∈ known, table.idxOf ms = table'.idxOf ms

variable {known : List (List Ty)} {table table' : StructTable}

theorem declarations_congr (h : Agree known table table') (clause : TypeName → Nat → Clause)
    (depth next : Nat) {ts : List Ty} (hts : Ty.structsOf ts ⊆ known) :
    ((ts.zipIdx next).map fun (t, i) => (⟨depth, clause (table.nameOf t) i⟩ : Placed)) =
      (ts.zipIdx next).map fun (t, i) => ⟨depth, clause (table'.nameOf t) i⟩ := by
  refine List.map_congr_left fun ⟨t, i⟩ hti => ?_
  have ht : t.structs ⊆ known := fun ms hms =>
    hts (Ty.mem_structsOf.mpr ⟨t, List.fst_mem_of_mem_zipIdx hti, hms⟩)
  dsimp only
  rw [StructTable.nameOf_congr h ht]

theorem paramsOf_congr (h : Agree known table table') (next : Nat) {ps : List (Direction × Ty)}
    (hps : Ty.structsOf (ps.map (·.2)) ⊆ known) :
    paramsOf table next ps = paramsOf table' next ps := by
  refine List.map_congr_left fun ⟨⟨d, t⟩, i⟩ hdt => ?_
  have ht : t.structs ⊆ known := fun ms hms =>
    hps (Ty.mem_structsOf.mpr
      ⟨t, List.mem_map_of_mem (f := (·.2)) (List.fst_mem_of_mem_zipIdx hdt), hms⟩)
  dsimp only
  rw [StructTable.nameOf_congr h ht]

mutual

/-- Clauses depend on the table by the indices of the structs they declare. -/
theorem stmtClauses_congr (h : Agree known table table') (depth next : Nat) {s : Stmt}
    (hs : Ty.structsOf s.declared ⊆ known) :
    stmtClauses table depth next s = stmtClauses table' depth next s := by
  cases s with
  | block b => rw [stmtClauses, stmtClauses, blockClauses_congr h _ _ hs]
  | assign target value => rfl
  | ifElse cond t e =>
    rw [Stmt.declared, Ty.structsOf_append] at hs
    obtain ⟨ht, he⟩ := List.append_subset.mp hs
    rw [stmtClauses, stmtClauses, blockClauses_congr h _ _ ht, blockClauses_congr h _ _ he]
  | forRange init limit step b => rw [stmtClauses, stmtClauses, blockClauses_congr h _ _ hs]

theorem blockClauses_congr (h : Agree known table table') (depth next : Nat) {b : Block Stmt}
    (hb : Ty.structsOf b.declared ⊆ known) :
    blockClauses table depth next b = blockClauses table' depth next b := by
  cases b with
  | mk ts ss =>
    rw [Block.declared, Ty.structsOf_append] at hb
    obtain ⟨hts, hss⟩ := List.append_subset.mp hb
    have hlocals : localClauses table depth next ts = localClauses table' depth next ts :=
      declarations_congr h .local depth next hts
    rw [blockClauses, blockClauses, hlocals, stmtsClauses_congr h _ _ hss]

theorem stmtsClauses_congr (h : Agree known table table') (depth next : Nat) {ss : List Stmt}
    (hss : Ty.structsOf (Stmt.declaredBy ss) ⊆ known) :
    stmtsClauses table depth next ss = stmtsClauses table' depth next ss := by
  cases ss with
  | nil => rfl
  | cons s ss =>
    rw [Stmt.declaredBy, Ty.structsOf_append] at hss
    obtain ⟨hs, hss⟩ := List.append_subset.mp hss
    rw [stmtsClauses, stmtsClauses, stmtClauses_congr h _ _ hs, stmtsClauses_congr h _ _ hss]

end

theorem funcClauses_congr (h : Agree known table table') {f : Func}
    (hf : Ty.structsOf f.declared ⊆ known) :
    funcClauses table f = funcClauses table' f := by
  rw [Func.declared, Ty.structsOf_append] at hf
  obtain ⟨hps, hbody⟩ := List.append_subset.mp hf
  rw [funcClauses, funcClauses, paramsOf_congr h 0 hps, blockClauses_congr h _ _ hbody]

theorem definition_congr (h : Agree known table table') {ms : List Ty} (hm : ms ∈ known)
    (hin : Ty.structsOf ms ⊆ known) :
    definition table ms = definition table' ms := by
  have hmembers : memberClauses table 0 ms = memberClauses table' 0 ms :=
    declarations_congr h .member 1 0 hin
  rw [definition, definition, h ms hm, hmembers]

/-- The global variables of the program and its functions. -/
def globalsAndFuncs (table : StructTable) (p : Program) : List Placed :=
  globalClauses table .uniform 0 p.uniforms ++ globalClauses table .attribute 0 p.attributes ++
    globalClauses table .varying 0 p.varyings ++ p.funcs.flatMap (funcClauses table)

theorem globalsAndFuncs_congr {p : Program} (h : Agree (Ty.structsOf p.declared) table table') :
    globalsAndFuncs table p = globalsAndFuncs table' p := by
  have hglobals (c : Category) {ts : List Ty} (hts : ts ⊆ p.declared) :
      globalClauses table c 0 ts = globalClauses table' c 0 ts :=
    declarations_congr h (.global c) 0 0 (Ty.structsOf_mono hts)
  have hfuncs : p.funcs.flatMap (funcClauses table) = p.funcs.flatMap (funcClauses table') := by
    refine List.flatMap_congr fun f hf => funcClauses_congr h (Ty.structsOf_mono fun t ht => ?_)
    exact List.mem_append_right _ (List.mem_flatMap.mpr ⟨f, hf, ht⟩)
  rw [globalsAndFuncs, globalsAndFuncs, hglobals .uniform, hglobals .attribute, hglobals .varying,
    hfuncs]
  all_goals
    simp only [Program.declared, List.append_assoc]
    intro t ht
    simp [ht]

end

namespace StructTable

mutual

theorem prefix_defineTy (defined : StructTable) (t : Ty) : defined <+: defineTy defined t := by
  cases t with
  | basic b => exact List.prefix_rfl
  | struct ms =>
    rw [defineTy]
    split
    · exact List.prefix_rfl
    · exact (prefix_defineTys defined ms).trans (List.prefix_append _ _)

theorem prefix_defineTys (defined : StructTable) (ts : List Ty) :
    defined <+: defineTys defined ts := by
  cases ts with
  | nil => exact List.prefix_rfl
  | cons t ts => exact (prefix_defineTy defined t).trans (prefix_defineTys (defineTy defined t) ts)

end

theorem prefix_definitionOrder (table more : StructTable) :
    table.definitionOrder <+: (table ++ more).definitionOrder := by
  rw [definitionOrder, definitionOrder, List.foldl_append]
  generalize table.foldl (fun defined ms => defineTy defined (.struct ms)) [] = defined
  induction more generalizing defined with
  | nil => exact List.prefix_rfl
  | cons ms more ih => exact (prefix_defineTy defined (.struct ms)).trans (ih _)

end StructTable

end Glsl

namespace Program

open Glsl

variable {p : Program} {f : Func}

theorem clauses_eq (p : Program) : p.clauses =
    definitions (StructTable.ofProgram p) ++ globalsAndFuncs (StructTable.ofProgram p) p := by
  simp only [clauses, headClauses, globalsAndFuncs, List.append_assoc]

theorem declared_addFunc (p : Program) (f : Func) :
    (p.addFunc f).2.declared = p.declared ++ f.declared := by
  simp [addFunc, declared]

theorem exists_ofProgram_addFunc (p : Program) (f : Func) :
    ∃ more, StructTable.ofProgram (p.addFunc f).2 = StructTable.ofProgram p ++ more := by
  rw [StructTable.ofProgram_eq, StructTable.ofProgram_eq, declared_addFunc, Ty.structsOf_append,
    List.eraseDups_append]
  exact ⟨_, rfl⟩

theorem idxOf_addFunc {ms : List Ty} (hms : ms ∈ Ty.structsOf p.declared) :
    (StructTable.ofProgram p).idxOf ms = (StructTable.ofProgram (p.addFunc f).2).idxOf ms := by
  obtain ⟨more, hmore⟩ := exists_ofProgram_addFunc p f
  rw [hmore, List.idxOf_append_of_mem (StructTable.mem_ofProgram.mpr hms)]

/-- A function at the end brings its own structs into the order of definitions, behind those that
are in it. -/
theorem exists_definitionOrder_addFunc (p : Program) (f : Func) :
    ∃ fresh, (StructTable.ofProgram (p.addFunc f).2).definitionOrder =
        (StructTable.ofProgram p).definitionOrder ++ fresh ∧ fresh.Nodup ∧
      ∀ ms, ms ∈ fresh ↔ ms ∈ Ty.structsOf f.declared ∧ ms ∉ Ty.structsOf p.declared := by
  obtain ⟨more, hmore⟩ := exists_ofProgram_addFunc p f
  obtain ⟨fresh, hfresh⟩ := StructTable.prefix_definitionOrder (StructTable.ofProgram p) more
  rw [← hmore] at hfresh
  have hnodup := (StructTable.definitionOrder_ordered
    (StructTable.ofProgram (p.addFunc f).2)).nodup
  rw [← hfresh] at hnodup
  obtain ⟨-, hfreshNodup, hdisjoint⟩ := List.nodup_append.mp hnodup
  have hold (ms : List Ty) : ms ∈ (StructTable.ofProgram p).definitionOrder ↔
      ms ∈ Ty.structsOf p.declared :=
    (StructTable.mem_definitionOrder (StructTable.complete_ofProgram p)).trans
      StructTable.mem_ofProgram
  have hall (ms : List Ty) : ms ∈ (StructTable.ofProgram p).definitionOrder ++ fresh ↔
      ms ∈ Ty.structsOf p.declared ∨ ms ∈ Ty.structsOf f.declared := by
    rw [hfresh, StructTable.mem_definitionOrder (StructTable.complete_ofProgram _),
      StructTable.mem_ofProgram, declared_addFunc, Ty.structsOf_append, List.mem_append]
  refine ⟨fresh, hfresh.symm, hfreshNodup, fun ms => ?_⟩
  have hms := hall ms
  rw [List.mem_append, hold] at hms
  constructor
  · intro hin
    have hnot : ms ∉ Ty.structsOf p.declared := fun h => hdisjoint ms ((hold ms).mpr h) ms hin rfl
    exact ⟨(hms.mp (Or.inr hin)).resolve_left hnot, hnot⟩
  · rintro ⟨hin, hnot⟩
    exact (hms.mpr (Or.inr hin)).resolve_left hnot

/-- A function added to a program leaves the lines of the program as they are. The definitions of
structs that are new in the function come behind the old ones, and the function at the end. -/
theorem render_addFunc {text text' : String} (h : p.render = .ok text)
    (h' : (p.addFunc f).2.render = .ok text') :
    let table := StructTable.ofProgram p
    let table' := StructTable.ofProgram (p.addFunc f).2
    (∀ ms ∈ Ty.structsOf p.declared, table.idxOf ms = table'.idxOf ms) ∧
    ∃ fresh : List (List Ty), fresh.Nodup ∧
      (∀ ms, ms ∈ fresh ↔ ms ∈ Ty.structsOf f.declared ∧ ms ∉ Ty.structsOf p.declared) ∧
      text = Glsl.text (definitions table ++ globalsAndFuncs table p) ∧
      text' = Glsl.text (definitions table ++ fresh.flatMap (definition table') ++
        globalsAndFuncs table p ++ funcClauses table' f) := by
  intro table table'
  have hindex : ∀ ms ∈ Ty.structsOf p.declared, table.idxOf ms = table'.idxOf ms :=
    fun ms hms => idxOf_addFunc hms
  obtain ⟨fresh, horder, hnodup, hmem⟩ := exists_definitionOrder_addFunc p f
  refine ⟨hindex, fresh, hnodup, hmem, ?_, ?_⟩
  · rw [(render_ok_iff.mp h).2, clauses_eq]
  · have hdefinitions : definitions table = table.definitionOrder.flatMap (definition table') := by
      refine List.flatMap_congr fun ms hms => ?_
      have htable := (StructTable.mem_definitionOrder (StructTable.complete_ofProgram p)).mp hms
      have hdeclared := StructTable.mem_ofProgram.mp htable
      exact definition_congr hindex hdeclared (Ty.structsOf_subset_structsOf hdeclared)
    have htail : globalsAndFuncs table' (p.addFunc f).2 =
        globalsAndFuncs table p ++ funcClauses table' f := by
      rw [globalsAndFuncs_congr hindex]
      simp [globalsAndFuncs, addFunc]
    have hdefinitions' : definitions table' =
        definitions table ++ fresh.flatMap (definition table') := by
      rw [hdefinitions, ← List.flatMap_append, ← horder]
      rfl
    rw [(render_ok_iff.mp h').2, clauses_eq, htail, hdefinitions', List.append_assoc,
      List.append_assoc, List.append_assoc]

def structInStruct : Program where
  uniforms := [.struct [.basic .float, .struct [.basic .vec2]]]

def aroundStruct : Func where
  name := "main"
  inParams := [.struct [.struct [.basic .int], .struct [.basic .vec2]]]

def structInStructText : String :=
  "struct S1 \x7b\n\tvec2 M0;\n\x7d;\nstruct S0 \x7b\n\tfloat M0;\n\tS1 M1;\n\x7d;\n" ++
    "uniform S0 U0;\n"

def aroundStructText : String :=
  "struct S1 \x7b\n\tvec2 M0;\n\x7d;\nstruct S0 \x7b\n\tfloat M0;\n\tS1 M1;\n\x7d;\n" ++
    "struct S3 \x7b\n\tint M0;\n\x7d;\nstruct S2 \x7b\n\tS3 M0;\n\tS1 M1;\n\x7d;\n" ++
    "uniform S0 U0;\nvoid main(in S2 l0) \x7b\n\x7d\n"

theorem structInStruct_addFunc :
    let p := (structInStruct.addFunc aroundStruct).2
    structInStruct.render = .ok structInStructText ∧ p.render = .ok aroundStructText ∧
      ∃ fresh : List (List Ty), fresh.Nodup ∧ [.basic .int] ∈ fresh ∧
        aroundStructText = Glsl.text (definitions (StructTable.ofProgram structInStruct) ++
          fresh.flatMap (definition (StructTable.ofProgram p)) ++
          globalsAndFuncs (StructTable.ofProgram structInStruct) structInStruct ++
          funcClauses (StructTable.ofProgram p) aroundStruct) := by
  intro p
  have h : structInStruct.render = .ok structInStructText := by rfl
  have h' : p.render = .ok aroundStructText := by rfl
  obtain ⟨-, fresh, hnodup, hmem, -, htext⟩ := render_addFunc h h'
  exact ⟨h, h', fresh, hnodup, (hmem _).mpr ⟨by decide, by decide⟩, htext⟩

end Program

end ShaderTree
