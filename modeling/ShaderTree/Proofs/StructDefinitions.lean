import ShaderTree.Proofs.GlslDeclarations

namespace ShaderTree

namespace Glsl

def TypeName.structs : TypeName → List Nat
  | basic _ => []
  | struct i => [i]

def Clause.structs : Clause → List Nat
  | member t _ => t.structs
  | global _ t _ => t.structs
  | funcOpen _ ps => ps.flatMap (·.type.structs)
  | «local» t _ => t.structs
  | _ => []

section

variable (table : StructTable)

def DefinedIn (cs : List Placed) (i : Nat) : Prop :=
  ∃ ms, table[i]? = some ms ∧ definition table ms <:+: cs

/-- The structs that a clause names are defined in the clauses known before or in front of it. -/
def UsesDefined (known cs : List Placed) : Prop :=
  ∀ before c after, cs = before ++ c :: after →
    ∀ i ∈ c.clause.structs, DefinedIn table (known ++ before) i

variable {table}

theorem DefinedIn.mono {cs ds : List Placed} {i : Nat} (h : DefinedIn table cs i)
    (hsub : cs <:+: ds) : DefinedIn table ds i := by
  obtain ⟨ms, hms, hdef⟩ := h
  exact ⟨ms, hms, hdef.trans hsub⟩

theorem usesDefined_of_forall {known cs : List Placed}
    (h : ∀ c ∈ cs, ∀ i ∈ c.clause.structs, DefinedIn table known i) :
    UsesDefined table known cs := by
  rintro before c after rfl i hi
  exact (h c (by simp) i hi).mono (List.prefix_append known before).isInfix

theorem UsesDefined.append {known cs ds : List Placed} (hcs : UsesDefined table known cs)
    (hds : UsesDefined table (known ++ cs) ds) : UsesDefined table known (cs ++ ds) := by
  intro before c after h i hi
  obtain ⟨mid, rfl, hmid⟩ | ⟨mid, hmid, hafter⟩ := List.append_eq_append_iff.mp h
  · rw [← List.append_assoc]
    exact hds mid c after hmid i hi
  · cases mid with
    | nil =>
      rw [List.append_nil] at hmid
      rw [← hmid, ← List.append_nil (known ++ cs)]
      exact hds [] c after hafter.symm i hi
    | cons d mid =>
      obtain ⟨rfl, rfl⟩ := List.cons.inj hafter
      exact hcs before c mid hmid i hi

theorem structs_nameOf {t : Ty} {i : Nat} (h : i ∈ (table.nameOf t).structs) :
    ∃ ms ∈ t.structs, i = table.idxOf ms := by
  cases t with
  | basic b => cases h
  | struct ms => exact ⟨ms, List.mem_cons_self, List.mem_singleton.mp h⟩

variable (table) in
def NamesOnly (us : List (List Ty)) (cs : List Placed) : Prop :=
  ∀ c ∈ cs, (∀ i, c.clause ≠ .structOpen i) ∧
    ∀ i ∈ c.clause.structs, ∃ ms ∈ us, i = table.idxOf ms

theorem NamesOnly.append {us : List (List Ty)} {cs ds : List Placed} (hcs : NamesOnly table us cs)
    (hds : NamesOnly table us ds) : NamesOnly table us (cs ++ ds) := by
  intro c hc
  exact (List.mem_append.mp hc).elim (hcs c) (hds c)

theorem NamesOnly.mono {us vs : List (List Ty)} {cs : List Placed} (h : NamesOnly table us cs)
    (hsub : us ⊆ vs) : NamesOnly table vs cs := by
  intro c hc
  refine ⟨(h c hc).1, fun i hi => ?_⟩
  obtain ⟨ms, hms, hi⟩ := (h c hc).2 i hi
  exact ⟨ms, hsub hms, hi⟩

theorem NamesOnly.cons {us : List (List Ty)} {cs : List Placed} (h : NamesOnly table us cs)
    (depth : Nat) {clause : Clause} (hopen : ∀ i, clause ≠ .structOpen i)
    (hnone : clause.structs = []) : NamesOnly table us (⟨depth, clause⟩ :: cs) := by
  intro c hc
  obtain rfl | hc := List.mem_cons.mp hc
  · exact ⟨hopen, fun i hi => absurd (hnone ▸ hi) List.not_mem_nil⟩
  · exact h c hc

theorem namesOnly_nil (us : List (List Ty)) : NamesOnly table us [] :=
  fun _ hc => absurd hc List.not_mem_nil

theorem namesOnly_close (us : List (List Ty)) (depth : Nat) :
    NamesOnly table us [⟨depth, .close⟩] :=
  (namesOnly_nil us).cons depth nofun rfl

theorem namesOnly_declarations (clause : TypeName → Nat → Clause)
    (hopen : ∀ n j i, clause n j ≠ .structOpen i) (hnames : ∀ n j, (clause n j).structs = n.structs)
    (depth next : Nat) (ts : List Ty) :
    NamesOnly table (Ty.structsOf ts)
      ((ts.zipIdx next).map fun (t, j) => ⟨depth, clause (table.nameOf t) j⟩) := by
  intro c hc
  obtain ⟨⟨t, j⟩, ht, rfl⟩ := List.mem_map.mp hc
  refine ⟨hopen _ j, fun i hi => ?_⟩
  rw [hnames] at hi
  obtain ⟨ms, hms, hi⟩ := structs_nameOf hi
  exact ⟨ms, Ty.mem_structsOf.mpr ⟨t, List.fst_mem_of_mem_zipIdx ht, hms⟩, hi⟩

mutual

theorem namesOnly_stmtClauses (depth next : Nat) (s : Stmt) :
    NamesOnly table (Ty.structsOf s.declared) (stmtClauses table depth next s) := by
  cases s with
  | block b =>
    have hb := namesOnly_blockClauses (depth + 1) next b
    exact (hb.cons depth (by nofun) rfl).append (namesOnly_close _ depth)
  | assign target value => exact (namesOnly_nil _).cons depth (by nofun) rfl
  | ifElse cond t e =>
    rw [Stmt.declared, Ty.structsOf_append]
    have ht := (namesOnly_blockClauses (depth + 1) next t).mono
      (List.subset_append_left _ (Ty.structsOf e.declared))
    have he := (namesOnly_blockClauses (depth + 1) (next + t.localCount) e).mono
      (List.subset_append_right (Ty.structsOf t.declared) _)
    exact ((ht.cons depth (by nofun) rfl).append (he.cons depth (by nofun) rfl)).append
      (namesOnly_close _ depth)
  | forRange init limit step b =>
    have hb := namesOnly_blockClauses (depth + 1) (next + 1) b
    exact (hb.cons depth (by nofun) rfl).append (namesOnly_close _ depth)

theorem namesOnly_blockClauses (depth next : Nat) (b : Block Stmt) :
    NamesOnly table (Ty.structsOf b.declared) (blockClauses table depth next b) := by
  cases b with
  | mk ts ss =>
    rw [Block.declared, Ty.structsOf_append]
    have hts : NamesOnly table (Ty.structsOf ts) (localClauses table depth next ts) :=
      namesOnly_declarations .local nofun (fun _ _ => rfl) depth next ts
    exact (hts.mono (List.subset_append_left _ _)).append
      ((namesOnly_stmtsClauses depth _ ss).mono (List.subset_append_right _ _))

theorem namesOnly_stmtsClauses (depth next : Nat) (ss : List Stmt) :
    NamesOnly table (Ty.structsOf (Stmt.declaredBy ss)) (stmtsClauses table depth next ss) := by
  cases ss with
  | nil => exact fun c hc => absurd hc List.not_mem_nil
  | cons s ss =>
    rw [Stmt.declaredBy, Ty.structsOf_append]
    exact ((namesOnly_stmtClauses depth next s).mono (List.subset_append_left _ _)).append
      ((namesOnly_stmtsClauses depth _ ss).mono (List.subset_append_right _ _))

end

theorem namesOnly_funcClauses (f : Func) :
    NamesOnly table (Ty.structsOf f.declared) (funcClauses table f) := by
  rw [Func.declared, Ty.structsOf_append]
  have hbody : NamesOnly table _ (blockClauses table 1 f.paramCount f.body) :=
    (namesOnly_blockClauses 1 f.paramCount f.body).mono
      (List.subset_append_right (Ty.structsOf (f.params.map (·.2))) _)
  intro c hc
  obtain rfl | hc := List.mem_cons.mp hc
  · refine ⟨fun _ hopen => Clause.noConfusion hopen, fun i hi => ?_⟩
    obtain ⟨q, hq, hi⟩ := List.mem_flatMap.mp hi
    obtain ⟨⟨⟨d, t⟩, j⟩, hp, rfl⟩ := List.mem_map.mp hq
    obtain ⟨ms, hms, hi⟩ := structs_nameOf hi
    have ht : t ∈ f.params.map (·.2) := List.mem_map_of_mem (List.fst_mem_of_mem_zipIdx hp)
    exact ⟨ms, List.mem_append_left _ (Ty.mem_structsOf.mpr ⟨t, ht, hms⟩), hi⟩
  · exact (hbody.append (namesOnly_close _ 0)) c hc

theorem namesOnly_globalClauses (c : Category) (ts : List Ty) :
    NamesOnly table (Ty.structsOf ts) (globalClauses table c 0 ts) :=
  namesOnly_declarations (.global c) (fun _ _ _ => nofun) (fun _ _ => rfl) 0 0 ts

def globalsClauses (table : StructTable) (p : Program) : List Placed :=
  globalClauses table .uniform 0 p.uniforms ++ globalClauses table .attribute 0 p.attributes ++
    globalClauses table .varying 0 p.varyings

theorem headClauses_eq (p : Program) :
    headClauses table p = definitions table ++ globalsClauses table p := by
  simp only [headClauses, globalsClauses, List.append_assoc]

theorem namesOnly_globalsClauses (p : Program) (h : Ty.structsOf p.declared ⊆ table) :
    NamesOnly table table (globalsClauses table p) := by
  simp only [Program.declared, Ty.structsOf_append, List.append_subset] at h
  obtain ⟨⟨⟨hu, ha⟩, hv⟩, -⟩ := h
  exact (((namesOnly_globalClauses _ _).mono hu).append
    ((namesOnly_globalClauses _ _).mono ha)).append ((namesOnly_globalClauses _ _).mono hv)

theorem structs_of_mem_definition {ms : List Ty} {c : Placed} (hc : c ∈ definition table ms)
    {i : Nat} (hi : i ∈ c.clause.structs) : ∃ us ∈ Ty.structsOf ms, i = table.idxOf us := by
  have hmembers : NamesOnly table (Ty.structsOf ms) (memberClauses table 0 ms) :=
    namesOnly_declarations .member nofun (fun _ _ => rfl) 1 0 ms
  obtain hc | hc := List.mem_append.mp hc
  · obtain rfl | hc := List.mem_cons.mp hc
    · cases hi
    · exact (hmembers c hc).2 i hi
  · rw [List.mem_singleton.mp hc] at hi
    cases hi

theorem eq_of_structOpen_mem {ms : List Ty} {c : Placed} (hc : c ∈ definition table ms) {i : Nat}
    (hi : c.clause = .structOpen i) : c = ⟨0, .structOpen (table.idxOf ms)⟩ := by
  have hmembers : NamesOnly table (Ty.structsOf ms) (memberClauses table 0 ms) :=
    namesOnly_declarations .member nofun (fun _ _ => rfl) 1 0 ms
  obtain hc | hc := List.mem_append.mp hc
  · obtain rfl | hc := List.mem_cons.mp hc
    · rfl
    · exact absurd hi ((hmembers c hc).1 i)
  · rw [List.mem_singleton.mp hc] at hi
    cases hi

theorem definition_infix {ms : List Ty} {ds : List (List Ty)} (hm : ms ∈ ds) :
    definition table ms <:+: ds.flatMap (definition table) :=
  List.infix_of_mem_flatten (List.mem_map_of_mem hm)

theorem usesDefined_definitions {ds : StructTable} (h : StructTable.Ordered ds)
    (hsub : ds ⊆ table) : UsesDefined table [] (ds.flatMap (definition table)) := by
  induction h with
  | nil => exact usesDefined_of_forall fun c hc => absurd hc List.not_mem_nil
  | @concat ds ms _ _ hin ih =>
    obtain ⟨hds, -⟩ := List.append_subset.mp hsub
    rw [List.flatMap_append, List.flatMap_singleton]
    refine (ih hds).append (usesDefined_of_forall fun c hc i hi => ?_)
    obtain ⟨us, hus, rfl⟩ := structs_of_mem_definition hc hi
    rw [List.nil_append]
    exact ⟨us, StructTable.getElem?_idxOf (hds (hin hus)), definition_infix (hin hus)⟩

/-- Among the definitions of different structs only one begins with the index of a struct. -/
theorem definitions_split {ds : StructTable} (hnodup : ds.Nodup) {ms : List Ty} (hm : ms ∈ ds)
    (hsub : ds ⊆ table) :
    ∃ before after, ds.flatMap (definition table) = before ++ definition table ms ++ after ∧
      ∀ c ∈ before ++ after, c.clause ≠ .structOpen (table.idxOf ms) := by
  obtain ⟨ds₁, ds₂, rfl⟩ := List.append_of_mem hm
  refine ⟨ds₁.flatMap (definition table), ds₂.flatMap (definition table), ?_, fun c hc hopen => ?_⟩
  · rw [List.flatMap_append, List.flatMap_cons, List.append_assoc]
  · rw [← List.flatMap_append] at hc
    obtain ⟨ns, hns, hc⟩ := List.mem_flatMap.mp hc
    have hidx : table.idxOf ns = table.idxOf ms := by
      rw [eq_of_structOpen_mem hc hopen] at hopen
      exact Clause.structOpen.inj hopen
    have hmem : ns ∈ ds₁ ++ ms :: ds₂ := by
      obtain h | h := List.mem_append.mp hns
      · exact List.mem_append_left _ h
      · exact List.mem_append_right _ (List.mem_cons_of_mem _ h)
    rw [(List.idxOf_inj (hsub hmem)).mp hidx] at hns
    exact (List.nodup_middle.mp hnodup).notMem hns

end

/-- The table lists the structs of the program, and its numbers tell the declared types apart. -/
structure NamesStructs (p : Program) (table : StructTable) : Prop where
  inOrder : table = (Ty.structsOf p.declared).eraseDups
  nodup : table.Nodup
  mem_iff : ∀ ms, ms ∈ table ↔ ∃ t ∈ p.declared, ms ∈ t.structs
  name_eq_iff : ∀ t ∈ p.declared, ∀ u ∈ p.declared, ∃ n m,
    typeName table t = .ok n ∧ typeName table u = .ok m ∧ (n.text = m.text ↔ t = u)

/-- The lines of the definition of a struct with members of the named types. -/
def structLines (i : Nat) (names : List TypeName) : List String :=
  ("struct S" ++ toString i ++ " \x7b") ::
    (names.zipIdx.map fun (n, j) => "\t" ++ n.text ++ " M" ++ toString j ++ ";") ++ ["\x7d;"]

def IsDefinedOn (table : StructTable) (lines : List String) (i : Nat) : Prop :=
  ∃ ms names, table[i]? = some ms ∧ ms.map (typeName table) = names.map .ok ∧
    structLines i names <:+: lines

/-- What the line declares is of types that are keywords or structs defined on the known lines. -/
def NamesDefined (table : StructTable) (known : List String) (line : String) : Prop :=
  ∃ ds, declarationsOn [line] = some ds ∧ ∀ d ∈ ds,
    d.1 ∈ typeKeywords ∨ ∃ i, d.1 = "S" ++ toString i ∧ IsDefinedOn table known i

/-- The lines define each struct of the table once, and no struct is named before. -/
structure DefinesStructs (table : StructTable) (lines : List String) : Prop where
  once : ∀ (i : Nat) ms, table[i]? = some ms → ∃ names before after,
    ms.map (typeName table) = names.map .ok ∧ lines = before ++ structLines i names ++ after ∧
      "struct S" ++ toString i ++ " \x7b" ∉ before ++ after
  beforeUse : ∀ before line after, lines = before ++ line :: after →
    (∃ i < table.length, line = "struct S" ++ toString i ++ " \x7b") ∨
      NamesDefined table before line

theorem namesStructs (p : Program) : NamesStructs p (StructTable.ofProgram p) where
  inOrder := StructTable.ofProgram_eq p
  nodup := StructTable.nodup_ofProgram p
  mem_iff ms := StructTable.mem_ofProgram.trans Ty.mem_structsOf
  name_eq_iff t ht u hu := by
    have ht' := StructTable.structs_subset_ofProgram ht
    have hu' := StructTable.structs_subset_ofProgram hu
    refine ⟨_, _, typeName_eq ht', typeName_eq hu', ?_⟩
    rw [TypeName.text_injective.eq_iff, StructTable.nameOf_eq_iff ht']

theorem member_text (n : TypeName) (j : Nat) :
    (Clause.member n j).text = n.text ++ " " ++ memberName j ++ ";" := rfl

theorem member_line (n : TypeName) (j : Nat) :
    (Placed.line ⟨1, .member n j⟩).indented "\t" = "\t" ++ n.text ++ " M" ++ toString j ++ ";" := by
  apply String.toList_injective
  rw [Placed.line, member_text]
  simp [Line.indented, memberName, indexed_toList]

theorem memberClauses_lines (ms : List Ty) :
    (memberClauses table 0 ms).map (·.line.indented "\t") =
      (ms.map table.nameOf).zipIdx.map fun (n, j) =>
        "\t" ++ n.text ++ " M" ++ toString j ++ ";" := by
  rw [memberClauses, List.zipIdx_map, List.map_map, List.map_map]
  apply List.map_congr_left
  rintro ⟨t, j⟩ -
  simp only [Function.comp_apply, Prod.map_apply, id_eq, member_line]

theorem line_structOpen (i : Nat) :
    (Placed.line ⟨0, .structOpen i⟩).indented "\t" = "struct S" ++ toString i ++ " \x7b" := by
  have htext : (Clause.structOpen i).text = "struct " ++ ("S" ++ toString i) ++ " \x7b" := rfl
  rw [line_unindented, htext, ← String.append_assoc]
  rfl

theorem lineTexts_definition (table : StructTable) (ms : List Ty) :
    lineTexts (definition table ms) = structLines (table.idxOf ms) (ms.map table.nameOf) := by
  have hclose : (Placed.line ⟨0, .structClose⟩).indented "\t" = "\x7d;" := by decide
  rw [definition, lineTexts_append, lineTexts_cons, line_structOpen, lineTexts,
    memberClauses_lines, lineTexts, List.map_singleton, hclose]
  rfl

theorem typeNames_eq {table : StructTable} (hcomplete : StructTable.Complete table) {ms : List Ty}
    (hms : ms ∈ table) : ms.map (typeName table) = (ms.map table.nameOf).map .ok := by
  rw [List.map_map]
  refine List.map_congr_left fun t ht => typeName_eq fun us hus => ?_
  exact hcomplete ms hms (Ty.mem_structsOf.mpr ⟨t, ht, hus⟩)

section

variable {table : StructTable} {cs : List Placed}

theorem DefinedIn.isDefinedOn {i : Nat} (hnodup : table.Nodup)
    (hcomplete : StructTable.Complete table) (h : DefinedIn table cs i) :
    IsDefinedOn table (lineTexts cs) i := by
  obtain ⟨ms, hms, hdef⟩ := h
  refine ⟨ms, _, hms, typeNames_eq hcomplete (List.mem_of_getElem? hms), ?_⟩
  rw [← StructTable.idxOf_of_getElem? hnodup hms, ← lineTexts_definition]
  exact hdef.map _

theorem isKeyword_or_defined {lines : List String} {t : TypeName}
    (h : ∀ i ∈ t.structs, IsDefinedOn table lines i) :
    t.text ∈ typeKeywords ∨ ∃ i, t.text = "S" ++ toString i ∧ IsDefinedOn table lines i := by
  cases t with
  | basic b => exact Or.inl (by cases b <;> decide)
  | struct i => exact Or.inr ⟨i, rfl, h i List.mem_cons_self⟩

theorem typeName_ne_struct (t : TypeName) : t.text ≠ "struct" := by
  cases t with
  | basic b => cases b <;> decide
  | struct i =>
    intro h
    have hreserved : "struct" ∈ reservedWords := by decide +kernel
    rw [← h] at hreserved
    exact (isName_structName i).2 hreserved

theorem eq_structOpen_of_mem {c : Clause} {name : String} (h : ("struct", name) ∈ c.declarations) :
    ∃ i, c = .structOpen i ∧ name = structName i := by
  cases c with
  | structOpen i => exact ⟨i, rfl, (Prod.mk.inj (List.mem_singleton.mp h)).2⟩
  | member t i | global _ t i | «local» t i =>
    exact absurd (Prod.mk.inj (List.mem_singleton.mp h)).1.symm (typeName_ne_struct t)
  | funcOpen f ps =>
    obtain h | h := List.mem_cons.mp h
    · exact absurd (Prod.mk.inj h).1 (by decide)
    · obtain ⟨q, -, hq⟩ := List.mem_map.mp h
      exact absurd (Prod.mk.inj hq).1 (typeName_ne_struct q.type)
  | forOpen => exact absurd (Prod.mk.inj (List.mem_singleton.mp h)).1 (by decide)
  | _ => cases h

theorem eq_structOpen_of_line {c : Placed} (hc : c.clause.IsHead) {i : Nat}
    (h : c.line.indented "\t" = "struct S" ++ toString i ++ " \x7b") :
    c.clause = .structOpen i := by
  have hread (d : Placed) (hd : d.clause.IsHead) :
      declarationsOn (lineTexts [d]) = some d.clause.declarations := by
    rw [declarationsOn_lineTexts (List.forall_mem_singleton.mpr (Or.inl hd)),
      List.flatMap_singleton]
  have hlines : lineTexts [c] = lineTexts [⟨0, .structOpen i⟩] := by
    rw [lineTexts, lineTexts, List.map_singleton, List.map_singleton, h, line_structOpen]
  have hsame : c.clause.declarations = [("struct", structName i)] :=
    Option.some.inj ((hread c hc).symm.trans ((congrArg declarationsOn hlines).trans
      (hread ⟨0, .structOpen i⟩ trivial)))
  obtain ⟨j, hj, hname⟩ := eq_structOpen_of_mem (hsame ▸ List.mem_singleton_self _)
  rw [hj, indexed_injective 'S' hname]

theorem namesDefined_line {c : Placed} {known : List String}
    (hc : c.clause.IsHead ∨ c.clause.IsInner) (hopen : ∀ i, c.clause ≠ .structOpen i)
    (h : ∀ i ∈ c.clause.structs, IsDefinedOn table known i) :
    NamesDefined table known (c.line.indented "\t") := by
  refine ⟨c.clause.declarations, ?_, fun d hd => ?_⟩
  · have hread := declarationsOn_lineTexts (List.forall_mem_singleton.mpr hc)
    rwa [List.flatMap_singleton] at hread
  obtain ⟨depth, clause⟩ := c
  cases clause with
  | structOpen i => exact absurd rfl (hopen i)
  | member t i | global _ t i | «local» t i =>
    rw [List.mem_singleton.mp hd]
    exact isKeyword_or_defined h
  | funcOpen => exact (hc.elim id id).elim
  | forOpen =>
    have hint : "int" ∈ typeKeywords := by decide
    rw [List.mem_singleton.mp hd]
    exact Or.inl hint
  | _ => cases hd

theorem definedIn_definitions (hcomplete : StructTable.Complete table) {ms : List Ty}
    (hms : ms ∈ table) : DefinedIn table (definitions table) (table.idxOf ms) :=
  ⟨ms, StructTable.getElem?_idxOf hms,
    definition_infix ((StructTable.mem_definitionOrder hcomplete).mpr hms)⟩

theorem defined_once (hnodup : table.Nodup) (hcomplete : StructTable.Complete table)
    {rest : List Placed} (hhead : ∀ c ∈ rest, c.clause.IsHead)
    (hrest : ∀ c ∈ rest, ∀ i, c.clause ≠ .structOpen i) {i : Nat} {ms : List Ty}
    (hms : table[i]? = some ms) :
    ∃ names before after, ms.map (typeName table) = names.map .ok ∧
      lineTexts (definitions table ++ rest) = before ++ structLines i names ++ after ∧
        "struct S" ++ toString i ++ " \x7b" ∉ before ++ after := by
  have hmem := List.mem_of_getElem? hms
  have hclauses := List.forall_mem_append.mpr ⟨isHead_definitions table, hhead⟩
  obtain rfl := StructTable.idxOf_of_getElem? hnodup hms
  obtain ⟨before, after, hdefs, hother⟩ :=
    definitions_split (StructTable.definitionOrder_ordered table).nodup
      ((StructTable.mem_definitionOrder hcomplete).mpr hmem)
      fun _ => (StructTable.mem_definitionOrder hcomplete).mp
  rw [definitions, hdefs, List.append_assoc] at hclauses ⊢
  refine ⟨_, lineTexts before, lineTexts (after ++ rest), typeNames_eq hcomplete hmem, ?_, ?_⟩
  · rw [lineTexts_append, lineTexts_append, lineTexts_definition]
  · rw [← lineTexts_append]
    intro hline
    obtain ⟨c, hc, hline⟩ := List.mem_map.mp hline
    have hin : c ∈ before ++ definition table ms ++ (after ++ rest) := by
      simp only [List.mem_append] at hc ⊢
      tauto
    have hopen := eq_structOpen_of_line (hclauses c hin) hline
    rw [← List.append_assoc] at hc
    obtain hc | hc := List.mem_append.mp hc
    · exact hother c hc hopen
    · exact hrest c hc _ hopen

/-- Whatever follows the definitions, if it begins none of its own and names no other structs. -/
theorem definesStructs_append (hnodup : table.Nodup) (hcomplete : StructTable.Complete table)
    {rest : List Placed} (hhead : ∀ c ∈ rest, c.clause.IsHead)
    (hrest : NamesOnly table table rest) :
    DefinesStructs table (lineTexts (definitions table ++ rest)) := by
  have hsub : table.definitionOrder ⊆ table :=
    fun _ => (StructTable.mem_definitionOrder hcomplete).mp
  have hclauses := List.forall_mem_append.mpr ⟨isHead_definitions table, hhead⟩
  have hbehind : UsesDefined table (definitions table) rest :=
    usesDefined_of_forall fun c hc i hi => by
      obtain ⟨ms, hms, rfl⟩ := (hrest c hc).2 i hi
      exact definedIn_definitions hcomplete hms
  have huses :=
    (usesDefined_definitions (StructTable.definitionOrder_ordered table) hsub).append hbehind
  refine ⟨fun i ms => defined_once hnodup hcomplete hhead fun c hc => (hrest c hc).1,
    fun before line after hlines => ?_⟩
  obtain ⟨front, d, hcs, rfl, hd⟩ := List.map_eq_append_iff.mp hlines
  obtain ⟨c, back, rfl, rfl, -⟩ := List.map_eq_cons_iff.mp hd
  have hc : c ∈ definitions table ++ rest := by simp [hcs]
  by_cases hopen : ∃ i, c.clause = .structOpen i
  · obtain ⟨i, hi⟩ := hopen
    obtain hc | hc := List.mem_append.mp hc
    · obtain ⟨ms, hms, hc⟩ := List.mem_flatMap.mp hc
      rw [eq_of_structOpen_mem hc hi, line_structOpen]
      exact Or.inl ⟨_, List.idxOf_lt_length_of_mem (hsub hms), rfl⟩
    · exact absurd hi ((hrest c hc).1 i)
  · refine Or.inr (namesDefined_line (Or.inl (hclauses c hc)) (not_exists.mp hopen) ?_)
    exact fun i hi => (huses front c back hcs i hi).isDefinedOn hnodup hcomplete

theorem namesDefined_signature {ps : List Param} {known : List String}
    (h : ∀ q ∈ ps, ∀ i ∈ q.type.structs, IsDefinedOn table known i) :
    NamesDefined table known (signatureText ps) := by
  refine ⟨ps.map Param.declaration, declarationsOn_signature ps, fun d hd => ?_⟩
  obtain ⟨q, hq, rfl⟩ := List.mem_map.mp hd
  exact isKeyword_or_defined (h q hq)

/-- The lines of a function name structs that are all defined. -/
theorem namesDefined_func {f : Func} {known : List String}
    (h : ∀ c ∈ funcClauses table f, ∀ i ∈ c.clause.structs, IsDefinedOn table known i) :
    ∃ signature body, lineTexts (funcClauses table f) = ("void " ++ f.name ++ signature) :: body ∧
      ∀ line ∈ signature :: body, NamesDefined table known line := by
  refine ⟨_, _, lineTexts_funcClauses table f, ?_⟩
  rw [funcClauses_eq, List.forall_mem_cons] at h
  obtain ⟨hparams, hbody⟩ := h
  refine List.forall_mem_cons.mpr ⟨namesDefined_signature fun q hq i hi => ?_, fun line hline => ?_⟩
  · exact hparams i (List.mem_flatMap.mpr ⟨q, hq, hi⟩)
  · obtain ⟨c, hc, rfl⟩ := List.mem_map.mp hline
    have hinner := isInner_bodyClauses table f c hc
    refine namesDefined_line (Or.inr hinner) (fun i hi => ?_) (hbody c hc)
    rw [hi] at hinner
    exact hinner

end

theorem isHead_globalsClauses (table : StructTable) (p : Program) :
    ∀ c ∈ globalsClauses table p, c.clause.IsHead := by
  have hall := isHead_headClauses table p
  rw [headClauses_eq, List.forall_mem_append] at hall
  exact hall.2

/-- Behind the definitions the lines of the functions name defined structs alone. -/
theorem namesDefined_of_mem {p : Program} {f : Func} (hf : f ∈ p.funcs) (rest : List Placed) :
    let table := StructTable.ofProgram p
    ∃ signature body, lineTexts (funcClauses table f) = ("void " ++ f.name ++ signature) :: body ∧
      ∀ line ∈ signature :: body,
        NamesDefined table (lineTexts (definitions table ++ rest)) line := by
  intro table
  have hnodup : table.Nodup := StructTable.nodup_ofProgram p
  have hcomplete : StructTable.Complete table := StructTable.complete_ofProgram p
  refine namesDefined_func fun c hc i hi => ?_
  obtain ⟨ms, hms, rfl⟩ := (namesOnly_funcClauses f c hc).2 i hi
  have hdefined : DefinedIn table (definitions table ++ rest) (table.idxOf ms) :=
    (definedIn_definitions hcomplete (structsOf_declared_func hf hms)).mono
      (List.prefix_append _ _).isInfix
  exact hdefined.isDefinedOn hnodup hcomplete

end Glsl

open Glsl in
/-- The structs of a program are numbered in the order of their first appearance. The lines of the
text define each of them once, in front of every line that declares something of its type. -/
theorem Program.structs_named_and_defined (p : Program) :
    let table := StructTable.ofProgram p
    NamesStructs p table ∧
    ∃ defs globals : List String,
      (renderStructs table table.definitionOrder).map lineTexts = .ok defs ∧
      (renderHead p table).map lineTexts = .ok (defs ++ globals) ∧
      DefinesStructs table defs ∧ DefinesStructs table (defs ++ globals) ∧
      ∀ text, p.render = .ok text → ∃ lines : Func → List String,
        text = "\n".intercalate (defs ++ globals ++ p.funcs.flatMap lines) ++ "\n" ∧
        ∀ f ∈ p.funcs, ∃ signature body, lines f = ("void " ++ f.name ++ signature) :: body ∧
          ∀ line ∈ signature :: body, NamesDefined table (defs ++ globals) line := by
  intro table
  have hnodup : table.Nodup := StructTable.nodup_ofProgram p
  have hcomplete : StructTable.Complete table := StructTable.complete_ofProgram p
  have hstructs : renderStructs table table.definitionOrder = .ok (definitions table) :=
    renderStructs_eq hcomplete fun _ => (StructTable.mem_definitionOrder hcomplete).mp
  have hhead : renderHead p table = .ok (headClauses table p) := renderHead_eq p
  have hdefs := definesStructs_append hnodup hcomplete (List.forall_mem_nil _) (namesOnly_nil _)
  rw [List.append_nil] at hdefs
  have hdefines := definesStructs_append hnodup hcomplete (isHead_globalsClauses table p)
    (namesOnly_globalsClauses p (StructTable.structsOf_declared_subset p))
  rw [headClauses_eq] at hhead
  rw [lineTexts_append] at hdefines
  refine ⟨namesStructs p, lineTexts (definitions table), lineTexts (globalsClauses table p),
    by rw [hstructs]; rfl, by rw [hhead, ← lineTexts_append]; rfl, hdefs, hdefines,
    fun text htext => ⟨fun f => lineTexts (funcClauses table f), ?_, fun f hf => ?_⟩⟩
  · rw [(render_ok_iff.mp htext).2, ← lineTexts_append, ← headClauses_eq, ← lineTexts_flatMap,
      ← lineTexts_append]
    rfl
  · rw [← lineTexts_append]
    exact namesDefined_of_mem hf (globalsClauses table p)

def Program.innerStruct : Program where
  uniforms := [.struct [.basic .float, .struct [.basic .vec2]]]
  funcs := [{ name := "main", inParams := [.struct [.basic .vec2]] }]

def Program.innerStructText : String :=
  "struct S1 \x7b\n\tvec2 M0;\n\x7d;\nstruct S0 \x7b\n\tfloat M0;\n\tS1 M1;\n\x7d;\n" ++
    "uniform S0 U0;\nvoid main(in S1 l0) \x7b\n\x7d\n"

open Glsl in
theorem Program.innerStruct_defined :
    innerStruct.render = .ok innerStructText ∧
      ∃ (defs globals : List String) (lines : Func → List String),
      DefinesStructs (.ofProgram innerStruct) (defs ++ globals) ∧
      innerStructText =
        "\n".intercalate (defs ++ globals ++ innerStruct.funcs.flatMap lines) ++ "\n" := by
  have h : innerStruct.render = .ok innerStructText := by rfl
  obtain ⟨-, defs, globals, -, -, -, hdefines, htext⟩ := structs_named_and_defined innerStruct
  obtain ⟨lines, htext, -⟩ := htext _ h
  exact ⟨h, defs, globals, lines, hdefines, htext⟩

end ShaderTree
