import ShaderTree.Glsl.StructTable
import Mathlib.Data.List.Induction
import Mathlib.Data.List.Nodup

namespace ShaderTree

mutual

/-- The structs inside the type, an enclosing one before those inside its members. -/
def Ty.structs : Ty → List (List Ty)
  | .basic _ => []
  | .struct ms => ms :: Ty.structsOf ms

def Ty.structsOf : List Ty → List (List Ty)
  | [] => []
  | t :: ts => t.structs ++ Ty.structsOf ts

end

mutual

/-- The types of the locals declared at any depth, in the order of the declarations. -/
def Stmt.declared : Stmt → List Ty
  | .block b => Block.declared b
  | .assign _ _ => []
  | .ifElse _ t e => Block.declared t ++ Block.declared e
  | .forRange _ _ _ b => Block.declared b

def Block.declared : Block Stmt → List Ty
  | ⟨locals, stmts⟩ => locals ++ Stmt.declaredBy stmts

def Stmt.declaredBy : List Stmt → List Ty
  | [] => []
  | s :: ss => s.declared ++ Stmt.declaredBy ss

end

def Func.declared (f : Func) : List Ty := f.params.map (·.2) ++ f.body.declared

def Program.declared (p : Program) : List Ty :=
  p.uniforms ++ p.attributes ++ p.varyings ++ p.funcs.flatMap Func.declared

namespace Ty

theorem structsOf_eq_flatMap (ts : List Ty) : structsOf ts = ts.flatMap structs := by
  induction ts with
  | nil => rfl
  | cons t ts ih => rw [structsOf, ih, List.flatMap_cons]

theorem structsOf_append (ts us : List Ty) :
    structsOf (ts ++ us) = structsOf ts ++ structsOf us := by
  simp only [structsOf_eq_flatMap, List.flatMap_append]

theorem mem_structsOf {ms : List Ty} {ts : List Ty} :
    ms ∈ structsOf ts ↔ ∃ t ∈ ts, ms ∈ t.structs := by
  rw [structsOf_eq_flatMap, List.mem_flatMap]

theorem structsOf_mono {ts us : List Ty} (h : ts ⊆ us) : structsOf ts ⊆ structsOf us := by
  intro ms hm
  obtain ⟨t, ht, hm⟩ := mem_structsOf.mp hm
  exact mem_structsOf.mpr ⟨t, h ht, hm⟩

mutual

theorem sizeOf_lt_of_mem_structs {t : Ty} {us : List Ty} (h : us ∈ t.structs) :
    sizeOf us < sizeOf t := by
  cases t with
  | basic b => simp [structs] at h
  | struct ms =>
    obtain rfl | h := List.mem_cons.mp h
    · simp
    · have := sizeOf_lt_of_mem_structsOf h
      simp only [struct.sizeOf_spec]
      omega

theorem sizeOf_lt_of_mem_structsOf {ts us : List Ty} (h : us ∈ structsOf ts) :
    sizeOf us < sizeOf ts := by
  cases ts with
  | nil => simp [structsOf] at h
  | cons t ts =>
    simp only [List.cons.sizeOf_spec]
    obtain h | h := List.mem_append.mp h
    · have := sizeOf_lt_of_mem_structs h
      omega
    · have := sizeOf_lt_of_mem_structsOf h
      omega

end

theorem not_mem_structsOf (ms : List Ty) : ms ∉ structsOf ms :=
  fun h => Nat.lt_irrefl _ (sizeOf_lt_of_mem_structsOf h)

mutual

theorem structsOf_subset_structs {t : Ty} {us : List Ty} (h : us ∈ t.structs) :
    structsOf us ⊆ t.structs := by
  cases t with
  | basic b => simp [structs] at h
  | struct ms =>
    obtain rfl | h := List.mem_cons.mp h
    · exact List.subset_cons_self _ _
    · exact List.subset_cons_of_subset _ (structsOf_subset_structsOf h)

theorem structsOf_subset_structsOf {ts us : List Ty} (h : us ∈ structsOf ts) :
    structsOf us ⊆ structsOf ts := by
  cases ts with
  | nil => simp [structsOf] at h
  | cons t ts =>
    obtain h | h := List.mem_append.mp h
    · exact List.subset_append_of_subset_left _ (structsOf_subset_structs h)
    · exact List.subset_append_of_subset_right _ (structsOf_subset_structsOf h)

end

end Ty

namespace Glsl.StructTable

/-- The list has with every struct smaller than `n` all structs inside it. -/
def CompleteBelow (n : Nat) (us : List (List Ty)) : Prop :=
  ∀ ms ∈ us, sizeOf ms < n → Ty.structsOf ms ⊆ us

def Complete (us : List (List Ty)) : Prop := ∀ ms ∈ us, Ty.structsOf ms ⊆ us

theorem Complete.below {us : List (List Ty)} (h : Complete us) (n : Nat) : CompleteBelow n us :=
  fun ms hm _ => h ms hm

theorem CompleteBelow.append_structs {n : Nat} {us : List (List Ty)} (h : CompleteBelow n us)
    (t : Ty) : CompleteBelow n (us ++ t.structs) := by
  intro ms hm hn
  obtain hm | hm := List.mem_append.mp hm
  · exact List.subset_append_of_subset_left _ (h ms hm hn)
  · exact List.subset_append_of_subset_right _ (Ty.structsOf_subset_structs hm)

theorem Complete.append_structsOf {us : List (List Ty)} (h : Complete us) (ts : List Ty) :
    Complete (us ++ Ty.structsOf ts) := by
  intro ms hm
  obtain hm | hm := List.mem_append.mp hm
  · exact List.subset_append_of_subset_left _ (h ms hm)
  · exact List.subset_append_of_subset_right _ (Ty.structsOf_subset_structsOf hm)

theorem eraseDups_append_of_subset {us vs : List (List Ty)} (h : vs ⊆ us) :
    (us ++ vs).eraseDups = us.eraseDups := by
  have hr : vs.removeAll us = [] := by
    simpa [List.removeAll, List.filter_eq_nil_iff] using fun ms hm => h hm
  rw [List.eraseDups_append, hr, List.eraseDups_nil, List.append_nil]

theorem eraseDups_concat {us : List (List Ty)} {ms : List Ty} (h : ms ∉ us) :
    (us ++ [ms]).eraseDups = us.eraseDups ++ [ms] := by
  have hr : [ms].removeAll us = [ms] := by simp [List.removeAll, h]
  rw [List.eraseDups_append, hr]
  rfl

theorem nodup_eraseDups (us : List (List Ty)) : us.eraseDups.Nodup := by
  induction us using List.reverseRecOn with
  | nil => exact List.nodup_nil
  | append_singleton us ms ih =>
    by_cases hm : ms ∈ us
    · rwa [eraseDups_append_of_subset (by simpa using hm)]
    · rw [eraseDups_concat hm]
      rw [← List.concat_eq_append]
      exact ih.concat (mt List.mem_eraseDups.mp hm)

mutual

/-- A table that has the structs of `us` in order of first appearance gets those of the type behind
them. While the members of a struct are added the struct is in the table without all of them, but
nothing inside it is as large as it is. -/
theorem addTy_eraseDups {n : Nat} {us : List (List Ty)} (hus : CompleteBelow n us) (t : Ty)
    (ht : sizeOf t ≤ n) : addTy us.eraseDups t = (us ++ t.structs).eraseDups := by
  cases t with
  | basic b => simp [addTy, Ty.structs]
  | struct ms =>
    simp only [Ty.struct.sizeOf_spec] at ht
    rw [addTy, Ty.structs]
    by_cases hm : ms ∈ us
    · rw [if_pos (List.mem_eraseDups.mpr hm)]
      have hin := hus ms hm (by omega)
      exact (eraseDups_append_of_subset (List.cons_subset.mpr ⟨hm, hin⟩)).symm
    · rw [if_neg (mt List.mem_eraseDups.mp hm), ← eraseDups_concat hm]
      have hopen : CompleteBelow (sizeOf ms) (us ++ [ms]) := by
        intro ns hns hlt
        obtain hns | hns := List.mem_append.mp hns
        · exact List.subset_append_of_subset_left _ (hus ns hns (by omega))
        · rw [List.mem_singleton.mp hns] at hlt
          omega
      rw [addTys_eraseDups hopen ms (Nat.le_refl _), List.append_assoc, List.singleton_append]

theorem addTys_eraseDups {n : Nat} {us : List (List Ty)} (hus : CompleteBelow n us) (ts : List Ty)
    (hts : sizeOf ts ≤ n) : addTys us.eraseDups ts = (us ++ Ty.structsOf ts).eraseDups := by
  cases ts with
  | nil => simp [addTys, Ty.structsOf]
  | cons t ts =>
    simp only [List.cons.sizeOf_spec] at hts
    rw [addTys, addTy_eraseDups hus t (by omega),
      addTys_eraseDups (hus.append_structs t) ts (by omega), Ty.structsOf, List.append_assoc]

end

theorem addTys_of_complete {us : List (List Ty)} (hus : Complete us) (ts : List Ty) :
    addTys us.eraseDups ts = (us ++ Ty.structsOf ts).eraseDups :=
  addTys_eraseDups (hus.below _) ts (Nat.le_refl _)

mutual

theorem addStmt_of_complete {us : List (List Ty)} (hus : Complete us) (s : Stmt) :
    addStmt us.eraseDups s = (us ++ Ty.structsOf s.declared).eraseDups := by
  cases s with
  | block b => exact addBlock_of_complete hus b
  | assign target value => simp [addStmt, Stmt.declared, Ty.structsOf]
  | ifElse cond t e =>
    rw [addStmt, addBlock_of_complete hus t, addBlock_of_complete (hus.append_structsOf _) e,
      Stmt.declared, Ty.structsOf_append, List.append_assoc]
  | forRange init limit step b => exact addBlock_of_complete hus b

theorem addBlock_of_complete {us : List (List Ty)} (hus : Complete us) (b : Block Stmt) :
    addBlock us.eraseDups b = (us ++ Ty.structsOf b.declared).eraseDups := by
  cases b with
  | mk ts ss =>
    rw [addBlock, addTys_of_complete hus ts, addStmts_of_complete (hus.append_structsOf _) ss,
      Block.declared, Ty.structsOf_append, List.append_assoc]

theorem addStmts_of_complete {us : List (List Ty)} (hus : Complete us) (ss : List Stmt) :
    addStmts us.eraseDups ss = (us ++ Ty.structsOf (Stmt.declaredBy ss)).eraseDups := by
  cases ss with
  | nil => simp [addStmts, Stmt.declaredBy, Ty.structsOf]
  | cons s ss =>
    rw [addStmts, addStmt_of_complete hus s, addStmts_of_complete (hus.append_structsOf _) ss,
      Stmt.declaredBy, Ty.structsOf_append, List.append_assoc]

end

theorem addFunc_of_complete {us : List (List Ty)} (hus : Complete us) (f : Func) :
    addFunc us.eraseDups f = (us ++ Ty.structsOf f.declared).eraseDups := by
  rw [addFunc, addTys_of_complete hus, addBlock_of_complete (hus.append_structsOf _),
    Func.declared, Ty.structsOf_append, List.append_assoc]

theorem addFuncs_of_complete {us : List (List Ty)} (hus : Complete us) (fs : List Func) :
    fs.foldl addFunc us.eraseDups = (us ++ Ty.structsOf (fs.flatMap Func.declared)).eraseDups := by
  induction fs generalizing us with
  | nil => simp [Ty.structsOf]
  | cons f fs ih =>
    rw [List.foldl_cons, addFunc_of_complete hus, ih (hus.append_structsOf _),
      List.flatMap_cons, Ty.structsOf_append, List.append_assoc]

/-- The table has the structs inside the declared types in order of first appearance. -/
theorem ofProgram_eq (p : Program) : ofProgram p = (Ty.structsOf p.declared).eraseDups := by
  have hnil : Complete [] := by simp [Complete]
  have hu := hnil.append_structsOf p.uniforms
  have ha := hu.append_structsOf p.attributes
  have hv := ha.append_structsOf p.varyings
  have hempty : ([] : StructTable) = ([] : List (List Ty)).eraseDups := rfl
  rw [ofProgram, hempty, addTys_of_complete hnil, addTys_of_complete hu, addTys_of_complete ha,
    addFuncs_of_complete hv, Program.declared]
  simp only [Ty.structsOf_append, List.nil_append]

theorem mem_ofProgram {p : Program} {ms : List Ty} :
    ms ∈ ofProgram p ↔ ms ∈ Ty.structsOf p.declared := by
  rw [ofProgram_eq, List.mem_eraseDups]

theorem nodup_ofProgram (p : Program) : (ofProgram p).Nodup := by
  rw [ofProgram_eq]
  exact nodup_eraseDups _

theorem complete_ofProgram (p : Program) : Complete (ofProgram p) := by
  intro ms hm ns hn
  exact mem_ofProgram.mpr (Ty.structsOf_subset_structsOf (mem_ofProgram.mp hm) hn)

theorem structsOf_declared_subset (p : Program) : Ty.structsOf p.declared ⊆ ofProgram p :=
  fun _ => mem_ofProgram.mpr

theorem structs_subset_ofProgram {p : Program} {t : Ty} (ht : t ∈ p.declared) :
    t.structs ⊆ ofProgram p := by
  intro ms hm
  exact structsOf_declared_subset p (Ty.mem_structsOf.mpr ⟨t, ht, hm⟩)

end Glsl.StructTable

end ShaderTree
