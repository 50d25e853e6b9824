import ShaderTree.Proofs.TextLines

namespace ShaderTree

namespace Glsl

theorem Clause.SameText.kind_eq {c d : Clause} (h : c.SameText d) : c.kind = d.kind := by
  cases c with
  | assign target value =>
    cases d with
    | assign target' value' => rfl
    | _ => cases h
  | ifOpen cond =>
    cases d with
    | ifOpen cond' => rfl
    | _ => cases h
  | _ => exact congrArg kind h

variable {isIn : Kind → Bool} {c : Placed} {cs cs' r r' : List Placed}

def Stops (isIn : Kind → Bool) (r : List Placed) : Prop :=
  ∀ c, r.head? = some c → isIn c.clause.kind = false

theorem stops_nil : Stops isIn [] := nofun

theorem stops_cons : Stops isIn (c :: r) ↔ isIn c.clause.kind = false := by
  simp [Stops]

theorem stops_append (hcs : ∀ c ∈ cs, isIn c.clause.kind = false) (hr : Stops isIn r) :
    Stops isIn (cs ++ r) := by
  cases cs with
  | nil => exact hr
  | cons c cs => exact stops_cons.mpr (hcs c List.mem_cons_self)

theorem stops_congr (h : List.Forall₂ Placed.SameText r r') : Stops isIn r ↔ Stops isIn r' := by
  cases h with
  | nil => rfl
  | cons h _ => rw [stops_cons, stops_cons, h.2.kind_eq]

theorem not_stops_cons (hc : isIn c.clause.kind = true) : ¬Stops isIn (c :: r) := by
  rw [stops_cons, hc]
  exact Bool.noConfusion

variable {table table' : StructTable}

/-- Declarations of one kind say the names of the declared types, and end where the kind does. -/
theorem declarations_unique (clause : TypeName → Nat → Clause) {kind : Kind}
    (hkind : ∀ n i, (clause n i).kind = kind)
    (hname : ∀ n n' i i', (clause n i).SameText (clause n' i') → n = n')
    {depth depth' next next' : Nat} {ts us : List Ty} (hr : Stops (· == kind) r)
    (hr' : Stops (· == kind) r')
    (h : List.Forall₂ Placed.SameText
      (((ts.zipIdx next).map fun (t, i) => ⟨depth, clause (table.nameOf t) i⟩) ++ r)
      (((us.zipIdx next').map fun (t, i) => ⟨depth', clause (table'.nameOf t) i⟩) ++ r')) :
    ts.map table.nameOf = us.map table'.nameOf ∧ List.Forall₂ Placed.SameText r r' := by
  have hnot (d : Nat) (n : TypeName) (i : Nat) (s : List Placed) :
      ¬Stops (· == kind) (⟨d, clause n i⟩ :: s) := not_stops_cons (beq_iff_eq.mpr (hkind n i))
  induction ts generalizing us next next' with
  | nil =>
    cases us with
    | nil => exact ⟨rfl, h⟩
    | cons u us => exact absurd ((stops_congr h).mp hr) (hnot _ _ _ _)
  | cons t ts ih =>
    cases us with
    | nil => exact absurd ((stops_congr h).mpr hr') (hnot _ _ _ _)
    | cons u us =>
      obtain ⟨hfirst, h⟩ := List.forall₂_cons.mp h
      obtain ⟨hnames, hrest⟩ := ih h
      exact ⟨by rw [List.map_cons, List.map_cons, hname _ _ _ _ hfirst.2, hnames], hrest⟩

theorem definition_unique {ms ns : List Ty}
    (h : List.Forall₂ Placed.SameText (definition table ms ++ r) (definition table' ns ++ r')) :
    table.idxOf ms = table'.idxOf ns ∧ ms.map table.nameOf = ns.map table'.nameOf ∧
      List.Forall₂ Placed.SameText r r' := by
  simp only [definition, List.cons_append, List.append_assoc, List.nil_append] at h
  obtain ⟨⟨-, hopen⟩, h⟩ := List.forall₂_cons.mp h
  obtain ⟨hnames, h⟩ := declarations_unique .member (fun _ _ => rfl)
    (fun _ _ _ _ h => (Clause.member.inj h).1) (stops_cons.mpr rfl) (stops_cons.mpr rfl) h
  exact ⟨Clause.structOpen.inj hopen, hnames, (List.forall₂_cons.mp h).2⟩

/-- What the definition of a struct says: its number and the names of its members. -/
def StructTable.entry (table : StructTable) (ms : List Ty) : Nat × List TypeName :=
  (table.idxOf ms, ms.map table.nameOf)

theorem definitions_unique {ds ds' : List (List Ty)} (hr : Stops (· == .structOpen) r)
    (hr' : Stops (· == .structOpen) r')
    (h : List.Forall₂ Placed.SameText (ds.flatMap (definition table) ++ r)
      (ds'.flatMap (definition table') ++ r')) :
    ds.map table.entry = ds'.map table'.entry ∧ List.Forall₂ Placed.SameText r r' := by
  have hnot {table : StructTable} {ms : List Ty} {s : List Placed} :
      ¬Stops (· == .structOpen) (definition table ms ++ s) := by
    rw [definition, List.cons_append, List.cons_append]
    exact not_stops_cons rfl
  induction ds generalizing ds' with
  | nil =>
    cases ds' with
    | nil => exact ⟨rfl, h⟩
    | cons ns ds' =>
      rw [List.flatMap_cons, List.append_assoc] at h
      exact absurd ((stops_congr h).mp hr) hnot
  | cons ms ds ih =>
    cases ds' with
    | nil =>
      rw [List.flatMap_cons, List.append_assoc] at h
      exact absurd ((stops_congr h).mpr hr') hnot
    | cons ns ds' =>
      rw [List.flatMap_cons, List.flatMap_cons, List.append_assoc, List.append_assoc] at h
      obtain ⟨hindex, hnames, h⟩ := definition_unique h
      obtain ⟨hentries, hrest⟩ := ih h
      have hentry : table.entry ms = table'.entry ns := Prod.ext hindex hnames
      exact ⟨by rw [List.map_cons, List.map_cons, hentry, hentries], hrest⟩

namespace StructTable

theorem map_nameOf_inj {ts us : List Ty} (hts : Ty.structsOf ts ⊆ table)
    (h : ts.map table.nameOf = us.map table.nameOf) : ts = us := by
  induction ts generalizing us with
  | nil => exact (List.map_eq_nil_iff.mp h.symm).symm
  | cons t ts ih =>
    cases us with
    | nil => cases h
    | cons u us =>
      obtain ⟨ht, hts⟩ := List.append_subset.mp hts
      obtain ⟨hname, hnames⟩ := List.cons.inj h
      rw [(nameOf_eq_iff ht).mp hname, ih hts hnames]

theorem nameOf_congr {ds : List (List Ty)} (h : ∀ ms ∈ ds, table.idxOf ms = table'.idxOf ms)
    {t : Ty} (ht : t.structs ⊆ ds) : table.nameOf t = table'.nameOf t := by
  cases t with
  | basic b => rfl
  | struct ms => exact congrArg TypeName.struct (h ms (ht List.mem_cons_self))

/-- Structs behind their members have one order if their definitions say the same. -/
theorem Ordered.unique {ds ds' : List (List Ty)} (hds : Ordered ds) (hds' : Ordered ds')
    (hsub : ds ⊆ table) (h : ds.map table.entry = ds'.map table'.entry) :
    ds = ds' ∧ ∀ ms ∈ ds, table.idxOf ms = table'.idxOf ms := by
  induction hds generalizing ds' with
  | nil => exact ⟨(List.map_eq_nil_iff.mp h.symm).symm, nofun⟩
  | @concat ds ms _ _ hin ih =>
    cases hds' with
    | nil => simp at h
    | @concat ds' ns hds' _ hin' =>
      obtain ⟨hsub, hm⟩ := List.append_subset.mp hsub
      rw [List.map_append, List.map_append] at h
      obtain ⟨hentries, hlast⟩ := List.append_inj' h rfl
      obtain ⟨rfl, hagree⟩ := ih hds' hsub hentries
      obtain ⟨hindex, hnames⟩ := Prod.mk.inj (List.singleton_inj.mp hlast)
      have hmembers : ns.map table.nameOf = ns.map table'.nameOf := by
        refine List.map_congr_left fun t ht => nameOf_congr hagree fun us hus => ?_
        exact hin' (Ty.mem_structsOf.mpr ⟨t, ht, hus⟩)
      obtain rfl := map_nameOf_inj (List.Subset.trans hin hsub) (hnames.trans hmembers.symm)
      refine ⟨rfl, fun us hus => ?_⟩
      obtain hus | hus := List.mem_append.mp hus
      · exact hagree us hus
      · rw [List.mem_singleton.mp hus, hindex]

theorem getElem?_eq_some_iff_idxOf (h : table.Nodup) {i : Nat} {ms : List Ty} :
    table[i]? = some ms ↔ ms ∈ table ∧ table.idxOf ms = i := by
  constructor
  · exact fun hi => ⟨List.mem_of_getElem? hi, idxOf_of_getElem? h hi⟩
  · rintro ⟨hm, rfl⟩
    exact getElem?_idxOf hm

/-- The definitions of two tables say the same only if the tables are the same. -/
theorem eq_of_entries (hc : Complete table) (hc' : Complete table') (hn : table.Nodup)
    (hn' : table'.Nodup)
    (h : table.definitionOrder.map table.entry = table'.definitionOrder.map table'.entry) :
    table = table' := by
  obtain ⟨horder, hagree⟩ := (definitionOrder_ordered table).unique
    (definitionOrder_ordered table') (fun ms hm => (mem_definitionOrder hc).mp hm) h
  have hmem (ms : List Ty) : ms ∈ table ↔ ms ∈ table' := by
    rw [← mem_definitionOrder hc, horder, mem_definitionOrder hc']
  refine List.ext_getElem? fun i => Option.ext fun ms => ?_
  rw [getElem?_eq_some_iff_idxOf hn, getElem?_eq_some_iff_idxOf hn', ← hmem]
  refine and_congr_right fun hm => ?_
  rw [hagree ms ((mem_definitionOrder hc).mpr hm)]

end StructTable

end Glsl

end ShaderTree
