import ShaderTree.Proofs.Progress

namespace ShaderTree

namespace Parser

variable {α β : Type} {p q : Parser α} {f : α → Parser β} {s r : List Char} {a : α}

def Declines (p : Parser α) (s : List Char) : Prop := ∃ e, p s = .declined e

theorem bind_done (h : p s = .done a r) : (p >>= f) s = f a r := by rw [bind_apply, h]

theorem Declines.bind (h : Declines p s) : Declines (p >>= f) s := by
  obtain ⟨e, he⟩ := h
  exact ⟨e, by rw [bind_apply, he]⟩

theorem declines_bind_of_done (h : p s = .done a r) (hf : Declines (f a) r) :
    Declines (p >>= f) s := by
  obtain ⟨e, he⟩ := hf
  exact ⟨e, by rw [bind_done h, he]⟩

theorem orElse_done (h : p s = .done a r) : orElse p q s = .done a r := by
  rw [orElse, h]

theorem Declines.orElse_eq (h : Declines p s) : orElse p q s = q s := by
  obtain ⟨e, he⟩ := h
  rw [orElse, he]

theorem Declines.orElse (hp : Declines p s) (hq : Declines q s) : Declines (orElse p q) s := by
  obtain ⟨e, he⟩ := hq
  exact ⟨e, hp.orElse_eq.trans he⟩

theorem commit_done (h : p s = .done a r) : commit p s = .done a r := by
  rw [commit, h]

theorem optional_done (h : p s = .done a r) : optional p s = .done (some a) r := by
  rw [optional, h]

theorem Declines.optional_eq (h : Declines p s) : optional p s = .done none s := by
  obtain ⟨e, he⟩ := h
  rw [optional, he]

theorem accept_done {cause : Cause} {g : α → Option β} {b : β} (h : p s = .done a r)
    (hg : g a = some b) : accept cause g p s = .done b r := by
  rw [accept, h]
  dsimp only
  rw [hg]

theorem declines_accept {cause : Cause} {g : α → Option β} (h : p s = .done a r)
    (hg : g a = none) : Declines (accept cause g p) s := by
  refine ⟨⟨s, cause⟩, ?_⟩
  rw [accept, h]
  dsimp only
  rw [hg]

theorem Declines.accept {cause : Cause} {g : α → Option β} (h : Declines p s) :
    Declines (accept cause g p) s := by
  obtain ⟨e, he⟩ := h
  refine ⟨e, ?_⟩
  rw [Parser.accept, he]

theorem blame_done {cause : Cause} (h : p s = .done a r) : blame cause p s = .done a r := by
  rw [blame, h]

theorem Declines.blame {cause : Cause} (h : Declines p s) : Declines (blame cause p) s := by
  obtain ⟨e, he⟩ := h
  refine ⟨⟨s, cause⟩, ?_⟩
  rw [Parser.blame, he]

theorem firstOf_singleton {cause : Cause} {spelling : α → List Char} :
    firstOf cause spelling [a] s =
      match strip? (spelling a) s with
      | some r => .done a r
      | none => .declined ⟨s, cause⟩ := by
  rw [firstOf]
  cases h : strip? (spelling a) s <;> simp [h]

theorem keyword_done {word : String} : keyword word (word.toList ++ r) = .done () r := by
  have h : strip? word.toList (word.toList ++ r) = some r := strip?_eq_some_iff.mpr rfl
  rw [keyword, firstOf_singleton, h]

theorem declines_keyword {word : String} (h : strip? word.toList s = none) :
    Declines (keyword word) s := by
  refine ⟨⟨s, .keyword⟩, ?_⟩
  rw [keyword, firstOf_singleton, h]

theorem symbol_done {c : Char} : symbol c (c :: r) = .done () r := by
  have h : strip? [c] (c :: r) = some r := strip?_eq_some_iff.mpr rfl
  rw [symbol, firstOf_singleton, h]

theorem declines_symbol_of_strip? {c : Char} (h : strip? [c] s = none) : Declines (symbol c) s := by
  refine ⟨⟨s, .symbol⟩, ?_⟩
  rw [symbol, firstOf_singleton, h]

theorem declines_symbol {c : Char} (h : s.head? ≠ some c) : Declines (symbol c) s := by
  apply declines_symbol_of_strip?
  cases s with
  | nil => rfl
  | cons d s => exact if_neg fun hcd => h (congrArg some hcd.symm)

/-- No character of the class comes first. -/
def Ends (isIn : Char → Bool) (s : List Char) : Prop := ∀ c, s.head? = some c → isIn c = false

theorem ends_cons {isIn : Char → Bool} {c : Char} (h : isIn c = false) : Ends isIn (c :: s) := by
  intro d hd
  cases hd
  exact h

theorem Ends.mono {isIn isIn' : Char → Bool} (h : Ends isIn s)
    (himp : ∀ c, isIn' c = true → isIn c = true) : Ends isIn' s := by
  intro c hc
  have hout := h c hc
  exact Bool.eq_false_iff.mpr fun hin => by
    rw [himp c hin] at hout
    cases hout

theorem Ends.isAlpha (h : Ends Char.isAlphanum s) : Ends Char.isAlpha s :=
  h.mono fun _ hc => Bool.or_eq_true_iff.mpr (Or.inl hc)

theorem Ends.isDigit (h : Ends Char.isAlphanum s) : Ends Char.isDigit s :=
  h.mono fun _ hc => Bool.or_eq_true_iff.mpr (Or.inr hc)

theorem span_done {cause : Cause} {isIn : Char → Bool} {word : List Char} (hne : word ≠ [])
    (hall : ∀ c ∈ word, isIn c = true) (hr : Ends isIn r) :
    span cause isIn (word ++ r) = .done word r := by
  have htake : r.takeWhile isIn = [] ∧ r.dropWhile isIn = r := by
    cases r with
    | nil => exact ⟨rfl, rfl⟩
    | cons c r =>
      have hc := hr c rfl
      exact ⟨by simp [hc], by simp [hc]⟩
  have hword : (word ++ r).takeWhile isIn = word := by
    rw [List.takeWhile_append_of_pos hall, htake.1, List.append_nil]
  have hrest : (word ++ r).dropWhile isIn = r := by
    rw [List.dropWhile_append_of_pos hall, htake.2]
  rw [span, hword, hrest]
  cases word with
  | nil => exact absurd rfl hne
  | cons c word => rfl

theorem declines_span {cause : Cause} {isIn : Char → Bool} (h : Ends isIn s) :
    Declines (span cause isIn) s := by
  refine ⟨⟨s, cause⟩, ?_⟩
  rw [span]
  cases s with
  | nil => rfl
  | cons c s =>
    have hc := h c rfl
    simp [hc]

theorem head?_append_ne {isIn : Char → Bool} {word : List Char} {c : Char} (hne : word ≠ [])
    (hall : ∀ d ∈ word, isIn d = true) (hc : isIn c = false) : (word ++ s).head? ≠ some c := by
  obtain ⟨d, ds, rfl⟩ := List.exists_cons_of_ne_nil hne
  intro h
  have hd := hall d List.mem_cons_self
  cases h
  rw [hc] at hd
  cases hd

theorem lexeme_done (h : p s = .done a r) : lexeme p s = .done a (skipBlank r) := by
  rw [lexeme, bind_done h]
  rfl

theorem Declines.lexeme (h : Declines p s) : Declines (lexeme p) s := h.bind

theorem many_nil (h : Declines p s) : many p s = .done [] s := by
  obtain ⟨e, he⟩ := h
  rw [many, he]

theorem many_cons {as : List α} {t : List Char} (hp : ∀ n, Alike 1 n p p) (h : p s = .done a r)
    (hmore : many p r = .done as t) : many p s = .done (a :: as) t := by
  obtain ⟨_, hleaves⟩ := hp s.length s (Nat.le_refl _)
  rw [h] at hleaves
  have hshort : r.length < s.length := hleaves.2
  rw [many, h]
  dsimp only
  rw [if_pos hshort, hmore]

/-- Texts of items, one behind the other, are read up to where no item is found. -/
theorem many_flatMap_map {β : Type} {text : β → List Char} {f : β → α} {bs : List β}
    (hp : ∀ n, Alike 1 n p p)
    (hread : ∀ b ∈ bs, ∀ t, p (skipBlank (text b ++ t)) = .done (f b) (skipBlank t))
    (hend : Declines p (skipBlank r)) :
    many p (skipBlank (bs.flatMap text ++ r)) = .done (bs.map f) (skipBlank r) := by
  induction bs with
  | nil => exact many_nil hend
  | cons b bs ih =>
    have hmore := ih fun c hc => hread c (List.mem_cons_of_mem b hc)
    rw [List.flatMap_cons, List.append_assoc]
    exact many_cons hp (hread b List.mem_cons_self _) hmore

theorem many_flatMap {text : α → List Char} {as : List α} (hp : ∀ n, Alike 1 n p p)
    (hread : ∀ a ∈ as, ∀ t, p (skipBlank (text a ++ t)) = .done a (skipBlank t))
    (hend : Declines p (skipBlank r)) :
    many p (skipBlank (as.flatMap text ++ r)) = .done as (skipBlank r) := by
  have h := many_flatMap_map (f := id) hp hread hend
  rwa [List.map_id] at h

theorem skipBlank_nil : skipBlank [] = [] := by rw [skipBlank.eq_def]

theorem skipBlank_spacing {c : Char} (hc : isSpacing c = true) :
    skipBlank (c :: s) = skipBlank s := by
  rw [skipBlank.eq_def]
  exact if_pos hc

def isBlankStart (c : Char) : Bool := isSpacing c || c == ';'

def Solid (s : List Char) : Prop := ∃ c, s.head? = some c ∧ isBlankStart c = false

theorem solid_cons {c : Char} (hc : isBlankStart c = false) : Solid (c :: s) := ⟨c, rfl, hc⟩

theorem Solid.ne_nil (h : Solid s) : s ≠ [] := by
  obtain ⟨c, hc, -⟩ := h
  exact fun hnil => by
    rw [hnil] at hc
    cases hc

theorem Solid.append (h : Solid s) : Solid (s ++ r) := by
  obtain ⟨c, hc, hsolid⟩ := h
  exact ⟨c, by rw [List.head?_append, hc]; rfl, hsolid⟩

theorem Solid.skipBlank_eq (h : Solid s) : skipBlank s = s := by
  obtain ⟨c, hc, hsolid⟩ := h
  obtain ⟨t, rfl⟩ := List.head?_eq_some_iff.mp hc
  obtain ⟨hspacing, hsemi⟩ := Bool.or_eq_false_iff.mp hsolid
  have hne : c ≠ ';' := beq_eq_false_iff_ne.mp hsemi
  rw [skipBlank.eq_def]
  simp [hspacing, hne]

theorem Solid.skipBlank_space (h : Solid s) : skipBlank (' ' :: s) = s := by
  rw [skipBlank_spacing rfl, h.skipBlank_eq]

theorem sepBy_done (text : α → List Char) (a : α) (as : List α) (hp : ∀ n, Alike 1 n p p)
    (hsolid : ∀ b ∈ a :: as, Solid (text b))
    (hread : ∀ b ∈ a :: as, ∀ t, p (text b ++ t) = .done b (skipBlank t))
    (hend : (skipBlank r).head? ≠ some ',') :
    sepBy (lexeme (symbol ',')) p (text a ++ ((as.flatMap fun b => ", ".toList ++ text b) ++ r)) =
      .done (a :: as) (skipBlank r) := by
  have hnext : ∀ b ∈ as, ∀ t,
      (do lexeme (symbol ','); p) (skipBlank (", ".toList ++ text b ++ t)) =
        .done b (skipBlank t) := by
    intro b hb t
    have hcomma : Solid (',' :: ' ' :: (text b ++ t)) := solid_cons rfl
    have hitem : Solid (text b ++ t) := (hsolid b (List.mem_cons_of_mem a hb)).append
    have htext : ", ".toList ++ text b ++ t = ',' :: ' ' :: (text b ++ t) := rfl
    rw [htext, hcomma.skipBlank_eq, bind_done (lexeme_done symbol_done),
      skipBlank_spacing rfl, hitem.skipBlank_eq]
    exact hread b (List.mem_cons_of_mem a hb) t
  have halike (n : Nat) : Alike 1 n (do lexeme (symbol ','); p) (do lexeme (symbol ','); p) :=
    (alike_symbol n ',').lexeme.bind_shorter fun _ m _ => (hp m).weaken
  have hmany := many_flatMap halike hnext (declines_symbol hend).lexeme.bind
  rw [sepBy, bind_done (optional_done (hread a List.mem_cons_self _))]
  exact bind_done hmany

theorem sepBy_nil {sep : Parser Unit} (h : Declines p s) : sepBy sep p s = .done [] s := by
  rw [sepBy]
  exact bind_done h.optional_eq

end Parser

end ShaderTree
