import ShaderTree.Proofs.BlankText
import ShaderTree.Proofs.GrammarProgress

namespace ShaderTree

namespace Parser

variable {α β : Type} {p q : Parser α} {f : α → Parser β} {s r r' : List Char} {a : α} {b : β}

@[simp]
theorem bind_eq_done_iff :
    (p >>= f) s = .done b r ↔ ∃ a m, p s = .done a m ∧ f a m = .done b r := by
  rw [bind_apply]
  cases p s with
  | done a m => simp [and_assoc]
  | declined e => simp
  | failed e => simp

@[simp]
theorem pure_eq_done_iff {a' : α} : (pure a : Parser α) s = .done a' r ↔ a = a' ∧ s = r := by
  change Outcome.done a s = .done a' r ↔ _
  simp

@[simp]
theorem orElse_eq_done_iff :
    orElse p q s = .done a r ↔ p s = .done a r ∨ Declines p s ∧ q s = .done a r := by
  rw [orElse, Declines]
  cases p s <;> simp

theorem declines_orElse_iff : Declines (orElse p q) s ↔ Declines p s ∧ Declines q s := by
  rw [Declines, orElse, Declines]
  cases p s <;> simp [Declines]

@[simp]
theorem commit_eq_done_iff : commit p s = .done a r ↔ p s = .done a r := by
  rw [commit]
  cases p s <;> simp

theorem accept_eq_done_iff {cause : Cause} {g : α → Option β} :
    accept cause g p s = .done b r ↔ ∃ a, p s = .done a r ∧ g a = some b := by
  rw [accept]
  cases p s with
  | done a m => cases hg : g a <;> simp [hg, and_assoc, and_comm (b := m = r)]
  | declined e => simp
  | failed e => simp

theorem blame_eq_done_iff {cause : Cause} : blame cause p s = .done a r ↔ p s = .done a r := by
  rw [blame]
  cases p s <;> simp

@[simp]
theorem keyword_eq_done_iff {word : String} {u : Unit} :
    keyword word s = .done u r ↔ s = word.toList ++ r := by
  rw [keyword, firstOf_singleton, ← strip?_eq_some_iff]
  cases strip? word.toList s <;> simp

@[simp]
theorem symbol_eq_done_iff {c : Char} {u : Unit} : symbol c s = .done u r ↔ s = c :: r := by
  have hstrip : strip? [c] s = some r ↔ s = c :: r := strip?_eq_some_iff
  rw [symbol, firstOf_singleton, ← hstrip]
  cases strip? [c] s <;> simp

theorem span_eq_done_iff {cause : Cause} {isIn : Char → Bool} {word : List Char} :
    span cause isIn s = .done word r ↔
      s = word ++ r ∧ word ≠ [] ∧ (∀ c ∈ word, isIn c = true) ∧ Ends isIn r := by
  constructor
  · intro h
    rw [span] at h
    split at h
    · cases h
    · next hne =>
      cases h
      exact ⟨List.takeWhile_append_dropWhile.symm, hne, List.all_eq_true.mp List.all_takeWhile,
        ends_dropWhile isIn s⟩
  · rintro ⟨rfl, hne, hall, hr⟩
    exact span_done hne hall hr

theorem optional_eq_done_iff {o : Option α} : optional p s = .done o r ↔
    (∃ a, o = some a ∧ p s = .done a r) ∨ o = none ∧ Declines p s ∧ s = r := by
  rw [optional, Declines]
  cases p s <;> simp [eq_comm, and_left_comm]

theorem lexeme_eq_done_iff : lexeme p s = .done a r ↔ ∃ m, p s = .done a m ∧ skipBlank m = r := by
  rw [lexeme, bind_eq_done_iff]
  constructor
  · rintro ⟨a', m, hm, hblank⟩
    cases hblank
    exact ⟨m, hm, rfl⟩
  · rintro ⟨m, hm, rfl⟩
    exact ⟨a, m, hm, rfl⟩

@[simp high]
theorem lexeme_bind_eq_done_iff : (lexeme p >>= f) s = .done b r ↔
    ∃ a m, p s = .done a m ∧ f a (skipBlank m) = .done b r := by
  rw [bind_eq_done_iff]
  simp only [lexeme_eq_done_iff]
  constructor
  · rintro ⟨a, _, ⟨m, hm, rfl⟩, hr⟩
    exact ⟨a, m, hm, hr⟩
  · rintro ⟨a, m, hm, hr⟩
    exact ⟨a, _, ⟨m, hm, rfl⟩, hr⟩

theorem lexeme_bind : lexeme (p >>= f) = p >>= fun a => lexeme (f a) := by
  funext s
  simp only [lexeme, bind_apply]
  cases p s <;> rfl

theorem many_eq_nil_iff : many p s = .done [] r ↔ Declines p s ∧ s = r := by
  rw [many, Declines]
  cases p s with
  | done a m =>
    dsimp only
    split
    · cases many p m <;> simp
    · simp
  | declined e => simp
  | failed e => simp

theorem many_eq_cons_iff {as : List α} (hp : ∀ n, Alike 1 n p p) :
    many p s = .done (a :: as) r ↔ ∃ m, p s = .done a m ∧ many p m = .done as r := by
  constructor
  · intro h
    rw [many] at h
    cases hs : p s with
    | done a' m =>
      rw [hs] at h
      dsimp only at h
      split at h
      · cases hm : many p m <;> rw [hm] at h <;> cases h
        exact ⟨m, rfl, hm⟩
      · cases h
    | declined e =>
      rw [hs] at h
      cases h
    | failed e =>
      rw [hs] at h
      cases h
  · rintro ⟨m, hm, hmore⟩
    exact many_cons hp hm hmore

/-- The second rest begins as the first one, or with blank, or it is empty. -/
def MayFollow (r r' : List Char) : Prop :=
  ∀ c, r'.head? = some c → isBlankStart c = true ∨ r.head? = some c

theorem MayFollow.append (h : MayFollow r r') (cs : List Char) :
    MayFollow (cs ++ r) (cs ++ r') := by
  cases cs with
  | nil => exact h
  | cons c cs => exact fun _ hc => Or.inr hc

theorem mayFollow_nil : MayFollow r [] := nofun

theorem mayFollow_of_ne_nil {cs : List Char} (hne : cs ≠ []) : MayFollow (cs ++ r) (cs ++ r') := by
  obtain ⟨c, cs, rfl⟩ := List.exists_cons_of_ne_nil hne
  exact fun _ hc => Or.inr hc

def ExcludesBlank (isIn : Char → Bool) : Prop := ∀ c, isBlankStart c = true → isIn c = false

theorem excludesBlank_of_all {isIn : Char → Bool}
    (h : [' ', '\t', '\r', '\n', ';'].all (!isIn ·) = true) : ExcludesBlank isIn := by
  intro c hc
  have hmem : c ∈ [' ', '\t', '\r', '\n', ';'] := by
    simpa [isBlankStart, isSpacing, or_assoc] using hc
  simpa using List.all_eq_true.mp h c hmem

theorem Ends.replace {isIn : Char → Bool} (h : Ends isIn r) (hclass : ExcludesBlank isIn)
    (hr : MayFollow r r') : Ends isIn r' := by
  intro c hc
  obtain hblank | hsame := hr c hc
  · exact hclass c hblank
  · exact h c hsame

/-- What the parser takes is taken in front of every rest that may follow. -/
structure NearSighted (p : Parser α) : Prop where
  suffix : ∀ {s r a}, p s = .done a r → r <:+ s
  replace : ∀ {cs r r' a}, p (cs ++ r) = .done a r → MayFollow r r' → p (cs ++ r') = .done a r'

theorem nearSighted_pure (a : α) : NearSighted (pure a) where
  suffix h := by
    obtain ⟨-, rfl⟩ := pure_eq_done_iff.mp h
    exact List.suffix_rfl
  replace h _ := by
    obtain ⟨rfl, hr⟩ := pure_eq_done_iff.mp h
    obtain rfl := List.append_left_eq_self.mp hr
    rfl

theorem NearSighted.bind (hp : NearSighted p) (hf : ∀ a, NearSighted (f a)) :
    NearSighted (p >>= f) where
  suffix h := by
    obtain ⟨a, m, hm, hr⟩ := bind_eq_done_iff.mp h
    exact ((hf a).suffix hr).trans (hp.suffix hm)
  replace {cs r r' b} h hr' := by
    obtain ⟨a, m, hm, hr⟩ := bind_eq_done_iff.mp h
    obtain ⟨taken, rfl⟩ := (hf a).suffix hr
    obtain ⟨before, hcs⟩ := hp.suffix hm
    rw [← List.append_assoc, List.append_cancel_right_eq] at hcs
    subst hcs
    rw [List.append_assoc] at hm ⊢
    exact bind_eq_done_iff.mpr
      ⟨a, _, hp.replace hm (hr'.append taken), (hf a).replace hr hr'⟩

theorem nearSighted_symbol (c : Char) : NearSighted (symbol c) where
  suffix h := by
    rw [symbol_eq_done_iff.mp h]
    exact List.suffix_cons c _
  replace {cs r r' u} h _ := by
    have hcs : cs = [c] := List.append_cancel_right (symbol_eq_done_iff.mp h)
    rw [hcs]
    exact symbol_eq_done_iff.mpr rfl

theorem nearSighted_span {cause : Cause} {isIn : Char → Bool} (hclass : ExcludesBlank isIn) :
    NearSighted (span cause isIn) where
  suffix h := by
    obtain ⟨rfl, -⟩ := span_eq_done_iff.mp h
    exact List.suffix_append _ _
  replace h hr' := by
    obtain ⟨heq, hne, hall, hr⟩ := span_eq_done_iff.mp h
    obtain rfl := List.append_cancel_right heq
    exact span_done hne hall (hr.replace hclass hr')

theorem NearSighted.commit (hp : NearSighted p) : NearSighted (commit p) where
  suffix h := hp.suffix (commit_eq_done_iff.mp h)
  replace h hr' := commit_eq_done_iff.mpr (hp.replace (commit_eq_done_iff.mp h) hr')

theorem NearSighted.blame {cause : Cause} (hp : NearSighted p) : NearSighted (blame cause p) where
  suffix h := hp.suffix (blame_eq_done_iff.mp h)
  replace h hr' := blame_eq_done_iff.mpr (hp.replace (blame_eq_done_iff.mp h) hr')

theorem NearSighted.accept {cause : Cause} {g : α → Option β} (hp : NearSighted p) :
    NearSighted (accept cause g p) where
  suffix h := by
    obtain ⟨a, ha, -⟩ := accept_eq_done_iff.mp h
    exact hp.suffix ha
  replace h hr' := by
    obtain ⟨a, ha, hg⟩ := accept_eq_done_iff.mp h
    exact accept_eq_done_iff.mpr ⟨a, hp.replace ha hr', hg⟩

/-- The second parser takes only what the first one goes on to decline. -/
theorem NearSighted.orElse (hp : NearSighted p) (hq : NearSighted q)
    (hdeclines : ∀ {cs r r' a}, Declines p (cs ++ r) → q (cs ++ r) = .done a r →
      MayFollow r r' → Declines p (cs ++ r')) : NearSighted (orElse p q) where
  suffix h := by
    obtain h | ⟨-, h⟩ := orElse_eq_done_iff.mp h
    · exact hp.suffix h
    · exact hq.suffix h
  replace h hr' := by
    obtain h | ⟨hnot, h⟩ := orElse_eq_done_iff.mp h
    · exact orElse_eq_done_iff.mpr (Or.inl (hp.replace h hr'))
    · exact orElse_eq_done_iff.mpr (Or.inr ⟨hdeclines hnot h hr', hq.replace h hr'⟩)

def OpensWith (isIn : Char → Bool) (p : Parser α) : Prop := ∀ s, Declines p s ↔ Ends isIn s

def NeverDeclines (p : Parser α) : Prop := ∀ s, ¬Declines p s

theorem Declines.ne_done (h : Declines p s) : p s ≠ .done a r := by
  obtain ⟨e, he⟩ := h
  rw [he]
  nofun

theorem neverDeclines_pure (a : α) : NeverDeclines (pure a) := by
  rintro s ⟨e, he⟩
  cases he

theorem NeverDeclines.bind (hp : NeverDeclines p) (hf : ∀ a, NeverDeclines (f a)) :
    NeverDeclines (p >>= f) := by
  rintro s ⟨e, he⟩
  rw [bind_apply] at he
  cases hs : p s with
  | done a m =>
    rw [hs] at he
    exact hf a m ⟨e, he⟩
  | declined e' => exact hp s ⟨e', hs⟩
  | failed e' =>
    rw [hs] at he
    cases he

theorem neverDeclines_optional (p : Parser α) : NeverDeclines (optional p) := by
  rintro s ⟨e, he⟩
  rw [optional] at he
  cases hs : p s <;> rw [hs] at he <;> cases he

theorem neverDeclines_commit (p : Parser α) : NeverDeclines (commit p) := by
  rintro s ⟨e, he⟩
  rw [commit] at he
  cases hs : p s <;> rw [hs] at he <;> cases he

theorem opensWith_symbol (c : Char) : OpensWith (· == c) (symbol c) := by
  refine fun s => ⟨fun h d hd => ?_, fun h => declines_symbol fun hc => ?_⟩
  · rw [beq_eq_false_iff_ne]
    rintro rfl
    obtain ⟨t, rfl⟩ := List.head?_eq_some_iff.mp hd
    exact h.ne_done symbol_done
  · exact beq_eq_false_iff_ne.mp (h c hc) rfl

theorem opensWith_span {cause : Cause} {isIn : Char → Bool} :
    OpensWith isIn (span cause isIn) := by
  refine fun s => ⟨fun h c hc => ?_, declines_span⟩
  obtain ⟨t, rfl⟩ := List.head?_eq_some_iff.mp hc
  refine Bool.eq_false_iff.mpr fun hin => ?_
  obtain ⟨e, he⟩ := h
  rw [span, List.takeWhile_cons_of_pos hin] at he
  cases he

theorem OpensWith.bind {isIn : Char → Bool} (hp : OpensWith isIn p)
    (hf : ∀ a, NeverDeclines (f a)) : OpensWith isIn (p >>= f) := by
  refine fun s => ⟨fun ⟨e, he⟩ => (hp s).mp ?_, fun h => ((hp s).mpr h).bind⟩
  rw [bind_apply] at he
  cases hs : p s with
  | done a m =>
    rw [hs] at he
    exact absurd ⟨e, he⟩ (hf a m)
  | declined e' => exact ⟨e', hs⟩
  | failed e' =>
    rw [hs] at he
    cases he

theorem OpensWith.orElse {isIn isIn' : Char → Bool} (hp : OpensWith isIn p)
    (hq : OpensWith isIn' q) : OpensWith (fun c => isIn c || isIn' c) (orElse p q) := by
  intro s
  have hends : Ends (fun c => isIn c || isIn' c) s ↔ Ends isIn s ∧ Ends isIn' s := by
    simp only [Ends, Bool.or_eq_false_iff, imp_and, forall_and]
  rw [hends, ← hp s, ← hq s]
  exact declines_orElse_iff

theorem OpensWith.replace {isIn : Char → Bool} (hp : OpensWith isIn p)
    (hclass : ExcludesBlank isIn) (h : Declines p r) (hr' : MayFollow r r') : Declines p r' :=
  (hp r').mpr (((hp r).mp h).replace hclass hr')

theorem NearSighted.optional {isIn : Char → Bool} (hp : NearSighted p) (hopens : OpensWith isIn p)
    (hclass : ExcludesBlank isIn) : NearSighted (optional p) where
  suffix h := by
    obtain ⟨a, -, h⟩ | ⟨-, -, rfl⟩ := optional_eq_done_iff.mp h
    · exact hp.suffix h
    · exact List.suffix_rfl
  replace h hr' := by
    obtain ⟨a, rfl, hdone⟩ | ⟨rfl, hnot, heq⟩ := optional_eq_done_iff.mp h
    · exact optional_done (hp.replace hdone hr')
    · obtain rfl := List.append_left_eq_self.mp heq
      exact (hopens.replace hclass hnot hr').optional_eq

end Parser

end ShaderTree
