import ShaderTree.Listing.Blank

namespace ShaderTree

namespace Parser

variable {α β : Type}

/-- What the outcome leaves of the text. A value takes up `k` characters at least. -/
def Leaves (k : Nat) (s : List Char) : Outcome α → Prop
  | .done _ r => r <:+ s ∧ r.length + k ≤ s.length
  | .declined e => e.rest <:+ s ∧ e.cause ≠ .progress
  | .failed e => e.rest <:+ s ∧ e.cause ≠ .progress

/-- The parsers do the same at texts of at most `n` characters. -/
def Alike (k n : Nat) (p q : Parser α) : Prop :=
  ∀ s : List Char, s.length ≤ n → p s = q s ∧ Leaves k s (p s)

theorem Leaves.mono {j k : Nat} {s : List Char} {o : Outcome α} (h : Leaves k s o) (hjk : j ≤ k) :
    Leaves j s o := by
  cases o with
  | done a r => exact ⟨h.1, by have := h.2; omega⟩
  | declined e => exact h
  | failed e => exact h

theorem Leaves.of_suffix {j k : Nat} {s r : List Char} {o : Outcome α} (hr : r <:+ s)
    (hlen : r.length + j ≤ s.length) (h : Leaves k r o) : Leaves (j + k) s o := by
  cases o with
  | done a t => exact ⟨h.1.trans hr, by have := h.2; omega⟩
  | declined e => exact ⟨h.1.trans hr, h.2⟩
  | failed e => exact ⟨h.1.trans hr, h.2⟩

theorem leaves_declined {k : Nat} {s : List Char} {cause : Cause} (hcause : cause ≠ .progress) :
    Leaves k s (.declined ⟨s, cause⟩ : Outcome α) :=
  ⟨List.suffix_rfl, hcause⟩

theorem Alike.mono {j k m n : Nat} {p q : Parser α} (h : Alike k n p q) (hjk : j ≤ k)
    (hmn : m ≤ n) : Alike j m p q := by
  intro s hs
  obtain ⟨heq, hleaves⟩ := h s (Nat.le_trans hs hmn)
  exact ⟨heq, hleaves.mono hjk⟩

theorem Alike.weaken {k n : Nat} {p q : Parser α} (h : Alike k n p q) : Alike 0 n p q :=
  h.mono (Nat.zero_le k) (Nat.le_refl n)

theorem alike_pure (n : Nat) (a : α) : Alike 0 n (pure a : Parser α) (pure a) :=
  fun _ _ => ⟨rfl, List.suffix_rfl, Nat.le_refl _⟩

theorem Alike.bind_add {j k n : Nat} {p q : Parser α} {f g : α → Parser β} (hp : Alike j n p q)
    (hf : ∀ a m, m + j ≤ n → Alike k m (f a) (g a)) : Alike (j + k) n (p >>= f) (q >>= g) := by
  intro s hs
  obtain ⟨heq, hleaves⟩ := hp s hs
  rw [bind_apply, bind_apply, ← heq]
  generalize p s = o at hleaves
  cases o with
  | done a r =>
    obtain ⟨hr, hlen⟩ := hleaves
    obtain ⟨heq', hleaves'⟩ := hf a r.length (by omega) r (Nat.le_refl _)
    exact ⟨heq', hleaves'.of_suffix hr hlen⟩
  | declined e => exact ⟨rfl, hleaves⟩
  | failed e => exact ⟨rfl, hleaves⟩

theorem Alike.bind {k n : Nat} {p q : Parser α} {f g : α → Parser β} (hp : Alike 0 n p q)
    (hf : ∀ a, Alike k n (f a) (g a)) : Alike k n (p >>= f) (q >>= g) := by
  have h := hp.bind_add fun a m hm => (hf a).mono (Nat.le_refl k) hm
  rwa [Nat.zero_add] at h

/-- Behind a parser that takes up text only shorter text is left. -/
theorem Alike.bind_shorter {n : Nat} {p q : Parser α} {f g : α → Parser β} (hp : Alike 1 n p q)
    (hf : ∀ a, ∀ m < n, Alike 0 m (f a) (g a)) : Alike 1 n (p >>= f) (q >>= g) :=
  hp.bind_add hf

theorem Alike.orElse {k n : Nat} {p q p' q' : Parser α} (hp : Alike k n p q)
    (hp' : Alike k n p' q') : Alike k n (orElse p p') (orElse q q') := by
  intro s hs
  obtain ⟨heq, hleaves⟩ := hp s hs
  unfold Parser.orElse
  rw [← heq]
  generalize p s = o at hleaves
  cases o with
  | done a r => exact ⟨rfl, hleaves⟩
  | declined e => exact hp' s hs
  | failed e => exact ⟨rfl, hleaves⟩

theorem Alike.commit {k n : Nat} {p q : Parser α} (hp : Alike k n p q) :
    Alike k n (commit p) (commit q) := by
  intro s hs
  obtain ⟨heq, hleaves⟩ := hp s hs
  unfold Parser.commit
  rw [← heq]
  generalize p s = o at hleaves
  cases o <;> exact ⟨rfl, hleaves⟩

theorem Alike.optional {k n : Nat} {p q : Parser α} (hp : Alike k n p q) :
    Alike 0 n (optional p) (optional q) := by
  intro s hs
  obtain ⟨heq, hleaves⟩ := hp s hs
  unfold Parser.optional
  rw [← heq]
  have hleaves := hleaves.mono (Nat.zero_le k)
  generalize p s = o at hleaves
  cases o with
  | done a r => exact ⟨rfl, hleaves⟩
  | declined e => exact ⟨rfl, List.suffix_rfl, Nat.le_refl _⟩
  | failed e => exact ⟨rfl, hleaves⟩

theorem Alike.accept {k n : Nat} {p q : Parser α} {cause : Cause} (hcause : cause ≠ .progress)
    (f : α → Option β) (hp : Alike k n p q) : Alike k n (accept cause f p) (accept cause f q) := by
  intro s hs
  obtain ⟨heq, hleaves⟩ := hp s hs
  unfold Parser.accept
  rw [← heq]
  refine ⟨rfl, ?_⟩
  generalize p s = o at hleaves
  cases o with
  | done a r =>
    dsimp only
    cases f a with
    | none => exact leaves_declined hcause
    | some b => exact hleaves
  | declined e => exact hleaves
  | failed e => exact hleaves

theorem Alike.blame {k n : Nat} {p q : Parser α} {cause : Cause} (hcause : cause ≠ .progress)
    (hp : Alike k n p q) : Alike k n (blame cause p) (blame cause q) := by
  intro s hs
  obtain ⟨heq, hleaves⟩ := hp s hs
  unfold Parser.blame
  rw [← heq]
  generalize p s = o at hleaves
  cases o with
  | done a r => exact ⟨rfl, hleaves⟩
  | declined e => exact ⟨rfl, leaves_declined hcause⟩
  | failed e => exact ⟨rfl, List.suffix_rfl, hcause⟩

theorem alike_firstOf (n : Nat) {k : Nat} {cause : Cause} (hcause : cause ≠ .progress)
    {spelling : α → List Char} {choices : List α} (hlen : ∀ a ∈ choices, k ≤ (spelling a).length) :
    Alike k n (firstOf cause spelling choices) (firstOf cause spelling choices) := by
  intro s _
  refine ⟨rfl, ?_⟩
  rw [firstOf]
  cases hfirst : choices.findSome? fun a => (strip? (spelling a) s).map (a, ·) with
  | none => exact leaves_declined hcause
  | some found =>
    obtain ⟨a, ha, hmap⟩ := List.exists_of_findSome?_eq_some hfirst
    obtain ⟨r, hr, rfl⟩ := Option.map_eq_some_iff.mp hmap
    rw [strip?_eq_some_iff.mp hr]
    refine ⟨List.suffix_append _ _, ?_⟩
    have := hlen a ha
    rw [List.length_append]
    omega

theorem alike_word (n : Nat) (word : String) :
    Alike word.length n (keyword word) (keyword word) :=
  alike_firstOf n (by decide) fun _ _ => Nat.le_of_eq String.length_toList.symm

theorem alike_keyword (n : Nat) {word : String} (hne : word.toList ≠ []) :
    Alike 1 n (keyword word) (keyword word) :=
  alike_firstOf n (by decide) fun _ _ => List.length_pos_iff.mpr hne

theorem alike_symbol (n : Nat) (c : Char) : Alike 1 n (symbol c) (symbol c) :=
  alike_firstOf n (by decide) fun _ _ => Nat.le_refl 1

theorem alike_span (n : Nat) {cause : Cause} (hcause : cause ≠ .progress) (isIn : Char → Bool) :
    Alike 1 n (span cause isIn) (span cause isIn) := by
  intro s _
  refine ⟨rfl, ?_⟩
  rw [span]
  have hsplit := List.takeWhile_append_dropWhile (p := isIn) (l := s)
  cases hword : s.takeWhile isIn with
  | nil => exact leaves_declined hcause
  | cons c word =>
    refine ⟨List.dropWhile_suffix _, ?_⟩
    rw [hword] at hsplit
    have hlen := congrArg List.length hsplit
    simp only [List.cons_append, List.length_cons, List.length_append] at hlen
    omega

theorem Alike.many {n : Nat} {p q : Parser α} (hp : Alike 1 n p q) :
    Alike 0 n (many p) (many q) := by
  intro s hs
  induction hlen : s.length using Nat.strongRecOn generalizing s with
  | _ l ih =>
    obtain ⟨heq, hleaves⟩ := hp s hs
    rw [Parser.many, Parser.many, ← heq]
    generalize p s = o at hleaves
    cases o with
    | done a r =>
      obtain ⟨hr, hlt⟩ := hleaves
      have hshort : r.length < s.length := hlt
      obtain ⟨heq', hleaves'⟩ := ih r.length (by omega) r (by omega) rfl
      have hmore : Leaves 0 s (Parser.many p r) := hleaves'.of_suffix hr (Nat.le_of_lt hshort)
      dsimp only
      rw [if_pos hshort, if_pos hshort, ← heq']
      generalize Parser.many p r = o at hmore
      cases o <;> exact ⟨rfl, hmore⟩
    | declined e => exact ⟨rfl, List.suffix_rfl, Nat.le_refl _⟩
    | failed e => exact ⟨rfl, hleaves⟩

theorem Alike.sepBy {n : Nat} {sep sep' : Parser Unit} {p q : Parser α} (hsep : Alike 1 n sep sep')
    (hp : Alike 1 n p q) : Alike 0 n (sepBy sep p) (sepBy sep' q) := by
  refine hp.optional.bind fun first => ?_
  cases first with
  | none => exact alike_pure n []
  | some a =>
    have hitem : Alike 1 n (do sep; p) (do sep'; q) :=
      hsep.bind_shorter fun _ m hm => hp.mono (by omega) (by omega)
    exact hitem.many.bind fun as => alike_pure n (a :: as)

theorem afterComment?_suffix {s r : List Char} (h : afterComment? s = some r) : r <:+ s := by
  unfold afterComment? at h
  dsimp only at h
  split at h
  · cases h
  · cases h
    exact List.dropWhile_suffix _

theorem skipBlank_suffix (s : List Char) : skipBlank s <:+ s := by
  fun_induction skipBlank s with
  | case1 => exact List.suffix_rfl
  | case2 c cs hc ih => exact ih.trans (List.suffix_cons c cs)
  | case3 cs rest hrest hc ih =>
    exact (ih.trans (afterComment?_suffix hrest)).trans (List.suffix_cons _ cs)
  | case4 cs hnone hc => exact List.suffix_rfl
  | case5 c cs hc hsemi => exact List.suffix_rfl

theorem alike_blank (n : Nat) : Alike 0 n blank blank := by
  intro s _
  exact ⟨rfl, skipBlank_suffix s, (skipBlank_suffix s).length_le⟩

theorem Alike.lexeme {k n : Nat} {p q : Parser α} (hp : Alike k n p q) :
    Alike k n (lexeme p) (lexeme q) :=
  hp.bind_add fun a m _ => (alike_blank m).bind fun _ => alike_pure m a

/-- A step that takes up text, and keeps parsers alike that are alike at shorter text. -/
def Contracts (step : Parser α → Parser α) : Prop :=
  ∀ (n : Nat) (p q : Parser α), (∀ m < n, Alike 1 m p q) → Alike 1 n (step p) (step q)

/-- The step may be given the recursive parser itself in place of what it may use of it. -/
theorem recursive_step {step : Parser α → Parser α} (hstep : Contracts step) {s : List Char}
    (h : ∀ m < s.length, Alike 1 m (recursive step) (recursive step)) :
    recursive step s = step (recursive step) s ∧ Leaves 1 s (step (recursive step) s) := by
  rw [recursive]
  have hparts : ∀ m < s.length, Alike 1 m (recursive step) fun r =>
      if r.length < s.length then recursive step r else .declined ⟨r, .progress⟩ := by
    intro m hm r hr
    have hshort : r.length < s.length := Nat.lt_of_le_of_lt hr hm
    exact ⟨(if_pos hshort).symm, (h m hm r hr).2⟩
  obtain ⟨heq, hleaves⟩ := hstep s.length _ _ hparts s (Nat.le_refl _)
  exact ⟨heq.symm, hleaves⟩

theorem alike_recursive {step : Parser α → Parser α} (hstep : Contracts step) (n : Nat) :
    Alike 1 n (recursive step) (recursive step) := by
  induction n using Nat.strongRecOn with
  | _ n ih =>
    intro s hs
    obtain ⟨heq, hleaves⟩ := recursive_step hstep (s := s) fun m hm => ih m (by omega)
    exact ⟨rfl, heq ▸ hleaves⟩

theorem recursive_unfold {step : Parser α → Parser α} (hstep : Contracts step) :
    recursive step = step (recursive step) := by
  funext s
  exact (recursive_step hstep fun m _ => alike_recursive hstep m).1

end Parser

end ShaderTree
