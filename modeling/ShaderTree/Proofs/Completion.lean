import Mathlib.Data.Set.Operations
import ShaderTree.Proofs.Faults
import ShaderTree.Proofs.Spacing

namespace ShaderTree

variable {tok : Token} {toks toks' : List Token} {s r m u w : List Char}

theorem Reads.suffix (h : Reads toks s r) : r <:+ s := by
  induction toks generalizing s with
  | nil =>
    obtain rfl : s = r := h
    exact List.suffix_rfl
  | cons tok toks ih =>
    obtain ⟨m, hm, hmore⟩ := h
    exact (ih hmore).trans (hm.suffix.trans (Parser.skipBlank_suffix s))

theorem Reads.length_lt (h : Reads toks s r) (hne : toks ≠ []) : r.length < s.length := by
  cases toks with
  | nil => exact absurd rfl hne
  | cons tok toks =>
    obtain ⟨m, hm, hmore⟩ := h
    obtain ⟨cs, hcs, hspells⟩ := hm.spells
    have hskip := (Parser.skipBlank_suffix s).length_le
    have hpos := List.length_pos_iff.mpr hspells.solid.ne_nil
    have hlength := hmore.suffix.length_le
    rw [hcs, List.length_append] at hskip
    omega

theorem Reads.replace (h : Reads toks (u ++ m) m) (hr : Parser.MayFollow m r) :
    Reads toks (u ++ r) r := by
  induction toks generalizing u with
  | nil =>
    obtain rfl := List.append_left_eq_self.mp h
    rfl
  | cons tok toks ih =>
    obtain ⟨t, ht, hmore⟩ := h
    obtain ⟨behind, rfl⟩ := hmore.suffix
    obtain ⟨piece, hpiece⟩ := ht.suffix.trans (Parser.skipBlank_suffix _)
    rw [← List.append_assoc, List.append_cancel_right_eq] at hpiece
    subst hpiece
    rw [List.append_assoc] at ht ⊢
    exact ⟨_, ht.spaced (hr.append behind), ih hmore⟩

inductive Spelled : List Token → List Char → Prop
  | nil : Spelled [] []
  | cons {tok : Token} {toks : List Token} {cs w : List Char} (htok : tok.ReadTo cs [])
      (hw : Spelled toks w) : Spelled (tok :: toks) ('\n' :: (cs ++ w))

theorem Parser.MayFollow.append_right (hu : MayFollow r u) (hw : MayFollow r w) :
    MayFollow r (u ++ w) := by
  cases u with
  | nil => exact hw
  | cons c u => exact hu

theorem Spelled.mayFollow (h : Spelled toks w) : Parser.MayFollow r w := by
  cases h with
  | nil => exact nofun
  | cons _ _ =>
    intro c hc
    cases hc
    exact Or.inl rfl

theorem Token.ReadTo.solid {cs : List Char} (h : tok.ReadTo cs []) : Parser.Solid cs := by
  obtain ⟨cs', hcs, hspells⟩ := h.spells
  rw [List.append_nil] at hcs
  exact hcs ▸ hspells.solid

theorem Spelled.reads (h : Spelled toks w) : Reads toks w [] := by
  induction h with
  | nil => rfl
  | @cons tok toks cs w htok hw ih =>
    have hread : tok.ReadTo (cs ++ []) [] := by rwa [List.append_nil]
    refine ⟨w, ?_, ih⟩
    rw [Parser.skipBlank_newline, htok.solid.append.skipBlank_eq]
    exact hread.replace hw.mayFollow

def Token.Spellable (tok : Token) : Prop := ∃ cs, tok.ReadTo cs []

theorem exists_spelled (h : ∀ tok ∈ toks, tok.Spellable) : ∃ w, Spelled toks w := by
  induction toks with
  | nil => exact ⟨[], .nil⟩
  | cons tok toks ih =>
    obtain ⟨⟨cs, hcs⟩, htoks⟩ := List.forall_mem_cons.mp h
    obtain ⟨w, hw⟩ := ih htoks
    exact ⟨_, .cons hcs hw⟩

namespace Parser

/-- A line end may be put behind what is skipped, whatever follows: it ends a comment that the end
of the text has ended. -/
theorem Blank.newline {b x : List Char} (hb : Blank b r) (hr : Ends isSpacing r) :
    Blank b ('\n' :: x) := by
  induction hb with
  | nil => exact .nil
  | spacing hc _ ih => exact .spacing hc (ih hr)
  | @comment cs b r hcs hend _ ih =>
    refine .comment hcs ?_ (ih hr)
    cases b with
    | nil => exact Or.inr (Or.inl ⟨x, rfl⟩)
    | cons c b =>
      obtain h | ⟨t, h⟩ | ⟨t, h⟩ := hend
      · cases h
      · cases h
        exact Or.inr (Or.inl ⟨_, rfl⟩)
      · obtain ⟨rfl, hfeed⟩ := List.cons.inj h
        cases b with
        | nil =>
          have hfeed : r = '\n' :: t := hfeed
          cases hr '\n' (by rw [hfeed]; rfl)
        | cons d b =>
          cases hfeed
          exact Or.inr (Or.inr ⟨_, rfl⟩)

theorem ends_skipBlank (s : List Char) : Ends isSpacing (skipBlank s) := by
  fun_induction skipBlank s with
  | case1 =>
    intro c hc
    cases hc
  | case2 c cs hc ih => exact ih
  | case3 cs rest hrest hc ih => exact ih
  | case4 cs hnone hc => exact ends_cons (Bool.eq_false_iff.mpr hc)
  | case5 c cs hc hsemi => exact ends_cons (Bool.eq_false_iff.mpr hc)

end Parser

/-- The text in front of the rest can be completed to one that is read as tokens of the
language. -/
def Completable (language : Set (List Token)) (s r : List Char) : Prop :=
  ∃ before w toks, s = before ++ r ∧ Parser.MayFollow s (before ++ w) ∧ toks ∈ language ∧
    Reads toks (before ++ w) []

/-- The text in front of the rest ends in a list of parameters that is not closed, and that is not
in order. With an empty list in its place the tokens in front of it go on to some of the
language. -/
def Disordered (language : Set (List Token)) (s r : List Char) : Prop :=
  ∃ front ps behind m, Reads (front ++ .word .openParen ::
      commaSeparated (ps.map Func.paramTokens)) s m ∧ skipBlank m = r ∧
    Parser.inOrder ps = false ∧
      front ++ .word .openParen :: .word .closeParen :: behind ∈ language

theorem Disordered.suffix {language : Set (List Token)} (h : Disordered language s r) :
    r <:+ s := by
  obtain ⟨front, ps, behind, m, hm, rfl, -, -⟩ := h
  exact (Parser.skipBlank_suffix m).trans hm.suffix

/-- Where a fault may be: in front of something that the language lets come there, and where a list
of parameters that is out of order is not closed. -/
def Justified (language : Set (List Token)) (s : List Char) (e : Fault) : Prop :=
  Completable language s e.rest ∨ e.cause = .symbol ∧ Disordered language s e.rest

variable {language language' : Set (List Token)} {e : Fault}

theorem Completable.after (h : Completable {rest | toks ++ rest ∈ language} m r)
    (hread : Reads toks s m) : Completable language s r := by
  obtain ⟨before, w, rest, rfl, hfollow, hrest, hmore⟩ := h
  obtain ⟨front, rfl⟩ := hread.suffix
  refine ⟨front ++ before, w, toks ++ rest, by rw [List.append_assoc], ?_, hrest, ?_⟩
  · rw [List.append_assoc]
    exact hfollow.append front
  · rw [List.append_assoc]
    exact reads_append.mpr ⟨_, hread.replace hfollow, hmore⟩

theorem Completable.before (h : Completable language' s r)
    (hrest : ∀ toks ∈ language', ∃ rest, (∀ tok ∈ rest, tok.Spellable) ∧ toks ++ rest ∈ language) :
    Completable language s r := by
  obtain ⟨before, w, toks, rfl, hfollow, htoks, hread⟩ := h
  obtain ⟨rest, hspellable, hwhole⟩ := hrest toks htoks
  obtain ⟨v, hv⟩ := exists_spelled hspellable
  refine ⟨before, w ++ v, toks ++ rest, rfl, ?_, hwhole, ?_⟩
  · rw [← List.append_assoc]
    exact hfollow.append_right hv.mayFollow
  · rw [← List.append_assoc]
    have hfirst : Reads toks (before ++ w ++ v) v :=
      Reads.replace (m := []) (by rwa [List.append_nil]) hv.mayFollow
    exact reads_append.mpr ⟨v, hfirst, hv.reads⟩

/-- The text in front of a token that the language lets come there. -/
theorem completable_skipBlank (s : List Char) (hmem : tok :: toks ∈ language)
    (hspellable : ∀ t ∈ tok :: toks, t.Spellable) : Completable language s (skipBlank s) := by
  obtain ⟨b, hb, hblank⟩ := Parser.exists_blank s
  obtain ⟨w, hw⟩ := exists_spelled hspellable
  refine ⟨b, w, tok :: toks, hb, ?_, hmem, ?_⟩
  · have hfollow := (hw.mayFollow (r := skipBlank s)).append b
    rwa [← hb] at hfollow
  · obtain ⟨m, hm, hmore⟩ := hw.reads
    refine ⟨m, ?_, hmore⟩
    cases hw with
    | cons htok hw =>
      rwa [(hblank.newline (Parser.ends_skipBlank s)).skipBlank_eq]

theorem completable_within {piece : List Char} (hs : skipBlank s = piece ++ r)
    (hsolid : Parser.Solid piece) (hmem : [tok] ∈ language) (hread : tok.ReadTo (piece ++ w) []) :
    Completable language s r := by
  obtain ⟨b, hb, hblank⟩ := Parser.exists_blank s
  rw [hs] at hb hblank
  refine ⟨b ++ piece, w, [tok], by rw [hb, List.append_assoc], ?_, hmem, [], ?_, rfl⟩
  · rw [hb, List.append_assoc]
    exact (Parser.mayFollow_of_ne_nil hsolid.ne_nil).append b
  · rw [List.append_assoc, (hblank.replace hsolid.append).skipBlank_eq, hsolid.append.skipBlank_eq]
    exact hread

theorem Disordered.after (h : Disordered {rest | toks ++ rest ∈ language} m r)
    (hread : Reads toks s m) : Disordered language s r := by
  obtain ⟨front, ps, behind, t, hlist, hr, horder, hmem⟩ := h
  refine ⟨toks ++ front, ps, behind, t, ?_, hr, horder, ?_⟩
  · rw [List.append_assoc]
    exact reads_append.mpr ⟨m, hread, hlist⟩
  · rw [List.append_assoc]
    exact hmem

theorem Disordered.before (h : Disordered language' s r)
    (hrest : ∀ toks ∈ language', ∃ rest, (∀ tok ∈ rest, tok.Spellable) ∧ toks ++ rest ∈ language) :
    Disordered language s r := by
  obtain ⟨front, ps, behind, t, hlist, hr, horder, hmem⟩ := h
  obtain ⟨rest, -, hwhole⟩ := hrest _ hmem
  refine ⟨front, ps, behind ++ rest, t, hlist, hr, horder, ?_⟩
  simpa using hwhole

theorem Justified.after (h : Justified {rest | toks ++ rest ∈ language} m e)
    (hread : Reads toks s m) : Justified language s e :=
  h.imp (·.after hread) fun h => ⟨h.1, h.2.after hread⟩

theorem Justified.before (h : Justified language' s e)
    (hrest : ∀ toks ∈ language', ∃ rest, (∀ tok ∈ rest, tok.Spellable) ∧ toks ++ rest ∈ language) :
    Justified language s e :=
  h.imp (·.before hrest) fun h => ⟨h.1, h.2.before hrest⟩

namespace Parser

variable {α β : Type} {p q : Parser α} {f : α → Parser β} {n : Nat}

/-- The faults of the parser at texts of at most `n` characters are justified. -/
def Justifies (n : Nat) (p : Parser α) (language : Set (List Token)) : Prop :=
  ∀ s e, s.length ≤ n → Faults p (skipBlank s) e → Justified language s e

theorem justifies_of_start (hp : ∀ s e, Faults p s e → e.rest = s) (hmem : tok :: toks ∈ language)
    (hspellable : ∀ t ∈ tok :: toks, t.Spellable) : Justifies n p language := by
  intro s e _ h
  refine Or.inl ?_
  rw [hp _ e h]
  exact completable_skipBlank s hmem hspellable

theorem Justifies.mono (h : Justifies n p language') (hsub : language' ⊆ language) :
    Justifies n p language := by
  intro s e hs he
  refine (h s e hs he).before fun toks htoks => ⟨[], List.forall_mem_nil _, ?_⟩
  rw [List.append_nil]
  exact hsub htoks

theorem Justifies.commit (h : Justifies n p language) : Justifies n (commit p) language :=
  fun s e hs he => h s e hs (faults_commit_iff.mp he)

theorem Justifies.map {g : α → β} (h : Justifies n p language) :
    Justifies n (do let a ← p; pure (g a)) language := by
  intro s e hs he
  obtain he | ⟨a, r, -, he⟩ := faults_bind_iff.mp he
  · exact h s e hs he
  · exact absurd he not_faults_pure

theorem Justifies.orElse (hp : Justifies n p language) (hq : Justifies n q language) :
    Justifies n (orElse p q) language := by
  intro s e hs he
  obtain hfailed | ⟨-, he⟩ := he.of_orElse
  · exact hp s e hs (Or.inr hfailed)
  · exact hq s e hs he

/-- Where the first parser declines, only the second one is at fault. -/
theorem Unfailing.justifies_orElse (hp : Unfailing n p) (hq : Justifies n q language) :
    Justifies n (Parser.orElse p q) language := by
  intro s e hs he
  obtain hfailed | ⟨-, he⟩ := he.of_orElse
  · exact absurd hfailed (hp _ e (Nat.le_trans (skipBlank_suffix s).length_le hs))
  · exact hq s e hs he

variable {tokens : α → List Token}

/-- A part and what comes behind it. -/
theorem Justifies.lexeme_bind (hp : Justifies n p language') (hread : ∀ a, Matches p a (tokens a))
    (hne : ∀ a, tokens a ≠ [])
    (hrest : ∀ toks ∈ language', ∃ rest, (∀ tok ∈ rest, tok.Spellable) ∧ toks ++ rest ∈ language)
    (hf : ∀ a, ∀ m < n, Justifies m (f a) {rest | tokens a ++ rest ∈ language}) :
    Justifies n (lexeme p >>= f) language := by
  intro s e hs he
  obtain he | ⟨a, m, ha, he⟩ := faults_lexeme_bind_iff.mp he
  · exact (hp s e hs he).before hrest
  · have hreads := (hread a s m).mp ha
    have hshort := hreads.length_lt (hne a)
    exact (hf a m.length (by omega) m e (Nat.le_refl _) he).after hreads

theorem Justifies.many_bind {f : List α → Parser β} (hp : Justifies n p (Set.range tokens))
    (hread : ∀ a, Matches p a (tokens a)) (halike : ∀ n, Alike 1 n p p)
    (hrest : ∀ as : List α, ∃ rest, (∀ tok ∈ rest, tok.Spellable) ∧
      as.flatMap tokens ++ rest ∈ language)
    (hf : ∀ as, Justifies n (f as) {rest | as.flatMap tokens ++ rest ∈ language}) :
    Justifies n (do let as ← many (lexeme p); f as) language := by
  intro s e hs he
  obtain he | ⟨as, r, has, he⟩ := faults_bind_iff.mp he
  · -- the items in front of the one that fails are read
    let I (r : List Char) : Prop :=
      ∃ (as : List α) (m : List Char), Reads (as.flatMap tokens) s m ∧ skipBlank m = r
    have hstep (r : List Char) (a : α) (t : List Char) (hr : I r)
        (ha : lexeme p r = .done a t) : I t := by
      obtain ⟨as, m, hm, rfl⟩ := hr
      obtain ⟨k, hk, rfl⟩ := lexeme_eq_done_iff.mp ha
      refine ⟨as ++ [a], k, ?_, rfl⟩
      rw [List.flatMap_append, List.flatMap_singleton]
      exact reads_append.mpr ⟨m, hm, (hread a m k).mp hk⟩
    obtain ⟨_, ⟨as, m, hm, rfl⟩, hfailed⟩ :=
      Faults.of_many (I := I) (fun n => (halike n).lexeme) hstep ⟨[], s, rfl, rfl⟩ he
    have hm_le := hm.suffix.length_le
    have hitem : Justified (Set.range tokens) m e :=
      hp m e (by omega) (faults_lexeme_iff.mp (Or.inr hfailed))
    refine Justified.after (hitem.before ?_) hm
    rintro _ ⟨a, rfl⟩
    obtain ⟨rest, hspellable, hmem⟩ := hrest (as ++ [a])
    exact ⟨rest, hspellable, by simpa using hmem⟩
  · obtain ⟨m, hm, rfl, -⟩ := (many_lexeme_iff halike fun a _ => hread a).mp has
    have hm_le := hm.suffix.length_le
    exact (hf as m e (by omega) he).after hm

end Parser

end ShaderTree
