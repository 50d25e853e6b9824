import ShaderTree.Listing.Read
import ShaderTree.Proofs.Lookahead

namespace ShaderTree

namespace Parser

variable {α β : Type} {p q : Parser α} {f : α → Parser β} {s : List Char} {e : Fault}

/-- The parser declines the text or fails, for the given fault. -/
def Faults (p : Parser α) (s : List Char) (e : Fault) : Prop :=
  p s = .declined e ∨ p s = .failed e

theorem faults_bind_iff : Faults (p >>= f) s e ↔
    Faults p s e ∨ ∃ a r, p s = .done a r ∧ Faults (f a) r e := by
  rw [Faults, Faults, bind_apply]
  cases p s with
  | done a r => simp [Faults, and_assoc]
  | declined e' => simp
  | failed e' => simp

theorem faults_lexeme_bind_iff : Faults (lexeme p >>= f) s e ↔
    Faults p s e ∨ ∃ a r, p s = .done a r ∧ Faults (f a) (skipBlank r) e := by
  have hlexeme : lexeme p >>= f = p >>= fun a => blank >>= fun _ => f a := by
    funext t
    simp only [lexeme, bind_apply]
    cases p t <;> rfl
  have hblank (a : α) (r : List Char) :
      Faults (blank >>= fun _ => f a) r e ↔ Faults (f a) (skipBlank r) e := Iff.rfl
  simp only [hlexeme, faults_bind_iff (p := p), hblank]

theorem not_faults_pure {a : α} : ¬Faults (pure a) s e := by
  rintro (h | h) <;> cases h

theorem faults_lexeme_iff : Faults (lexeme p) s e ↔ Faults p s e := by
  have hpure : lexeme p = lexeme p >>= pure := by
    funext t
    rw [bind_apply]
    cases lexeme p t <;> rfl
  rw [hpure, faults_lexeme_bind_iff]
  simp only [not_faults_pure, and_false, exists_false, or_false]

theorem faults_commit_iff : Faults (commit p) s e ↔ Faults p s e := by
  rw [Faults, Faults, commit]
  cases p s <;> simp

theorem Faults.of_orElse (h : Faults (orElse p q) s e) :
    p s = .failed e ∨ Declines p s ∧ Faults q s e := by
  rw [Faults, orElse] at h
  cases hp : p s with
  | done a r => simp [hp] at h
  | declined e' =>
    rw [hp] at h
    exact Or.inr ⟨⟨e', hp⟩, h⟩
  | failed e' =>
    rw [hp] at h
    obtain h | h := h
    · cases h
    · exact Or.inl h

theorem Faults.of_accept {cause : Cause} {g : α → Option β}
    (h : Faults (accept cause g p) s e) : Faults p s e ∨ e.rest = s := by
  rw [Faults, accept] at h
  cases hp : p s with
  | done a r =>
    rw [hp] at h
    cases hg : g a <;> simp [hg] at h
    exact Or.inr (by rw [← h])
  | declined e' =>
    refine Or.inl ?_
    simpa [Faults, hp] using h
  | failed e' =>
    refine Or.inl ?_
    simpa [Faults, hp] using h

theorem Faults.of_optional (h : Faults (optional p) s e) : p s = .failed e := by
  rw [Faults, optional] at h
  cases hp : p s with
  | done a r => simp [hp] at h
  | declined e' => simp [hp] at h
  | failed e' =>
    rw [hp] at h
    simpa using h

theorem Faults.of_blame {cause : Cause} (h : Faults (blame cause p) s e) : e.rest = s := by
  rw [Faults, blame] at h
  cases hp : p s <;> simp [hp] at h <;> rw [← h]

/-- A text that is not read has a fault, or goes on behind what is read of it. -/
theorem readAll_error {p : Parser α} {e : ParseError} (h : readAll p s = .error e) :
    (∃ e', Faults p (skipBlank s) e' ∧ e = .before s e'.rest (.missing e'.cause)) ∨
      ∃ a r, lexeme p (skipBlank s) = .done a r ∧ e = .before s r .leftover := by
  rw [readAll] at h
  cases hp : lexeme p (skipBlank s) with
  | done a r =>
    cases r with
    | nil => simp [hp] at h
    | cons c r => exact Or.inr ⟨a, c :: r, rfl, by simpa [hp] using h.symm⟩
  | declined e' =>
    exact Or.inl ⟨e', faults_lexeme_iff.mp (Or.inl hp), by simpa [hp] using h.symm⟩
  | failed e' =>
    exact Or.inl ⟨e', faults_lexeme_iff.mp (Or.inr hp), by simpa [hp] using h.symm⟩

/-- A fault is somewhere in the text, and is no lack of progress. -/
theorem Faults.leaves {k : Nat} (h : Faults p s e) (hp : ∀ n, Alike k n p p) :
    e.rest <:+ s ∧ e.cause ≠ .progress := by
  have hleaves := (hp s.length s (Nat.le_refl _)).2
  obtain h | h := h <;> rw [h] at hleaves <;> exact hleaves

theorem Faults.of_firstOf {cause : Cause} {spelling : α → List Char} {choices : List α}
    (h : Faults (firstOf cause spelling choices) s e) : e = ⟨s, cause⟩ := by
  rw [Faults, firstOf] at h
  split at h
  · simp at h
  · simpa [eq_comm] using h

theorem Faults.of_span {cause : Cause} {isIn : Char → Bool} (h : Faults (span cause isIn) s e) :
    e = ⟨s, cause⟩ := by
  rw [Faults, span] at h
  split at h
  · simpa [eq_comm] using h
  · simp at h

theorem Faults.of_caseless {word : String} {x : Binary64} (h : Faults (caseless word x) s e) :
    e.rest = s := by
  rw [Faults, caseless] at h
  split at h <;> simp at h
  rw [← h]

/-- A repetition is at fault where one of its items fails. The invariant says where that can be. -/
theorem Faults.of_many {I : List Char → Prop} (hp : ∀ n, Alike 1 n p p)
    (hstep : ∀ r a t, I r → p r = .done a t → I t) (hs : I s) (h : Faults (many p) s e) :
    ∃ r, I r ∧ p r = .failed e := by
  induction hlen : s.length using Nat.strongRecOn generalizing s with
  | _ l ih =>
    have hleaves := (hp s.length s (Nat.le_refl _)).2
    change many p s = .declined e ∨ many p s = .failed e at h
    rw [many] at h
    cases hitem : p s with
    | done a r =>
      rw [hitem] at h hleaves
      have hshort : r.length < s.length := hleaves.2
      have hmore : many p r = .declined e ∨ many p r = .failed e := by
        cases hr : many p r <;> simp [hshort, hr] at h <;> simp [h]
      exact ih r.length (by omega) (hstep s a r hs hitem) hmore rfl
    | declined e' => simp [hitem] at h
    | failed e' =>
      have he : e' = e := by simpa [hitem] using h
      exact ⟨s, hs, he ▸ hitem⟩

def Unfailing (n : Nat) (p : Parser α) : Prop := ∀ s e, s.length ≤ n → p s ≠ .failed e

variable {k m n : Nat}

theorem Unfailing.mono (h : Unfailing n p) (hmn : m ≤ n) : Unfailing m p :=
  fun s e hs => h s e (Nat.le_trans hs hmn)

theorem Unfailing.bind (hp : Unfailing n p) (halike : Alike k n p p)
    (hf : ∀ a m, m + k ≤ n → Unfailing m (f a)) : Unfailing n (p >>= f) := by
  intro s e hs h
  have hleaves := (halike s hs).2
  rw [bind_apply] at h
  cases hfirst : p s with
  | done a r =>
    rw [hfirst] at h hleaves
    have hlen : r.length + k ≤ s.length := hleaves.2
    exact hf a r.length (by omega) r e (Nat.le_refl _) h
  | declined e' =>
    rw [hfirst] at h
    cases h
  | failed e' => exact hp s e' hs hfirst

theorem Unfailing.orElse (hp : Unfailing n p) (hq : Unfailing n q) : Unfailing n (orElse p q) := by
  intro s e hs h
  rw [Parser.orElse] at h
  cases hfirst : p s with
  | done a r => simp [hfirst] at h
  | declined e' =>
    rw [hfirst] at h
    exact hq s e hs h
  | failed e' => exact hp s e' hs hfirst

theorem Unfailing.accept {cause : Cause} {g : α → Option β} (hp : Unfailing n p) :
    Unfailing n (accept cause g p) := by
  intro s e hs h
  rw [Parser.accept] at h
  cases hfirst : p s with
  | done a r => cases hg : g a <;> simp [hfirst, hg] at h
  | declined e' => simp [hfirst] at h
  | failed e' => exact hp s e' hs hfirst

theorem unfailing_pure (a : α) : Unfailing n (pure a) := nofun

theorem unfailing_firstOf {cause : Cause} {spelling : α → List Char} {choices : List α} :
    Unfailing n (firstOf cause spelling choices) := by
  intro s e _ h
  rw [firstOf] at h
  split at h <;> cases h

theorem unfailing_span {cause : Cause} {isIn : Char → Bool} : Unfailing n (span cause isIn) := by
  intro s e _ h
  rw [span] at h
  split at h <;> cases h

theorem Unfailing.lexeme (hp : Unfailing n p) (halike : Alike 0 n p p) : Unfailing n (lexeme p) :=
  hp.bind halike fun _ _ _ => nofun

theorem Unfailing.not_faults_sepBy {sep : Parser Unit} (hsep : Unfailing n sep)
    (hp : Unfailing n p) (hseps : ∀ n, Alike 1 n sep sep) (hitems : ∀ n, Alike 1 n p p)
    (hs : s.length ≤ n) : ¬Faults (sepBy sep p) s e := by
  have hlength {γ : Type} {q : Parser γ} {t u : List Char} {c : γ} (hq : ∀ n, Alike 0 n q q)
      (ht : t.length ≤ n) (h : q t = .done c u) : u.length ≤ n := by
    have hleaves := (hq t.length t (Nat.le_refl _)).2
    rw [h] at hleaves
    exact Nat.le_trans hleaves.1.length_le ht
  intro h
  obtain h | ⟨first, r, hfirst, h⟩ := faults_bind_iff.mp h
  · exact hp s e hs h.of_optional
  cases first with
  | none => exact not_faults_pure h
  | some a =>
    have halike (n : Nat) : Alike 1 n (do sep; p) (do sep; p) :=
      (hseps n).bind_shorter fun _ m _ => (hitems m).weaken
    have hnext : Unfailing n (do sep; p) :=
      hsep.bind (hseps n).weaken fun _ _ hm => hp.mono hm
    obtain h | ⟨as, t, -, h⟩ := faults_bind_iff.mp h
    · have hr : r.length ≤ n := hlength (fun n => (hitems n).optional) hs hfirst
      have hstep (t : List Char) (b : α) (u : List Char) (ht : t.length ≤ n)
          (hu : (do sep; p : Parser α) t = .done b u) : u.length ≤ n :=
        hlength (fun n => (halike n).weaken) ht hu
      obtain ⟨t, ht, hfailed⟩ := Faults.of_many halike hstep hr h
      exact hnext t e ht hfailed
    · exact not_faults_pure h

end Parser

end ShaderTree
