import ShaderTree.Proofs.GrammarRules

namespace ShaderTree

open ShaderTree.Parser

inductive Stop
  | declined (fault : Fault)
  | failed (fault : Fault)
  /-- The text ends where more of it is asked for. -/
  | incomplete

inductive Ending (α : Type)
  | done (value : α) (rest : List Char)
  | stopped (stop : Stop)

namespace Ending

variable {α β : Type} {a : α} {s t : List Char} {o : Outcome α} {e : Fault} {x : Stop}
  {p : Parser α}

def of : Outcome α → Ending α
  | .done a r => done a r
  | .declined e => stopped (.declined e)
  | .failed e => stopped (.failed e)

def map (f : α → β) : Ending α → Ending β
  | done a r => done (f a) r
  | stopped x => stopped x

def commit : Ending α → Ending α
  | stopped (.declined e) => stopped (.failed e)
  | o => o

def optional (s : List Char) : Ending α → Ending (Option α)
  | done a r => done (some a) r
  | stopped (.declined _) => done none s
  | stopped x => stopped x

def accept (cause : Cause) (g : α → Option β) (s : List Char) : Ending α → Ending β
  | done a r =>
    match g a with
    | some b => done b r
    | none => stopped (.declined ⟨s, cause⟩)
  | stopped x => stopped x

@[simp]
theorem done_eq_of_iff : done a t = of o ↔ o = .done a t := by
  cases o <;> simp [of, eq_comm]

@[simp]
theorem declined_eq_of_iff : stopped (.declined e) = of o ↔ o = .declined e := by
  cases o <;> simp [of, eq_comm]

@[simp]
theorem failed_eq_of_iff : stopped (.failed e) = of o ↔ o = .failed e := by
  cases o <;> simp [of, eq_comm]

theorem incomplete_ne_of : stopped .incomplete ≠ of o := by
  intro h
  cases o <;> cases h

theorem of_commit : of (Parser.commit p s) = (of (p s)).commit := by
  rw [Parser.commit]
  cases p s <;> rfl

theorem of_optional : of (Parser.optional p s) = (of (p s)).optional s := by
  rw [Parser.optional]
  cases p s <;> rfl

theorem of_accept {cause : Cause} {g : α → Option β} :
    of (Parser.accept cause g p s) = (of (p s)).accept cause g s := by
  rw [Parser.accept]
  cases p s with
  | done a r =>
    dsimp only [of, accept]
    cases g a <;> rfl
  | declined e => rfl
  | failed e => rfl

theorem of_bind_stopped {f : α → Parser β} (h : stopped x = of (p s)) :
    of ((p >>= f) s) = stopped x := by
  rw [bind_apply]
  cases hs : p s <;> rw [hs] at h <;> cases h <;> rfl

theorem of_orElse {q : Parser α} (h : ¬Declines p s) : of (Parser.orElse p q s) = of (p s) := by
  rw [Parser.orElse]
  cases hs : p s with
  | declined e => exact absurd ⟨e, hs⟩ h
  | done a r => rfl
  | failed e => rfl

theorem of_many_turn (h : p s = .done a t) (hlen : t.length < s.length) :
    of (Parser.many p s) = (of (Parser.many p t)).map (a :: ·) := by
  rw [Parser.many, h]
  dsimp only
  rw [if_pos hlen]
  cases Parser.many p t <;> rfl

theorem of_many_stopped (h : stopped x = of (p s)) (hx : ∀ e, x ≠ .declined e) :
    of (Parser.many p s) = stopped x := by
  rw [Parser.many]
  cases hs : p s <;> rw [hs] at h <;> cases h
  · exact absurd rfl (hx _)
  · rfl

end Ending

/-- The rule comes to the ending on the text. There is no step for a turn of a repetition that takes
up no text: where one comes up, the rule has no run. -/
inductive Runs : {α : Type} → Rule α → List Char → Ending α → Prop
  | token {α : Type} {k : Nat} {p : Parser α} {takes : ∀ n, Alike k n p p} (s : List Char) :
      Runs (.token k p takes) s (.of (p s))
  | pure {α : Type} (a : α) (s : List Char) : Runs (.pure a) s (.done a s)
  | bind_done {α β : Type} {r : Rule α} {f : α → Rule β} {s t : List Char} {a : α} {o : Ending β} :
      Runs r s (.done a t) → Runs (f a) t o → Runs (.bind r f) s o
  | bind_stopped {α β : Type} {r : Rule α} {f : α → Rule β} {s : List Char} {x : Stop} :
      Runs r s (.stopped x) → Runs (.bind r f) s (.stopped x)
  | first {α : Type} {r q : Rule α} {s : List Char} {o : Ending α} :
      Runs r s o → (∀ e, o ≠ .stopped (.declined e)) → Runs (.orElse r q) s o
  | second {α : Type} {r q : Rule α} {s : List Char} {e : Fault} {o : Ending α} :
      Runs r s (.stopped (.declined e)) → Runs q s o → Runs (.orElse r q) s o
  | commit {α : Type} {r : Rule α} {s : List Char} {o : Ending α} :
      Runs r s o → Runs (.commit r) s o.commit
  | optional {α : Type} {r : Rule α} {s : List Char} {o : Ending α} :
      Runs r s o → Runs (.optional r) s (o.optional s)
  | accept {α β : Type} {cause : Cause} {g : α → Option β} {r : Rule α} {s : List Char}
      {o : Ending α} : Runs r s o → Runs (.accept cause g r) s (o.accept cause g s)
  | many_end {α : Type} {r : Rule α} {s : List Char} {e : Fault} :
      Runs r s (.stopped (.declined e)) → Runs (.many r) s (.done [] s)
  | many_stopped {α : Type} {r : Rule α} {s : List Char} {x : Stop} :
      Runs r s (.stopped x) → (∀ e, x ≠ .declined e) → Runs (.many r) s (.stopped x)
  | many_turn {α : Type} {r : Rule α} {s t : List Char} {a : α} {o : Ending (List α)} :
      Runs r s (.done a t) → t.length < s.length → Runs (.many r) t o →
        Runs (.many r) s (o.map (a :: ·))
  | call {k : Phrase} {s : List Char} {o : Ending k.Value} :
      Runs k.rule s o → Runs (.call k) s o

variable {α β : Type} {s : List Char}

/-- A run comes to what the parser of its rule gives. -/
theorem Runs.eq_of_parser {r : Rule α} {o : Ending α} (h : Runs r s o) : o = .of (r.parser s) := by
  induction h with
  | token s => rfl
  | pure a s => rfl
  | bind_done _ _ ih ih' =>
    rw [ih', Rule.parser, Parser.bind_done (Ending.done_eq_of_iff.mp ih)]
  | bind_stopped _ ih => rw [Rule.parser, Ending.of_bind_stopped ih]
  | first _ hnot ih =>
    have hdeclines : ¬Declines _ _ := fun ⟨e, he⟩ => hnot e (ih.trans (congrArg Ending.of he))
    rw [ih, Rule.parser, Ending.of_orElse hdeclines]
  | second _ _ ih ih' =>
    have hdeclines : Declines _ _ := ⟨_, Ending.declined_eq_of_iff.mp ih⟩
    rw [ih', Rule.parser, hdeclines.orElse_eq]
  | commit _ ih => rw [ih, Rule.parser, Ending.of_commit]
  | optional _ ih => rw [ih, Rule.parser, Ending.of_optional]
  | accept _ ih => rw [ih, Rule.parser, Ending.of_accept]
  | many_end _ ih =>
    rw [Rule.parser, many_nil ⟨_, Ending.declined_eq_of_iff.mp ih⟩]
    rfl
  | many_stopped _ hx ih => rw [Rule.parser, Ending.of_many_stopped ih hx]
  | many_turn _ hlen _ ih ih' =>
    rw [ih', Rule.parser, Ending.of_many_turn (Ending.done_eq_of_iff.mp ih) hlen]
  | call _ ih => rw [ih, Phrase.parser_rule, Rule.parser]

namespace Rule

@[simp]
def Advances : {α : Type} → Rule α → Prop
  | _, token k _ _ => 0 < k
  | _, pure _ => False
  | _, bind r f => r.Advances ∨ ∀ a, (f a).Advances
  | _, orElse r q => r.Advances ∧ q.Advances
  | _, commit r => r.Advances
  | _, optional _ => False
  | _, accept _ _ r => r.Advances
  | _, many _ => False
  | _, call k => 0 < k.least

/-- Only `near` phrases are called before text is taken up, and whatever is repeated takes up
text. -/
@[simp]
def Guarded : {α : Type} → Rule α → (near : Phrase → Prop) → Prop
  | _, token _ _ _, _ => True
  | _, pure _, _ => True
  | _, bind r f, near => r.Guarded near ∧ ∀ a, (f a).Guarded fun k => r.Advances ∨ near k
  | _, orElse r q, near => r.Guarded near ∧ q.Guarded near
  | _, commit r, near => r.Guarded near
  | _, optional r, near => r.Guarded near
  | _, accept cause _ r, near => cause ≠ .progress ∧ r.Guarded near
  | _, many r, near => r.Guarded near ∧ r.Advances
  | _, call k, near => near k

variable {r : Rule α} {near : Phrase → Prop}

@[simp]
theorem pure_eq (a : α) : (Pure.pure a : Rule α) = pure a := rfl

@[simp]
theorem bind_eq (r : Rule α) (f : α → Rule β) : r >>= f = bind r f := rfl

@[simp]
theorem guarded_keyword (word : String) : (keyword word).Guarded near := trivial

@[simp]
theorem advances_keyword {word : String} : (keyword word).Advances ↔ word ≠ "" := by
  rw [keyword, Advances, Nat.pos_iff_ne_zero, Ne, String.length_eq_zero_iff]

@[simp]
theorem guarded_symbol (c : Char) : (symbol c).Guarded near := trivial

@[simp]
theorem advances_symbol (c : Char) : (symbol c).Advances := Nat.one_pos

@[simp]
theorem guarded_digits : digits.Guarded near := trivial

theorem Guarded.alike (h : r.Guarded near) (n : Nat) :
    Alike 0 n r.parser r.parser ∧ (r.Advances → Alike 1 n r.parser r.parser) := by
  induction r generalizing near n with
  | token k p takes => exact ⟨(takes n).weaken, fun hadv => (takes n).mono hadv (Nat.le_refl n)⟩
  | pure a => exact ⟨alike_pure n a, False.elim⟩
  | bind r f ih ih' =>
    obtain ⟨hr, hf⟩ := h
    obtain ⟨hweak, hstrong⟩ := ih hr n
    refine ⟨hweak.bind fun a => (ih' a (hf a) n).1, ?_⟩
    rintro (hadv | hadv)
    · exact (hstrong hadv).bind_shorter fun a m _ => (ih' a (hf a) m).1
    · exact hweak.bind fun a => (ih' a (hf a) n).2 (hadv a)
  | orElse r q ih ih' =>
    obtain ⟨hr, hq⟩ := h
    exact ⟨(ih hr n).1.orElse (ih' hq n).1,
      fun hadv => ((ih hr n).2 hadv.1).orElse ((ih' hq n).2 hadv.2)⟩
  | commit r ih => exact ⟨(ih h n).1.commit, fun hadv => ((ih h n).2 hadv).commit⟩
  | optional r ih => exact ⟨(ih h n).1.optional, False.elim⟩
  | accept cause g r ih =>
    obtain ⟨hcause, hr⟩ := h
    exact ⟨(ih hr n).1.accept hcause g, fun hadv => ((ih hr n).2 hadv).accept hcause g⟩
  | many r ih =>
    obtain ⟨hr, hadv⟩ := h
    exact ⟨((ih hr n).2 hadv).many, False.elim⟩
  | call k =>
    exact ⟨(k.alike n).weaken, fun hadv => (k.alike n).mono hadv (Nat.le_refl n)⟩

theorem Guarded.leaves {a : α} {t : List Char} (h : r.Guarded near) (hs : r.parser s = .done a t) :
    t <:+ s ∧ t.length ≤ s.length := by
  have hleaves := ((h.alike s.length).1 s (Nat.le_refl _)).2
  rw [hs] at hleaves
  exact hleaves

theorem Guarded.shorter {a : α} {t : List Char} (h : r.Guarded near) (hadvances : r.Advances)
    (hs : r.parser s = .done a t) : t.length < s.length := by
  have hleaves := ((h.alike s.length).2 hadvances s (Nat.le_refl _)).2
  rw [hs] at hleaves
  exact hleaves.2

def Completes (r : Rule α) (s : List Char) : Prop := Runs r s (.of (r.parser s))

theorem Completes.bind {f : α → Rule β} (hr : r.Completes s)
    (hf : ∀ a t, r.parser s = .done a t → (f a).Completes t) : (Rule.bind r f).Completes s := by
  rw [Completes, Rule.parser, bind_apply]
  rw [Completes] at hr
  cases hs : r.parser s with
  | done a t =>
    rw [hs] at hr
    exact .bind_done hr (hf a t hs)
  | declined e =>
    rw [hs] at hr
    exact .bind_stopped hr
  | failed e =>
    rw [hs] at hr
    exact .bind_stopped hr

theorem Completes.orElse {q : Rule α} (hr : r.Completes s) (hq : q.Completes s) :
    (Rule.orElse r q).Completes s := by
  rw [Completes, Rule.parser, Parser.orElse]
  rw [Completes] at hr
  cases hs : r.parser s with
  | declined e =>
    rw [hs] at hr
    exact .second hr hq
  | done a t =>
    rw [hs] at hr
    exact .first hr fun e h => by cases h
  | failed e =>
    rw [hs] at hr
    exact .first hr fun e h => by cases h

theorem Completes.commit (hr : r.Completes s) : (Rule.commit r).Completes s := by
  rw [Completes, Rule.parser, Ending.of_commit]
  exact .commit hr

theorem Completes.optional (hr : r.Completes s) : (Rule.optional r).Completes s := by
  rw [Completes, Rule.parser, Ending.of_optional]
  exact .optional hr

theorem Completes.accept {cause : Cause} {g : α → Option β} (hr : r.Completes s) :
    (Rule.accept cause g r).Completes s := by
  rw [Completes, Rule.parser, Ending.of_accept]
  exact .accept hr

theorem Completes.many (hr : r.Completes s) (hmore : ∀ a t, r.parser s = .done a t →
    t.length < s.length ∧ (Rule.many r).Completes t) : (Rule.many r).Completes s := by
  rw [Completes, Rule.parser]
  rw [Completes] at hr
  cases hs : r.parser s with
  | done a t =>
    obtain ⟨hlen, ht⟩ := hmore a t hs
    rw [hs] at hr
    rw [Ending.of_many_turn hs hlen]
    exact .many_turn hr hlen ht
  | declined e =>
    rw [hs] at hr
    rw [many_nil ⟨e, hs⟩]
    exact .many_end hr
  | failed e =>
    rw [hs] at hr
    have hfailed : ∀ e', Stop.failed e ≠ .declined e' := fun e' h => by cases h
    rw [Ending.of_many_stopped (congrArg Ending.of hs).symm hfailed]
    exact .many_stopped hr hfailed

/-- A rule has a run if the phrases that it calls have one: the near phrases on the text itself, and
all phrases on shorter text. -/
theorem Guarded.completes (h : r.Guarded near) (hnear : ∀ k, near k → (call k).Completes s)
    (hshort : ∀ k t, t.length < s.length → (call k).Completes t) : r.Completes s := by
  induction r generalizing near s with
  | token k p takes => exact .token s
  | pure a => exact .pure a s
  | bind r f ih ih' =>
    obtain ⟨hr, hf⟩ := h
    refine (ih hr hnear hshort).bind fun a t hs => ?_
    obtain ⟨hsuffix, hlen⟩ := hr.leaves hs
    refine ih' a (hf a) ?_ fun k u hu => hshort k u (by omega)
    rintro k (hadvances | hk)
    · exact hshort k t (hr.shorter hadvances hs)
    -- where nothing has been taken up the text is still the same
    · obtain hlt | heq := Nat.lt_or_eq_of_le hlen
      · exact hshort k t hlt
      · exact hsuffix.eq_of_length heq ▸ hnear k hk
  | orElse r q ih ih' => exact (ih h.1 hnear hshort).orElse (ih' h.2 hnear hshort)
  | commit r ih => exact (ih h hnear hshort).commit
  | optional r ih => exact (ih h hnear hshort).optional
  | accept cause g r ih => exact (ih h.2 hnear hshort).accept
  | many r ih =>
    obtain ⟨hr, hadvances⟩ := h
    -- every turn takes up text, so the turns are an induction on its length
    induction hlen : s.length using Nat.strongRecOn generalizing s with
    | _ l ihl =>
      refine (ih hr hnear hshort).many fun a t hs => ?_
      have hlt := hr.shorter hadvances hs
      exact ⟨hlt, ihl t.length (by omega) (fun k _ => hshort k t hlt)
        (fun k u hu => hshort k u (by omega)) rfl⟩
  | call k => exact hnear k h

end Rule

end ShaderTree
