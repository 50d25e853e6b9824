import ShaderTree.Proofs.Reading

namespace ShaderTree

namespace Parser

/-- A line ends here. A carriage return alone ends no line. -/
def EndsLine (s : List Char) : Prop :=
  s = [] ∨ (∃ t, s = '\n' :: t) ∨ ∃ t, s = '\r' :: '\n' :: t

/-- The first text is blank where the second one follows. -/
inductive Blank : List Char → List Char → Prop
  | nil {r : List Char} : Blank [] r
  | spacing {c : Char} {b r : List Char} (hc : isSpacing c = true) (hb : Blank b r) :
      Blank (c :: b) r
  | comment {cs b r : List Char} (hcs : ∀ c ∈ cs, isLineEnd c = false) (hend : EndsLine (b ++ r))
      (hb : Blank b r) : Blank (';' :: (cs ++ b)) r

variable {s r : List Char}

theorem isSpacing_of_isLineEnd {c : Char} (h : isLineEnd c = true) : isSpacing c = true := by
  obtain h | h := Bool.or_eq_true_iff.mp h <;> simp [isSpacing, beq_iff_eq.mp h]

theorem endsLine_iff : EndsLine s ↔ Ends (!isLineEnd ·) s ∧ startsWithLoneReturn s = false := by
  constructor
  · rintro (rfl | ⟨t, rfl⟩ | ⟨t, rfl⟩)
    · exact ⟨nofun, rfl⟩
    · exact ⟨ends_cons rfl, rfl⟩
    · exact ⟨ends_cons rfl, rfl⟩
  · rintro ⟨hend, hlone⟩
    cases s with
    | nil => exact Or.inl rfl
    | cons c t =>
      have hc : isLineEnd c = true := by simpa using hend c rfl
      obtain hc | hc := Bool.or_eq_true_iff.mp hc
      · obtain rfl := beq_iff_eq.mp hc
        cases t with
        | nil => simp [startsWithLoneReturn] at hlone
        | cons d t =>
          by_cases hd : d = '\n'
          · exact Or.inr (Or.inr ⟨t, by rw [hd]⟩)
          · have hret : startsWithLoneReturn ('\r' :: d :: t) = true := by
              simp [startsWithLoneReturn, hd]
            rw [hret] at hlone
            cases hlone
      · exact Or.inr (Or.inl ⟨t, by rw [beq_iff_eq.mp hc]⟩)

theorem ends_dropWhile (isIn : Char → Bool) (s : List Char) : Ends isIn (s.dropWhile isIn) := by
  intro c hc
  have hnot := List.head?_dropWhile_not isIn s
  rw [hc] at hnot
  exact hnot

theorem dropWhile_of_ends {isIn : Char → Bool} {word : List Char}
    (hall : ∀ c ∈ word, isIn c = true) (hr : Ends isIn r) : (word ++ r).dropWhile isIn = r := by
  rw [List.dropWhile_append_of_pos hall]
  cases r with
  | nil => rfl
  | cons c r => simp [hr c rfl]

theorem afterComment?_eq_some_iff : afterComment? s = some r ↔
    ∃ cs, s = cs ++ r ∧ (∀ c ∈ cs, isLineEnd c = false) ∧ EndsLine r := by
  rw [afterComment?]
  constructor
  · intro h
    split at h
    · cases h
    · next hlone =>
      cases h
      have hline : ∀ c ∈ s.takeWhile (!isLineEnd ·), (!isLineEnd c) = true :=
        List.all_eq_true.mp List.all_takeWhile
      refine ⟨s.takeWhile (!isLineEnd ·), List.takeWhile_append_dropWhile.symm, fun c hc => ?_, ?_⟩
      · simpa using hline c hc
      · exact endsLine_iff.mpr ⟨ends_dropWhile _ s, Bool.eq_false_iff.mpr hlone⟩
  · rintro ⟨cs, rfl, hcs, hr⟩
    have hdrop : (cs ++ r).dropWhile (!isLineEnd ·) = r :=
      dropWhile_of_ends (fun c hc => by simp [hcs c hc]) (endsLine_iff.mp hr).1
    rw [hdrop, (endsLine_iff.mp hr).2]
    rfl

theorem skipBlank_comment {cs : List Char} (hcs : ∀ c ∈ cs, isLineEnd c = false)
    (hs : EndsLine s) : skipBlank (';' :: (cs ++ s)) = skipBlank s := by
  have hafter := afterComment?_eq_some_iff.mpr ⟨cs, rfl, hcs, hs⟩
  rw [skipBlank.eq_def]
  simp only [show isSpacing ';' = false from rfl, Bool.false_eq_true, ↓reduceIte]
  split
  · next rest hrest =>
    rw [hafter] at hrest
    cases hrest
    rfl
  · next hnone =>
    rw [hafter] at hnone
    cases hnone

/-- What is skipped is blank. -/
theorem exists_blank (s : List Char) : ∃ b, s = b ++ skipBlank s ∧ Blank b (skipBlank s) := by
  fun_induction skipBlank s with
  | case1 => exact ⟨[], rfl, .nil⟩
  | case2 c cs hc ih =>
    obtain ⟨b, hcs, hb⟩ := ih
    exact ⟨c :: b, congrArg (c :: ·) hcs, .spacing hc hb⟩
  | case3 cs rest hrest hc ih =>
    obtain ⟨comment, rfl, hcomment, hend⟩ := afterComment?_eq_some_iff.mp hrest
    obtain ⟨b, heq, hb⟩ := ih
    rw [heq] at hend
    refine ⟨';' :: (comment ++ b), ?_, .comment hcomment hend hb⟩
    rw [List.cons_append, List.append_assoc, ← heq]
  | case4 cs hnone hc => exact ⟨[], rfl, .nil⟩
  | case5 c cs hc hsemi => exact ⟨[], rfl, .nil⟩

/-- Blank is skipped. -/
theorem Blank.skipBlank_eq {b : List Char} (hb : Blank b r) :
    skipBlank (b ++ r) = skipBlank r := by
  induction hb with
  | nil => rfl
  | spacing hc _ ih => rw [List.cons_append, skipBlank_spacing hc, ih]
  | comment hcs hend _ ih =>
    rw [List.cons_append, List.append_assoc, skipBlank_comment hcs hend, ih]

theorem Blank.of_spacing {b : List Char} (hb : ∀ c ∈ b, isSpacing c = true) : Blank b r := by
  induction b with
  | nil => exact .nil
  | cons c b ih => exact .spacing (hb c List.mem_cons_self) (ih fun d hd => hb d (.tail c hd))

theorem skipBlank_skipBlank (s : List Char) : skipBlank (skipBlank s) = skipBlank s := by
  obtain ⟨b, hs, hb⟩ := exists_blank s
  have hskip := hb.skipBlank_eq
  rw [← hs] at hskip
  exact hskip.symm

theorem Solid.ne_lineEnd {c : Char} (h : Solid s) (hc : isLineEnd c = true) (t : List Char) :
    s ≠ c :: t := by
  rintro rfl
  obtain ⟨d, hd, hsolid⟩ := h
  cases hd
  rw [isBlankStart, isSpacing_of_isLineEnd hc] at hsolid
  cases hsolid

theorem EndsLine.replace {b r' : List Char} (h : EndsLine (b ++ r)) (hr : Solid r) :
    EndsLine (b ++ r') := by
  cases b with
  | nil =>
    obtain h | ⟨t, h⟩ | ⟨t, h⟩ := h
    · exact absurd h hr.ne_nil
    · exact absurd h (hr.ne_lineEnd rfl t)
    · exact absurd h (hr.ne_lineEnd rfl _)
  | cons c b =>
    obtain h | ⟨t, h⟩ | ⟨t, h⟩ := h
    · cases h
    · cases h
      exact Or.inr (Or.inl ⟨_, rfl⟩)
    · obtain ⟨rfl, hreturn⟩ := List.cons.inj h
      cases b with
      | nil => exact absurd hreturn (hr.ne_lineEnd rfl t)
      | cons d b =>
        cases hreturn
        exact Or.inr (Or.inr ⟨_, rfl⟩)

/-- Blank in front of one word is blank in front of another. -/
theorem Blank.replace {b r' : List Char} (hb : Blank b r) (hr : Solid r) : Blank b r' := by
  induction hb with
  | nil => exact .nil
  | spacing hc _ ih => exact .spacing hc (ih hr)
  | comment hcs hend _ ih => exact .comment hcs (hend.replace hr) (ih hr)

/-- Blank that can be put anywhere behind a word: every comment ends with its line. -/
inductive Filler : List Char → Prop
  | nil : Filler []
  | spacing {c : Char} {w : List Char} (hc : isSpacing c = true) (hw : Filler w) : Filler (c :: w)
  | comment {cs lineEnd w : List Char} (hcs : ∀ c ∈ cs, isLineEnd c = false)
      (hend : lineEnd = ['\n'] ∨ lineEnd = ['\r', '\n']) (hw : Filler w) :
      Filler (';' :: (cs ++ lineEnd ++ w))

theorem Filler.blank {w : List Char} (hw : Filler w) (r : List Char) : Blank w r := by
  induction hw with
  | nil => exact .nil
  | spacing hc _ ih => exact .spacing hc ih
  | @comment cs lineEnd w hcs hend _ ih =>
    rw [List.append_assoc]
    obtain rfl | rfl := hend
    · exact .comment hcs (Or.inr (Or.inl ⟨_, rfl⟩)) (.spacing rfl ih)
    · exact .comment hcs (Or.inr (Or.inr ⟨_, rfl⟩)) (.spacing rfl (.spacing rfl ih))

theorem Filler.head {w : List Char} (hw : Filler w) {c : Char} (hc : w.head? = some c) :
    isBlankStart c = true := by
  cases hw with
  | nil => cases hc
  | spacing hspacing _ => cases hc; exact Bool.or_eq_true_iff.mpr (Or.inl hspacing)
  | comment _ _ _ => cases hc; rfl

end Parser

end ShaderTree
