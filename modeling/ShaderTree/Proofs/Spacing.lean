import ShaderTree.Proofs.AcceptedText

namespace ShaderTree

namespace Parser

theorem solid_of_excludes {isIn : Char → Bool} (hclass : ExcludesBlank isIn) {c : Char}
    {s : List Char} (hc : isIn c = true) : Solid (c :: s) := by
  refine solid_cons (Bool.eq_false_iff.mpr fun hblank => ?_)
  rw [hclass c hblank] at hc
  cases hc

theorem excludesBlank_opensTerm : ExcludesBlank opensTerm := excludesBlank_of_all (by decide)

theorem Filler.mayFollow {w r r' : List Char} (hw : Filler w) (h : MayFollow r r') :
    MayFollow r (w ++ r') := by
  intro c hc
  cases w with
  | nil => exact h c hc
  | cons d w => exact Or.inl (hw.head hc)

end Parser

theorem Word.solid_text (w : Word) : Parser.Solid w.text.toList := by
  cases w with
  | basic b => cases b <;> exact Parser.solid_cons rfl
  | direction d => cases d <;> exact Parser.solid_cons rfl
  | _ => exact Parser.solid_cons rfl

theorem IsNumeral.solid {ds : List Char} {n : Nat} (h : IsNumeral ds n) : Parser.Solid ds := by
  obtain ⟨d, ds, rfl⟩ := List.exists_cons_of_ne_nil h.ne_nil
  exact Parser.solid_of_excludes Parser.excludesBlank_isDigit (h.isDigit d List.mem_cons_self)

theorem Token.Spells.solid {tok : Token} {cs : List Char} (h : tok.Spells cs) :
    Parser.Solid cs := by
  cases tok with
  | word w =>
    obtain rfl : cs = w.text.toList := h
    exact w.solid_text
  | operator op =>
    obtain rfl : cs = op.name.toList := h
    cases op <;> exact Parser.solid_cons rfl
  | name text =>
    obtain ⟨rfl, -⟩ := h
    exact Parser.solid_cons rfl
  | var v =>
    obtain ⟨ds, rfl, -⟩ := h
    exact Parser.solid_cons rfl
  | bound i =>
    obtain ⟨ds, n, hds, ⟨rfl, -⟩ | ⟨rfl, -⟩⟩ := h
    · exact hds.solid
    · exact Parser.solid_cons rfl
  | literal x =>
    obtain ⟨c, t, rfl, hc, -⟩ | hword | hword := Parser.literal_begins h
    · exact Parser.solid_of_excludes Parser.excludesBlank_opensTerm hc
    · obtain ⟨c, t, rfl, hc⟩ := hword.isAlpha (Or.inl rfl)
      exact Parser.solid_of_excludes Parser.excludesBlank_isAlpha hc
    · obtain ⟨c, t, rfl, hc⟩ := hword.isAlpha (Or.inr rfl)
      exact Parser.solid_of_excludes Parser.excludesBlank_isAlpha hc

/-- The second text is the first one with blank put behind the tokens. A piece of the text is a
token with the blank in front of it. -/
inductive Spaced : List Token → List Char → List Char → Prop
  | nil {s : List Char} : Spaced [] s s
  | cons {tok : Token} {toks : List Token} {p s w t : List Char}
      (hread : tok.ReadTo (skipBlank (p ++ s)) s) (hw : Parser.Filler w)
      (ht : Spaced toks s t) : Spaced (tok :: toks) (p ++ s) (p ++ (w ++ t))

theorem Spaced.mayFollow {toks : List Token} {s t : List Char} (h : Spaced toks s t) :
    Parser.MayFollow s t := by
  induction h with
  | nil => exact fun c hc => Or.inr hc
  | cons _ hw _ ih => exact (hw.mayFollow ih).append _

theorem Token.ReadTo.spaced {tok : Token} {piece s t : List Char}
    (h : tok.ReadTo (skipBlank (piece ++ s)) s) (ht : Parser.MayFollow s t) :
    tok.ReadTo (skipBlank (piece ++ t)) t := by
  obtain ⟨b, hb, hblank⟩ := Parser.exists_blank (piece ++ s)
  obtain ⟨cs, hcs, hspells⟩ := h.spells
  have hsolid {u : List Char} : Parser.Solid (cs ++ u) := hspells.solid.append
  rw [hcs] at h hb hblank
  rw [← List.append_assoc, List.append_cancel_right_eq] at hb
  have hskip : skipBlank (piece ++ t) = cs ++ t := by
    rw [hb, List.append_assoc, (hblank.replace hsolid).skipBlank_eq, hsolid.skipBlank_eq]
  rw [hskip]
  exact h.replace ht

theorem Reads.spaced {toks : List Token} {s t r w : List Char} (h : Reads toks s r)
    (hend : skipBlank r = []) (ht : Spaced toks s t) (hw : Parser.Filler w) :
    ∃ r', Reads toks (w ++ t) r' ∧ skipBlank r' = [] := by
  induction ht generalizing w with
  | nil =>
    obtain rfl := h
    exact ⟨_, rfl, (hw.blank _).skipBlank_eq.trans hend⟩
  | cons hread hv ht ih =>
    obtain ⟨m, hm, hmore⟩ := h
    obtain rfl := hread.unique hm
    obtain ⟨r', hr', hend'⟩ := ih hmore hv
    refine ⟨r', ⟨_, ?_, hr'⟩, hend'⟩
    rw [(hw.blank _).skipBlank_eq]
    exact hread.spaced (hv.mayFollow ht.mayFollow)

/-- A text that is read splits into the pieces of its tokens. -/
theorem Reads.spaced_self {toks : List Token} {s r : List Char} (h : Reads toks s r) :
    Spaced toks s s := by
  induction toks generalizing s with
  | nil => exact .nil
  | cons tok toks ih =>
    obtain ⟨m, hm, hmore⟩ := h
    obtain ⟨piece, rfl⟩ := hm.suffix.trans (Parser.skipBlank_suffix s)
    exact .cons hm .nil (ih hmore)

/-- An accepted text splits into the pieces of its tokens, and blank that is put in front of the
text and behind any of its tokens does not change what the text is read as. -/
theorem spacing_insignificant :
    (∀ (text : String) (p : Program), Program.parse text = .ok p →
      Spaced p.tokens text.toList text.toList ∧
        ∀ w t, Parser.Filler w → Spaced p.tokens text.toList t →
          Program.parse (String.ofList (w ++ t)) = .ok p) ∧
      ∀ (text : String) (f : Func), Func.parse text = .ok f →
        Spaced f.tokens text.toList text.toList ∧
          ∀ w t, Parser.Filler w → Spaced f.tokens text.toList t →
            Func.parse (String.ofList (w ++ t)) = .ok f := by
  refine ⟨fun text p h => ?_, fun text f h => ?_⟩
  · obtain ⟨r, hread, hend⟩ := Program.parse_eq_ok_iff.mp h
    refine ⟨hread.spaced_self, fun w t hw ht => ?_⟩
    rw [Program.parse_eq_ok_iff, String.toList_ofList]
    exact hread.spaced hend ht hw
  · obtain ⟨r, hread, hend⟩ := Func.parse_eq_ok_iff.mp h
    refine ⟨hread.spaced_self, fun w t hw ht => ?_⟩
    rw [Func.parse_eq_ok_iff, String.toList_ofList]
    exact hread.spaced hend ht hw

def Program.airyText : String := "program\x7b;one\nuniform;\x7d\r\nvec2\t\x7d;\r\n"

theorem Program.brief_airy : Spaced brief.tokens briefText.toList airyText.toList := by
  have htokens : brief.tokens =
    [.word .program, .word .openBrace, .word .uniform, .word (.basic .vec2), .word .closeBrace] :=
    rfl
  have hline : ∀ c ∈ ['o', 'n', 'e'], isLineEnd c = false := by
    simp only [List.forall_mem_cons]
    exact ⟨rfl, rfl, rfl, nofun⟩
  have hone : Parser.Filler [';', 'o', 'n', 'e', '\n'] :=
    @Parser.Filler.comment ['o', 'n', 'e'] _ [] hline (Or.inl rfl) .nil
  have htab : Parser.Filler ['\t'] := .spacing rfl .nil
  have hend : Parser.Filler [';', '\r', '\n'] :=
    @Parser.Filler.comment [] _ [] nofun (Or.inr rfl) .nil
  rw [htokens]
  simp only [briefText, airyText, String.reduceToList]
  refine .cons (p := ['p', 'r', 'o', 'g', 'r', 'a', 'm']) ?_ .nil ?_
  · simp [Token.ReadTo, Word.text, skipBlank, isSpacing]
  refine .cons (p := ['{']) ?_ hone ?_
  · simp [Token.ReadTo, Word.text, skipBlank, isSpacing]
  refine .cons (p := ['u', 'n', 'i', 'f', 'o', 'r', 'm']) ?_ .nil ?_
  · simp [Token.ReadTo, Word.text, skipBlank, isSpacing]
  refine .cons (p := [';', '}', '\r', '\n', 'v', 'e', 'c', '2']) ?_ htab ?_
  · simp [Token.ReadTo, Word.text, BasicTy.token, skipBlank, isSpacing, afterComment?, isLineEnd,
      startsWithLoneReturn]
  refine .cons (p := ['}']) ?_ hend .nil
  simp [Token.ReadTo, Word.text, skipBlank, isSpacing]

theorem brief_text_spaced :
    Program.parse (String.ofList (' ' :: Program.airyText.toList)) = .ok Program.brief ∧
      Func.parse (String.ofList ('\n' :: Func.briefText.toList)) = .ok Func.brief := by
  obtain ⟨-, hprogram⟩ := spacing_insignificant.1 _ _ Program.brief_parse
  obtain ⟨hself, hfunc⟩ := spacing_insignificant.2 _ _ Func.brief_parse
  exact ⟨hprogram [' '] _ (.spacing rfl .nil) Program.brief_airy,
    hfunc ['\n'] _ (.spacing rfl .nil) hself⟩

end ShaderTree
