import Mathlib.Data.List.Forall2
import ShaderTree.Proofs.ErrorPlace

namespace ShaderTree

variable {toks : List Token} {s t r x : List Char}

namespace Parser

variable {b cs b' : List Char}

theorem comment_before_newline (hcs : ∀ c ∈ cs, isLineEnd c = false)
    (h : b ++ '\n' :: s = cs ++ b') : ∃ w, b = cs ++ w ∧ b' = w ++ '\n' :: s := by
  obtain ⟨w, rfl, hw⟩ | h := List.append_eq_append_iff.mp h
  · cases w with
    | nil => exact ⟨[], by simp, hw.symm⟩
    | cons c w =>
      obtain ⟨rfl, -⟩ := List.cons.inj hw
      cases hcs '\n' (List.mem_append_right _ List.mem_cons_self)
  · exact h

theorem Blank.behind_newline (hb : Blank (b ++ '\n' :: s) r) : Blank s r := by
  generalize htext : b ++ '\n' :: s = text at hb
  induction hb generalizing b with
  | nil => simp at htext
  | spacing _ hb ih =>
    cases b with
    | nil =>
      cases htext
      exact hb
    | cons d b => exact ih (List.cons.inj htext).2
  | comment hcs _ _ ih =>
    cases b with
    | nil => cases htext
    | cons d b =>
      obtain ⟨w, -, hw⟩ := comment_before_newline hcs (List.cons.inj htext).2
      exact ih hw.symm

/-- Where a line feed ends blank, the end of the text may stand for it, unless a carriage return
comes before it. -/
theorem Blank.without_newline (hb : Blank (b ++ ['\n']) r) (hreturn : b.getLast? ≠ some '\r') :
    Blank b [] := by
  generalize htext : b ++ ['\n'] = text at hb
  induction hb generalizing b with
  | nil => simp at htext
  | spacing hc _ ih =>
    cases b with
    | nil => exact .nil
    | cons d b =>
      obtain ⟨rfl, htail⟩ := List.cons.inj htext
      refine .spacing hc (ih (fun hlast => hreturn ?_) htail)
      rw [List.getLast?_cons, hlast, Option.getD_some]
  | comment hcs hend _ ih =>
    cases b with
    | nil => cases htext
    | cons d b =>
      obtain ⟨rfl, htail⟩ := List.cons.inj htext
      obtain ⟨w, rfl, rfl⟩ := comment_before_newline hcs htail
      have hw : w.getLast? ≠ some '\r' := fun hlast =>
        hreturn (by rw [List.getLast?_cons, List.getLast?_append, hlast]; rfl)
      refine .comment hcs ?_ (ih hw rfl)
      obtain h | ⟨u, h⟩ | ⟨u, h⟩ := hend
      · simp at h
      · cases w with
        | nil => exact Or.inl rfl
        | cons c w =>
          cases h
          exact Or.inr (Or.inl ⟨_, rfl⟩)
      · cases w with
        | nil => cases h
        | cons c w =>
          obtain ⟨rfl, h⟩ := List.cons.inj h
          cases w with
          | nil => exact absurd rfl hw
          | cons d w =>
            cases h
            exact Or.inr (Or.inr ⟨_, rfl⟩)

end Parser

theorem Reads.before_newline (h : Reads toks t r) (hr : skipBlank r = []) (x : List Char) :
    ∃ m, Reads toks (t ++ '\n' :: x) m ∧ skipBlank m = skipBlank x := by
  obtain ⟨u, rfl⟩ := h.suffix
  obtain ⟨b, hb, hblank⟩ := Parser.exists_blank r
  rw [hr] at hb hblank
  rw [List.append_nil] at hb
  subst hb
  have hnil : Parser.Ends isSpacing [] := nofun
  have hfollow : Parser.MayFollow r (r ++ '\n' :: x) := by
    cases r with
    | nil => exact fun c hc => Or.inl (by cases hc; rfl)
    | cons c r => exact fun d hd => Or.inr hd
  refine ⟨r ++ '\n' :: x, ?_, ?_⟩
  · rw [List.append_assoc]
    exact h.replace hfollow
  · rw [(hblank.newline hnil).skipBlank_eq, Parser.skipBlank_newline]

theorem Reads.of_skipBlank (h : Reads toks s r) (hne : toks ≠ []) (ht : skipBlank s = skipBlank t) :
    Reads toks t r := by
  cases toks with
  | nil => exact absurd rfl hne
  | cons tok toks =>
    obtain ⟨m, hm, hmore⟩ := h
    exact ⟨m, ht ▸ hm, hmore⟩

theorem Reads.getLast?_ne {c : Char} (h : Reads toks (s ++ r) r) (hs : s.getLast? = some c) :
    Text.isWhiteSpace c = false := by
  obtain rfl | ⟨toks, tok, rfl⟩ := List.eq_nil_or_concat toks
  · obtain rfl := List.append_left_eq_self.mp h
    cases hs
  rw [List.concat_eq_append] at h
  obtain ⟨front, b, cs, rfl, hspells, -, -, -⟩ := h.exists_last
  have hlast := List.getLast?_eq_some_getLast hspells.solid.ne_nil
  rw [← List.append_assoc, List.getLast?_append, hlast, Option.some_or, Option.some_inj] at hs
  have hvisible := hspells.visible c (hs ▸ List.getLast_mem hspells.solid.ne_nil)
  simpa using (Bool.and_eq_true_iff.mp hvisible).1

/-- Tokens that are read between two line ends are read when the text is what stands there. -/
theorem Reads.between_newlines (h : Reads toks ('\n' :: (t ++ '\n' :: x)) r) (hne : toks ≠ [])
    (hr : skipBlank r = x) (hreturn : t.getLast? ≠ some '\r') :
    ∃ m, Reads toks t m ∧ skipBlank m = [] := by
  obtain ⟨u, hu⟩ := h.suffix
  obtain ⟨b, hb, hblank⟩ := Parser.exists_blank r
  rw [hr] at hb hblank
  subst hb
  have hparts : u ++ b = '\n' :: (t ++ ['\n']) := by
    have htext : u ++ b ++ x = '\n' :: (t ++ ['\n']) ++ x := by simpa using hu
    exact List.append_cancel_right htext
  rw [← hu] at h
  have hu_ne : u ≠ [] := fun hnil => by
    have hlength := h.length_lt hne
    simp [hnil] at hlength
  obtain rfl | ⟨b, c, rfl⟩ := List.eq_nil_or_concat b
  · -- the last token would end with the second line end
    rw [List.append_nil] at hparts
    have hlast : u.getLast? = some '\n' := by
      rw [hparts, ← List.cons_append, List.getLast?_concat]
    cases h.getLast?_ne hlast
  rw [List.concat_eq_append] at hparts hblank h
  obtain ⟨d, u, rfl⟩ := List.exists_cons_of_ne_nil hu_ne
  rw [← List.append_assoc, ← List.cons_append, List.append_singleton_inj, List.cons_append,
    List.cons.injEq] at hparts
  obtain ⟨⟨rfl, rfl⟩, rfl⟩ := hparts
  have hb : b.getLast? ≠ some '\r' := fun hlast => hreturn (by
    rw [List.getLast?_append, hlast, Option.some_or])
  have hfollow : Parser.MayFollow (b ++ ['\n'] ++ x) b := by
    cases b with
    | nil => exact Parser.mayFollow_nil
    | cons e b => exact fun _ he => Or.inr he
  refine ⟨b, (h.replace hfollow).of_skipBlank hne Parser.skipBlank_newline, ?_⟩
  have hskip := (hblank.without_newline hb).skipBlank_eq
  rwa [List.append_nil, Parser.skipBlank_nil] at hskip

theorem Func.tokens_ne_nil (f : Func) : f.tokens ≠ [] := nofun

/-- The text of a program around texts that stand on lines of their own. -/
def inProgram (texts : List String) : String :=
  "program \x7b\n" ++ String.join (texts.map (· ++ "\n")) ++ "\x7d"

theorem toList_inProgram (texts : List String) : (inProgram texts).toList =
    "program \x7b".toList ++ '\n' :: (texts.flatMap (·.toList ++ ['\n']) ++ ['\x7d']) := by
  have hfeed : "\n".toList = ['\n'] := rfl
  have hjoin : (String.join (texts.map (· ++ "\n"))).toList =
      texts.flatMap (·.toList ++ ['\n']) := by
    induction texts with
    | nil => rfl
    | cons text texts ih =>
      rw [List.map_cons, String.join_cons, String.toList_append, String.toList_append, hfeed, ih,
        List.flatMap_cons]
  rw [inProgram, String.toList_append, String.toList_append, hjoin]
  rfl

/-- The functions of the texts are read one behind the other, up to the brace. -/
theorem reads_funcs {texts : List String} {fs : List Func}
    (h : List.Forall₂ (fun text f => Func.parse text = .ok f) texts fs)
    (hs : skipBlank s = skipBlank (texts.flatMap (·.toList ++ ['\n']) ++ '\x7d' :: r)) :
    Reads (fs.flatMap Func.tokens ++ [.word .closeBrace]) s r := by
  induction h generalizing s with
  | nil =>
    have hbrace : Parser.Solid ('\x7d' :: r) := Parser.solid_cons rfl
    exact ⟨r, hs.trans hbrace.skipBlank_eq, rfl⟩
  | @cons text f texts fs hf _ ih =>
    obtain ⟨m, hread, hend⟩ := Func.parse_eq_ok_iff.mp hf
    obtain ⟨k, hk, hskip⟩ :=
      hread.before_newline hend (texts.flatMap (·.toList ++ ['\n']) ++ '\x7d' :: r)
    rw [List.flatMap_cons, List.append_assoc]
    simp only [List.flatMap_cons, List.append_assoc, List.singleton_append] at hs
    exact reads_append.mpr ⟨k, hk.of_skipBlank f.tokens_ne_nil hs.symm, ih hskip⟩

theorem parse_inProgram_iff {texts : List String} {fs : List Func} :
    Program.parse (inProgram texts) = .ok { funcs := fs } ↔
      ∃ r, Reads (fs.flatMap Func.tokens ++ [.word .closeBrace])
        ('\n' :: (texts.flatMap (·.toList ++ ['\n']) ++ ['\x7d'])) r ∧ skipBlank r = [] := by
  have htokens : ({ funcs := fs } : Program).tokens =
      .word .program :: .word .openBrace :: (fs.flatMap Func.tokens ++ [.word .closeBrace]) := by
    simp [Program.tokens, declTokens]
  have hfirst {u : List Char} :
      skipBlank ("program \x7b".toList ++ u) = "program".toList ++ ' ' :: '\x7b' :: u :=
    Parser.Solid.skipBlank_eq (Parser.solid_cons rfl)
  have hbrace {u : List Char} : skipBlank (' ' :: '\x7b' :: u) = '\x7b' :: u :=
    Parser.Solid.skipBlank_space (Parser.solid_cons rfl)
  rw [Program.parse_eq_ok_iff, toList_inProgram, htokens]
  constructor
  · rintro ⟨r, ⟨m, hm, n, hn, hread⟩, hend⟩
    obtain rfl := List.append_cancel_left (hfirst.symm.trans hm)
    obtain rfl : _ = n := (List.cons.inj (hbrace.symm.trans hn)).2
    exact ⟨r, hread, hend⟩
  · rintro ⟨r, hread, hend⟩
    exact ⟨r, ⟨_, hfirst, _, hbrace, hread⟩, hend⟩

theorem eq_nil_of_skipBlank (hsuffix : r <:+ s ++ ['\n', '\x7d']) (hr : skipBlank r = []) :
    r = [] := by
  have hbrace : ¬Parser.Blank ['\x7d'] [] := by
    rintro (_ | ⟨hc, -⟩)
    cases hc
  obtain ⟨b, hb, hblank⟩ := Parser.exists_blank r
  rw [hr] at hb hblank
  obtain rfl : r = b := by rw [hb, List.append_nil]
  obtain hin | ⟨w, rfl⟩ :=
    List.suffix_or_suffix_of_suffix hsuffix (List.suffix_append s ['\n', '\x7d'])
  · obtain rfl | hin := List.suffix_cons_iff.mp hin
    · exact absurd (hblank.behind_newline (b := [])) hbrace
    · obtain rfl | hin := List.suffix_cons_iff.mp hin
      · exact absurd hblank hbrace
      · exact List.suffix_nil.mp hin
  · exact absurd hblank.behind_newline hbrace

/-- Texts of functions, put on lines of their own between the braces of a program, are read as the
program of the functions; and a text that is read there as one function is read so by itself, unless
it ends with a carriage return. -/
theorem funcs_read_alone_and_inside :
    (∀ texts fs, List.Forall₂ (fun text f => Func.parse text = .ok f) texts fs →
      Program.parse (inProgram texts) = .ok { funcs := fs }) ∧
    ∀ (text : String) (f : Func), text.toList.getLast? ≠ some '\r' →
      Program.parse (inProgram [text]) = .ok { funcs := [f] } → Func.parse text = .ok f := by
  refine ⟨fun texts fs h => ?_, fun text f hreturn h => ?_⟩
  · exact parse_inProgram_iff.mpr ⟨[], reads_funcs h Parser.skipBlank_newline, Parser.skipBlank_nil⟩
  · obtain ⟨r, hread, hend⟩ := parse_inProgram_iff.mp h
    simp only [List.flatMap_singleton, List.append_assoc, List.singleton_append] at hread
    obtain ⟨k, hk, m, hbrace, hm⟩ := reads_append.mp hread
    obtain rfl : m = r := hm
    obtain rfl : m = [] := by
      have hsuffix := (List.suffix_cons '\x7d' m).trans (hbrace ▸ Parser.skipBlank_suffix k)
      exact eq_nil_of_skipBlank (s := '\n' :: text.toList) (hsuffix.trans hk.suffix) hend
    exact Func.parse_eq_ok_iff.mpr (hk.between_newlines f.tokens_ne_nil hbrace hreturn)

theorem brief_funcs_inside :
    Program.parse (inProgram [Func.briefText, Func.briefText]) =
      .ok { funcs := [Func.brief, Func.brief] } ∧ Func.parse Func.briefText = .ok Func.brief := by
  have hbrief := Func.brief_parse
  refine ⟨funcs_read_alone_and_inside.1 _ _ (.cons hbrief (.cons hbrief .nil)), ?_⟩
  exact funcs_read_alone_and_inside.2 _ _ (by decide)
    (funcs_read_alone_and_inside.1 _ _ (.cons hbrief .nil))

end ShaderTree
