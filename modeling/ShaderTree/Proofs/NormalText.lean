import ShaderTree.Proofs.LineText
import ShaderTree.Proofs.TokenText

namespace ShaderTree

open ShaderTree.Parser (isBlankStart EndsLine)

variable {c : Char} {s t r : List Char} {ls : List (List Char)} {toks : List Token} {tok : Token}

theorem isVisible_eq_true_iff : isVisible c = true ↔ Text.isWhiteSpace c = false ∧ c ≠ ';' := by
  simp [isVisible]

theorem isWhiteSpace_of_isSpacing (h : isSpacing c = true) : Text.isWhiteSpace c = true := by
  simp only [isSpacing, Bool.or_eq_true, beq_iff_eq] at h
  obtain ((rfl | rfl) | rfl) | rfl := h <;> rfl

theorem isBlankStart_of_isVisible (h : isVisible c = true) : isBlankStart c = false := by
  obtain ⟨hspace, hsemi⟩ := isVisible_eq_true_iff.mp h
  refine Bool.or_eq_false_iff.mpr ⟨Bool.eq_false_iff.mpr fun hspacing => ?_,
    beq_eq_false_iff_ne.mpr hsemi⟩
  cases hspace.symm.trans (isWhiteSpace_of_isSpacing hspacing)

def BeginsBlank (s : List Char) : Prop := ∀ c, s.head? = some c → isBlankStart c = true

/-- The two texts are the same but for blank. Where the first one has blank the second one has some
too, unless it ends there. -/
inductive Respaced : List Char → List Char → Prop
  | nil : Respaced [] []
  | ink {c : Char} {s t : List Char} (hc : isBlankStart c = false) (h : Respaced s t) :
      Respaced (c :: s) (c :: t)
  | gap {c : Char} {s t : List Char} (hc : isBlankStart c = true) (ht : BeginsBlank t)
      (h : Respaced (skipBlank (c :: s)) (skipBlank t)) : Respaced (c :: s) t

theorem Respaced.skipBlank (h : Respaced s t) : Respaced (skipBlank s) (skipBlank t) := by
  cases h with
  | nil =>
    rw [Parser.skipBlank_nil]
    exact .nil
  | ink hc h =>
    rw [(Parser.solid_cons hc).skipBlank_eq, (Parser.solid_cons hc).skipBlank_eq]
    exact .ink hc h
  | gap _ _ h => exact h

theorem Respaced.mayFollow (h : Respaced s t) : Parser.MayFollow s t := by
  cases h with
  | nil => exact Parser.mayFollow_nil
  | ink _ _ => exact fun _ hc => Or.inr hc
  | gap _ ht _ => exact fun c hc => Or.inl (ht c hc)

theorem Respaced.append {cs : List Char} (hcs : ∀ c ∈ cs, isBlankStart c = false)
    (h : Respaced (cs ++ s) t) : ∃ u, t = cs ++ u ∧ Respaced s u := by
  induction cs generalizing t with
  | nil => exact ⟨t, rfl, h⟩
  | cons c cs ih =>
    obtain ⟨hc, hcs⟩ := List.forall_mem_cons.mp hcs
    cases h with
    | ink _ h =>
      obtain ⟨u, rfl, hu⟩ := ih hcs h
      exact ⟨u, rfl, hu⟩
    | gap hblank _ _ => cases hc.symm.trans hblank

theorem Respaced.readTo {m : List Char} (h : Respaced s t) (htok : tok.ReadTo s m) :
    ∃ u, tok.ReadTo t u ∧ Respaced m u := by
  obtain ⟨cs, rfl, hspells⟩ := htok.spells
  obtain ⟨u, rfl, hu⟩ := h.append fun c hc => isBlankStart_of_isVisible (hspells.visible c hc)
  exact ⟨u, htok.replace hu.mayFollow, hu⟩

/-- Tokens are read of the second text as of the first one. -/
theorem Respaced.reads (h : Respaced (ShaderTree.skipBlank s) (ShaderTree.skipBlank t))
    (hread : Reads toks s r) :
    ∃ u, Reads toks t u ∧ Respaced (ShaderTree.skipBlank r) (ShaderTree.skipBlank u) := by
  induction toks generalizing s t with
  | nil =>
    obtain rfl := hread
    exact ⟨t, rfl, h⟩
  | cons tok toks ih =>
    obtain ⟨m, hm, hmore⟩ := hread
    obtain ⟨v, hv, hrespaced⟩ := h.readTo hm
    obtain ⟨u, hu, hend⟩ := ih hrespaced.skipBlank hmore
    exact ⟨u, ⟨v, hv, hu⟩, hend⟩

inductive Legible : List Char → Prop
  | nil : Legible []
  | spacing {c : Char} {s : List Char} (hc : isSpacing c = true) (hs : Legible s) : Legible (c :: s)
  | comment {cs s : List Char} (hcs : ∀ c ∈ cs, isLineEnd c = false) (hend : EndsLine s)
      (hs : Legible s) : Legible (';' :: (cs ++ s))
  | ink {c : Char} {s : List Char} (hc : isVisible c = true) (hs : Legible s) : Legible (c :: s)

theorem Legible.blank {b : List Char} (hb : Parser.Blank b s) (hs : Legible s) :
    Legible (b ++ s) := by
  induction hb with
  | nil => exact hs
  | spacing hc _ ih => exact .spacing hc (ih hs)
  | comment hcs hend _ ih =>
    rw [List.cons_append, List.append_assoc]
    exact .comment hcs hend (ih hs)

theorem Legible.visible {cs : List Char} (hcs : ∀ c ∈ cs, isVisible c = true) (hs : Legible s) :
    Legible (cs ++ s) := by
  induction cs with
  | nil => exact hs
  | cons c cs ih =>
    obtain ⟨hc, hcs⟩ := List.forall_mem_cons.mp hcs
    exact .ink hc (ih hcs)

theorem Written.legible (h : Written toks s) : Legible s := by
  induction h with
  | nil hb =>
    have hs := Legible.nil.blank hb
    rwa [List.append_nil] at hs
  | cons hb hcs _ ih => exact (ih.visible hcs.visible).blank hb

def normals (ls : List (List Char)) : List (List Char) :=
  (ls.map fun line => Text.trim (codePart line)).filter (!·.isEmpty)

theorem normals_cons (line : List Char) (ls : List (List Char)) : normals (line :: ls) =
    if Text.trim (codePart line) = [] then normals ls
    else Text.trim (codePart line) :: normals ls := by
  rw [normals, List.map_cons, List.filter_cons]
  by_cases h : Text.trim (codePart line) = [] <;> simp [h, normals]

theorem normals_headD (ls : List (List Char)) : normals (ls.headD [] :: ls.tail) = normals ls := by
  cases ls with
  | nil => rfl
  | cons line ls => rfl

def normalText (s : List Char) : List Char := joined (normalLines s)

/-- What the normal lines have of a text, if their line has begun in front of it. -/
def tailText (s : List Char) : List Char :=
  Text.trimEnd (codePart ((Text.lines s).headD [])) ++ continued (normals (Text.lines s).tail)

theorem codePart_cons (hc : c ≠ ';') (s : List Char) : codePart (c :: s) = c :: codePart s := by
  rw [codePart, List.takeWhile_cons_of_pos (by simpa using hc)]
  rfl

theorem codePart_comment (s : List Char) : codePart (';' :: s) = [] :=
  List.takeWhile_cons_of_neg (by decide)

theorem codePart_eq_self (h : ';' ∉ s) : codePart s = s := by
  induction s with
  | nil => rfl
  | cons c s ih =>
    simp only [List.mem_cons, not_or] at h
    rw [codePart_cons (Ne.symm h.1), ih h.2]

theorem normalText_of_lines (h : Text.lines s = ls) : normalText s = joined (normals ls) := by
  rw [normalText, normalLines, h]
  rfl

theorem tailText_of_lines {line : List Char} (h : Text.lines s = line :: ls) :
    tailText s = Text.trimEnd (codePart line) ++ continued (normals ls) := by
  rw [tailText, h]
  rfl

theorem ink_kept (hc : isVisible c = true) (s : List Char) :
    tailText (c :: s) = c :: tailText s ∧ normalText (c :: s) = c :: tailText s := by
  obtain ⟨hspace, hsemi⟩ := isVisible_eq_true_iff.mp hc
  have hlines := Text.lines_cons (c := c) (s := s) (by rintro rfl; cases hspace)
    (by rintro rfl; cases hspace)
  rw [normalText_of_lines hlines, tailText_of_lines hlines, codePart_cons hsemi,
    Text.trimEnd_cons_of_not hspace, normals_cons, codePart_cons hsemi,
    Text.trim_cons_of_not hspace, if_neg (List.cons_ne_nil _ _)]
  exact ⟨rfl, rfl⟩

theorem beginsBlank_continued (ls : List (List Char)) : BeginsBlank (continued ls) := by
  cases ls with
  | nil => exact nofun
  | cons line ls =>
    rintro _ ⟨rfl⟩
    rfl

theorem skipBlank_continued (ls : List (List Char)) :
    skipBlank (continued ls) = skipBlank (joined ls) := by
  cases ls with
  | nil => rfl
  | cons line ls => exact Parser.skipBlank_newline

theorem newline_kept (s : List Char) : tailText ('\n' :: s) = continued (normalLines s) ∧
    normalText ('\n' :: s) = normalText s := by
  rw [tailText_of_lines Text.lines_newline, normalText_of_lines Text.lines_newline, normals_cons]
  exact ⟨rfl, rfl⟩

theorem spacing_kept (hc : isSpacing c = true) (s : List Char) :
    normalText (c :: s) = normalText s ∧ BeginsBlank (tailText (c :: s)) ∧
      (c ≠ '\n' → skipBlank (tailText (c :: s)) = skipBlank (tailText s)) := by
  have hspace := isWhiteSpace_of_isSpacing hc
  by_cases hfeed : c = '\n'
  · subst hfeed
    obtain ⟨htail, hnormal⟩ := newline_kept s
    exact ⟨hnormal, htail ▸ beginsBlank_continued _, fun h => absurd rfl h⟩
  by_cases hreturn : c = '\r' ∧ s.head? = some '\n'
  · obtain ⟨rfl, hs⟩ := hreturn
    obtain ⟨t, rfl⟩ := List.head?_eq_some_iff.mp hs
    have htail : tailText ('\r' :: '\n' :: t) = tailText ('\n' :: t) := by
      rw [tailText, Text.lines_return]
      rfl
    refine ⟨normalText_of_lines Text.lines_return, ?_, fun _ => congrArg _ htail⟩
    rw [htail, (newline_kept t).1]
    exact beginsBlank_continued _
  have hsemi : c ≠ ';' := by
    rintro rfl
    cases hc
  have hlines := Text.lines_cons hfeed fun h hs => hreturn ⟨h, hs⟩
  refine ⟨?_, ?_⟩
  · rw [normalText_of_lines hlines, normals_cons, codePart_cons hsemi, Text.trim_cons hspace,
      ← normals_cons, normals_headD]
    rfl
  rw [tailText_of_lines hlines, codePart_cons hsemi, Text.trimEnd_cons]
  split
  · next hblank =>
    rw [tailText, hblank.2]
    exact ⟨beginsBlank_continued _, fun _ => rfl⟩
  · refine ⟨?_, fun _ => Parser.skipBlank_spacing hc⟩
    rintro _ ⟨rfl⟩
    exact Bool.or_eq_true_iff.mpr (Or.inl hc)

theorem comment_left {cs : List Char} (hcs : ∀ c ∈ cs, isLineEnd c = false) (hs : EndsLine s) :
    normalText (';' :: (cs ++ s)) = normalText s ∧ tailText (';' :: (cs ++ s)) = tailText s ∧
      BeginsBlank (tailText s) := by
  have hline : ∀ c ∈ ';' :: cs, isLineEnd c = false := List.forall_mem_cons.mpr ⟨rfl, hcs⟩
  obtain ⟨hlines, hhead⟩ := Text.lines_append (List.cons_ne_nil ';' cs) hline hs
  have htail : tailText s = continued (normals (Text.lines s).tail) := by
    rw [tailText, hhead]
    rfl
  have hnormal : normalText s = joined (normals (Text.lines s).tail) := by
    rw [normalText_of_lines rfl, ← normals_headD, hhead, normals_cons]
    rfl
  rw [← List.cons_append, normalText_of_lines hlines, tailText_of_lines hlines, normals_cons,
    codePart_comment, htail, hnormal]
  exact ⟨rfl, rfl, beginsBlank_continued _⟩

/-- The normal lines of a legible text are the text but for blank. -/
theorem Legible.respaced (h : Legible s) :
    Respaced s (tailText s) ∧ Respaced (skipBlank s) (skipBlank (normalText s)) := by
  induction h with
  | nil => exact ⟨.nil, Respaced.nil.skipBlank⟩
  | @spacing c s hc _ ih =>
    obtain ⟨hnormal, hblank, htail⟩ := spacing_kept hc s
    have hskip : Respaced (skipBlank (c :: s)) (skipBlank (tailText (c :: s))) := by
      rw [Parser.skipBlank_spacing hc]
      by_cases hfeed : c = '\n'
      · subst hfeed
        rw [(newline_kept s).1, skipBlank_continued]
        exact ih.2
      · rw [htail hfeed]
        exact ih.1.skipBlank
    refine ⟨.gap (Bool.or_eq_true_iff.mpr (Or.inl hc)) hblank hskip, ?_⟩
    rw [Parser.skipBlank_spacing hc, hnormal]
    exact ih.2
  | @comment cs s hcs hend _ ih =>
    obtain ⟨hnormal, htail, hblank⟩ := comment_left hcs hend
    have hskip := Parser.skipBlank_comment hcs hend
    rw [htail, hnormal]
    refine ⟨.gap rfl hblank ?_, ?_⟩
    · rw [hskip]
      exact ih.1.skipBlank
    · rw [hskip]
      exact ih.2
  | @ink c s hc _ ih =>
    obtain ⟨htail, hnormal⟩ := ink_kept hc s
    have hrespaced := Respaced.ink (isBlankStart_of_isVisible hc) ih.1
    rw [htail, hnormal]
    exact ⟨hrespaced, hrespaced.skipBlank⟩

theorem normalize_eq (text : String) :
    ("\n".intercalate (normalize text)).toList = normalText text.toList :=
  toList_joinLines (normalLines text.toList)

/-- Normal lines are not empty, trimmed, and hold neither comments nor line feeds. -/
theorem normalLines_spec (s : List Char) : ∀ line ∈ normalLines s,
    line ≠ [] ∧ Text.trim line = line ∧ ';' ∉ line ∧ '\n' ∉ line := by
  intro line h
  obtain ⟨hmem, hne⟩ := List.mem_filter.mp h
  obtain ⟨l, hl, rfl⟩ := List.mem_map.mp hmem
  refine ⟨by simpa using hne, Text.trim_trim _, fun hsemi => ?_, fun hfeed => ?_⟩
  · have hcode : ∀ c ∈ codePart l, (c != ';') = true := List.all_eq_true.mp List.all_takeWhile
    simpa using hcode _ (Text.mem_of_mem_trim hsemi)
  · have hcode := (List.takeWhile_prefix _).subset (Text.mem_of_mem_trim hfeed)
    exact Text.newline_not_mem_lines s l hl hcode

theorem normalLines_normalText (s : List Char) : normalLines (normalText s) = normalLines s := by
  have hspec := normalLines_spec s
  have hlines : Text.lines (joined (normalLines s)) = normalLines s := by
    refine lines_joined (fun l hl => (hspec l hl).1) (fun l hl => (hspec l hl).2.2.2) ?_
    intro l hl hreturn
    rw [← (hspec l hl).2.1] at hreturn
    cases Text.getLast?_trimEnd hreturn
  have hkept : ∀ l ∈ normalLines s, Text.trim (codePart l) = l := by
    intro l hl
    obtain ⟨-, htrim, hsemi, -⟩ := hspec l hl
    rw [codePart_eq_self hsemi, htrim]
  rw [normalLines, normalText, hlines, List.map_congr_left hkept, List.map_id']
  exact List.filter_eq_self.mpr fun l hl => by simpa using (hspec l hl).1

/-- Making a listing normal does not change what it is read as, and making it normal again does not
change it. -/
theorem normalize_keeps :
    (∀ (text : String) (p : Program), Program.parse text = .ok p →
      Program.parse ("\n".intercalate (normalize text)) = .ok p) ∧
      ∀ text : String, normalize ("\n".intercalate (normalize text)) = normalize text := by
  refine ⟨fun text p h => ?_, fun text => ?_⟩
  · obtain ⟨r, hread, hend⟩ := Program.parse_eq_ok_iff.mp h
    obtain ⟨u, hu, hrespaced⟩ := ((hread.written hend).legible.respaced).2.reads hread
    rw [hend] at hrespaced
    refine Program.parse_eq_ok_iff.mpr ⟨u, by rwa [normalize_eq], ?_⟩
    generalize skipBlank u = v at hrespaced
    cases hrespaced
    rfl
  · rw [normalize, normalize_eq, normalLines_normalText]
    rfl

theorem brief_normalized :
    normalize Program.briefText = ["program\x7buniform", "vec2\x7d"] ∧
      Program.parse ("\n".intercalate (normalize Program.briefText)) = .ok Program.brief :=
  ⟨by cbv, normalize_keeps.1 _ _ Program.brief_parse⟩

end ShaderTree
