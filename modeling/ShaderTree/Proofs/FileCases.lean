import ShaderTree.Proofs.BraceBalance

namespace ShaderTree

open ShaderTree.TestCase (startsWith takeProgram takeExpected casesFrom joinLines)

variable {l e s : List Char} {ls more es : List (List Char)}

/-- The text has the given lines. Each of them ends with a line feed, maybe behind a carriage
return, but the last one may have no end. -/
inductive FileText : List (List Char) → List Char → Prop
  | nil : FileText [] []
  | last {l : List Char} (hne : l ≠ []) (hn : '\n' ∉ l) : FileText [l] l
  | feed {l s : List Char} {ls : List (List Char)} (hn : '\n' ∉ l) (hr : l.getLast? ≠ some '\r')
      (h : FileText ls s) : FileText (l :: ls) (l ++ '\n' :: s)
  | returnFeed {l s : List Char} {ls : List (List Char)} (hn : '\n' ∉ l) (h : FileText ls s) :
      FileText (l :: ls) (l ++ '\r' :: '\n' :: s)

theorem FileText.lines_eq (h : FileText ls s) : Text.lines s = ls := by
  induction h with
  | nil => rfl
  | last hne hn => exact Text.lines_of_not_mem hne hn
  | feed hn hr _ ih => rw [Text.lines_append_feed hn hr, ih]
  | returnFeed hn _ ih => rw [Text.lines_append_return hn, ih]

/-- A program on lines of its own, with the text that is expected of it. The program begins on its
first line, and on the last one is its closing brace. -/
structure FileCase where
  program : List (List Char)
  expected : List (List Char)
  isLineEnd_eq_false : ∀ l ∈ program, ∀ c ∈ l, isLineEnd c = false
  begins : ∃ l ∈ program.head?, startsWith "program" (Text.trim l) = true
  -- the tokens of the program are read up to its closing brace, with which they end
  accepted : ∃ p r, Program.parse (joinLines program) = .ok p ∧
    Reads p.tokens (joinLines program).toList r ∧ '\n' ∉ r
  trim_eq : ∀ e ∈ expected, Text.trim e = e

namespace FileCase

def testCase (k : FileCase) (command : String) : TestCase :=
  ⟨command, joinLines k.program, joinLines k.expected⟩

theorem takeProgram_eq (k : FileCase) (more : List (List Char)) :
    takeProgram .start (k.program ++ more) = some (k.program, more) := by
  obtain ⟨p, r, hparse, hread, hlast⟩ := k.accepted
  obtain ⟨r', hread', hend⟩ := Program.parse_eq_ok_iff.mp hparse
  obtain rfl := hread.unique hread'
  rw [toList_joinLines] at hread
  exact TestCase.takeProgram_accepted k.isLineEnd_eq_false hread hend hlast more

end FileCase

/-- The lines are comments with the given texts, and blank lines. -/
inductive CommentLines : List (List Char) → List (List Char) → Prop
  | nil : CommentLines [] []
  | blank {l : List Char} {es ls : List (List Char)} (hl : Text.trim l = [])
      (h : CommentLines es ls) : CommentLines es (l :: ls)
  | comment {e : List Char} {es ls : List (List Char)} (h : CommentLines es ls) :
      CommentLines (e :: es) ((';' :: ' ' :: e) :: ls)

inductive CaseLines : List FileCase → List (List Char) → Prop
  | nil : CaseLines [] []
  | cons {k : FileCase} {ks : List FileCase} {comments ls : List (List Char)}
      (hcomments : CommentLines k.expected comments) (h : CaseLines ks ls) :
      CaseLines (k :: ks) (k.program ++ (comments ++ ls))

theorem CaseLines.begins {ks : List FileCase} (h : CaseLines ks ls) :
    ∀ l ∈ ls.head?, startsWith "program" (Text.trim l) = true := by
  cases h with
  | nil => exact nofun
  | @cons k ks comments ls _ _ =>
    obtain ⟨l, hl, hbegins⟩ := k.begins
    intro m hm
    rw [List.head?_append, Option.mem_def.mp hl] at hm
    cases hm
    exact hbegins

namespace Text

theorem trimEnd_of_trim_eq (h : trim s = s) : trimEnd s = s :=
  trimEnd_eq_self fun c hc => getLast?_trimEnd (s := trimStart s) (by rwa [← trim, h])

theorem trim_comment (h : trim e = e) :
    ∃ t, trim (';' :: ' ' :: e) = ';' :: t ∧ trim t = e := by
  rw [trim_cons_of_not rfl, trimEnd_cons, trimEnd_of_trim_eq h]
  by_cases he : e = []
  · subst he
    exact ⟨[], rfl, rfl⟩
  · rw [if_neg fun hblank => he hblank.2]
    exact ⟨' ' :: e, rfl, by rw [trim_cons rfl, h]⟩

end Text

namespace TestCase

variable {command : String} {total : Nat} {program behind blank : List (List Char)}
  {cases : List TestCase}

theorem startsWith_iff {word : String} : startsWith word s = true ↔ word.toList <+: s := by
  rw [startsWith, Option.isSome_iff_exists]
  exact exists_congr fun t => Parser.strip?_eq_some_iff.trans eq_comm

/-- The comments are taken up to the next program. -/
theorem takeExpected_eq (h : CommentLines es ls) (hes : ∀ e ∈ es, Text.trim e = e)
    (hmore : ∀ l ∈ more.head?, startsWith "program" (Text.trim l) = true) :
    takeExpected (ls ++ more) = (es, more) := by
  induction h with
  | nil =>
    cases more with
    | nil => rfl
    | cons l more =>
      obtain ⟨t, ht⟩ := startsWith_iff.mp (hmore l rfl)
      rw [List.nil_append, takeExpected, ← ht]
      rfl
  | blank hl _ ih =>
    rw [List.cons_append, takeExpected, hl, ih hes]
  | comment _ ih =>
    obtain ⟨he, hes⟩ := List.forall_mem_cons.mp hes
    obtain ⟨t, ht, htrim⟩ := Text.trim_comment he
    rw [List.cons_append, takeExpected, ht, ih hes]
    simp [htrim]

theorem casesFrom_blank (hblank : ∀ l ∈ blank, Text.trim l = []) :
    casesFrom command total (blank ++ ls) = casesFrom command total ls := by
  induction blank with
  | nil => rfl
  | cons l blank ih =>
    obtain ⟨hl, hblank⟩ := List.forall_mem_cons.mp hblank
    rw [List.cons_append, casesFrom, hl]
    exact ih hblank

/-- A program with its comments is one case. -/
theorem casesFrom_program (hbegins : startsWith "program" (Text.trim l) = true)
    (htake : takeProgram .start (l :: ls) = some (program, behind))
    (hexpected : takeExpected behind = (es, more))
    (hcases : casesFrom command total more = .ok cases) :
    casesFrom command total (l :: ls) =
      .ok (⟨command, joinLines program, joinLines es⟩ :: cases) := by
  rw [casesFrom, if_pos hbegins]
  split
  · next hnone =>
    rw [htake] at hnone
    cases hnone
  · next program' behind' hsome =>
    rw [htake] at hsome
    cases hsome
    rw [hexpected, hcases]
    rfl

theorem casesFrom_caseLines {ks : List FileCase} (h : CaseLines ks ls) (command : String)
    (total : Nat) : casesFrom command total ls = .ok (ks.map (·.testCase command)) := by
  induction h with
  | nil => rw [casesFrom]; rfl
  | @cons k ks comments ls hcomments hls ih =>
    have hexpected := takeExpected_eq hcomments k.trim_eq hls.begins
    have htake := k.takeProgram_eq (comments ++ ls)
    obtain ⟨l, hl, hbegins⟩ := k.begins
    obtain ⟨rest, hprogram⟩ := List.head?_eq_some_iff.mp hl
    rw [hprogram, List.cons_append] at htake ⊢
    rw [casesFrom_program hbegins htake hexpected ih, ← hprogram]
    rfl

theorem trim_header (hne : command ≠ "") (htrim : Text.trim command.toList = command.toList) :
    Text.trim ("test " ++ command).toList = ("test " ++ command).toList := by
  rw [String.toList_append]
  refine Text.trim_eq_self (fun c hc => ?_) fun c hc => ?_
  · cases hc
    rfl
  · have hlast : command.toList.getLast? = some c := by
      rw [List.getLast?_append, Option.or_eq_some_iff, List.getLast?_eq_none_iff] at hc
      exact hc.resolve_right fun hnil => hne (String.toList_eq_nil_iff.mp hnil.1)
    rw [← htrim] at hlast
    exact Text.getLast?_trimEnd hlast

/-- A file made of a line with a command, blank lines, and the lines of cases has those cases, in
their order. -/
theorem ofFile_caseLines (command : String) {content : String} {ks : List FileCase}
    (hne : command ≠ "") (htrim : Text.trim command.toList = command.toList)
    (hblank : ∀ l ∈ blank, Text.trim l = []) (hls : CaseLines ks ls)
    (hcontent : FileText (("test " ++ command).toList :: (blank ++ ls)) content.toList) :
    ofFile content = .ok (ks.map (·.testCase ("test " ++ command))) := by
  have hheader := trim_header hne htrim
  have hstarts : startsWith "test " (Text.trim ("test " ++ command).toList) = true := by
    rw [hheader, startsWith_iff, String.toList_append]
    exact List.prefix_append _ _
  rw [ofFile, hcontent.lines_eq, List.dropWhile_cons_of_neg (by rw [hstarts]; decide)]
  dsimp only
  rw [hheader, String.ofList_toList, casesFrom_blank hblank]
  exact casesFrom_caseLines hls _ _

end TestCase

namespace FileCase

def nested : FileCase where
  program := ["program\x7b ;\x7d".toList, "uniform struct\x7bfloat\x7d \x7d;\x7b".toList]
  expected := ["\x7b".toList, []]
  isLineEnd_eq_false := by simp [isLineEnd]
  begins := ⟨_, rfl, by decide⟩
  accepted := by
    let p : Program := { uniforms := [.struct [.basic .float]] }
    have hread : Reads p.tokens "program\x7b ;\x7d\nuniform struct\x7bfloat\x7d \x7d;\x7b".toList
        [';', '{'] := by
      simp [p, Program.tokens, declTokens, Ty.tokens, Ty.tokensOf, commaSeparated_cons,
        Token.ReadTo, Word.text, BasicTy.token, skipBlank, isSpacing, afterComment?, isLineEnd,
        startsWithLoneReturn]
    have hend : skipBlank [';', '{'] = [] := by
      simp [skipBlank, isSpacing, afterComment?, isLineEnd, startsWithLoneReturn]
    exact ⟨p, _, Program.parse_eq_ok_iff.mpr ⟨_, hread, hend⟩, hread, by decide⟩
  trim_eq := by decide

def bare : FileCase where
  program := ["program\x7b\x7d".toList]
  expected := []
  isLineEnd_eq_false := by simp [isLineEnd]
  begins := ⟨_, rfl, by decide⟩
  accepted := by
    have hread : Reads ({} : Program).tokens "program\x7b\x7d".toList [] := by
      simp [Program.tokens, declTokens, Token.ReadTo, Word.text, skipBlank, isSpacing]
    exact ⟨{}, [], Program.parse_eq_ok_iff.mpr ⟨[], hread, Parser.skipBlank_nil⟩, hread, by decide⟩
  trim_eq := by decide

def nestedComments : List (List Char) := ["; \x7b".toList, [], "; ".toList]

def fileLines : List (List Char) :=
  nested.program ++ (nestedComments ++ (bare.program ++ ([] ++ [])))

def fileText : String :=
  "test glsl\r\n \nprogram\x7b ;\x7d\nuniform struct\x7bfloat\x7d \x7d;\x7b\n; \x7b\n\n; \n" ++
    "program\x7b\x7d"

end FileCase

open FileCase in
theorem TestCase.ofFile_fileText :
    CaseLines [nested, bare] fileLines ∧
      FileText ("test glsl".toList :: ([[' ']] ++ fileLines)) fileText.toList ∧
        ofFile fileText = .ok
          [⟨"test glsl", "program\x7b ;\x7d\nuniform struct\x7bfloat\x7d \x7d;\x7b", "\x7b\n"⟩,
            ⟨"test glsl", "program\x7b\x7d", ""⟩] := by
  have hlines : CaseLines [nested, bare] fileLines :=
    .cons (.comment (.blank rfl (.comment .nil))) (.cons .nil .nil)
  have hbare : FileText bare.program "program\x7b\x7d".toList := .last (by decide) (by decide)
  have hcomments : FileText (nestedComments ++ bare.program)
      "; \x7b\n\n; \nprogram\x7b\x7d".toList :=
    .feed (by decide) (by decide) <| .feed (by decide) (by decide) <|
      .feed (by decide) (by decide) hbare
  have htext : FileText ("test glsl".toList :: ([[' ']] ++ fileLines)) fileText.toList :=
    .returnFeed (by decide) <| .feed (by decide) (by decide) <| .feed (by decide) (by decide) <|
      .feed (by decide) (by decide) hcomments
  exact ⟨hlines, htext, ofFile_caseLines "glsl" (by decide) (by decide) (by decide) hlines htext⟩

end ShaderTree
