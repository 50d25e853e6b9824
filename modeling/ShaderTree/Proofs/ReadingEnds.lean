import Mathlib
import ShaderTree.Proofs.RuleRuns

namespace ShaderTree

open ShaderTree.Parser Rule

namespace Phrase

/-- A phrase that begins with another one has a higher rank. -/
@[simp]
def rank : Phrase → Nat
  | stmt => 2
  | expr | globalDecl _ => 1
  | _ => 0

theorem guarded (k : Phrase) : k.rule.Guarded fun j => j.rank < k.rank := by
  cases k with
  | blank => simp [Phrase.rule, filling]
  | ty => simp [Phrase.rule, Rule.structTy, Rule.lexeme, Rule.sepBy, Option.forall]
  | var => simp [Phrase.rule, Rule.var, Rule.index]
  | literal => simp [Phrase.rule, Rule.literal]
  | bound => simp [Phrase.rule, Rule.bound]
  | funcName => simp [Phrase.rule, Rule.funcName]
  | expr => simp [Phrase.rule, Rule.expr, Rule.operation, Rule.lexeme]
  | localDecl => simp [Phrase.rule, decl, Rule.lexeme]
  | stmt =>
    simp [Phrase.rule, Rule.stmt, Rule.ifStmt, Rule.forStmt, Rule.assignStmt, Rule.lexeme]
  | block => simp [Phrase.rule, Rule.block, Rule.lexeme]
  | params =>
    simp [Phrase.rule, Rule.params, Rule.param, Rule.lexeme, Rule.sepBy, Option.forall]
  | globalDecl word => simp [Phrase.rule, decl, Rule.lexeme]
  | func => simp [Phrase.rule, Rule.func, Rule.lexeme]
  | program => simp [Phrase.rule, Rule.program, Rule.lexeme]

/-- The induction is on the length of the text, and on the rank where it has not changed. -/
theorem completes (k : Phrase) (s : List Char) : (call k).Completes s := by
  have hbody := k.guarded.completes (s := s) (fun j _ => j.completes s) fun j t _ => j.completes t
  rw [Completes, parser_rule] at hbody
  exact .call hbody
termination_by (s.length, k.rank)

theorem runs_iff {k : Phrase} {s : List Char} {o : Ending k.Value} :
    Runs (call k) s o ↔ o = .of (k.parser s) :=
  ⟨Runs.eq_of_parser, fun h => h ▸ k.completes s⟩

end Phrase

structure Report where
  message : String
  /-- The number of bytes in front of the place of the error. -/
  position : Nat

def Report.before (source rest : List Char) (message : String) : Report :=
  ⟨message, Text.utf8Length source - Text.utf8Length rest⟩

def ParseError.report (e : ParseError) : Report := ⟨e.reason.text, e.position⟩

/-- What is told of a text that is to be read as a whole, with blank around the value. -/
inductive Answers {α : Type} (r : Rule α) (source : List Char) : Except Report α → Prop
  | leading {x : Stop} : Runs (call .blank) source (.stopped x) →
      Answers r source (.error (.before source source "invalid leading input"))
  | read {start : List Char} {a : α} : Runs (call .blank) source (.done () start) →
      Runs (Rule.lexeme r) start (.done a []) → Answers r source (.ok a)
  | leftover {start rest : List Char} {a : α} {c : Char} :
      Runs (call .blank) source (.done () start) →
      Runs (Rule.lexeme r) start (.done a (c :: rest)) →
      Answers r source (.error
        (.before source (c :: rest) "unexpected input after the end of the definition"))
  | declined {start : List Char} {e : Fault} : Runs (call .blank) source (.done () start) →
      Runs (Rule.lexeme r) start (.stopped (.declined e)) →
      Answers r source (.error (.before source e.rest ("syntax error (" ++ e.cause.code ++ ")")))
  | failed {start : List Char} {e : Fault} : Runs (call .blank) source (.done () start) →
      Runs (Rule.lexeme r) start (.stopped (.failed e)) →
      Answers r source (.error (.before source e.rest ("syntax error (" ++ e.cause.code ++ ")")))
  | incomplete {start : List Char} : Runs (call .blank) source (.done () start) →
      Runs (Rule.lexeme r) start (.stopped .incomplete) →
      Answers r source (.error (.before source [] "unexpected end of input"))

section

variable {k : Phrase} {s source start : List Char}

theorem runs_blank_iff {o : Ending Unit} :
    Runs (call .blank) s o ↔ o = .done () (skipBlank s) := Phrase.runs_iff

theorem runs_lexeme_iff {o : Ending k.Value} :
    Runs (Rule.lexeme (call k)) s o ↔ o = .of (Parser.lexeme k.parser s) := by
  refine ⟨Runs.eq_of_parser, ?_⟩
  rintro rfl
  have hguarded : (Rule.lexeme (call k)).Guarded fun _ => True := by simp [Rule.lexeme]
  exact hguarded.completes (fun j _ => j.completes s) fun j t _ => j.completes t

theorem answers_iff {x : Except Report k.Value} :
    Answers (call k) source x ↔ x = (readAll k.parser source).mapError ParseError.report := by
  constructor
  · intro h
    cases h with
    | leading hblank => cases runs_blank_iff.mp hblank
    | read hblank hrun =>
      cases runs_blank_iff.mp hblank
      rw [readAll, Ending.done_eq_of_iff.mp (runs_lexeme_iff.mp hrun)]
      rfl
    | leftover hblank hrun =>
      cases runs_blank_iff.mp hblank
      rw [readAll, Ending.done_eq_of_iff.mp (runs_lexeme_iff.mp hrun)]
      rfl
    | declined hblank hrun =>
      cases runs_blank_iff.mp hblank
      rw [readAll, Ending.declined_eq_of_iff.mp (runs_lexeme_iff.mp hrun)]
      rfl
    | failed hblank hrun =>
      cases runs_blank_iff.mp hblank
      rw [readAll, Ending.failed_eq_of_iff.mp (runs_lexeme_iff.mp hrun)]
      rfl
    | incomplete hblank hrun => exact absurd (runs_lexeme_iff.mp hrun) Ending.incomplete_ne_of
  · rintro rfl
    have hblank : Runs (call .blank) source (.done () (skipBlank source)) := runs_blank_iff.mpr rfl
    rw [readAll]
    cases hs : Parser.lexeme k.parser (skipBlank source) with
    | done a rest =>
      have hrun : Runs (Rule.lexeme (call k)) (skipBlank source) (.done a rest) :=
        runs_lexeme_iff.mpr (congrArg Ending.of hs).symm
      cases rest with
      | nil => exact .read hblank hrun
      | cons c rest => exact .leftover hblank hrun
    | declined e => exact .declined hblank (runs_lexeme_iff.mpr (congrArg Ending.of hs).symm)
    | failed e => exact .failed hblank (runs_lexeme_iff.mpr (congrArg Ending.of hs).symm)

end

theorem Cause.code_ne_many0 {cause : Cause} (h : cause ≠ .progress) : cause.code ≠ "Many0" := by
  cases cause with
  | progress => exact absurd rfl h
  | _ => decide

/-- What is told of a text that is refused is about a missing part, or about what is left. -/
theorem message_of_answers {k : Phrase} {source : List Char} {report : Report}
    (h : Answers (call k) source (.error report)) :
    report.message = "unexpected input after the end of the definition" ∨
      ∃ cause : Cause, cause.code ≠ "Many0" ∧
        report.message = "syntax error (" ++ cause.code ++ ")" := by
  have htold := answers_iff.mp h
  cases hread : readAll k.parser source with
  | ok a =>
    rw [hread] at htold
    cases htold
  | error e =>
    rw [hread] at htold
    cases htold
    obtain ⟨f, hf, rfl⟩ | ⟨a, rest, -, rfl⟩ := readAll_error hread
    · exact Or.inr ⟨f.cause, Cause.code_ne_many0 (hf.leaves k.alike).2, rfl⟩
    · exact Or.inl rfl

/-- Every phrase has one run on every text, which leaves an end of the text, and blank is found in
front of every text. What is told of a listing is the error of its reader, or the value, and every
error is about a missing part, or about what is left behind the definition. -/
theorem reading_ends :
    (∀ (k : Phrase) (s : List Char),
      (∀ o, Runs (call k) s o ↔ o = .of (k.parser s)) ∧ Leaves k.least s (k.parser s)) ∧
    (∀ s, ∃ rest, Runs (call .blank) s (.done () rest)) ∧
    (∀ text : String,
      (∀ x, Answers (call .program) text.toList x ↔
        x = (Program.parse text).mapError ParseError.report) ∧
      ∀ x, Answers (call .func) text.toList x ↔
        x = (Func.parse text).mapError ParseError.report) ∧
    ∀ (text : String) (report : Report),
      Answers (call .program) text.toList (.error report) ∨
        Answers (call .func) text.toList (.error report) →
      report.message = "unexpected input after the end of the definition" ∨
        ∃ cause : Cause, cause.code ≠ "Many0" ∧
          report.message = "syntax error (" ++ cause.code ++ ")" := by
  refine ⟨fun k s => ⟨fun o => Phrase.runs_iff, ?_⟩, fun s => ⟨_, runs_blank_iff.mpr rfl⟩,
    fun text => ⟨fun x => answers_iff, fun x => answers_iff⟩,
    fun text report h => h.elim message_of_answers message_of_answers⟩
  exact (k.alike s.length s (Nat.le_refl _)).2

def branchText : String := "func@f()\x7b\x7b;a\nif%l0\x7b\x7d\x7d"

theorem branchText_reading_ends :
    Runs (call .func) branchText.toList (.of (Parser.func branchText.toList)) ∧
      Answers (call .func) branchText.toList (.error ⟨"syntax error (Tag)", 20⟩) ∧
      ("syntax error (Tag)" = "unexpected input after the end of the definition" ∨
        ∃ cause : Cause, cause.code ≠ "Many0" ∧
          "syntax error (Tag)" = "syntax error (" ++ cause.code ++ ")") := by
  obtain ⟨hruns, -, hanswers, hmessage⟩ := reading_ends
  have hparse : Func.parse branchText = .error ⟨.missing .keyword, 20⟩ := by cbv
  have htold : Answers (call .func) branchText.toList (.error ⟨"syntax error (Tag)", 20⟩) :=
    ((hanswers branchText).2 _).mpr (by rw [hparse]; rfl)
  exact ⟨((hruns .func branchText.toList).1 _).mpr rfl, htold, hmessage _ _ (Or.inr htold)⟩

end ShaderTree
