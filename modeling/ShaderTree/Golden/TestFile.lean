import ShaderTree.Golden.Normal
import ShaderTree.Listing.Parser

namespace ShaderTree

structure TestCase where
  command : String
  program : String
  expected : String
deriving DecidableEq, Repr

/-- The braces of a program so far: how many are open, and whether any has been opened. -/
structure Nesting where
  depth : Nat
  opened : Bool
deriving DecidableEq, Repr

namespace Nesting

def start : Nesting := ⟨0, false⟩

/-- A closing brace too many counts for nothing. -/
def step (n : Nesting) (c : Char) : Nesting :=
  if c = '{' then ⟨n.depth + 1, true⟩
  else if c = '}' then { n with depth := n.depth - 1 }
  else n

/-- Braces in comments do not count. -/
def line (n : Nesting) (l : List Char) : Nesting := (codePart l).foldl step n

def isClosed (n : Nesting) : Bool := n.opened && n.depth == 0

end Nesting

namespace TestCase

structure Unterminated where
  line : Nat
deriving DecidableEq, Repr

def Unterminated.message (e : Unterminated) : String :=
  "unterminated program starting at line " ++ toString e.line

def startsWith (word : String) (l : List Char) : Bool :=
  (Parser.strip? word.toList l).isSome

/-- The lines up to the one that closes the program, and the lines behind it. -/
def takeProgram (n : Nesting) : List (List Char) → Option (List (List Char) × List (List Char))
  | [] => none
  | l :: ls =>
    let next := n.line l
    if next.isClosed then some ([l], ls)
    else (takeProgram next ls).map fun (program, rest) => (l :: program, rest)

theorem takeProgram_length {n : Nesting} {ls program rest : List (List Char)}
    (h : takeProgram n ls = some (program, rest)) : rest.length < ls.length := by
  induction ls generalizing n program with
  | nil => cases h
  | cons l ls ih =>
    unfold takeProgram at h
    dsimp only at h
    split at h
    · cases h
      exact Nat.lt_succ_self _
    · obtain ⟨⟨tail, rest'⟩, htail, heq⟩ := Option.map_eq_some_iff.1 h
      cases heq
      exact Nat.lt_succ_of_lt (ih htail)

/-- The comments on the lines up to one that is neither blank nor a comment, and the lines from
there on. -/
def takeExpected : List (List Char) → List (List Char) × List (List Char)
  | [] => ([], [])
  | l :: ls =>
    match Text.trim l with
    | [] => takeExpected ls
    | c :: cs =>
      if c = ';' then
        let (comments, rest) := takeExpected ls
        (Text.trim cs :: comments, rest)
      else ([], l :: ls)

theorem takeExpected_length (ls : List (List Char)) : (takeExpected ls).2.length ≤ ls.length := by
  induction ls with
  | nil => exact Nat.le_refl _
  | cons l ls ih =>
    unfold takeExpected
    split
    · exact Nat.le_succ_of_le ih
    · split
      · exact Nat.le_succ_of_le ih
      · exact Nat.le_refl _

def joinLines (ls : List (List Char)) : String := "\n".intercalate (ls.map String.ofList)

/-- The cases on the last lines of a file of `total` lines. A program begins at a line that begins
with `program`, and ends with the line on which its braces are balanced again. -/
def casesFrom (command : String) (total : Nat) (ls : List (List Char)) :
    Except Unterminated (List TestCase) :=
  match ls with
  | [] => .ok []
  | l :: rest =>
    if startsWith "program" (Text.trim l) then
      match _h : takeProgram .start (l :: rest) with
      | none => .error ⟨total - rest.length⟩
      | some (program, behind) => do
        let cases ← casesFrom command total (takeExpected behind).2
        .ok (⟨command, joinLines program, joinLines (takeExpected behind).1⟩ :: cases)
    else casesFrom command total rest
termination_by ls.length
decreasing_by
  · exact Nat.lt_of_le_of_lt (takeExpected_length _) (takeProgram_length _h)
  · exact Nat.lt_succ_self _

/-- The command is the first line that begins with `test` and something behind it. A file without
one has no cases. -/
def ofFile (content : String) : Except Unterminated (List TestCase) :=
  let all := Text.lines content.toList
  match all.dropWhile fun l => !startsWith "test " (Text.trim l) with
  | [] => .ok []
  | header :: rest => casesFrom (String.ofList (Text.trim header)) all.length rest

end TestCase

end ShaderTree
