import ShaderTree.Expectation.Pattern
import ShaderTree.Listing.Parser
import ShaderTree.Text.Lines
import ShaderTree.Text.WhiteSpace
import ShaderTree.Text.WordCharacter

namespace ShaderTree

namespace Expectation

inductive Kind
  /-- Behind all that has been matched. -/
  | check
  /-- On the rest of the current line. -/
  | sameln
  /-- On the next line. -/
  | nextln
  /-- Anywhere behind the last match in order. -/
  | unordered
  /-- Nowhere up to the next match in order. -/
  | not
deriving DecidableEq, Repr

def Kind.keyword : Kind → String
  | check => "check"
  | sameln => "sameln"
  | nextln => "nextln"
  | unordered => "unordered"
  | not => "not"

/-- A keyword, a colon, white space, and a pattern up to the end of the line. Other text may come in
front of the keyword. -/
structure Directive where
  kind : Kind
  pattern : Pattern
deriving DecidableEq, Repr

inductive DirectiveError
  | pattern (e : PatternError)
  /-- A `regex` line that does not begin with a name. -/
  | unnamed (rest : List Char)
  /-- A `regex` line with no equals sign behind the name. -/
  | undefined (name rest : List Char)
  /-- A `regex` line that defines a variable. There are no variables. -/
  | unsupported (name : List Char)
deriving DecidableEq, Repr

def DirectiveError.message : DirectiveError → String
  | pattern e => e.message
  | unnamed rest => "invalid variable name in regex: " ++ String.ofList rest
  | undefined name rest =>
    String.ofList ("expected '=' after variable '".toList ++ name ++ "' in regex: ".toList ++ rest)
  | unsupported name => "variable " ++ String.ofList name ++ " cannot be defined"

/-- The keywords of directives; none stands for the definition of a variable. -/
def keywords : List (Option Kind) :=
  [some .check, some .sameln, some .nextln, some .unordered, some .not, none]

def keywordOf : Option Kind → String
  | some k => k.keyword
  | none => "regex"

def afterKeyword? (s : List Char) (k : Option Kind) : Option (List Char) := do
  let rest ← Parser.strip? ((keywordOf k).toList ++ [':']) s
  if (rest.head?.map Text.isWhiteSpace).getD false then
    some (rest.dropWhile Text.isWhiteSpace)
  else none

/-- The first keyword of a line that is the beginning of a word, and the text behind it. -/
def findKeyword? (inWord : Bool) : List Char → Option (Option Kind × List Char)
  | [] => none
  | c :: cs =>
    let here :=
      if inWord then none
      else keywords.findSome? fun k => (afterKeyword? (c :: cs) k).map (k, ·)
    match here with
    | some found => some found
    | none => findKeyword? (Text.isWordCharacter c) cs

/-- A `regex` line is refused, since no pattern can use what it defines. -/
def refuseDefinition (rest : List Char) : DirectiveError :=
  let name := rest.takeWhile isNameChar
  if name.isEmpty then .unnamed rest
  else if (rest.dropWhile isNameChar).head? = some '=' then .unsupported name
  else .undefined name rest

def Directive.ofLine? (line : List Char) : Except DirectiveError (Option Directive) :=
  match findKeyword? false line with
  | none => .ok none
  | some (none, rest) => .error (refuseDefinition rest)
  | some (some kind, rest) =>
    match Pattern.parse (Text.trim rest) with
    | .ok pattern => .ok (some ⟨kind, pattern⟩)
    | .error e => .error (.pattern e)

structure Malformed where
  line : List Char
  error : DirectiveError
deriving DecidableEq, Repr

def Malformed.message (e : Malformed) : String :=
  String.ofList ("Failed to parse filecheck directive '".toList ++ e.line ++ "': ".toList) ++
    e.error.message

def directivesOf : List (List Char) → Except Malformed (List Directive)
  | [] => .ok []
  | line :: rest =>
    match Directive.ofLine? line with
    | .error e => .error ⟨line, e⟩
    | .ok none => directivesOf rest
    | .ok (some d) => (directivesOf rest).map (d :: ·)

def directives (text : String) : Except Malformed (List Directive) :=
  directivesOf ((Text.lines text.toList).map Text.trim)

def Directive.written (i : Nat) (d : Directive) : String :=
  "#" ++ toString i ++ " " ++ d.kind.keyword ++ ": " ++ d.pattern.written ++ "\n"

def written (ds : List Directive) : String :=
  String.join (ds.zipIdx.map fun (d, i) => d.written i)

end Expectation

end ShaderTree
