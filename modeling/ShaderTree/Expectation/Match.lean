import ShaderTree.Expectation.Directive

namespace ShaderTree

namespace Expectation

/-- What is searched for: a text, which may have to begin or end at a boundary of words. -/
structure Needle where
  text : List Char
  startsWord : Bool
  endsWord : Bool
deriving DecidableEq, Repr

inductive MatchError
  | undefined (name : List Char)
  | mismatch
deriving DecidableEq, Repr

def isWordPart (pick : List Char → Option Char) : Option Part → Bool
  | some (.text cs) => ((pick cs).map Text.isAlphanumeric).getD false
  | _ => false

def needleText : Pattern → Except MatchError (List Char)
  | [] => .ok []
  | .text cs :: parts => (needleText parts).map (cs ++ ·)
  | .var name :: _ => .error (.undefined name)

/-- No variable is defined, so a pattern with one cannot be searched for. -/
def Needle.ofPattern (p : Pattern) : Except MatchError Needle :=
  (needleText p).map fun text =>
    ⟨text, isWordPart List.head? p.head?, isWordPart List.getLast? p.getLast?⟩

def isWord (c : Option Char) : Bool := (c.map Text.isWordCharacter).getD false

/-- A boundary of words lies between the two characters, or between one and an end of the text. -/
def isBoundary (a b : Option Char) : Bool := isWord a != isWord b

def Needle.isAt (n : Needle) (previous : Option Char) (s : List Char) : Bool :=
  match Parser.strip? n.text s with
  | none => false
  | some rest =>
    (!n.startsWord || isBoundary previous s.head?) &&
      (!n.endsWord || isBoundary (n.text.getLast?.or previous) rest.head?)

def Needle.find? (n : Needle) (previous : Option Char) (s : List Char) : Option Nat :=
  if n.isAt previous s then some 0
  else
    match s with
    | [] => none
    | c :: cs => (Needle.find? n (some c) cs).map (· + 1)

/-- The place of the needle in the text between two places, whose ends count as ends of the
text. -/
def Needle.findIn? (n : Needle) (text : List Char) (first last : Nat) : Option Nat :=
  (n.find? none ((text.take last).drop first)).map (first + ·)

def nextLine (text : List Char) (place : Nat) : Nat :=
  match (text.drop place).findIdx? (· == '\n') with
  | some i => place + i + 1
  | none => text.length

/-- Matches in order move on through the text. A pattern that must not match is kept until the next
match in order, and must not be found in front of it. -/
structure State where
  /-- The end of the last match in order. -/
  lastOrdered : Nat
  /-- The end of the match that reaches farthest. -/
  farthest : Nat
  /-- What must not match, and from where on. -/
  forbidden : List (Nat × Needle)
deriving DecidableEq, Repr

def State.start : State := ⟨0, 0, []⟩

def State.range (st : State) (text : List Char) : Kind → Nat × Nat
  | .check => (st.farthest, text.length)
  | .sameln => (st.farthest, nextLine text st.farthest)
  | .nextln =>
    let line := nextLine text st.farthest
    (line, nextLine text line)
  | .unordered | .not => (st.lastOrdered, text.length)

def State.allows (st : State) (text : List Char) (place : Nat) : Bool :=
  st.forbidden.all fun (first, n) => (n.findIn? text first place).isNone

def State.matched (st : State) (text : List Char) (kind : Kind) (first last : Nat) :
    Except MatchError State :=
  match kind with
  | .unordered =>
    .ok { st with farthest := if st.farthest < last then last else st.farthest }
  | _ => if st.allows text first then .ok ⟨last, last, []⟩ else .error .mismatch

def State.step (text : List Char) (st : State) (d : Directive) : Except MatchError State := do
  let needle ← Needle.ofPattern d.pattern
  if d.kind = .not then
    .ok { st with forbidden := st.forbidden ++ [(st.lastOrdered, needle)] }
  else
    let (first, last) := st.range text d.kind
    match needle.findIn? text first last with
    | none => .error .mismatch
    | some place => st.matched text d.kind place (place + needle.text.length)

def run (text : List Char) : State → List Directive → Except MatchError State
  | st, [] => if st.allows text text.length then .ok st else .error .mismatch
  | st, d :: ds => do
    let next ← st.step text d
    run text next ds

inductive Failure
  | malformed (e : Malformed)
  /-- There are no directives. -/
  | empty
  | undefined (name : List Char)
  | mismatch
deriving DecidableEq, Repr

/-- A mismatch is a result and not a fault of the directives, and has no message. -/
def Failure.message? : Failure → Option String
  | malformed e => some e.message
  | empty => some "No filecheck directives found"
  | undefined name => some ("Filecheck error: undefined variable $" ++ String.ofList name)
  | mismatch => none

/-- Whether the text is as the directives in `expected` say. -/
def verify (text expected : String) : Except Failure Unit :=
  match directives expected with
  | .error e => .error (.malformed e)
  | .ok [] => .error .empty
  | .ok ds =>
    match run text.toList .start ds with
    | .ok _ => .ok ()
    | .error (.undefined name) => .error (.undefined name)
    | .error .mismatch => .error .mismatch

end Expectation

end ShaderTree
