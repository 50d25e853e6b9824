import ShaderTree.Listing.Grammar
import ShaderTree.Text.Position

namespace ShaderTree

def Cause.code : Cause → String
  | keyword => "Tag"
  | symbol => "Char"
  | digit => "Digit"
  | range => "MapRes"
  | letter => "Alpha"
  | operator => "MapOpt"
  | name => "TakeWhile1"
  | order => "Verify"
  | number => "Float"
  | progress => "Many0"

inductive ParseError.Reason
  | missing (cause : Cause)
  /-- The definition ends before the text does. -/
  | leftover
deriving DecidableEq, Repr

structure ParseError where
  reason : ParseError.Reason
  /-- The number of bytes in front of the fault. -/
  position : Nat
deriving DecidableEq, Repr

namespace ParseError

def Reason.text : Reason → String
  | missing cause => "syntax error (" ++ cause.code ++ ")"
  | leftover => "unexpected input after the end of the definition"

def messageOf (reason : String) (position : Nat) : String :=
  "parse error at position " ++ toString position ++ ": " ++ reason

def message (e : ParseError) : String := messageOf e.reason.text e.position

/-- The error at the place where the rest of the source begins. -/
def before (source rest : List Char) (reason : Reason) : ParseError :=
  ⟨reason, Text.utf8Length source - Text.utf8Length rest⟩

end ParseError

namespace Parser

/-- Parses all of the text, with blank around the value. -/
def readAll {α : Type} (p : Parser α) (source : List Char) : Except ParseError α :=
  match lexeme p (skipBlank source) with
  | .done a [] => .ok a
  | .done _ rest => .error (.before source rest .leftover)
  | .declined e => .error (.before source e.rest (.missing e.cause))
  | .failed e => .error (.before source e.rest (.missing e.cause))

end Parser

def Program.parse (text : String) : Except ParseError Program := Parser.program.readAll text.toList

def Func.parse (text : String) : Except ParseError Func := Parser.func.readAll text.toList

end ShaderTree
