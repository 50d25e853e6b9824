import ShaderTree.Listing.Parser

namespace ShaderTree

def isSpacing (c : Char) : Bool := c == ' ' || c == '\t' || c == '\r' || c == '\n'

def isLineEnd (c : Char) : Bool := c == '\r' || c == '\n'

/-- The text starts with a carriage return that no line feed follows. This ends no line. -/
def startsWithLoneReturn : List Char → Bool
  | '\r' :: '\n' :: _ => false
  | '\r' :: _ => true
  | _ => false

/-- The text behind a comment whose semicolon has been read; none if a lone carriage return comes
before the end of the line. -/
def afterComment? (s : List Char) : Option (List Char) :=
  let rest := s.dropWhile (!isLineEnd ·)
  if startsWithLoneReturn rest then none else some rest

theorem afterComment?_length {s rest : List Char} (h : afterComment? s = some rest) :
    rest.length ≤ s.length := by
  unfold afterComment? at h
  dsimp only at h
  split at h
  · cases h
  · cases h
    exact (List.dropWhile_suffix _).length_le

/-- The text behind spaces, tabs, line ends, and comments from a semicolon to the end of the line or
of the text. -/
def skipBlank (s : List Char) : List Char :=
  match s with
  | [] => []
  | c :: cs =>
    if isSpacing c then skipBlank cs
    else if c = ';' then
      match _h : afterComment? cs with
      | some rest => skipBlank rest
      | none => c :: cs
    else c :: cs
termination_by s.length
decreasing_by
  · simp
  · simpa using Nat.lt_succ_of_le (afterComment?_length _h)

namespace Parser

def blank : Parser Unit := fun s => .done () (skipBlank s)

def lexeme {α : Type} (p : Parser α) : Parser α := do
  let a ← p
  blank
  pure a

end Parser

end ShaderTree
