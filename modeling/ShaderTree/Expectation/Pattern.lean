import ShaderTree.Text.Alphanumeric

namespace ShaderTree

namespace Expectation

/-- A dollar sign begins a variable, `$name` or `$(name)`; `$$` stands for the sign itself, and
`$()` for no text at all. -/
inductive Part
  | text (cs : List Char)
  | var (name : List Char)
deriving DecidableEq, Repr

abbrev Pattern := List Part

inductive PatternError
  /-- The text ends behind the name in `$(name`. -/
  | unterminated (name : List Char)
  /-- Another character than a closing parenthesis is behind the name in `$(name`. -/
  | unexpected (name : List Char) (c : Char)
  /-- A dollar sign that begins nothing. -/
  | loneDollar
deriving DecidableEq, Repr

def PatternError.message : PatternError → String
  | unterminated name => "unterminated $(" ++ String.ofList name ++ "..."
  | unexpected name c =>
    String.ofList ("syntax error in $(".toList ++ name ++ "... '".toList ++ [c, '\''])
  | loneDollar => "pattern syntax error, use $$ to match a single $"

def isNameChar (c : Char) : Bool := c.isAlphanum || c == '_'

def dollarPart (cs : List Char) : Except PatternError (Part × List Char) :=
  match cs with
  | '$' :: rest => .ok (.text ['$'], rest)
  | '(' :: inner =>
    let name := inner.takeWhile isNameChar
    match inner.dropWhile isNameChar with
    | [] => .error (.unterminated name)
    | ')' :: rest => .ok (if name.isEmpty then .text [] else .var name, rest)
    | c :: _ => .error (.unexpected name c)
  | _ =>
    if (cs.takeWhile isNameChar).isEmpty then .error .loneDollar
    else .ok (.var (cs.takeWhile isNameChar), cs.dropWhile isNameChar)

def partAt (c : Char) (cs : List Char) : Except PatternError (Part × List Char) :=
  if c = '$' then dollarPart cs
  else .ok (.text (c :: cs.takeWhile (· != '$')), cs.dropWhile (· != '$'))

theorem dollarPart_length {cs rest : List Char} {part : Part}
    (h : dollarPart cs = .ok (part, rest)) : rest.length ≤ cs.length := by
  unfold dollarPart at h
  split at h
  · cases h
    exact Nat.le_succ _
  · rename_i inner
    have hle := (List.dropWhile_suffix isNameChar (l := inner)).length_le
    dsimp only at h
    split at h
    · cases h
    · rename_i hdrop
      cases h
      rw [hdrop] at hle
      exact Nat.le_succ_of_le (Nat.le_of_succ_le hle)
    · cases h
  · split at h
    · cases h
    · cases h
      exact (List.dropWhile_suffix _).length_le

theorem partAt_length {c : Char} {cs rest : List Char} {part : Part}
    (h : partAt c cs = .ok (part, rest)) : rest.length ≤ cs.length := by
  unfold partAt at h
  split at h
  · exact dollarPart_length h
  · cases h
    exact (List.dropWhile_suffix _).length_le

def Pattern.parse (s : List Char) : Except PatternError Pattern :=
  match s with
  | [] => .ok []
  | c :: cs =>
    match _h : partAt c cs with
    | .error e => .error e
    | .ok (part, rest) => (Pattern.parse rest).map (part :: ·)
termination_by s.length
decreasing_by exact Nat.lt_succ_of_le (partAt_length _h)

def Part.written : Part → List Char
  | text [] => ['$', '(', ')']
  | text cs => if cs = ['$'] then ['$', '$'] else cs
  | var name => '$' :: '(' :: name ++ [')']

def Pattern.written (p : Pattern) : String := String.ofList (p.flatMap Part.written)

end Expectation

end ShaderTree
