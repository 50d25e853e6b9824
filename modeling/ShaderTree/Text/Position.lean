namespace ShaderTree.Text

def utf8Length : List Char → Nat
  | [] => 0
  | c :: cs => c.utf8Size + utf8Length cs

theorem utf8Length_append (cs ds : List Char) :
    utf8Length (cs ++ ds) = utf8Length cs + utf8Length ds := by
  induction cs with
  | nil => simp [utf8Length]
  | cons c cs ih => simp [utf8Length, ih, Nat.add_assoc]

/-- The first `position` bytes, or all if there are fewer; none if they end inside a character. -/
def takeBytes? : Nat → List Char → Option (List Char)
  | _, [] => some []
  | position, c :: cs =>
    if position = 0 then some []
    else if c.utf8Size ≤ position then (takeBytes? (position - c.utf8Size) cs).map (c :: ·)
    else none

/-- Lines and columns count from one, and columns count bytes. -/
structure LineColumn where
  line : Nat
  column : Nat
deriving DecidableEq, Repr

def LineColumn.after (before : List Char) : LineColumn where
  line := before.count '\n' + 1
  column := utf8Length (before.reverse.takeWhile (· != '\n')) + 1

/-- The line and column of a position, which counts as the end of the text if it lies beyond it;
none if the position is inside a character. -/
def lineColumn? (source : List Char) (position : Nat) : Option LineColumn :=
  (takeBytes? position source).map LineColumn.after

end ShaderTree.Text
