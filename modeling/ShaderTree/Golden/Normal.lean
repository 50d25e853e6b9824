import ShaderTree.Text.Lines
import ShaderTree.Text.WhiteSpace

namespace ShaderTree

def codePart (line : List Char) : List Char := line.takeWhile (· != ';')

/-- The lines without comments and without white space around them; those that hold nothing else are
left out. -/
def normalLines (text : List Char) : List (List Char) :=
  ((Text.lines text).map fun line => Text.trim (codePart line)).filter (!·.isEmpty)

def normalize (text : String) : List String := (normalLines text.toList).map String.ofList

end ShaderTree
