namespace ShaderTree

inductive Category
  | uniform | «attribute» | varying | «local»
deriving DecidableEq, Ord, Repr

def Category.letter : Category → Char
  | .uniform => 'u'
  | .attribute => 'a'
  | .varying => 'v'
  | .local => 'l'

structure Variable where
  category : Category
  index : UInt64
deriving DecidableEq, Ord, Repr

namespace Variable

/-- By category in the order of declaration, then by index. -/
def sort (vs : List Variable) : List Variable :=
  vs.mergeSort fun v w => (compare v w).isLE

end Variable

end ShaderTree
