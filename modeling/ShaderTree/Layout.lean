namespace ShaderTree

structure Line where
  depth : Nat
  text : String
deriving DecidableEq, Repr

/-- The line behind one copy of `unit` for each level of its depth. -/
def Line.indented (unit : String) (l : Line) : String :=
  String.join (List.replicate l.depth unit) ++ l.text

end ShaderTree
