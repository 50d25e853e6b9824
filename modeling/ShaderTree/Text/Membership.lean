namespace ShaderTree.Text

/-- An odd number of changes lie at or below the character. -/
def changesInclude (changes : List Nat) (c : Char) : Bool :=
  changes.countP (· ≤ c.toNat) % 2 == 1

end ShaderTree.Text
