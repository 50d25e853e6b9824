import ShaderTree.Number.Binary64

namespace ShaderTree

/-- The number `digits * 10 ^ exponent`. -/
structure Decimal where
  digits : Nat
  exponent : Int
deriving DecidableEq, Repr

namespace Decimal

def width (d : Decimal) : Nat :=
  if d.digits = 0 then 0 else (Nat.toDigits 10 d.digits).length

def leadingExponent (d : Decimal) : Int := d.exponent + d.width - 1

/-- Decimals of `10 ^ 310` and more lie beyond every finite number, and those below
`10 ^ (-330)` are nearer to zero than to any other. The two bounds keep the powers of ten of
the general case small. -/
def nearestMagnitude (d : Decimal) : Nat :=
  if d.digits = 0 ∨ d.leadingExponent < -330 then 0
  else if 310 ≤ d.leadingExponent then Binary64.infinityMagnitude
  else Binary64.nearestMagnitude (d.digits * Nat.pow 10 d.exponent.toNat)
    (Nat.pow 10 (-d.exponent).toNat)

theorem nearestMagnitude_le (d : Decimal) :
    d.nearestMagnitude ≤ Binary64.infinityMagnitude := by
  unfold nearestMagnitude
  split
  · exact Nat.zero_le _
  · split
    · exact Nat.le_refl _
    · exact Binary64.nearestMagnitude_le _ _

def toBinary64 (negative : Bool) (d : Decimal) : Binary64 :=
  ⟨negative, d.nearestMagnitude, Nat.lt_of_le_of_lt d.nearestMagnitude_le (by decide)⟩

end Decimal

end ShaderTree
