import ShaderTree.Number.Rounding

namespace ShaderTree

/-- Binary floating-point numbers of 64 bits. The magnitude is all of the bits but the sign, and
among numbers of one sign the magnitudes are ordered as the values. -/
structure Binary64 where
  negative : Bool
  magnitude : Nat
  magnitude_lt : magnitude < 0x8000000000000000
deriving DecidableEq

namespace Binary64

/-- The magnitude of the infinities; the magnitudes above it are not numbers. -/
def infinityMagnitude : Nat := 0x7ff0000000000000

/-- The number of magnitudes that share an exponent. -/
def binade : Nat := 0x10000000000000

def isFinite (x : Binary64) : Bool := x.magnitude < infinityMagnitude

def isNaN (x : Binary64) : Bool := infinityMagnitude < x.magnitude

def isZero (x : Binary64) : Bool := x.magnitude == 0

protected def neg (x : Binary64) : Binary64 := { x with negative := !x.negative }

/-- The equality of floating-point comparison: the zeros are equal, and no number equals a
NaN, itself included. -/
def equal (x y : Binary64) : Bool :=
  !x.isNaN && !y.isNaN && (x == y || x.isZero && y.isZero)

def ofBits (bits : Nat) : Binary64 where
  negative := bits / 0x8000000000000000 % 2 == 1
  magnitude := bits % 0x8000000000000000
  magnitude_lt := Nat.mod_lt _ (by decide)

def toBits (x : Binary64) : Nat := x.negative.toNat * 0x8000000000000000 + x.magnitude

theorem ofBits_toBits (x : Binary64) : ofBits x.toBits = x := by
  obtain ⟨s, m, hm⟩ := x
  cases s <;> simp [ofBits, toBits] <;> omega

def infinity : Binary64 := ⟨false, infinityMagnitude, by decide⟩

def nan : Binary64 := ⟨false, infinityMagnitude + binade / 2, by decide⟩

/-- A grain is the least positive value. -/
def grainsPerUnit : Nat := Nat.pow 2 1074

def grainsOf (magnitude : Nat) : Nat :=
  if magnitude < binade then magnitude
  else (binade + magnitude % binade) * Nat.pow 2 (magnitude / binade - 1)

def grains (x : Binary64) : Nat := grainsOf x.magnitude

/-- The magnitude nearest to `num / den`, a tie going to the even significand. Near the quotient
the values are `2 ^ shift` grains apart. -/
def nearestMagnitude (num den : Nat) : Nat :=
  let shift := (num * grainsPerUnit / den).log2 - 52
  let magnitude := shift * binade + nearestNat (num * grainsPerUnit) (den * Nat.pow 2 shift)
  if magnitude < infinityMagnitude then magnitude else infinityMagnitude

theorem nearestMagnitude_le (num den : Nat) : nearestMagnitude num den ≤ infinityMagnitude := by
  unfold nearestMagnitude
  dsimp only
  split
  · exact Nat.le_of_lt ‹_›
  · exact Nat.le_refl _

end Binary64

end ShaderTree
