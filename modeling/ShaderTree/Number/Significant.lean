import ShaderTree.Number.Decimal

namespace ShaderTree

/-- A value among the multiples of `10 ^ exponent`: it is `num / den` of them. -/
structure Grid where
  num : Nat
  den : Nat
  exponent : Int
deriving DecidableEq, Repr

namespace Grid

def rounded (g : Grid) : Decimal := ⟨nearestNat g.num g.den, g.exponent⟩

def below (g : Grid) : Decimal := ⟨g.num / g.den, g.exponent⟩

def above (g : Grid) : Decimal := ⟨g.num / g.den + 1, g.exponent⟩

/-- The two neighbours of the value, the nearer one first, and `above` first when both are equally
near. -/
def neighbours (g : Grid) : List Decimal :=
  if 2 * (g.num % g.den) < g.den then [g.below, g.above] else [g.above, g.below]

end Grid

namespace Binary64

/-- The place of the leading decimal digit, counted from `10 ^ (-324)`, the place of the least
positive value. -/
def leadingPlace (x : Binary64) : Nat :=
  (Nat.toDigits 10 (x.grains * Nat.pow 10 324 / grainsPerUnit)).length - 1

/-- The grid on which a digit at `place` is the `n`-th from the left. -/
def gridAt (x : Binary64) (place n : Nat) : Grid :=
  ⟨x.grains * Nat.pow 10 (323 + n), grainsPerUnit * Nat.pow 10 place, (place : Int) - 323 - n⟩

def grid (x : Binary64) (n : Nat) : Grid := x.gridAt x.leadingPlace n

def isReadBy (x : Binary64) (d : Decimal) : Bool := d.nearestMagnitude == x.magnitude

/-- The nearer neighbour on the grid that reads back. -/
def neighbour? (x : Binary64) (g : Grid) : Option Decimal := g.neighbours.find? x.isReadBy

def exactly (x : Binary64) : Decimal := ⟨x.grains * Nat.pow 5 1074, -1074⟩

/-- The decimal of fewest digits that reads back, from the coarsest grid on which there is one. -/
def shortest (x : Binary64) : Decimal :=
  let place := x.leadingPlace
  ((List.range' 1 17).findSome? fun n => x.neighbour? (x.gridAt place n)).getD x.exactly

theorem isReadBy_of_neighbour? {x : Binary64} {g : Grid} {d : Decimal}
    (h : x.neighbour? g = some d) : x.isReadBy d = true :=
  List.find?_some h

end Binary64

end ShaderTree
