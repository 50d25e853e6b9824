import ShaderTree.Number.Significant

namespace ShaderTree

namespace Decimal

def significant (d : Decimal) : List Char :=
  ((Nat.toDigits 10 d.digits).reverse.dropWhile (· == '0')).reverse

/-- The digits with the point behind the first `n`, zeros standing for the missing ones. -/
def positional (ds : List Char) (n : Nat) : List Char :=
  let places := ds ++ List.replicate (n + 1 - ds.length) '0'
  places.take n ++ '.' :: places.drop n

/-- The digits with a point behind the first one, unless it is the only one, and the exponent. -/
def scientific (ds : List Char) (exponent : Int) : List Char :=
  ds.take 1 ++ (if ds.length ≤ 1 then [] else '.' :: ds.drop 1) ++ 'e' :: (toString exponent).toList

/-- With a point and at least one place after it, while the leading digit is no lower than the
fourth place after the point and no higher than the sixteenth before it; otherwise with an exponent
of ten. -/
def literal (d : Decimal) : List Char :=
  let k := d.leadingExponent
  if 0 ≤ k ∧ k < 16 then positional d.significant (k.toNat + 1)
  else if -4 ≤ k ∧ k < 0 then
    '0' :: '.' :: List.replicate (-k - 1).toNat '0' ++ d.significant
  else scientific d.significant k

end Decimal

namespace Binary64

def absText (x : Binary64) : String :=
  if !x.isFinite then "inf" else if x.isZero then "0.0" else String.ofList x.shortest.literal

def text (x : Binary64) : String :=
  if x.isNaN then "NaN" else (if x.negative then "-" else "") ++ x.absText

end Binary64

end ShaderTree
