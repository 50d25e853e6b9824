import ShaderTree.Number.Significant

namespace ShaderTree

def exponentDigits (n : Nat) : List Char :=
  let ds := Nat.toDigits 10 n
  List.replicate (2 - ds.length) '0' ++ ds

def exponentText (k : Int) : List Char :=
  (if k < 0 then '-' else '+') :: exponentDigits k.natAbs

/-- Ten significant digits of the value without its sign, and the exponent of the first one. -/
def Binary64.tenDigits (x : Binary64) : List Char × Int :=
  if x.isZero then (List.replicate 10 '0', 0)
  else
    let d := (x.grid 10).rounded
    ((Nat.toDigits 10 d.digits).take 10, d.leadingExponent)

/-- Ten significant digits, rounded to nearest with ties to even, and an exponent of ten with its
sign and at least two digits. -/
def Binary64.glsl (x : Binary64) : String :=
  if x.isNaN then "NaN"
  else
    let sign := if x.negative then "-" else ""
    if !x.isFinite then sign ++ "inf"
    else
      let (ds, k) := x.tenDigits
      sign ++ String.ofList (ds.take 1 ++ '.' :: ds.drop 1 ++ 'e' :: exponentText k)

end ShaderTree
