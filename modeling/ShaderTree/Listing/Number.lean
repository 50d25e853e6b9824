import ShaderTree.Listing.Parser
import ShaderTree.Number.Decimal

namespace ShaderTree

namespace Parser

def digits : Parser (List Char) := span .digit Char.isDigit

def natural (ds : List Char) : Nat := Nat.ofDigitChars 10 ds 0

def uint64? (n : Nat) : Option UInt64 :=
  if h : n < UInt64.size then some (UInt64.ofNatLT n h) else none

def index : Parser UInt64 :=
  accept .range uint64? do
    let ds ← digits
    pure (natural ds)

def int32? (n : Int) : Option Int32 :=
  if -0x80000000 ≤ n ∧ n < 0x80000000 then some (.ofInt n) else none

def bound : Parser Int32 :=
  accept .range int32? do
    let minus ← optional (symbol '-')
    let ds ← digits
    pure (if minus.isSome then -(natural ds : Int) else natural ds)

def sign : Parser Bool := do
  let minus ← optional (orElse (do symbol '+'; pure false) (do symbol '-'; pure true))
  pure (minus.getD false)

def fraction : Parser (List Char) := do
  symbol '.'
  let ds ← optional digits
  pure (ds.getD [])

def ofPlaces (whole fraction : List Char) : Decimal :=
  ⟨natural (whole ++ fraction), -(fraction.length : Int)⟩

/-- Digits with or without a point, or a point and digits. -/
def places : Parser Decimal :=
  orElse
    (do
      let whole ← digits
      let behind ← optional fraction
      pure (ofPlaces whole (behind.getD [])))
    (do
      symbol '.'
      let behind ← digits
      pure (ofPlaces [] behind))

def exponent : Parser Int := do
  orElse (symbol 'e') (symbol 'E')
  let minus ← sign
  let ds ← commit digits
  pure (if minus then -(natural ds : Int) else natural ds)

def decimal : Parser Binary64 := do
  let minus ← sign
  let d ← places
  let e ← optional exponent
  pure (Decimal.toBinary64 minus { d with exponent := d.exponent + e.getD 0 })

def caseless (word : String) (x : Binary64) : Parser Binary64 := fun s =>
  if (s.take word.length).map Char.toLower = word.toList then .done x (s.drop word.length)
  else .declined ⟨s, .number⟩

def plainLiteral : Parser Binary64 :=
  orElse (blame .number decimal)
    (orElse (caseless "nan" .nan) (caseless "inf" .infinity))

/-- A literal may have a minus sign in front of its own sign. -/
def literal : Parser Binary64 :=
  orElse plainLiteral do
    symbol '-'
    let x ← plainLiteral
    pure x.neg

end Parser

end ShaderTree
