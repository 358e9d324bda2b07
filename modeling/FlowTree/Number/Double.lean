/-!
Numbers as a 64-bit floating-point number holds them: the nearest multiple of a power of two with 53
bits, a tie going to the even neighbour. Everything is computed exactly on natural numbers.
-/

namespace FlowTree

/-- The quotient rounded to the nearest natural number, a tie to the even one. -/
def roundQuotient (numerator denominator : Nat) : Nat :=
  let whole := numerator / denominator
  let twice := 2 * (numerator % denominator)
  if twice < denominator then whole
  else if denominator < twice then whole + 1
  else whole + whole % 2

/-- The non-negative number `mantissa * 2 ^ exponent`. -/
structure Double where
  mantissa : Nat
  exponent : Int
  deriving DecidableEq, Repr

namespace Double

/-- The number as a quotient. -/
def quotient (x : Double) : Nat × Nat :=
  (x.mantissa <<< x.exponent.toNat, 1 <<< (-x.exponent).toNat)

/-- The double nearest to a positive quotient, `none` when it is beyond the greatest. -/
def nearest? (numerator denominator : Nat) : Option Double :=
  if numerator = 0 then some ⟨0, 0⟩
  else
    let guess : Int := (numerator.log2 : Int) - denominator.log2
    let scaled (q : Int) : Nat × Nat := (numerator <<< (-q).toNat, denominator <<< q.toNat)
    -- The quotient lies between two to the `guess - 1` and two to the `guess + 1`.
    let (n, d) := scaled guess
    let top := if n < d then guess - 1 else guess
    let exponent := max (top - 52) (-1074)
    let (n, d) := scaled exponent
    let mantissa := roundQuotient n d
    if 1024 ≤ (mantissa.log2 : Int) + exponent then none else some ⟨mantissa, exponent⟩

/-- The nearest double; the greatest exponent stands in for a number beyond all of them. -/
def ofQuotient (numerator denominator : Nat) : Double :=
  (nearest? numerator denominator).getD ⟨1, 1024⟩

/-- The sum rounded to the nearest double. -/
def add (x y : Double) : Double :=
  let (a, b) := x.quotient
  let (c, d) := y.quotient
  ofQuotient (a * d + c * b) (b * d)

/-- The whole part. -/
def truncate (x : Double) : Nat :=
  let (n, d) := x.quotient
  n / d

/-- The number with the given count of decimal places, a tie going to the even neighbour. -/
def fixed (places : Nat) (x : Double) : String :=
  let (n, d) := x.quotient
  let digits := toString (roundQuotient (n * Nat.pow 10 places) d)
  let digits := String.ofList (List.replicate (places + 1 - digits.length) '0') ++ digits
  let whole := digits.toList.take (digits.length - places)
  if places = 0 then digits
  else String.ofList whole ++ "." ++ String.ofList (digits.toList.drop (digits.length - places))

end Double

/-- A decimal number: the digits of `digits` with the point moved `exponent` places to the right. -/
structure Decimal where
  negative : Bool
  digits : Nat
  exponent : Int
  deriving DecidableEq, Repr

/-- The double nearest to the magnitude of a decimal number, `none` when it is beyond the greatest. -/
def Decimal.double? (x : Decimal) : Option Double :=
  let size : Int := (toString x.digits).length
  -- Beyond these bounds the answer is known, and no great powers of ten have to be computed.
  if x.digits = 0 || size + x.exponent < -400 then some ⟨0, 0⟩
  else if 400 < size + x.exponent then none
  else Double.nearest? (x.digits * Nat.pow 10 x.exponent.toNat) (Nat.pow 10 (-x.exponent).toNat)

end FlowTree
