/-
Decimals written out: with a point where the exponent of the first digit is moderate, with an
exponent of ten elsewhere.
-/
import Roster.Decimal.Shortest

namespace Roster.Decimal

/-- The exponents of the first digit for which no exponent is written. -/
structure Layout where
  least : Int
  greatest : Int
  deriving DecidableEq, Repr

namespace Layout

/-- The digits before and after a point that follows `places` digits, both sides never empty. -/
def pointed (digits : List Char) (places : Int) : List Char :=
  if places ≤ 0 then '0' :: '.' :: (List.replicate (-places).toNat '0' ++ digits)
  else
    let whole := digits.take places.toNat ++ List.replicate (places.toNat - digits.length) '0'
    let fraction := digits.drop places.toNat
    whole ++ '.' :: (if fraction = [] then ['0'] else fraction)

/-- One digit, the others after a point if there are any, and the exponent with its sign. -/
def scientific (digits : List Char) (exponent : Int) : List Char :=
  digits.take 1 ++ (if digits.length ≤ 1 then [] else '.' :: digits.drop 1) ++
    ('e' :: (if exponent < 0 then '-' else '+') :: Nat.toDigits 10 exponent.natAbs)

/-- A decimal written out. -/
def unsigned (l : Layout) (d : Decadic) : List Char :=
  let digits := Nat.toDigits 10 d.coefficient
  let first := d.exponent + digits.length - 1
  if l.least ≤ first ∧ first ≤ l.greatest then pointed digits (first + 1)
  else scientific digits first

/-- The bit that is set in a double below zero. -/
def signBit : Nat := 0x8000000000000000

/-- A finite double in the fewest digits that read back as it; zero keeps its sign. -/
def render (l : Layout) (x : Float) : String :=
  let bits := x.toBits.toNat
  let magnitude := Dyadic.ofBits bits
  let digits := if magnitude.mantissa = 0 then pointed ['0'] 1 else l.unsigned magnitude.shortest
  String.ofList (if bits < signBit then digits else '-' :: digits)

end Layout

end Roster.Decimal
