/-
The fewest decimal digits that still name one double. A finite positive double is a whole number of
powers of two; the decimals that round to it form an interval around it, whose ends belong to it
when the whole number is even. The coarsest decimal grid with a point in that interval gives the
fewest digits, and of its points the one nearest to the double is taken, the even one on a tie.
-/

namespace Roster.Decimal

/-- The number `mantissa · 2 ^ exponent`. -/
structure Dyadic where
  mantissa : Nat
  exponent : Int
  deriving DecidableEq, Repr

/-- The bit of a double's mantissa that is not written down: a one and fifty-two zeros in binary. -/
def leadingBit : Nat := 0x10000000000000

/-- The magnitude of the finite double with these bits. -/
def Dyadic.ofBits (bits : Nat) : Dyadic :=
  let fraction : Nat := bits % leadingBit
  let scale : Nat := bits / leadingBit % 2048
  if scale = 0 then ⟨fraction, -1074⟩ else ⟨leadingBit + fraction, (scale : Int) - 1075⟩

/-- The number `coefficient · 10 ^ exponent`. -/
structure Decadic where
  coefficient : Nat
  exponent : Int
  deriving DecidableEq, Repr

namespace Dyadic

/-- How far the interval of a double reaches below it, in quarters of its last place: half a place,
but a quarter where the doubles below lie twice as close. -/
def reachBelow (x : Dyadic) : Nat :=
  if x.mantissa = leadingBit ∧ -1074 < x.exponent then 1 else 2

/-- The quarters of the last place of `x` in `coefficient · 10 ^ p`, as a fraction. -/
def quarters (x : Dyadic) (p : Int) (coefficient : Nat) : Nat × Nat :=
  (coefficient * Nat.pow 10 p.toNat * Nat.pow 2 (2 - x.exponent).toNat,
    Nat.pow 10 (-p).toNat * Nat.pow 2 (x.exponent - 2).toNat)

/-- The decimal `coefficient · 10 ^ p` rounds to `x`. -/
def admits (x : Dyadic) (p : Int) (coefficient : Nat) : Bool :=
  let (num, den) := x.quarters p coefficient
  let low := (4 * x.mantissa - x.reachBelow) * den
  let high := (4 * x.mantissa + 2) * den
  (low < num && num < high) || (x.mantissa % 2 = 0 && (num = low || num = high))

/-- The point of the grid of multiples of `10 ^ p` that rounds to `x` and is nearest to it. -/
def onGrid? (x : Dyadic) (p : Int) : Option Decadic :=
  let (unit, den) := x.quarters p 1
  let below := 4 * x.mantissa * den / unit
  let twiceOver := 2 * (4 * x.mantissa * den % unit)
  let belowFirst := twiceOver < unit || (twiceOver = unit && below % 2 = 0)
  let near := if belowFirst then below else below + 1
  let far := if belowFirst then below + 1 else below
  if x.admits p near then some ⟨near, p⟩
  else if x.admits p far then some ⟨far, p⟩
  else none

/-- The grids that a double can need, coarsest first. -/
def grids : List Int := (List.range 634).map fun k : Nat => 309 - (k : Int)

/-- The shortest decimal that rounds to `x`; its coefficient does not end in a zero. -/
def shortest (x : Dyadic) : Decadic := (grids.findSome? x.onGrid?).getD ⟨0, 0⟩

end Dyadic

end Roster.Decimal
