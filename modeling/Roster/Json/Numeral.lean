/-
JSON numbers: their written form, and the value it stands for. Whole numbers of sixty-four bits
keep their value. Any other number is a double, made from the leading digits that fit sixty-four
bits by one multiplication or division by a power of ten; one too large for a double is refused.
-/

namespace Roster.Json

/-! ## Written form -/

/-- A number as written: sign, digits before and after the point, and exponent. -/
structure Numeral where
  negative : Bool
  whole : List Nat
  fraction : List Nat
  exponent : Option Int
  deriving DecidableEq, Repr

namespace Numeral

/-- The decimal digits at the head of a text, by value, and what follows them. -/
def digits (s : List Char) : List Nat × List Char :=
  ((s.takeWhile Char.isDigit).map fun c => c.toNat - '0'.toNat, s.dropWhile Char.isDigit)

/-- At least one decimal digit. -/
def readDigits (s : List Char) : Option (List Nat × List Char) :=
  if (digits s).1 = [] then none else some (digits s)

/-- A minus sign, if there is one. -/
def sign : List Char → Bool × List Char
  | '-' :: rest => (true, rest)
  | s => (false, s)

/-- The sign of an exponent, which may be written plus. -/
def exponentSign : List Char → Bool × List Char
  | '+' :: rest => (false, rest)
  | s => sign s

/-- Digits without a zero in front of others. -/
def isPlainWhole : List Nat → Bool
  | 0 :: _ :: _ => false
  | _ => true

/-- The digits before the point. -/
def readWhole (s : List Char) : Option (List Nat × List Char) :=
  (readDigits s).filter fun p => isPlainWhole p.1

/-- The digits after the point, none if there is no point. -/
def readFraction : List Char → Option (List Nat × List Char)
  | '.' :: s => readDigits s
  | s => some ([], s)

/-- The number that decimal digits write. -/
def ofDigits (ds : List Nat) : Nat := ds.foldl (fun n d => 10 * n + d) 0

/-- The number that a sign and decimal digits write. -/
def signed (negative : Bool) (ds : List Nat) : Int :=
  if negative then -(ofDigits ds : Int) else ofDigits ds

/-- The exponent after `e` or `E`, if there is one. -/
def readExponent : List Char → Option (Option Int × List Char)
  | [] => some (none, [])
  | c :: s =>
    if c = 'e' ∨ c = 'E' then
      (readDigits (exponentSign s).2).map fun p => (some (signed (exponentSign s).1 p.1), p.2)
    else some (none, c :: s)

/-- The number at the head of a text, as far as it goes, and what follows it. -/
def read (s : List Char) : Option (Numeral × List Char) := do
  let (negative, s) := sign s
  let (whole, s) ← readWhole s
  let (fraction, s) ← readFraction s
  let (exponent, s) ← readExponent s
  return (⟨negative, whole, fraction, exponent⟩, s)

theorem length_lt_of_readDigits {s rest : List Char} {ds : List Nat}
    (h : readDigits s = some (ds, rest)) : rest.length < s.length := by
  have hl := congrArg List.length (List.takeWhile_append_dropWhile (p := Char.isDigit) (l := s))
  unfold readDigits at h
  split at h
  · cases h
  · rename_i hne
    cases h
    have : (s.takeWhile Char.isDigit).length ≠ 0 := by
      simpa [digits, List.length_eq_zero_iff] using hne
    simp only [List.length_append] at hl
    omega

theorem length_sign_le (s : List Char) : (sign s).2.length ≤ s.length := by
  unfold sign; split <;> simp

theorem length_exponentSign_le (s : List Char) : (exponentSign s).2.length ≤ s.length := by
  unfold exponentSign
  split
  · simp
  · exact length_sign_le _

theorem length_lt_of_readWhole {s rest : List Char} {ds : List Nat}
    (h : readWhole s = some (ds, rest)) : rest.length < s.length :=
  length_lt_of_readDigits (Option.filter_eq_some_iff.1 h).1

theorem length_le_of_readFraction {s rest : List Char} {ds : List Nat}
    (h : readFraction s = some (ds, rest)) : rest.length ≤ s.length := by
  unfold readFraction at h
  split at h
  · have := length_lt_of_readDigits h
    simp only [List.length_cons]
    omega
  · cases h; exact Nat.le_refl _

theorem length_le_of_readExponent {s rest : List Char} {e : Option Int}
    (h : readExponent s = some (e, rest)) : rest.length ≤ s.length := by
  unfold readExponent at h
  split at h
  · cases h; exact Nat.le_refl _
  · rename_i c s
    split at h
    · obtain ⟨p, hp, he⟩ := Option.map_eq_some_iff.1 h
      cases he
      have := length_lt_of_readDigits hp
      have := length_exponentSign_le s
      simp only [List.length_cons]
      omega
    · cases h; exact Nat.le_refl _

theorem length_lt_of_read {s rest : List Char} {n : Numeral} (h : read s = some (n, rest)) :
    rest.length < s.length := by
  simp only [read, Option.bind_eq_bind, Option.bind_eq_some_iff, Option.pure_def,
    Option.some.injEq, Prod.mk.injEq, Prod.exists] at h
  obtain ⟨ds, r1, h1, fs, r2, h2, e, r3, h3, -, rfl⟩ := h
  have h0 := length_sign_le s
  have h1 := length_lt_of_readWhole h1
  have h2 := length_le_of_readFraction h2
  have h3 := length_le_of_readExponent h3
  omega

end Numeral

/-! ## Value -/

/-- A number's value: exact for whole numbers of sixty-four bits, a double otherwise. -/
inductive Number where
  | integer (n : Int)
  | float (x : Float)
  deriving DecidableEq, Repr

/-- The nearest double to a power of ten. -/
def powerOfTen (n : Nat) : Float := Float.ofScientific 1 false n

/-- Division by a power of ten, in steps a double can make, until nothing is left. -/
def shrink (x : Float) (n : Nat) : Float :=
  if n ≤ 308 then x / powerOfTen n
  else if x == 0 then x
  else shrink (x / powerOfTen 308) (n - 308)
termination_by n

/-- The double for `significand · 10 ^ e`, unless that is too large. -/
def scaled? (significand : Nat) (e : Int) : Option Float :=
  let x := Float.ofNat significand
  if e < 0 then some (shrink x (-e).toNat)
  else if e ≤ 308 then
    let y := x * powerOfTen e.toNat
    if y.isInf then none else some y
  else if significand = 0 then some x
  else none

/-- One more than the largest number of sixty-four bits. -/
def wordBound : Nat := 0x10000000000000000

/-- Takes digits up as long as the number fits sixty-four bits: the number, and the digits left. -/
def takeDigits (n : Nat) : List Nat → Nat × List Nat
  | [] => (n, [])
  | d :: ds => if 10 * n + d < wordBound then takeDigits (10 * n + d) ds else (n, d :: ds)

/-- The value of a number; none if it is too large for a double. -/
def Numeral.value? (x : Numeral) : Option Number :=
  let whole := takeDigits 0 x.whole
  if whole.2 = [] ∧ x.fraction = [] ∧ x.exponent = none then
    if ¬ x.negative then some (.integer whole.1)
    else if 1 ≤ whole.1 ∧ 2 * whole.1 ≤ wordBound then some (.integer (-whole.1))
    else some (.float (-(Float.ofNat whole.1)))
  else
    let all := takeDigits whole.1 x.fraction
    let places : Int := x.fraction.length - all.2.length
    (scaled? all.1 (whole.2.length - places + x.exponent.getD 0)).map fun y =>
      .float (if x.negative then -y else y)

end Roster.Json
