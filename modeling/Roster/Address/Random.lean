/-
Addresses at random, each of the twenty bytes drawn on its own.
-/
import Roster.Address.Basic

namespace Roster.Address

variable {γ : Type} [RandomGen γ]

/-- Draws bytes one after the other. -/
def drawBytes (g : γ) : Nat → List UInt8 × γ
  | 0 => ([], g)
  | n + 1 =>
    let (b, g) := randNat g 0 255
    let (bs, g) := drawBytes g n
    (UInt8.ofNat b :: bs, g)

theorem length_drawBytes (g : γ) (n : Nat) : (drawBytes g n).1.length = n := by
  induction n generalizing g with
  | zero => rfl
  | succ n ih => simp [drawBytes, ih]

/-- Draws an address. -/
def draw (g : γ) : Address × γ :=
  (⟨(drawBytes g 20).1, length_drawBytes g 20⟩, (drawBytes g 20).2)

/-- Draws addresses one after the other. -/
def drawList (g : γ) : Nat → List Address × γ
  | 0 => ([], g)
  | n + 1 =>
    let (a, g) := draw g
    let (as, g) := drawList g n
    (a :: as, g)

end Roster.Address
