/-
Where an address first occurs in a list. The answer is an index and a flag; an answer without a hit
carries the index that stands for "nowhere".
-/
import Roster.Event
import Roster.Word

namespace Roster

/-- The answer to a search: the index, and whether anything was found there. -/
structure Lookup where
  index : Nat
  found : Bool
  deriving DecidableEq, Repr

namespace Lookup

/-- The answer of a search that finds nothing. -/
def notFound : Lookup := ⟨notFoundIndex, false⟩

/-- The answer for a first position, or for none. -/
def ofPosition : Option Nat → Lookup
  | some i => ⟨i, true⟩
  | none => notFound

/-- The index of a hit. -/
def position? (r : Lookup) : Option Nat := if r.found then some r.index else none

/-- The index as a word; the flag plays no part. -/
def word (r : Lookup) : Nat := Word.ofIndex r.index

@[simp] theorem position?_ofPosition (p : Option Nat) : (ofPosition p).position? = p := by
  cases p <;> rfl

end Lookup

/-- The first place of `target`. -/
def lookup (xs : List Address) (target : Address) : Logged Lookup :=
  let r := Lookup.ofPosition (xs.findIdx? (· = target))
  ⟨r, [.lookedUp xs.length target r.found]⟩

/-- Whether `target` occurs. -/
def contains (xs : List Address) (target : Address) : Logged Bool := do
  return (← lookup xs target).found

end Roster
