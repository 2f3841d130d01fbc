/-
The two ways to look for an address that occurs twice, and their names.
-/

namespace Roster

/-- How a list is searched for a repeated address. -/
inductive Scan where
  /-- Each address is compared with all that follow it. -/
  | pairwise
  /-- Each address is looked up in the set of those before it. -/
  | hashSet
  deriving DecidableEq, Repr

namespace Scan

/-- Lists are compared pair by pair unless something else is asked for. -/
instance : Inhabited Scan := ⟨pairwise⟩

/-- The name in settings. -/
def name : Scan → String
  | pairwise => "pairwise"
  | hashSet => "hash_set"

/-- The name in log events. -/
def label : Scan → String
  | pairwise => "Pairwise"
  | hashSet => "HashSet"

/-- The scan with this name in settings. -/
def ofName? (name : String) : Option Scan :=
  if name = "pairwise" then some pairwise else if name = "hash_set" then some hashSet else none

theorem ofName?_name (s : Scan) : ofName? s.name = some s := by
  cases s <;> simp [ofName?, name]

end Scan

end Roster
