/-
Why an operation on a list of addresses is refused. A refused operation gives no part of a result.
-/

namespace Roster

/-- Why an operation on a list gives no answer. -/
inductive ListError where
  /-- The list is empty. -/
  | empty
  /-- The address does not occur. -/
  | notFound
  /-- The list, of length `len`, ends before the index. -/
  | indexOutOfBounds (index len : Nat)
  deriving DecidableEq, Repr

/-- The message of a refused operation. -/
def ListError.message : ListError → String
  | empty => "A is empty"
  | notFound => "Address not in array."
  | indexOutOfBounds .. => "Index must be < A length"

end Roster
