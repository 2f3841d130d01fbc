/-
Whether an address occurs twice in a list. Both scans stop at the first repetition they see; the
empty list is refused.
-/
import Std.Data.HashSet
import Roster.Event
import Roster.ListError

namespace Roster

namespace Scan

/-- Whether an address occurs again among those that follow it. -/
def recurs : List Address → Bool
  | [] => false
  | x :: rest => rest.contains x || recurs rest

/-- Whether an address occurs among those before it, or in `seen`. -/
def meets (seen : Std.HashSet Address) : List Address → Bool
  | [] => false
  | x :: rest => seen.contains x || meets (seen.insert x) rest

/-- Whether the scan sees an address twice. -/
def repeats : Scan → List Address → Bool
  | pairwise, xs => recurs xs
  | hashSet, xs => meets ∅ xs

end Scan

/-- Whether an address occurs twice, by the given scan. -/
def hasDuplicate (scan : Scan) : List Address → Logged (Except ListError Bool)
  | [] => ⟨.error .empty, [.scannedEmpty]⟩
  | xs => ⟨.ok (scan.repeats xs), [.scanned xs.length scan (scan.repeats xs)]⟩

end Roster
