/-
Steps on a current list, one after the other. A query and a refused step leave the list as it is;
every step is answered, and the log of a run is that of its steps in order.
-/
import Roster.Removal

namespace Roster

/-- One request on the current list. -/
inductive Step where
  | lookup (target : Address)
  | contains (target : Address)
  | hasDuplicate (scan : Scan)
  | remove (target : Address)
  | pop (index : Nat)
  | push (a : Address)
  | insert (index : Nat) (a : Address)
  /-- Takes an element out and puts it back. -/
  | popRestore (index : Nat)
  /-- Removes an address until that is refused. -/
  | removeAll (target : Address)
  deriving DecidableEq

/-- What a step that went well answers. -/
inductive Answer where
  | lookup (r : Lookup)
  | contains (b : Bool)
  | duplicate (b : Bool)
  /-- The list has changed, and there is nothing more to say. -/
  | done
  | popped (removed : Address)
  /-- An element was taken out and put back; `same` tells whether that gave the list before. -/
  | restored (same : Bool) (removed : Address)
  | removedAll (count : Nat)
  deriving DecidableEq

/-- The answer of a step, and the list after it. -/
structure Outcome (ε : Type) where
  answer : Except ε Answer
  state : List Address

namespace Step

/-- Carries a step out on the list `xs`. -/
def perform (xs : List Address) : Step → Logged (Outcome ListError)
  | lookup target => do return ⟨.ok (.lookup (← Roster.lookup xs target)), xs⟩
  | contains target => do return ⟨.ok (.contains (← Roster.contains xs target)), xs⟩
  | hasDuplicate scan => do return ⟨(← Roster.hasDuplicate scan xs).map .duplicate, xs⟩
  | remove target => do
    match ← Roster.remove xs target with
    | .error e => return ⟨.error e, xs⟩
    | .ok ys => return ⟨.ok .done, ys⟩
  | pop index => do
    match ← Roster.pop xs index with
    | .error e => return ⟨.error e, xs⟩
    | .ok p => return ⟨.ok (.popped p.removed), p.rest⟩
  | push a => return ⟨.ok .done, xs ++ [a]⟩
  | insert index a => return ⟨.ok .done, insertAt xs index a⟩
  | popRestore index => do
    match ← Roster.pop xs index with
    | .error e => return ⟨.error e, xs⟩
    | .ok p =>
      let ys := insertAt p.rest index p.removed
      return ⟨.ok (.restored (ys = xs) p.removed), ys⟩
  | removeAll target => do
    let (count, ys) ← Roster.removeAll xs target
    return ⟨.ok (.removedAll count), ys⟩

end Step

/-- Carries the steps out one after the other, each on the list that the one before it left. -/
def run (xs : List Address) : List Step → Logged (List (Outcome ListError))
  | [] => return []
  | step :: steps => do
    let out ← step.perform xs
    return out :: (← run out.state steps)

end Roster
