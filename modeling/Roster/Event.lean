/-
What the operations on lists report about themselves: an event per finished call at level trace,
an event per refusal at level debug, each with the length of the list it was given.
-/
import Roster.Address.Text
import Roster.Scan

namespace Roster

/-- How much an event matters; a refusal matters more than a step that went well. -/
inductive Level where
  | trace
  | debug
  deriving DecidableEq, Repr

/-- The name of a level. -/
def Level.name : Level → String
  | trace => "TRACE"
  | debug => "DEBUG"

/-- One report. `len` is always the length of the list that the call was given. -/
inductive Event where
  /-- A list was searched for an address. -/
  | lookedUp (len : Nat) (target : Address) (found : Bool)
  /-- A list was searched for a repeated address. -/
  | scanned (len : Nat) (scan : Scan) (duplicate : Bool)
  /-- A search for a repeated address was refused, since the list is empty. -/
  | scannedEmpty
  /-- The element at an index was taken out. -/
  | popped (index len : Nat) (removed : Address)
  /-- An index was refused, since the list ends before it. -/
  | popRefused (index len : Nat)
  /-- A removal was refused, since the address does not occur. -/
  | removeRefused (len : Nat) (target : Address)
  deriving DecidableEq

namespace Event

/-- Refusals are told at level debug, all else at level trace. -/
def level : Event → Level
  | lookedUp .. | scanned .. | popped .. => .trace
  | scannedEmpty | popRefused .. | removeRefused .. => .debug

/-- The event in words. -/
def message : Event → String
  | lookedUp .. => "index_of"
  | scanned .. => "has_duplicate"
  | scannedEmpty => "has_duplicate called with an empty array"
  | popped .. => "pop"
  | popRefused .. => "pop index out of bounds"
  | removeRefused .. => "address to remove is not in array"

/-- The values reported, by name and in order. -/
def fields : Event → List (String × String)
  | lookedUp len target found =>
    [("len", toString len), ("target", target.render), ("found", toString found)]
  | scanned len scan duplicate =>
    [("len", toString len), ("scan", scan.label), ("result", toString duplicate)]
  | scannedEmpty => []
  | popped index len removed =>
    [("index", toString index), ("len", toString len), ("removed", removed.render)]
  | popRefused index len => [("index", toString index), ("len", toString len)]
  | removeRefused len target => [("len", toString len), ("target", target.render)]

end Event

/-! ## Values with a log -/

/-- A value and the events on the way to it, oldest first. -/
structure Logged (α : Type) where
  value : α
  events : List Event

namespace Logged

variable {α β : Type}

/-- Reports one event. -/
def tell (e : Event) : Logged Unit := ⟨(), [e]⟩

/-- Events of a first step stand before those of the step that uses its value. -/
instance : Monad Logged where
  pure a := ⟨a, []⟩
  bind m f := ⟨(f m.value).value, m.events ++ (f m.value).events⟩

@[simp] theorem value_pure (a : α) : (pure a : Logged α).value = a := rfl

@[simp] theorem events_pure (a : α) : (pure a : Logged α).events = [] := rfl

@[simp] theorem value_bind (m : Logged α) (f : α → Logged β) :
    (m >>= f).value = (f m.value).value := rfl

@[simp] theorem events_bind (m : Logged α) (f : α → Logged β) :
    (m >>= f).events = m.events ++ (f m.value).events := rfl

@[simp] theorem events_tell (e : Event) : (tell e).events = [e] := rfl

theorem bind_eq (m : Logged α) (f : α → Logged β) :
    (m >>= f) = ⟨(f m.value).value, m.events ++ (f m.value).events⟩ := rfl

/-- A step that only changes the value reports nothing more. -/
theorem bind_pure_eq (m : Logged α) (f : α → β) :
    (m >>= fun a => pure (f a)) = ⟨f m.value, m.events⟩ := by
  rw [bind_eq, value_pure, events_pure, List.append_nil]

end Logged

end Roster
