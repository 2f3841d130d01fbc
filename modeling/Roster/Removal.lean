/-
Taking one element out of a list, by index or by value. The others keep their order; a refused
removal gives no list.
-/
import Roster.Duplicates
import Roster.Lookup

namespace Roster

/-- What is left of a list, and the element taken out. -/
structure Popped where
  rest : List Address
  removed : Address
  deriving DecidableEq

/-- Takes out the element at an index. -/
def pop (xs : List Address) (index : Nat) : Logged (Except ListError Popped) :=
  match xs[index]? with
  | none => ⟨.error (.indexOutOfBounds index xs.length), [.popRefused index xs.length]⟩
  | some removed => ⟨.ok ⟨xs.eraseIdx index, removed⟩, [.popped index xs.length removed]⟩

/-- Takes out the first occurrence of an address. -/
def remove (xs : List Address) (target : Address) : Logged (Except ListError (List Address)) := do
  match (← lookup xs target).position? with
  | none => Logged.tell (.removeRefused xs.length target); return .error .notFound
  | some index => return (← pop xs index).map (·.rest)

/-- What a pop leaves is one shorter. -/
theorem length_of_pop {xs : List Address} {i : Nat} {p : Popped}
    (h : (pop xs i).value = .ok p) : p.rest.length + 1 = xs.length := by
  unfold pop at h
  split at h
  · cases h
  · rename_i a ha
    cases h
    have hi : i < xs.length := (List.getElem?_eq_some_iff.1 ha).1
    simp only [List.length_eraseIdx, hi, if_true]
    omega

/-- What a removal leaves is one shorter. -/
theorem length_of_remove {xs ys : List Address} {target : Address}
    (h : (remove xs target).value = .ok ys) : ys.length + 1 = xs.length := by
  unfold remove at h
  rw [Logged.value_bind] at h
  split at h
  · cases h
  · rename_i i _
    rw [Logged.value_bind, Logged.value_pure] at h
    cases hp : (pop xs i).value with
    | error e => rw [hp] at h; cases h
    | ok p => rw [hp] at h; cases h; exact length_of_pop hp

/-- Takes out every occurrence, one removal after the other, until one is refused: how many went
well, and what is left. -/
def removeAll (xs : List Address) (target : Address) : Logged (Nat × List Address) :=
  match _h : (remove xs target).value with
  | .error _ => ⟨(0, xs), (remove xs target).events⟩
  | .ok ys =>
    let more := removeAll ys target
    ⟨(more.value.1 + 1, more.value.2), (remove xs target).events ++ more.events⟩
termination_by xs.length
decreasing_by have := length_of_remove _h; omega

/-- Puts an address in front of the element at an index, at the end if there is none. -/
def insertAt (xs : List Address) (index : Nat) (a : Address) : List Address :=
  xs.insertIdx (min index xs.length) a

end Roster
