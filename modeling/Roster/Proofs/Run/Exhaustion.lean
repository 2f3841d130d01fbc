/-
Removals of one address until one is refused. While a copy is left a removal takes the first of them
out, and without one it is refused; so both the loop and the run of that many removals follow the
copies (`copies_induction`), and they come to the same answers, the same list and the same log
(`removeAll_takes_every_copy`).
-/
import Roster.Proofs.Run

namespace Roster

variable {xs : List Address} {target : Address}

/-- As many removals of an address as it has copies, and one more. -/
def exhaustion (xs : List Address) (target : Address) : Logged (List (Outcome ListError)) :=
  run xs (List.replicate (xs.count target + 1) (.remove target))

theorem exhaustion_of_notMem (h : target ∉ xs) :
    exhaustion xs target = ⟨[⟨.error .notFound, xs⟩], (remove xs target).events⟩ := by
  rw [exhaustion, List.count_eq_zero_of_not_mem h, List.replicate_one, run_cons,
    Step.perform_remove_of_notMem h, remove_of_notMem h]
  rfl

/-- The first removal takes a copy, and the others are as many as the list it left asks for. -/
theorem exhaustion_of_mem (h : target ∈ xs) :
    exhaustion xs target =
      ⟨⟨.ok .done, xs.erase target⟩ :: (exhaustion (xs.erase target) target).value,
        (remove xs target).events ++ (exhaustion (xs.erase target) target).events⟩ := by
  rw [exhaustion, List.replicate_succ, run_cons, Step.perform_remove_of_mem h, remove_of_mem h,
    exhaustion, count_erase_add_one h]

theorem answers_exhaustion (xs : List Address) (target : Address) :
    (exhaustion xs target).value.map (·.answer) =
      List.replicate (xs.count target) (.ok .done) ++ [.error .notFound] := by
  induction xs using copies_induction target with
  | absent xs h =>
    rw [exhaustion_of_notMem h, List.count_eq_zero_of_not_mem h]
    rfl
  | present xs h ih =>
    rw [exhaustion_of_mem h, List.map_cons, ih, ← count_erase_add_one h, List.replicate_succ,
      List.cons_append]

theorem listAfter_exhaustion (xs : List Address) (target : Address) :
    listAfter xs (exhaustion xs target).value = xs.filter (· ≠ target) := by
  induction xs using copies_induction target with
  | absent xs h =>
    rw [exhaustion_of_notMem h, listAfter_cons, listAfter_nil, filter_ne_of_notMem h]
  | present xs h ih => rw [exhaustion_of_mem h, listAfter_cons, ih, filter_ne_erase]

theorem events_removeAll (xs : List Address) (target : Address) :
    (removeAll xs target).events = (exhaustion xs target).events := by
  induction xs using copies_induction target with
  | absent xs h => rw [removeAll_of_notMem h, exhaustion_of_notMem h]
  | present xs h ih => rw [removeAll_of_mem h, exhaustion_of_mem h, ih]

/-- Removing an address until that is refused comes to an end: there is an answer for every copy,
and then a refusal since the address does not occur. What is left is the list without the address,
all else in its order, and neither search finds the address there. -/
theorem removeAll_takes_every_copy (xs : List Address) (target : Address) :
    let left := xs.filter (· ≠ target)
    let calls := run xs (List.replicate (xs.count target + 1) (.remove target))
    removeAll xs target = ⟨(xs.count target, left), calls.events⟩ ∧
    calls.value.map (·.answer) =
      List.replicate (xs.count target) (.ok .done) ++ [.error .notFound] ∧
    listAfter xs calls.value = left ∧
    (contains left target).value = false ∧ (lookup left target).value = .notFound := by
  intro left calls
  have hgone : target ∉ left := by
    intro hmem
    exact of_decide_eq_true (List.mem_filter.1 hmem).2 rfl
  refine ⟨?_, answers_exhaustion xs target, listAfter_exhaustion xs target, ?_, ?_⟩
  · calc removeAll xs target
        = ⟨(removeAll xs target).value, (removeAll xs target).events⟩ := rfl
      _ = ⟨(xs.count target, left), calls.events⟩ := by
        rw [removeAll_value, events_removeAll]; rfl
  · rw [contains_eq, decide_eq_false hgone]
  · rw [lookup_of_notMem hgone]

end Roster
