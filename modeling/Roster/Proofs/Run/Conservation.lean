/-
Conservation: over any run, the final list and the addresses taken out are together the first list
and the addresses put in, as multisets. One step conserves (`Step.conserves`), so a run does. A
refused step leaves the list alone, and leaving it out of the run changes no other outcome.
-/
import Mathlib.Algebra.Order.Group.Multiset
import Roster.Proofs.Run

namespace Roster

/-! ## What a step moves -/

namespace Step

/-- The addresses that a step took out of the list, going by its answer. -/
def takenOut : Step → Except ListError Answer → List Address
  | remove target, .ok _ => [target]
  | pop _, .ok (.popped a) => [a]
  | popRestore _, .ok (.restored _ a) => [a]
  | removeAll target, .ok (.removedAll count) => List.replicate count target
  | _, _ => []

/-- The addresses that a step put into the list, going by its answer. -/
def putIn : Step → Except ListError Answer → List Address
  | push a, .ok _ => [a]
  | insert _ a, .ok _ => [a]
  | popRestore _, .ok (.restored _ a) => [a]
  | _, _ => []

/-- The copies of an address and the rest make up the list. -/
theorem filter_ne_append_replicate (xs : List Address) (target : Address) :
    (xs.filter (· ≠ target) ++ List.replicate (xs.count target) target).Perm xs := by
  have hc : List.replicate (xs.count target) target =
      xs.filter fun a => !decide (a ≠ target) := by
    rw [← List.filter_beq]
    refine List.filter_congr fun a _ => ?_
    rw [decide_not, Bool.not_not]
    rfl
  rw [hc]
  exact List.filter_append_perm _ xs

/-- One step: the new list and what was taken out are the old list and what was put in. -/
theorem conserves (xs : List Address) (step : Step) :
    ((step.perform xs).value.state : Multiset Address) +
        step.takenOut (step.perform xs).value.answer =
      xs + step.putIn (step.perform xs).value.answer := by
  have hc := step.effect xs
  generalize (step.perform xs).value = out at hc
  rw [Multiset.coe_add, Multiset.coe_add, Multiset.coe_eq_coe]
  cases hc with
  -- nothing is moved
  | refused e => cases step <;> exact .refl _
  | asked h a => cases step <;> first | exact .refl _ | cases h
  | removed h =>
    show (xs.erase _ ++ [_]).Perm (xs ++ [])
    rw [List.append_nil]
    exact (List.perm_append_singleton _ _).trans (List.perm_cons_erase h).symm
  | popped h =>
    show (xs.eraseIdx _ ++ [_]).Perm (xs ++ [])
    rw [List.append_nil]
    exact (List.perm_append_singleton _ _).trans (List.getElem_cons_eraseIdx_perm h)
  | pushed a =>
    show (xs ++ [a] ++ []).Perm (xs ++ [a])
    rw [List.append_nil]
  | inserted index a =>
    show (insertAt xs index a ++ []).Perm (xs ++ [a])
    rw [List.append_nil]
    exact (List.perm_insertIdx a xs (Nat.min_le_right index xs.length)).trans
      (List.perm_append_singleton a xs).symm
  | restored h => exact .refl _
  | removedAll target =>
    show (xs.filter (· ≠ target) ++ List.replicate (xs.count target) target).Perm (xs ++ [])
    rw [List.append_nil]
    exact filter_ne_append_replicate xs target

end Step

/-! ## What a run moves -/

/-- What the steps of a run moved, by one of the accounts above, in order. -/
def gather (account : Step → Except ListError Answer → List Address) (steps : List Step)
    (outs : List (Outcome ListError)) : List Address :=
  (List.zipWith (fun step out => account step out.answer) steps outs).flatten

theorem gather_cons (account : Step → Except ListError Answer → List Address) (step : Step)
    (steps : List Step) (out : Outcome ListError) (outs : List (Outcome ListError)) :
    gather account (step :: steps) (out :: outs) =
      account step out.answer ++ gather account steps outs := rfl

theorem run_balance (xs : List Address) (steps : List Step) :
    (listAfter xs (run xs steps).value : Multiset Address) +
        gather Step.takenOut steps (run xs steps).value =
      xs + gather Step.putIn steps (run xs steps).value := by
  induction steps generalizing xs with
  | nil => rfl
  | cons step steps ih =>
    have h1 := step.conserves xs
    rw [run_cons]
    simp only [listAfter_cons, gather_cons, ← Multiset.coe_add]
    -- the rest of the run balances from the list that the first step left
    have h2 := ih (step.perform xs).value.state
    generalize (step.perform xs).value = out at h1 h2 ⊢
    generalize run out.state steps = rest at h2 ⊢
    calc (listAfter out.state rest.value : Multiset Address) +
          (step.takenOut out.answer + gather Step.takenOut steps rest.value)
        = (listAfter out.state rest.value + gather Step.takenOut steps rest.value) +
            step.takenOut out.answer := by
          rw [add_comm (step.takenOut _ : Multiset Address), add_assoc]
      _ = (out.state + step.takenOut out.answer) + gather Step.putIn steps rest.value := by
          rw [h2, add_right_comm]
      _ = xs + (step.putIn out.answer + gather Step.putIn steps rest.value) := by
          rw [h1, add_assoc]

/-! ## Refused steps -/

/-- A step that leaves the list alone adds its own outcome and its own events to a run, and
nothing else comes out differently without it. -/
theorem run_without {xs : List Address} {before after : List Step} {step : Step}
    (h : (step.perform (listAfter xs (run xs before).value)).value.state =
      listAfter xs (run xs before).value) :
    let reached := listAfter xs (run xs before).value
    run xs (before ++ step :: after) =
        ⟨(run xs before).value ++ (step.perform reached).value :: (run reached after).value,
          (run xs before).events ++ ((step.perform reached).events ++ (run reached after).events)⟩ ∧
      run xs (before ++ after) =
        ⟨(run xs before).value ++ (run reached after).value,
          (run xs before).events ++ (run reached after).events⟩ := by
  intro reached
  refine ⟨?_, run_append xs before after⟩
  rw [run_append, run_cons, h]

/-- Over any run nothing is lost and nothing doubled: every step is answered, and the list in the
end with all that was taken out is the list in the beginning with all that was put in. A query and
a refused step leave the list as it is, and the run without a refused step has the same outcomes
and the same log but for that step's own. -/
theorem run_conserves (xs : List Address) (steps : List Step) :
    (run xs steps).value.length = steps.length ∧
    ((listAfter xs (run xs steps).value : Multiset Address) +
        gather Step.takenOut steps (run xs steps).value =
      xs + gather Step.putIn steps (run xs steps).value) ∧
    (∀ k step out, steps[k]? = some step → (run xs steps).value[k]? = some out →
      (step.isQuery = true ∨ out.answer.isOk = false) →
        out.state = listAfter xs ((run xs steps).value.take k)) ∧
    (∀ before step after, steps = before ++ step :: after →
      let reached := listAfter xs (run xs before).value
      (step.perform reached).value.answer.isOk = false →
        run xs steps =
          ⟨(run xs before).value ++ (step.perform reached).value :: (run reached after).value,
            (run xs before).events ++
              ((step.perform reached).events ++ (run reached after).events)⟩ ∧
        run xs (before ++ after) =
          ⟨(run xs before).value ++ (run reached after).value,
            (run xs before).events ++ (run reached after).events⟩) := by
  refine ⟨length_run xs steps, run_balance xs steps, ?_, ?_⟩
  · intro k step out hs ho h
    rw [getElem?_run hs] at ho
    cases ho
    exact Step.state_of_refused_or_query h
  · rintro before step after rfl reached h
    exact run_without (Step.state_of_refused_or_query (.inr h))

end Roster
