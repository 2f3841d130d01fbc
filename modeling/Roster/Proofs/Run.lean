/-
Runs of steps. What one step can do to the list is said once, by cases (`Step.Effect`); a run is
taken apart at any place into the run before and the run from the list reached there
(`run_append`), so that a fact about one step becomes a fact about runs by induction on the steps.
A script whose requests can all be read is such a run (`runScript_ok`).
-/
import Roster.Proofs.Removal
import Roster.Script

namespace Roster

/-! ## One step -/

namespace Step

/-- The steps that only ask. -/
def isQuery : Step → Bool
  | lookup _ | contains _ | hasDuplicate _ => true
  | _ => false

/-- The steps that only take out, one address at a time. -/
def isRemoval : Step → Bool
  | remove _ | pop _ => true
  | _ => false

theorem isQuery_of_isRemoval {step : Step} (h : step.isRemoval = true) : step.isQuery = false := by
  cases step <;> first | rfl | cases h

section Removals

variable {xs : List Address} {target : Address} {index : Nat}

theorem perform_remove_of_mem (h : target ∈ xs) :
    (remove target).perform xs = ⟨⟨.ok .done, xs.erase target⟩,
      [.lookedUp xs.length target true, .popped (xs.idxOf target) xs.length target]⟩ := by
  rw [perform, Logged.bind_eq, remove_of_mem h]
  rfl

theorem perform_remove_of_notMem (h : target ∉ xs) :
    (remove target).perform xs = ⟨⟨.error .notFound, xs⟩,
      [.lookedUp xs.length target false, .removeRefused xs.length target]⟩ := by
  rw [perform, Logged.bind_eq, remove_of_notMem h]
  rfl

theorem perform_pop_of_lt (h : index < xs.length) :
    (pop index).perform xs = ⟨⟨.ok (.popped xs[index]), xs.eraseIdx index⟩,
      [.popped index xs.length xs[index]]⟩ := by
  rw [perform, Logged.bind_eq, pop_of_lt h]
  rfl

theorem perform_pop_of_le (h : xs.length ≤ index) :
    (pop index).perform xs = ⟨⟨.error (.indexOutOfBounds index xs.length), xs⟩,
      [.popRefused index xs.length]⟩ := by
  rw [perform, Logged.bind_eq, pop_of_le h]
  rfl

/-- A removal leaves the list without the first copy, if there is one. -/
theorem state_remove (xs : List Address) (target : Address) :
    ((remove target).perform xs).value.state = xs.erase target := by
  by_cases h : target ∈ xs
  · rw [perform_remove_of_mem h]
  · rw [perform_remove_of_notMem h, List.erase_of_not_mem h]

end Removals

/-- What a step on the list `xs` can come to. -/
inductive Effect (xs : List Address) : Step → Outcome ListError → Prop
  | refused (step : Step) (e : ListError) : Effect xs step ⟨.error e, xs⟩
  | asked {step : Step} (h : step.isQuery = true) (a : Answer) : Effect xs step ⟨.ok a, xs⟩
  | removed {target : Address} (h : target ∈ xs) :
      Effect xs (remove target) ⟨.ok .done, xs.erase target⟩
  | popped {index : Nat} (h : index < xs.length) :
      Effect xs (pop index) ⟨.ok (.popped xs[index]), xs.eraseIdx index⟩
  | pushed (a : Address) : Effect xs (push a) ⟨.ok .done, xs ++ [a]⟩
  | inserted (index : Nat) (a : Address) :
      Effect xs (insert index a) ⟨.ok .done, insertAt xs index a⟩
  | restored {index : Nat} (h : index < xs.length) :
      Effect xs (popRestore index) ⟨.ok (.restored true xs[index]), xs⟩
  | removedAll (target : Address) :
      Effect xs (removeAll target) ⟨.ok (.removedAll (xs.count target)), xs.filter (· ≠ target)⟩

/-- Every step comes to one of these. -/
theorem effect (xs : List Address) (step : Step) : Effect xs step (step.perform xs).value := by
  cases step with
  | lookup target => exact .asked rfl _
  | contains target => exact .asked rfl _
  | hasDuplicate scan =>
    show Effect xs _ ⟨(Roster.hasDuplicate scan xs).value.map .duplicate, xs⟩
    cases (Roster.hasDuplicate scan xs).value with
    | error e => exact .refused _ e
    | ok b => exact .asked rfl _
  | remove target =>
    by_cases h : target ∈ xs
    · rw [perform_remove_of_mem h]; exact .removed h
    · rw [perform_remove_of_notMem h]; exact .refused _ _
  | pop index =>
    by_cases h : index < xs.length
    · rw [perform_pop_of_lt h]; exact .popped h
    · rw [perform_pop_of_le (Nat.le_of_not_lt h)]; exact .refused _ _
  | push a => exact .pushed a
  | insert index a => exact .inserted index a
  | popRestore index =>
    unfold perform
    rw [Logged.value_bind]
    by_cases h : index < xs.length
    · simp only [pop_of_lt h, Logged.value_pure, insertAt_eraseIdx h, decide_true]
      exact .restored h
    · rw [pop_of_le (Nat.le_of_not_lt h)]; exact .refused _ _
  | removeAll target =>
    show Effect xs _ ⟨.ok (.removedAll (Roster.removeAll xs target).value.1),
      (Roster.removeAll xs target).value.2⟩
    rw [removeAll_value]
    exact .removedAll target

/-- A refused step and a query leave the list as it is. -/
theorem state_of_refused_or_query {xs : List Address} {step : Step}
    (h : step.isQuery = true ∨ (step.perform xs).value.answer.isOk = false) :
    (step.perform xs).value.state = xs := by
  have hc := step.effect xs
  generalize (step.perform xs).value = out at hc h
  cases hc with
  | refused | asked | restored => rfl
  | removed | popped | pushed | inserted | removedAll => rcases h with h | h <;> cases h

end Step

/-! ## Runs -/

/-- The list that the last of these outcomes left; `xs` when there is none. -/
def listAfter (xs : List Address) (outs : List (Outcome ListError)) : List Address :=
  (outs.map (·.state)).getLastD xs

@[simp] theorem listAfter_nil (xs : List Address) : listAfter xs [] = xs := rfl

@[simp] theorem listAfter_cons (xs : List Address) (out : Outcome ListError)
    (outs : List (Outcome ListError)) : listAfter xs (out :: outs) = listAfter out.state outs :=
  List.getLastD_cons

theorem listAfter_append (xs : List Address) (outs outs' : List (Outcome ListError)) :
    listAfter xs (outs ++ outs') = listAfter (listAfter xs outs) outs' := by
  induction outs generalizing xs with
  | nil => rfl
  | cons out outs ih => rw [List.cons_append, listAfter_cons, ih, listAfter_cons]

theorem run_cons (xs : List Address) (step : Step) (steps : List Step) :
    run xs (step :: steps) =
      ⟨(step.perform xs).value :: (run (step.perform xs).value.state steps).value,
        (step.perform xs).events ++ (run (step.perform xs).value.state steps).events⟩ := by
  rw [run, Logged.bind_eq, Logged.bind_pure_eq]

/-- A run goes on from the list it has reached. -/
theorem run_append (xs : List Address) (steps steps' : List Step) :
    run xs (steps ++ steps') =
      ⟨(run xs steps).value ++ (run (listAfter xs (run xs steps).value) steps').value,
        (run xs steps).events ++ (run (listAfter xs (run xs steps).value) steps').events⟩ := by
  induction steps generalizing xs with
  | nil => rfl
  | cons step steps ih =>
    rw [List.cons_append, run_cons, run_cons, ih, listAfter_cons]
    simp only [List.cons_append, List.append_assoc]

/-- Every step is answered. -/
@[simp] theorem length_run (xs : List Address) (steps : List Step) :
    (run xs steps).value.length = steps.length := by
  induction steps generalizing xs with
  | nil => rfl
  | cons step steps ih => rw [run_cons, List.length_cons, ih, List.length_cons]

theorem take_run (xs : List Address) (steps : List Step) (k : Nat) :
    (run xs steps).value.take k = (run xs (steps.take k)).value := by
  induction steps generalizing xs k with
  | nil => cases k <;> rfl
  | cons step steps ih =>
    cases k with
    | zero => rfl
    | succ k => rw [List.take_succ_cons, run_cons, run_cons, List.take_succ_cons, ih]

theorem drop_run (xs : List Address) (steps : List Step) (k : Nat) :
    (run xs steps).value.drop k =
      (run (listAfter xs ((run xs steps).value.take k)) (steps.drop k)).value := by
  -- the run up to `k` and the run from there are the whole run
  have h := congrArg Logged.value (run_append xs (steps.take k) (steps.drop k))
  rw [List.take_append_drop, ← take_run] at h
  exact List.append_cancel_left ((List.take_append_drop k _).trans h)

/-- The outcome of a step is that of performing it on the list reached before it. -/
theorem getElem?_run {xs : List Address} {steps : List Step} {k : Nat} {step : Step}
    (h : steps[k]? = some step) :
    (run xs steps).value[k]? =
      some (step.perform (listAfter xs ((run xs steps).value.take k))).value := by
  induction steps generalizing xs k with
  | nil => cases h
  | cons first steps ih =>
    cases k with
    | zero => cases h; rfl
    | succ k =>
      rw [run_cons, List.getElem?_cons_succ, List.take_succ_cons, listAfter_cons]
      exact ih h

/-- The list reached after a step is the one that its outcome shows. -/
theorem listAfter_take_succ {xs : List Address} {outs : List (Outcome ListError)} {k : Nat}
    {out : Outcome ListError} (h : outs[k]? = some out) :
    listAfter xs (outs.take (k + 1)) = out.state := by
  rw [List.take_add_one, h, Option.toList_some, listAfter_append, listAfter_cons, listAfter_nil]

/-! ## Scripts -/

/-- The outcome of a step as a script shows it. -/
def Outcome.inScript (out : Outcome ListError) : Outcome Failure :=
  ⟨out.answer.mapError .list, out.state⟩

theorem perform_ok (xs : List Address) (step : Step) :
    Request.perform xs (.ok step) =
      ⟨(step.perform xs).value.inScript, (step.perform xs).events⟩ := by
  rw [Request.perform, Logged.bind_pure_eq, Outcome.inScript]

/-- Requests that can all be read are answered as the run of their steps. -/
theorem runScript_ok (xs : List Address) (steps : List Step) :
    runScript xs (steps.map .ok) =
      ⟨(run xs steps).value.map Outcome.inScript, (run xs steps).events⟩ := by
  induction steps generalizing xs with
  | nil => rfl
  | cons step steps ih =>
    rw [List.map_cons, runScript, perform_ok, run_cons, Logged.bind_eq, Logged.bind_pure_eq]
    simp only [Outcome.inScript, ih, List.map_cons]

end Roster
