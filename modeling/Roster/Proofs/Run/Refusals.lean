/-
Levels in the log of a run. Which events a query or a removal emits is said once, by cases on the
call and its outcome (`Step.Emits`); from that follows what the entries of a call show of it
(`Step.Accounted`): the last one is at level debug if the call was refused, and no other is. The log
of a run is the entries of its calls one after the other, so refusals can be counted in it
(`log_tells_refusals`).
-/
import Roster.Proofs.Run.Replay

namespace Roster

/-! ## Entries -/

namespace Entry

/-- An entry at level debug. -/
def isRefusal (e : Entry) : Bool := e.level = .debug

/-- Whatever the entry says of a length is this one, and it is silent on it only when it is zero. -/
def TellsLength (n : Nat) (e : Entry) : Prop :=
  (∀ v, ("len", v) ∈ e.fields → v = toString n) ∧ (n ≠ 0 → ("len", toString n) ∈ e.fields)

end Entry

/-- The length of the list that an event is about. -/
def Event.listLength : Event → Nat
  | lookedUp len _ _ | scanned len _ _ | popped _ len _ | popRefused _ len
  | removeRefused len _ => len
  | scannedEmpty => 0

theorem Event.tellsLength (e : Event) : e.entry.TellsLength e.listLength := by
  cases e <;> simp [Entry.TellsLength, Event.entry, Event.fields, Event.listLength]

/-! ## What one call reports -/

namespace Step

/-- The events of a query or a removal on the list `xs`, by its answer. -/
inductive Emits (xs : List Address) : Step → Except ListError Answer → List Event → Prop where
  | lookedUp (target : Address) (r : Lookup) :
      Emits xs (lookup target) (.ok (.lookup r)) [.lookedUp xs.length target r.found]
  | contained (target : Address) (b : Bool) :
      Emits xs (contains target) (.ok (.contains b)) [.lookedUp xs.length target b]
  | scanned (scan : Scan) (b : Bool) :
      Emits xs (hasDuplicate scan) (.ok (.duplicate b)) [.scanned xs.length scan b]
  | scannedEmpty (scan : Scan) (h : xs = []) :
      Emits xs (hasDuplicate scan) (.error .empty) [.scannedEmpty]
  | removed (target : Address) (index : Nat) :
      Emits xs (remove target) (.ok .done)
        [.lookedUp xs.length target true, .popped index xs.length target]
  | removeRefused (target : Address) :
      Emits xs (remove target) (.error .notFound)
        [.lookedUp xs.length target false, .removeRefused xs.length target]
  | popped (index : Nat) (a : Address) :
      Emits xs (pop index) (.ok (.popped a)) [.popped index xs.length a]
  | popRefused (index : Nat) :
      Emits xs (pop index) (.error (.indexOutOfBounds index xs.length))
        [.popRefused index xs.length]

theorem emits {step : Step} (h : step.isQuery = true ∨ step.isRemoval = true)
    (xs : List Address) :
    Emits xs step (step.perform xs).value.answer (step.perform xs).events := by
  cases step with
  | lookup target => exact .lookedUp target _
  | contains target => exact .contained target _
  | hasDuplicate scan =>
    cases xs with
    | nil => exact .scannedEmpty scan rfl
    | cons x xs => exact .scanned scan _
  | remove target =>
    by_cases hm : target ∈ xs
    · rw [perform_remove_of_mem hm]; exact .removed target _
    · rw [perform_remove_of_notMem hm]; exact .removeRefused target
  | pop index =>
    by_cases hi : index < xs.length
    · rw [perform_pop_of_lt hi]; exact .popped index _
    · rw [perform_pop_of_le (Nat.le_of_not_lt hi)]; exact .popRefused index
  | push | insert | popRestore | removeAll => rcases h with h | h <;> cases h

/-- What the log shows of a step on the list `xs`. -/
def entries (xs : List Address) (step : Step) : List Entry :=
  (step.perform xs).events.map Event.entry

/-- How many entries a query or a removal has, and what those at level trace show of its answer. -/
inductive Shows : Step → Except ListError Answer → List Entry → Prop where
  | lookup {target : Address} {r : Lookup} {e : Entry} : e.level = .trace →
      e.field? "found" = some (toString r.found) →
      Shows (lookup target) (.ok (.lookup r)) [e]
  | contains {target : Address} {b : Bool} {e : Entry} : e.level = .trace →
      e.field? "found" = some (toString b) →
      Shows (contains target) (.ok (.contains b)) [e]
  | hasDuplicate {scan : Scan} {b : Bool} {e : Entry} : e.level = .trace →
      e.field? "result" = some (toString b) →
      Shows (hasDuplicate scan) (.ok (.duplicate b)) [e]
  | hasDuplicateRefused {scan : Scan} {error : ListError} {e : Entry} :
      Shows (hasDuplicate scan) (.error error) [e]
  | remove {target : Address} {answer : Except ListError Answer} {e e' : Entry} :
      Shows (remove target) answer [e, e']
  | pop {index : Nat} {answer : Except ListError Answer} {e : Entry} : Shows (pop index) answer [e]

/-- The entries of a call on the list `xs` account for its answer. -/
structure Accounted (xs : List Address) (step : Step) (answer : Except ListError Answer)
    (es : List Entry) : Prop where
  refused : answer.isOk = false → ∃ e, es.getLast? = some e ∧ es.filter Entry.isRefusal = [e]
  answered : answer.isOk = true → es.filter Entry.isRefusal = []
  shows : step.Shows answer es
  lengths : ∀ e ∈ es, e.TellsLength xs.length

namespace Emits

variable {xs : List Address} {step : Step} {answer : Except ListError Answer} {events : List Event}

theorem refused (h : Emits xs step answer events) (ha : answer.isOk = false) :
    ∃ e, (events.map Event.entry).getLast? = some e ∧
      (events.map Event.entry).filter Entry.isRefusal = [e] := by
  cases h with
  | scannedEmpty | removeRefused | popRefused => exact ⟨_, rfl, rfl⟩
  | _ => cases ha

theorem answered (h : Emits xs step answer events) (ha : answer.isOk = true) :
    (events.map Event.entry).filter Entry.isRefusal = [] := by
  cases h with
  | scannedEmpty | removeRefused | popRefused => cases ha
  | _ => rfl

theorem shows (h : Emits xs step answer events) :
    step.Shows answer (events.map Event.entry) := by
  cases h with
  | lookedUp => exact .lookup rfl rfl
  | contained => exact .contains rfl rfl
  | scanned => exact .hasDuplicate rfl rfl
  | scannedEmpty => exact .hasDuplicateRefused
  | removed | removeRefused => exact .remove
  | popped | popRefused => exact .pop

theorem listLength (h : Emits xs step answer events) :
    ∀ e ∈ events, e.listLength = xs.length := by
  cases h <;> simp_all [Event.listLength]

theorem accounted (h : Emits xs step answer events) :
    Accounted xs step answer (events.map Event.entry) where
  refused := h.refused
  answered := h.answered
  shows := h.shows
  lengths e he := by
    obtain ⟨event, hevent, rfl⟩ := List.mem_map.1 he
    rw [← h.listLength event hevent]
    exact event.tellsLength

end Emits

theorem accounted {step : Step} (h : step.isQuery = true ∨ step.isRemoval = true)
    (xs : List Address) :
    Accounted xs step (step.perform xs).value.answer (step.entries xs) :=
  (step.emits h xs).accounted

end Step

/-! ## What a run reports -/

/-- How many of these outcomes are refusals. -/
def refusals (outs : List (Outcome ListError)) : Nat := outs.countP fun out => !out.answer.isOk

/-- The log is the entries of the steps in order, each on the list reached before it. -/
theorem log_eq_flatMap (xs : List Address) (steps : List Step) :
    log xs steps = steps.zipIdx.flatMap fun p =>
      p.1.entries (listAfter xs ((run xs steps).value.take p.2)) := by
  induction steps generalizing xs with
  | nil => rfl
  | cons step steps ih =>
    rw [log_cons, ih, run_cons, List.zipIdx_cons, List.flatMap_cons, List.zipIdx_succ,
      List.flatMap_map]
    simp only [List.take_zero, listAfter_nil, List.take_succ_cons, listAfter_cons]
    rfl

theorem Step.Accounted.countP_isRefusal {xs : List Address} {step : Step}
    {out : Outcome ListError} {es : List Entry} (h : Accounted xs step out.answer es) :
    es.countP Entry.isRefusal = refusals [out] := by
  rw [List.countP_eq_length_filter, refusals, List.countP_singleton]
  cases ha : out.answer.isOk with
  | true => rw [h.answered ha]; rfl
  | false =>
    obtain ⟨e, -, he⟩ := h.refused ha
    rw [he]; rfl

theorem countP_isRefusal_log {steps : List Step}
    (h : ∀ step ∈ steps, step.isQuery = true ∨ step.isRemoval = true) (xs : List Address) :
    (log xs steps).countP Entry.isRefusal = refusals (run xs steps).value := by
  induction steps generalizing xs with
  | nil => rfl
  | cons step steps ih =>
    obtain ⟨hstep, hsteps⟩ := List.forall_mem_cons.1 h
    have hone : ((step.perform xs).events.map Event.entry).countP Entry.isRefusal =
        refusals [(step.perform xs).value] := (step.accounted hstep xs).countP_isRefusal
    rw [log_cons, List.countP_append, ih hsteps, hone, run_cons, refusals, refusals, refusals,
      ← List.countP_append, List.singleton_append]

/-- The log of a run of queries and removals is the entries of its calls in order, each call with
those it makes on the list it was given. They account for its answer: a refused call has one entry
at level debug, after all its others, and an answered one has none. So the log has as many entries
at level debug as the run has refused calls. -/
theorem log_tells_refusals (xs : List Address) {steps : List Step}
    (h : ∀ step ∈ steps, step.isQuery = true ∨ step.isRemoval = true) :
    let outs := (run xs steps).value
    (log xs steps = steps.zipIdx.flatMap fun p => p.1.entries (listAfter xs (outs.take p.2))) ∧
    (∀ k step out, steps[k]? = some step → outs[k]? = some out →
      let given := listAfter xs (outs.take k)
      step.Accounted given out.answer (step.entries given)) ∧
    (log xs steps).countP Entry.isRefusal = refusals outs := by
  refine ⟨log_eq_flatMap xs steps, ?_, countP_isRefusal_log h xs⟩
  intro k step out hstep hout given
  rw [getElem?_run hstep] at hout
  cases hout
  exact step.accounted (h step (List.mem_of_getElem? hstep)) given

/-- Of five calls the first two are refused, the third empties the list, and so the fourth is
refused too; the last one only asks and is answered. -/
theorem three_refusals_of_five :
    let one := Address.ofDigits [1] (by decide)
    let two := Address.ofDigits [2] (by decide)
    let steps : List Step := [.remove two, .pop 3, .pop 0, .hasDuplicate .hashSet, .contains one]
    (∀ step ∈ steps, step.isQuery = true ∨ step.isRemoval = true) ∧
    (log [one] steps).countP Entry.isRefusal = 3 ∧
    (∃ e, ((Step.remove two).entries [one]).getLast? = some e ∧
      ((Step.remove two).entries [one]).filter Entry.isRefusal = [e]) ∧
    ((Step.contains one).entries []).filter Entry.isRefusal = [] := by
  intro one two steps
  have hsteps : ∀ step ∈ steps, step.isQuery = true ∨ step.isRemoval = true := by decide
  obtain ⟨-, hcalls, hcount⟩ := log_tells_refusals [one] hsteps
  have hremove := hcalls 0 (.remove two) _ rfl rfl
  have hcontains := hcalls 4 (.contains one) _ rfl rfl
  exact ⟨hsteps, hcount, hremove.refused rfl, hcontains.answered rfl⟩

end Roster
