/-
The log of a run against its lists. An entry of a pop says where an element was taken out, how many
there were, and which one it was (`Entry.TellsPop`). A query reports no pop, and a removal that goes
well reports one, after all else (`Step.reported`); so the pops of a log, done again on the first
list, give every list of a run of queries and removals (`log_replays`).
-/
import Roster.Proofs.Duplicates
import Roster.Proofs.Lookup.Word
import Roster.Proofs.Run
import Std.Data.String.ToNat

namespace Roster

/-! ## Entries of pops -/

namespace Entry

/-- The text in the first field of this name. -/
def field? (name : String) (e : Entry) : Option String := e.fields.lookup name

/-- The number in the field for an index. -/
def index? (e : Entry) : Option Nat := (e.field? "index").bind String.toNat?

/-- An entry that an element was taken out by its index. -/
def isPop (e : Entry) : Bool := e.level = .trace && e.message = "pop"

/-- Takes out the element at the index in the entry. -/
def replayOn (xs : List Address) (e : Entry) : List Address :=
  match e.index? with
  | some i => xs.eraseIdx i
  | none => xs

/-- The entry tells how `ys` came from `xs`: by the element at its index, with the number of
elements before. -/
def TellsPop (e : Entry) (xs ys : List Address) : Prop :=
  ∃ i, ∃ hi : i < xs.length, ys = xs.eraseIdx i ∧ e.index? = some i ∧
    e.fields = [("index", toString i), ("len", toString xs.length), ("removed", xs[i].render)]

end Entry

/-- Does the pops of a log again, in order. -/
def replay (xs : List Address) (log : List Entry) : List Address :=
  (log.filter Entry.isPop).foldl Entry.replayOn xs

/-- What the log shows of a run. -/
def log (xs : List Address) (steps : List Step) : List Entry :=
  (run xs steps).events.map Event.entry

/-- The number of an index is read back from its text. -/
theorem index?_popped (i n : Nat) (a : Address) :
    (Event.popped i n a).entry.index? = some i := by
  have hfield : (Event.popped i n a).entry.field? "index" = some (toString i) := rfl
  rw [Entry.index?, hfield, Option.bind_some]
  exact Nat.toNat?_repr i

theorem tellsPop_popped {xs : List Address} {i : Nat} (hi : i < xs.length) :
    (Event.popped i xs.length xs[i]).entry.TellsPop xs (xs.eraseIdx i) :=
  ⟨i, hi, rfl, index?_popped i _ _, rfl⟩

/-! ## Doing pops again -/

section Replay

variable {xs ys : List Address} {es : List Entry} {e : Entry}

theorem replay_append (xs : List Address) (log log' : List Entry) :
    replay xs (log ++ log') = replay (replay xs log) log' := by
  rw [replay, List.filter_append, List.foldl_append]
  rfl

theorem replay_of_no_pop (h : ∀ e ∈ es, e.isPop = false) : replay xs es = xs := by
  have hnone : es.filter Entry.isPop = [] := by
    rw [List.filter_eq_nil_iff]
    intro e he
    rw [h e he]
    exact Bool.false_ne_true
  rw [replay, hnone, List.foldl_nil]

theorem replay_of_tellsPop (he : e.isPop = true) (h : e.TellsPop xs ys) : replay xs [e] = ys := by
  obtain ⟨i, -, rfl, hi, -⟩ := h
  rw [replay, List.filter_cons_of_pos he, List.filter_nil, List.foldl_cons, List.foldl_nil,
    Entry.replayOn, hi]

end Replay

/-- An element of two lists put together is in the first or in the second. -/
theorem exists_split_of_append {α : Type} {l l' before after : List α} {a : α}
    (h : l ++ l' = before ++ a :: after) :
    (∃ u, l = before ++ a :: u) ∨ ∃ u, before = l ++ u ∧ l' = u ++ a :: after := by
  rcases List.append_eq_append_iff.1 h with ⟨u, hbefore, hu⟩ | ⟨u, hl, hu⟩
  · exact .inr ⟨u, hbefore, hu⟩
  · cases u with
    | nil => exact .inr ⟨[], by rw [hl, List.append_nil, List.append_nil], hu.symm⟩
    | cons c u =>
      cases hu
      exact .inl ⟨u, hl⟩

/-! ## What one step reports -/

/-- The entries of a step that leaves the list alone, or takes one element out and tells of it after
all else. -/
inductive Reported (xs : List Address) : List Entry → List Address → Prop where
  | kept {es : List Entry} : (∀ e ∈ es, e.isPop = false) → Reported xs es xs
  | took {es : List Entry} {e : Entry} {ys : List Address} : (∀ e ∈ es, e.isPop = false) →
      e.isPop = true → e.TellsPop xs ys → Reported xs (es ++ [e]) ys

namespace Reported

variable {xs ys : List Address} {es : List Entry}

theorem replay (h : Reported xs es ys) : replay xs es = ys := by
  cases h with
  | kept h => exact replay_of_no_pop h
  | took h he ht => rw [replay_append, replay_of_no_pop h, replay_of_tellsPop he ht]

/-- A pop in the entries is the last of them. -/
theorem tellsPop (h : Reported xs es ys) {before after : List Entry} {e : Entry}
    (hes : es = before ++ e :: after) (he : e.isPop = true) :
    (∀ e ∈ before, e.isPop = false) ∧ e.TellsPop xs ys := by
  have hno : ∀ {es₀ : List Entry}, (∀ e ∈ es₀, e.isPop = false) → e ∉ es₀ := by
    intro es₀ h hmem
    rw [h e hmem] at he
    cases he
  cases h with
  | kept h => exact absurd (by rw [hes]; simp) (hno h)
  | @took es₀ last _ h hlast ht =>
    rcases exists_split_of_append hes with ⟨u, hu⟩ | ⟨u, hbefore, hu⟩
    · exact absurd (by rw [hu]; simp) (hno h)
    · cases u with
      | nil =>
        cases hu
        rw [List.append_nil] at hbefore
        exact ⟨hbefore ▸ h, ht⟩
      | cons c u => simp at hu

end Reported

namespace Step

/-- What a removal that goes well reports: the search, and the pop at the first place. -/
theorem events_remove_of_mem {xs : List Address} {target : Address} (h : target ∈ xs) :
    ((remove target).perform xs).events =
      [.lookedUp xs.length target true, .popped (xs.idxOf target) xs.length target] := by
  rw [perform_remove_of_mem h]

theorem reported_pop (xs : List Address) (index : Nat) :
    Reported xs (((pop index).perform xs).events.map Event.entry)
      ((pop index).perform xs).value.state := by
  by_cases h : index < xs.length
  · rw [perform_pop_of_lt h]
    exact @Reported.took xs [] _ _ (by simp) rfl (tellsPop_popped h)
  · rw [perform_pop_of_le (Nat.le_of_not_lt h)]
    exact .kept (by simp [Event.entry, Entry.isPop, Event.level])

theorem reported_remove (xs : List Address) (target : Address) :
    Reported xs (((remove target).perform xs).events.map Event.entry)
      ((remove target).perform xs).value.state := by
  by_cases h : target ∈ xs
  · have hi : xs.idxOf target < xs.length := List.idxOf_lt_length_of_mem h
    rw [events_remove_of_mem h, state_remove, List.erase_eq_eraseIdx_of_idxOf rfl]
    have ht := tellsPop_popped hi
    rw [List.getElem_idxOf hi] at ht
    exact @Reported.took xs [_] _ _ (by simp [Event.entry, Entry.isPop, Event.message]) rfl ht
  · rw [perform_remove_of_notMem h]
    exact .kept (by simp [Event.entry, Entry.isPop, Event.level, Event.message])

theorem reported_query {step : Step} (h : step.isQuery = true) (xs : List Address) :
    Reported xs ((step.perform xs).events.map Event.entry) (step.perform xs).value.state := by
  rw [state_of_refused_or_query (.inl h)]
  refine .kept ?_
  cases step with
  | lookup target => simp [perform, Roster.lookup, Event.entry, Entry.isPop, Event.message]
  | contains target =>
    simp [perform, Roster.contains, Roster.lookup, Event.entry, Entry.isPop, Event.message]
  | hasDuplicate scan =>
    cases xs with
    | nil => simp [perform, Roster.hasDuplicate, Event.entry, Entry.isPop, Event.message]
    | cons x xs => simp [perform, Roster.hasDuplicate, Event.entry, Entry.isPop, Event.message]
  | _ => cases h

/-- A query or a removal reports what it does to the list. -/
theorem reported {step : Step} (h : step.isQuery = true ∨ step.isRemoval = true)
    (xs : List Address) :
    Reported xs ((step.perform xs).events.map Event.entry) (step.perform xs).value.state := by
  rcases h with h | h
  · exact reported_query h xs
  · cases step with
    | remove target => exact reported_remove xs target
    | pop index => exact reported_pop xs index
    | _ => cases h

end Step

/-! ## What a run reports -/

section Runs

variable {steps : List Step}

theorem log_cons (xs : List Address) (step : Step) (steps : List Step) :
    log xs (step :: steps) = (step.perform xs).events.map Event.entry ++
      log (step.perform xs).value.state steps := by
  rw [log, run_cons, List.map_append]
  rfl

theorem log_append (xs : List Address) (steps steps' : List Step) :
    log xs (steps ++ steps') =
      log xs steps ++ log (listAfter xs (run xs steps).value) steps' := by
  rw [log, run_append, List.map_append]
  rfl

/-- The log grows by what each step reports on the list reached before it. -/
theorem log_take_succ {xs : List Address} {k : Nat} {step : Step} (h : steps[k]? = some step) :
    log xs (steps.take (k + 1)) = log xs (steps.take k) ++
      (step.perform (listAfter xs ((run xs steps).value.take k))).events.map Event.entry := by
  rw [List.take_add_one, h, Option.toList_some, log_append, ← take_run, log_cons]
  simp [log, run]

/-- The pops of a run, done again, give the list it ends with. -/
theorem replay_log (h : ∀ step ∈ steps, step.isQuery = true ∨ step.isRemoval = true)
    (xs : List Address) : replay xs (log xs steps) = listAfter xs (run xs steps).value := by
  induction steps generalizing xs with
  | nil => rfl
  | cons step steps ih =>
    obtain ⟨hstep, hsteps⟩ := List.forall_mem_cons.1 h
    rw [log_cons, replay_append, (step.reported hstep xs).replay, ih hsteps, run_cons,
      listAfter_cons]

/-- A pop in the log of a run is that of one of its steps. -/
theorem tellsPop_of_log (h : ∀ step ∈ steps, step.isQuery = true ∨ step.isRemoval = true)
    {xs : List Address} {before after : List Entry} {e : Entry}
    (hlog : log xs steps = before ++ e :: after) (he : e.isPop = true) :
    ∃ k < steps.length, replay xs before = listAfter xs ((run xs steps).value.take k) ∧
      e.TellsPop (replay xs before) (listAfter xs ((run xs steps).value.take (k + 1))) := by
  induction steps generalizing xs before with
  | nil => simp [log, run] at hlog
  | cons step steps ih =>
    obtain ⟨hstep, hsteps⟩ := List.forall_mem_cons.1 h
    have hrep := step.reported hstep xs
    rw [log_cons] at hlog
    rw [run_cons]
    rcases exists_split_of_append hlog with ⟨u, hu⟩ | ⟨u, hbefore, hu⟩
    · -- the entry is one of the first step's, and no pop stands before it
      obtain ⟨hno, htells⟩ := hrep.tellsPop hu he
      have hkept : replay xs before = xs := replay_of_no_pop hno
      exact ⟨0, Nat.zero_lt_succ _, hkept, hkept.symm ▸ htells⟩
    · obtain ⟨k, hk, hreached, htells⟩ := ih hsteps hu
      have hreplay : replay xs before = replay (step.perform xs).value.state u := by
        rw [hbefore, replay_append, hrep.replay]
      rw [← hreplay] at hreached htells
      refine ⟨k + 1, Nat.succ_lt_succ hk, ?_, ?_⟩
      · rwa [List.take_succ_cons, listAfter_cons]
      · rwa [List.take_succ_cons, listAfter_cons]

end Runs

/-- A run of queries and removals can be told from its log. The pops in the log, done again on the
first list, give the list after every step; each of them tells of the list that one of the steps was
given, and of what that step took out of it; and a removal that goes well reports the search and the
pop at the first place of the address, and nothing else. -/
theorem log_replays (xs : List Address) {steps : List Step}
    (h : ∀ step ∈ steps, step.isQuery = true ∨ step.isRemoval = true) :
    (∀ k, log xs (steps.take k) <+: log xs steps ∧
      replay xs (log xs (steps.take k)) = listAfter xs ((run xs steps).value.take k)) ∧
    (∀ before e after, log xs steps = before ++ e :: after → e.isPop = true →
      ∃ k < steps.length, replay xs before = listAfter xs ((run xs steps).value.take k) ∧
        e.TellsPop (replay xs before) (listAfter xs ((run xs steps).value.take (k + 1)))) ∧
    (∀ k target out, steps[k]? = some (.remove target) → (run xs steps).value[k]? = some out →
      out.answer.isOk = true →
        let reached := listAfter xs ((run xs steps).value.take k)
        ∃ i, ∃ hi : i < reached.length, reached[i] = target ∧
          (∀ j, (hj : j < i) → reached[j] ≠ target) ∧
          log xs (steps.take (k + 1)) = log xs (steps.take k) ++
            [⟨.trace, "index_of", [("len", toString reached.length), ("target", target.render),
              ("found", "true")]⟩,
             ⟨.trace, "pop", [("index", toString i), ("len", toString reached.length),
              ("removed", target.render)]⟩]) := by
  refine ⟨fun k => ⟨?_, ?_⟩, fun before e after hlog he => tellsPop_of_log h hlog he, ?_⟩
  · have happ := log_append xs (steps.take k) (steps.drop k)
    rw [List.take_append_drop] at happ
    exact ⟨_, happ.symm⟩
  · rw [take_run]
    exact replay_log (fun step hstep => h step (List.mem_of_mem_take hstep)) xs
  · intro k target out hstep hout hok reached
    rw [getElem?_run hstep] at hout
    cases hout
    by_cases hmem : target ∈ reached
    · obtain ⟨hi, hhit, hfirst⟩ := lookup_first hmem
      have hindex : reached.idxOf target = (lookup reached target).value.index := by
        rw [lookup_of_mem hmem]
      refine ⟨_, hi, hhit, hfirst, ?_⟩
      rw [log_take_succ hstep, Step.events_remove_of_mem hmem, hindex]
      rfl
    · rw [Step.perform, Logged.value_bind, remove_of_notMem hmem] at hok
      cases hok

/-- From a list that repeats an address, its first copy is removed, and the log tells which; a pop
that is refused between this and the next leaves nothing to do again. -/
theorem first_copy_and_head :
    let one := Address.ofDigits [1] (by decide)
    let two := Address.ofDigits [2] (by decide)
    let steps := [.contains two, .remove one, .pop 5, .pop 0]
    (∀ step ∈ steps, step.isQuery = true ∨ step.isRemoval = true) ∧
    replay [two, one, one] (log [two, one, one] steps) = [one] ∧
    log [two, one, one] (steps.take 2) = log [two, one, one] (steps.take 1) ++
      [⟨.trace, "index_of", [("len", toString 3), ("target", one.render), ("found", "true")]⟩,
       ⟨.trace, "pop", [("index", toString 1), ("len", toString 3), ("removed", one.render)]⟩] := by
  intro one two steps
  have hsteps : ∀ step ∈ steps, step.isQuery = true ∨ step.isRemoval = true := by decide
  obtain ⟨hlists, -, hremove⟩ := log_replays [two, one, one] hsteps
  obtain ⟨i, _, hhit, hfirst, hlog⟩ := hremove 1 one _ rfl rfl rfl
  have hplace : i = 1 := by
    have hzero : i ≠ 0 := by
      rintro rfl
      exact absurd (show two = one from hhit) (by decide)
    have hone : ¬ 1 < i := fun hlt => hfirst 1 hlt rfl
    omega
  subst hplace
  exact ⟨hsteps, (hlists 4).2, hlog⟩

end Roster
