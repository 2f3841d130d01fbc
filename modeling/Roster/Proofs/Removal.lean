/-
What searching and taking out do, in terms of the library's list operations: one equation for each
operation and outcome, with the answer and the whole log. A search gives `idxOf`, a pop `eraseIdx`,
a removal by value `erase`, and removals repeated until one is refused give a `filter`. A pop undoes
an insertion at its index and is undone by one (`pop_undoes_insert`). A removal by value splits the
list at the first copy and is refused for no other reason than that there is none
(`remove_takes_first`).
-/
import Mathlib.Data.List.InsertIdx
import Roster.Removal

namespace Roster

variable {xs : List Address} {target : Address} {index : Nat}

/-! ## Searching -/

theorem lookup_of_mem (h : target ∈ xs) :
    lookup xs target = ⟨⟨xs.idxOf target, true⟩, [.lookedUp xs.length target true]⟩ := by
  have hi : xs.findIdx? (· = target) = some (xs.idxOf target) := by
    rw [List.findIdx?_eq_some_iff_findIdx_eq]
    exact ⟨List.idxOf_lt_length_of_mem h, rfl⟩
  unfold lookup
  rw [hi]
  rfl

theorem lookup_of_notMem (h : target ∉ xs) :
    lookup xs target = ⟨.notFound, [.lookedUp xs.length target false]⟩ := by
  have hi : xs.findIdx? (· = target) = none := by
    rw [List.findIdx?_eq_none_iff]
    intro a ha
    exact decide_eq_false fun e => h (e ▸ ha)
  unfold lookup
  rw [hi]
  rfl

theorem contains_eq (xs : List Address) (target : Address) :
    contains xs target =
      ⟨decide (target ∈ xs), [.lookedUp xs.length target (decide (target ∈ xs))]⟩ := by
  by_cases h : target ∈ xs
  · rw [decide_eq_true h, contains, lookup_of_mem h]; rfl
  · rw [decide_eq_false h, contains, lookup_of_notMem h]; rfl

theorem contains_eq_false_iff : (contains xs target).value = false ↔ target ∉ xs := by
  rw [contains_eq]
  exact decide_eq_false_iff_not

/-! ## Taking out by index -/

theorem pop_of_lt (h : index < xs.length) :
    pop xs index = ⟨.ok ⟨xs.eraseIdx index, xs[index]⟩, [.popped index xs.length xs[index]]⟩ := by
  unfold pop
  rw [List.getElem?_eq_getElem h]

theorem pop_of_le (h : xs.length ≤ index) :
    pop xs index =
      ⟨.error (.indexOutOfBounds index xs.length), [.popRefused index xs.length]⟩ := by
  unfold pop
  rw [List.getElem?_eq_none h]

theorem pop_eq_error_iff {e : ListError} :
    (pop xs index).value = .error e ↔
      xs.length ≤ index ∧ e = .indexOutOfBounds index xs.length := by
  rcases Nat.lt_or_ge index xs.length with h | h
  · rw [pop_of_lt h]
    constructor
    · intro he; cases he
    · rintro ⟨hle, -⟩; omega
  · rw [pop_of_le h, and_iff_right h, Except.error.injEq]
    exact eq_comm

theorem insertAt_of_le (h : index ≤ xs.length) (a : Address) :
    insertAt xs index a = xs.insertIdx index a := by
  rw [insertAt, Nat.min_eq_left h]

/-- What a pop took out goes back to its place. -/
theorem insertAt_eraseIdx (h : index < xs.length) :
    insertAt (xs.eraseIdx index) index xs[index] = xs := by
  have hle : index ≤ (xs.eraseIdx index).length := by
    rw [List.length_eraseIdx_of_lt h]; omega
  rw [insertAt_of_le hle, List.insertIdx_eraseIdx_getElem h]

/-- What was put in is taken out again, and nothing else. -/
theorem pop_insertAt (h : index ≤ xs.length) (a : Address) :
    (pop (insertAt xs index a) index).value = .ok ⟨xs, a⟩ := by
  have hlt : index < (xs.insertIdx index a).length := by
    rw [List.length_insertIdx_of_le_length h]; omega
  rw [insertAt_of_le h, pop_of_lt hlt, List.eraseIdx_insertIdx_self, List.getElem_insertIdx_self]

/-- Popping and inserting undo each other. A pop inside the list answers the element at its index
and leaves one element less, those before the index in their places and those after it one place
lower; put back at the index, the element restores the list. An element that was inserted is popped
from its place again. A pop is refused for nothing but an index that the list does not reach. -/
theorem pop_undoes_insert (xs : List Address) (index : Nat) :
    (∀ h : index < xs.length, ∃ rest, (pop xs index).value = .ok ⟨rest, xs[index]⟩ ∧
      rest.length = xs.length - 1 ∧
      (∀ j, j < index → rest[j]? = xs[j]?) ∧
      (∀ j, index ≤ j → rest[j]? = xs[j + 1]?) ∧
      insertAt rest index xs[index] = xs) ∧
    (∀ a, index ≤ xs.length → (pop (insertAt xs index a) index).value = .ok ⟨xs, a⟩) ∧
    (∀ e, (pop xs index).value = .error e ↔
      xs.length ≤ index ∧ e = .indexOutOfBounds index xs.length) := by
  refine ⟨fun h => ⟨xs.eraseIdx index, ?_, ?_, ?_, ?_, ?_⟩, fun a h => pop_insertAt h a,
    fun e => pop_eq_error_iff⟩
  · rw [pop_of_lt h]
  · exact List.length_eraseIdx_of_lt h
  · intro j hj
    exact List.getElem?_eraseIdx_of_lt hj
  · intro j hj
    exact List.getElem?_eraseIdx_of_ge hj
  · exact insertAt_eraseIdx h

/-- The last element goes and comes back, and the place after it cannot be popped. -/
example :
    let one := Address.ofDigits [1] (by decide)
    let two := Address.ofDigits [2] (by decide)
    (pop [one, two] 1).value = .ok ⟨[one], two⟩ ∧ insertAt [one] 1 two = [one, two] ∧
      (pop [one, two] 2).value = .error (.indexOutOfBounds 2 2) := by
  decide

/-! ## Taking out by value -/

theorem remove_of_mem (h : target ∈ xs) :
    remove xs target = ⟨.ok (xs.erase target), [.lookedUp xs.length target true,
      .popped (xs.idxOf target) xs.length target]⟩ := by
  have hi : xs.idxOf target < xs.length := List.idxOf_lt_length_of_mem h
  have hp := pop_of_lt hi
  rw [← List.erase_eq_eraseIdx_of_idxOf rfl, List.getElem_idxOf hi] at hp
  unfold remove
  rw [lookup_of_mem h, Logged.bind_eq]
  simp only [Lookup.position?, if_true, Logged.bind_pure_eq]
  rw [hp]
  rfl

theorem remove_of_notMem (h : target ∉ xs) :
    remove xs target = ⟨.error .notFound, [.lookedUp xs.length target false,
      .removeRefused xs.length target]⟩ := by
  unfold remove
  rw [lookup_of_notMem h]
  rfl

/-- A removal is a pop at the place that the search found. -/
theorem remove_of_position (h : (lookup xs target).value.position? = some index) :
    (remove xs target).value = (pop xs index).value.map (·.rest) := by
  rw [remove, Logged.value_bind, h]
  rfl

/-- What a search found is there to be taken out. -/
theorem pop_of_position (h : (lookup xs target).value.position? = some index) :
    (pop xs index).value = .ok ⟨xs.erase target, target⟩ := by
  by_cases hm : target ∈ xs
  · have hi : xs.idxOf target < xs.length := List.idxOf_lt_length_of_mem hm
    rw [lookup_of_mem hm] at h
    cases h
    rw [pop_of_lt hi, ← List.erase_eq_eraseIdx_of_idxOf rfl, List.getElem_idxOf hi]
  · rw [lookup_of_notMem hm] at h
    cases h

theorem remove_eq_ok_iff {ys : List Address} :
    (remove xs target).value = .ok ys ↔
      ∃ before after, xs = before ++ [target] ++ after ∧ target ∉ before ∧
        ys = before ++ after := by
  constructor
  · intro h
    by_cases hm : target ∈ xs
    · rw [remove_of_mem hm] at h
      cases h
      obtain ⟨before, after, hfirst, hxs, hys⟩ := List.exists_erase_eq hm
      exact ⟨before, after, by rw [hxs, List.append_assoc, List.singleton_append], hfirst, hys⟩
    · rw [remove_of_notMem hm] at h
      cases h
  · rintro ⟨before, after, rfl, hfirst, rfl⟩
    have hm : target ∈ before ++ [target] ++ after := by simp
    rw [remove_of_mem hm, List.append_assoc, List.erase_append_right _ hfirst,
      List.singleton_append, List.erase_cons_head]

theorem remove_eq_error_iff {e : ListError} :
    (remove xs target).value = .error e ↔ e = .notFound ∧ target ∉ xs := by
  by_cases hm : target ∈ xs
  · simp [remove_of_mem hm, hm]
  · simp [remove_of_notMem hm, hm, eq_comm]

/-- A removal takes out the first copy of the address and leaves what stands before and after it. It
is refused exactly when the address does not occur, and never for an index or an empty list: the
place that the search found can always be popped. -/
theorem remove_takes_first (xs : List Address) (target : Address) :
    (∀ ys, (remove xs target).value = .ok ys ↔
      ∃ before after, xs = before ++ [target] ++ after ∧ target ∉ before ∧
        ys = before ++ after) ∧
    ((remove xs target).value = .error .notFound ↔ target ∉ xs) ∧
    (∀ index len, (remove xs target).value ≠ .error (.indexOutOfBounds index len)) ∧
    (remove xs target).value ≠ .error .empty ∧
    (∀ index, (lookup xs target).value.position? = some index →
      ∃ p, (pop xs index).value = .ok p) := by
  refine ⟨fun ys => remove_eq_ok_iff, ?_, ?_, ?_, fun index h => ⟨_, pop_of_position h⟩⟩
  · rw [remove_eq_error_iff]
    exact and_iff_right rfl
  · intro index len h
    cases (remove_eq_error_iff.1 h).1
  · intro h
    cases (remove_eq_error_iff.1 h).1

/-! ## Taking out every copy -/

theorem filter_ne_of_notMem (h : target ∉ xs) : xs.filter (· ≠ target) = xs := by
  rw [List.filter_eq_self]
  intro a ha
  exact decide_eq_true fun e => h (e ▸ ha)

theorem filter_ne_erase (xs : List Address) (target : Address) :
    (xs.erase target).filter (· ≠ target) = xs.filter (· ≠ target) := by
  rw [← List.erase_filter]
  exact List.erase_of_not_mem (by simp)

/-- A removal takes out one copy. -/
theorem count_erase_add_one (h : target ∈ xs) :
    (xs.erase target).count target + 1 = xs.count target := by
  have hpos : 0 < xs.count target := List.count_pos_iff.2 h
  rw [List.count_erase_self]
  omega

/-- What holds of every list without the address, and of a list whenever it holds of that list with
one copy less, holds of every list. -/
@[elab_as_elim]
theorem copies_induction {motive : List Address → Prop} (target : Address)
    (absent : ∀ xs, target ∉ xs → motive xs)
    (present : ∀ xs, target ∈ xs → motive (xs.erase target) → motive xs)
    (xs : List Address) : motive xs := by
  induction hn : xs.count target generalizing xs with
  | zero => exact absent xs (List.count_eq_zero.1 hn)
  | succ n ih =>
    have h : target ∈ xs := List.count_pos_iff.1 (by omega)
    have hrest := count_erase_add_one h
    exact present xs h (ih _ (by omega))

theorem removeAll_of_notMem (h : target ∉ xs) :
    removeAll xs target = ⟨(0, xs), (remove xs target).events⟩ := by
  rw [removeAll]
  split
  · rfl
  · rename_i ys hys; rw [remove_of_notMem h] at hys; cases hys

/-- One copy goes, and the removals go on with the others. -/
theorem removeAll_of_mem (h : target ∈ xs) :
    removeAll xs target =
      ⟨((removeAll (xs.erase target) target).value.1 + 1,
        (removeAll (xs.erase target) target).value.2),
        (remove xs target).events ++ (removeAll (xs.erase target) target).events⟩ := by
  rw [removeAll]
  split
  · rename_i e he; rw [remove_of_mem h] at he; cases he
  · rename_i ys hys
    rw [remove_of_mem h] at hys
    cases hys
    rfl

/-- Removals until one is refused take out every copy, one at a time. -/
theorem removeAll_value (xs : List Address) (target : Address) :
    (removeAll xs target).value = (xs.count target, xs.filter (· ≠ target)) := by
  induction xs using copies_induction target with
  | absent xs h =>
    rw [removeAll_of_notMem h, List.count_eq_zero_of_not_mem h, filter_ne_of_notMem h]
  | present xs h ih => rw [removeAll_of_mem h, ih, filter_ne_erase, count_erase_add_one h]

end Roster
