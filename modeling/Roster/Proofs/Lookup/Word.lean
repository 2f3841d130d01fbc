/-
What a search answers, and its answers as words. A hit in a list that sixty-four bits can count lies
below the index that stands for "nowhere", so an answer is a hit below it or no hit (`Proper`); from
that follows that words tell such answers apart and put every hit in its place below no hit.
-/
import Mathlib.Algebra.Group.Nat.Defs
import Roster.Proofs.Removal

namespace Roster

/-! ## Words -/

namespace Word

/-- Every other index is a word as it stands. -/
theorem ofIndex_of_lt {i : Nat} (h : i < notFoundIndex) : ofIndex i = i :=
  if_neg (Nat.ne_of_lt h)

theorem ofIndex_notFoundIndex : ofIndex notFoundIndex = max := if_pos rfl

theorem notFoundIndex_lt_max : notFoundIndex < max := by decide

end Word

/-! ## Answers -/

namespace Lookup

/-- An answer that a search can give: a hit below the index for "nowhere", or no hit. -/
inductive Proper : Lookup → Prop where
  | hit {i : Nat} : i < notFoundIndex → Proper ⟨i, true⟩
  | miss : Proper notFound

variable {r q : Lookup}

theorem word_of_lt (h : r.index < notFoundIndex) : r.word = r.index := Word.ofIndex_of_lt h

theorem word_notFound : notFound.word = Word.max := Word.ofIndex_notFoundIndex

/-- A hit is a smaller word than no hit. -/
theorem Proper.word_lt_max (hr : r.Proper) (hf : r.found = true) : r.word < notFound.word := by
  cases hr with
  | hit hi =>
    rw [word_of_lt hi, word_notFound]
    exact Nat.lt_trans hi Word.notFoundIndex_lt_max
  | miss => cases hf

/-- Answers are told apart by their words. -/
theorem Proper.word_eq_iff (hr : r.Proper) (hq : q.Proper) : r.word = q.word ↔ r = q := by
  refine ⟨fun h => ?_, fun h => h ▸ rfl⟩
  cases hr with
  | hit hi =>
    cases hq with
    | hit hj =>
      rw [word_of_lt hi, word_of_lt hj] at h
      exact congrArg (fun k => Lookup.mk k true) h
    | miss => exact absurd h (Nat.ne_of_lt ((Proper.hit hi).word_lt_max rfl))
  | miss =>
    cases hq with
    | hit hj => exact absurd h.symm (Nat.ne_of_lt ((Proper.hit hj).word_lt_max rfl))
    | miss => rfl

/-- Hits are ordered by their indexes. -/
theorem Proper.word_lt_iff (hr : r.Proper) (hq : q.Proper) (hrf : r.found = true)
    (hqf : q.found = true) : r.word < q.word ↔ r.index < q.index := by
  cases hr with
  | hit hi =>
    cases hq with
    | hit hj => rw [word_of_lt hi, word_of_lt hj]
    | miss => cases hqf
  | miss => cases hrf

theorem Proper.eq_notFound (hr : r.Proper) (hf : r.found = false) : r = notFound := by
  cases hr with
  | hit => cases hf
  | miss => rfl

end Lookup

/-! ## Searching -/

variable {xs ys : List Address} {s : Address}

/-- A list that sixty-four bits can count gives proper answers. -/
theorem proper_lookup (h : xs.length ≤ notFoundIndex) (s : Address) :
    (lookup xs s).value.Proper := by
  by_cases hs : s ∈ xs
  · rw [lookup_of_mem hs]
    exact .hit (Nat.lt_of_lt_of_le (List.idxOf_lt_length_of_mem hs) h)
  · rw [lookup_of_notMem hs]
    exact .miss

theorem found_lookup : (lookup xs s).value.found = decide (s ∈ xs) := by
  by_cases hs : s ∈ xs
  · rw [lookup_of_mem hs, decide_eq_true hs]
  · rw [lookup_of_notMem hs, decide_eq_false hs]
    rfl

/-- A hit is the first place of what was looked for. -/
theorem lookup_first (hs : s ∈ xs) :
    ∃ h : (lookup xs s).value.index < xs.length, xs[(lookup xs s).value.index] = s ∧
      ∀ j, (hj : j < (lookup xs s).value.index) → xs[j] ≠ s := by
  have hidx : ∀ i, i = xs.idxOf s →
      ∃ h : i < xs.length, xs[i] = s ∧ ∀ j, (hj : j < i) → xs[j] ≠ s := by
    rintro _ rfl
    have hlt := List.idxOf_lt_length_of_mem hs
    exact ⟨hlt, List.getElem_idxOf hlt, fun j hj => ne_of_beq_false (List.not_of_lt_findIdx hj)⟩
  exact hidx _ (by rw [lookup_of_mem hs])

/-- What a search answers on lists that sixty-four bits can count, and how two answers compare as
words. -/
theorem lookup_words (hxs : xs.length ≤ 2 ^ 64 - 1) (hys : ys.length ≤ 2 ^ 64 - 1)
    (s t : Address) :
    let r := (lookup xs s).value
    let q := (lookup ys t).value
    (r.found = true ↔ s ∈ xs) ∧
    (s ∈ xs → ∃ h : r.index < xs.length, xs[r.index] = s ∧
      (∀ j, (hj : j < r.index) → xs[j] ≠ s) ∧ r.index ≠ notFoundIndex ∧
      r.position? = some r.index ∧ r.word = r.index) ∧
    (s ∉ xs → r = .notFound ∧ r.position? = none ∧ r.word = 2 ^ 256 - 1) ∧
    (contains xs s).value = r.found ∧
    (r.word = q.word ↔ r = q) ∧
    (r.found = true → q.found = true → (r.word < q.word ↔ r.index < q.index)) ∧
    (r.found = true → q.found = false → r.word < q.word) := by
  intro r q
  have hr : r.Proper := proper_lookup hxs s
  have hq : q.Proper := proper_lookup hys t
  have hfound : r.found = decide (s ∈ xs) := found_lookup
  refine ⟨by rw [hfound, decide_eq_true_iff], fun hs => ?_, fun hs => ?_, ?_, hr.word_eq_iff hq,
    hr.word_lt_iff hq, fun hrf hqf => hq.eq_notFound hqf ▸ hr.word_lt_max hrf⟩
  · obtain ⟨hlt, hhit, hfirst⟩ := lookup_first hs
    have hbelow : r.index < notFoundIndex := Nat.lt_of_lt_of_le hlt hxs
    have htrue : r.found = true := hfound.trans (decide_eq_true hs)
    exact ⟨hlt, hhit, hfirst, Nat.ne_of_lt hbelow, if_pos htrue, Lookup.word_of_lt hbelow⟩
  · have hmiss : r = .notFound := hr.eq_notFound (hfound.trans (decide_eq_false hs))
    rw [hmiss]
    exact ⟨rfl, rfl, by decide⟩
  · rw [contains_eq, hfound]

/-- The second of three addresses is found in its first place; in a list without it the same search
finds nothing, which is the larger word. -/
theorem second_of_three :
    let one := Address.ofDigits [1] (by decide)
    let two := Address.ofDigits [2] (by decide)
    let hit := (lookup [one, two, two] two).value
    let miss := (lookup [one] two).value
    two ∈ [one, two, two] ∧ two ∉ [one] ∧ hit.found = true ∧ hit.word = 1 ∧
    (contains [one, two, two] two).value = true ∧ miss.word = 2 ^ 256 - 1 ∧ hit ≠ miss ∧
    hit.word < miss.word := by
  intro one two hit miss
  have hmem : two ∈ [one, two, two] := by decide
  have hnot : two ∉ [one] := by decide
  obtain ⟨hfound, hplace, -, hcontains, hword, -, hlt⟩ :=
    @lookup_words [one, two, two] [one] (by decide) (by decide) two two
  obtain ⟨hmiss, -, hnone, -⟩ := @lookup_words [one] [] (by decide) (by decide) two two
  have hhit : hit.found = true := hfound.2 hmem
  have hmissed : miss.found = false := Bool.eq_false_iff.2 (mt hmiss.1 hnot)
  obtain ⟨-, -, -, -, -, hindex⟩ := hplace hmem
  have hless := hlt hhit hmissed
  exact ⟨hmem, hnot, hhit, hindex, hcontains.trans hhit, (hnone hnot).2.2,
    fun h => Nat.ne_of_lt hless (hword.2 h), hless⟩

end Roster
