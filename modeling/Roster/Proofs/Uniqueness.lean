/-
When no address comes twice. Searching each element of a list from the front, taking each one out by
its place and taking each one out by its value all tell that of the list: an element is found
where it stands, and is gone once it was taken out, exactly when it has no other copy. So they agree
with the search for a repeated address, whichever scan it uses (`uniqueness_views`).
-/
import Mathlib.Data.List.Nodup
import Roster.Proofs.Duplicates
import Roster.Proofs.Removal

namespace Roster

variable {xs : List Address}

/-! ## What each element tells -/

/-- Every element is found where it stands. -/
theorem nodup_iff_lookup :
    xs.Nodup ↔ ∀ i, (hi : i < xs.length) → (lookup xs xs[i]).value = ⟨i, true⟩ := by
  have hlookup : ∀ i, (hi : i < xs.length) →
      (lookup xs xs[i]).value = ⟨xs.idxOf xs[i], true⟩ := fun i hi => by
    rw [lookup_of_mem (List.getElem_mem hi)]
  constructor
  · intro h i hi
    rw [hlookup i hi, h.idxOf_getElem i hi]
  · intro h
    have hplace : ∀ i, (hi : i < xs.length) → xs.idxOf xs[i] = i := fun i hi =>
      congrArg Lookup.index ((hlookup i hi).symm.trans (h i hi))
    rw [List.nodup_iff_injective_getElem]
    rintro ⟨i, hi⟩ ⟨j, hj⟩ hij
    -- one address, and so one first place
    apply Fin.ext
    calc i = xs.idxOf xs[i] := (hplace i hi).symm
      _ = xs.idxOf xs[j] := congrArg xs.idxOf hij
      _ = j := hplace j hj

/-- No element is left when the one at its place is out. -/
theorem nodup_iff_notMem_eraseIdx :
    xs.Nodup ↔ ∀ i, (hi : i < xs.length) → xs[i] ∉ xs.eraseIdx i := by
  constructor
  · intro h i hi hmem
    obtain ⟨j, hj, hne, heq⟩ := List.mem_eraseIdx_iff_getElem.1 hmem
    exact hne ((h.getElem_inj_iff).1 heq)
  · intro h
    rw [List.nodup_iff_injective_getElem]
    rintro ⟨i, hi⟩ ⟨j, hj⟩ hij
    by_contra hne
    have hne : j ≠ i := fun e => hne (Fin.ext e.symm)
    exact h i hi (List.mem_eraseIdx_iff_getElem.2 ⟨j, hj, hne, hij.symm⟩)

/-- No element is left when its first copy is out. -/
theorem nodup_iff_notMem_erase : xs.Nodup ↔ ∀ a ∈ xs, a ∉ xs.erase a := by
  constructor
  · intro h a _
    exact h.not_mem_erase
  · intro h
    rw [List.nodup_iff_count_le_one]
    intro a
    by_cases ha : a ∈ xs
    · have hone := count_erase_add_one ha
      rw [List.count_eq_zero_of_not_mem (h a ha)] at hone
      omega
    · rw [List.count_eq_zero_of_not_mem ha]
      exact Nat.zero_le 1

/-! ## What the operations tell -/

/-- No element is found in what its pop leaves. -/
theorem nodup_iff_pop :
    xs.Nodup ↔ ∀ i, (hi : i < xs.length) →
      ∃ p, (pop xs i).value = .ok p ∧ (contains p.rest xs[i]).value = false := by
  rw [nodup_iff_notMem_eraseIdx]
  refine forall₂_congr fun i hi => ?_
  rw [pop_of_lt hi]
  constructor
  · intro h
    exact ⟨_, rfl, contains_eq_false_iff.2 h⟩
  · rintro ⟨p, hp, hgone⟩
    cases hp
    exact contains_eq_false_iff.1 hgone

/-- No element is found in what its removal leaves. -/
theorem nodup_iff_remove :
    xs.Nodup ↔ ∀ i, (hi : i < xs.length) →
      ∃ ys, (remove xs xs[i]).value = .ok ys ∧ (contains ys xs[i]).value = false := by
  rw [nodup_iff_notMem_erase, List.forall_mem_iff_getElem]
  refine forall₂_congr fun i hi => ?_
  rw [remove_of_mem (List.getElem_mem hi)]
  constructor
  · intro h
    exact ⟨_, rfl, contains_eq_false_iff.2 h⟩
  · rintro ⟨ys, hys, hgone⟩
    cases hys
    exact contains_eq_false_iff.1 hgone

/-- A search for a repeated address, by either scan, finds none in a list that is not empty exactly
when every element is found where it stands, exactly when none is left after the pop at its place,
and exactly when none is left after its removal. These pops and removals always go well. -/
theorem uniqueness_views (h : xs ≠ []) (scan : Scan) :
    ((hasDuplicate scan xs).value = .ok false ↔
      ∀ i, (hi : i < xs.length) → (lookup xs xs[i]).value = ⟨i, true⟩) ∧
    ((hasDuplicate scan xs).value = .ok false ↔
      ∀ i, (hi : i < xs.length) →
        ∃ p, (pop xs i).value = .ok p ∧ (contains p.rest xs[i]).value = false) ∧
    ((hasDuplicate scan xs).value = .ok false ↔
      ∀ i, (hi : i < xs.length) →
        ∃ ys, (remove xs xs[i]).value = .ok ys ∧ (contains ys xs[i]).value = false) ∧
    (∀ i, (hi : i < xs.length) →
      (∃ p, (pop xs i).value = .ok p) ∧ ∃ ys, (remove xs xs[i]).value = .ok ys) := by
  have hunique : (hasDuplicate scan xs).value = .ok false ↔ xs.Nodup :=
    hasDuplicate_eq_false_iff.trans (and_iff_right h)
  refine ⟨hunique.trans nodup_iff_lookup, hunique.trans nodup_iff_pop,
    hunique.trans nodup_iff_remove, fun i hi => ?_⟩
  rw [pop_of_lt hi, remove_of_mem (List.getElem_mem hi)]
  exact ⟨⟨_, rfl⟩, ⟨_, rfl⟩⟩

/-- In a list of two addresses neither is left after it was popped or removed. A third element that
repeats the first is found in the place of the first, and so both scans find the repetition. -/
theorem second_copy_of_three :
    let one := Address.ofDigits [1] (by decide)
    let two := Address.ofDigits [2] (by decide)
    [one, two] ≠ [] ∧ (hasDuplicate .hashSet [one, two]).value = .ok false ∧
    (lookup [one, two] two).value = ⟨1, true⟩ ∧
    (∃ p, (pop [one, two] 1).value = .ok p ∧ (contains p.rest two).value = false) ∧
    (∃ ys, (remove [one, two] two).value = .ok ys ∧ (contains ys two).value = false) ∧
    [one, two, one] ≠ [] ∧ (lookup [one, two, one] one).value = ⟨0, true⟩ ∧
    ∀ scan, (hasDuplicate scan [one, two, one]).value ≠ .ok false := by
  intro one two
  have hpair : [one, two] ≠ [] := List.cons_ne_nil _ _
  have hthree : [one, two, one] ≠ [] := List.cons_ne_nil _ _
  have hunique : (hasDuplicate .hashSet [one, two]).value = .ok false :=
    hasDuplicate_eq_false_iff.2 ⟨hpair, by decide⟩
  obtain ⟨hlookup, hpop, hremove, -⟩ := uniqueness_views hpair .hashSet
  have hfirst : (lookup [one, two, one] one).value = ⟨0, true⟩ := by decide
  refine ⟨hpair, hunique, hlookup.1 hunique 1 (by decide), hpop.1 hunique 1 (by decide),
    hremove.1 hunique 1 (by decide), hthree, hfirst, fun scan hscan => ?_⟩
  have hlast := (uniqueness_views hthree scan).1.1 hscan 2 (by decide)
  cases hfirst.symm.trans hlast

end Roster
