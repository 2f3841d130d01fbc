/-
Removing a batch of addresses, one after the other. Each of them takes out one more copy, so what is
left is the difference of the two lists (`listAfter_removals`), and that is the list without the
first copies of every address, as many as the batch names it (`diff_eq_withoutFirst`). How often an
address is named does not depend on the order of the batch, and so neither does the list that is
left nor the number of removals that are answered (`removals_in_any_order`).
-/
import Mathlib.Algebra.BigOperators.Group.Finset.Basic
import Roster.Proofs.Run.Order

namespace Roster

/-! ## Lists without first copies -/

/-- The list without the first `quota a` copies of every address `a`: an element stays when at least
so many copies of it stand before it. -/
def withoutFirst (quota : Address → Nat) (xs : List Address) : List Address :=
  (xs.zipIdx.filter fun p => quota p.1 ≤ (xs.take p.2).count p.1).map Prod.fst

/-- The first element goes if its quota allows for it, and uses up one of its quota. -/
theorem withoutFirst_cons (quota : Address → Nat) (x : Address) (xs : List Address) :
    withoutFirst quota (x :: xs) = (if quota x = 0 then [x] else []) ++
      withoutFirst (fun a => quota a - if x = a then 1 else 0) xs := by
  -- a place in the tail has one copy of `x` more before it in the whole list
  have hplace : ∀ p : Address × Nat, quota p.1 ≤ ((x :: xs).take (p.2 + 1)).count p.1 ↔
      (quota p.1 - if x = p.1 then 1 else 0) ≤ (xs.take p.2).count p.1 := by
    intro p
    rw [List.take_succ_cons, List.count_cons, Nat.sub_le_iff_le_add]
    simp only [beq_iff_eq]
  have htail : ((xs.zipIdx 1).filter fun p => quota p.1 ≤ ((x :: xs).take p.2).count p.1).map
      Prod.fst = withoutFirst (fun a => quota a - if x = a then 1 else 0) xs := by
    rw [List.zipIdx_succ, List.filter_map, List.map_map]
    simp only [Function.comp_def, hplace]
    rfl
  rw [← htail, withoutFirst, List.zipIdx_cons, List.filter_cons]
  simp only [List.take_zero, List.count_nil, Nat.le_zero, decide_eq_true_eq]
  split <;> rfl

/-- Taking out the addresses of a list, one copy for each, is leaving out first copies. -/
theorem diff_eq_withoutFirst (xs ts : List Address) :
    xs.diff ts = withoutFirst (fun a => ts.count a) xs := by
  induction xs generalizing ts with
  | nil => rw [List.nil_diff]; rfl
  | cons x xs ih =>
    have hrest : withoutFirst (fun a => ts.count a - if x = a then 1 else 0) xs =
        xs.diff (ts.erase x) := by
      rw [ih]
      simp only [List.count_erase, beq_iff_eq]
    rw [withoutFirst_cons, hrest, List.cons_diff]
    by_cases h : x ∈ ts
    · rw [if_pos h, if_neg (List.count_pos_iff.2 h).ne', List.nil_append]
    · rw [if_neg h, if_pos (List.count_eq_zero_of_not_mem h), List.erase_of_not_mem h,
        List.singleton_append]

/-- Before the place of an address stand fewer copies of it than the list has. -/
theorem count_take_lt {xs : List Address} {i : Nat} {a : Address} (h : xs[i]? = some a) :
    (xs.take i).count a < xs.count a := by
  have hnext : (xs.take (i + 1)).count a = (xs.take i).count a + 1 := by
    rw [List.take_add_one, h, Option.toList_some, List.count_append, List.count_singleton_self]
  have hle : (xs.take (i + 1)).count a ≤ xs.count a := (List.take_sublist _ _).count_le a
  omega

/-- More copies than there are cannot be left out. -/
theorem withoutFirst_min (quota : Address → Nat) (xs : List Address) :
    withoutFirst (fun a => min (xs.count a) (quota a)) xs = withoutFirst quota xs := by
  unfold withoutFirst
  congr 1
  refine List.filter_congr fun p hp => ?_
  have hlt := count_take_lt (List.mem_zipIdx_iff_getElem?.1 hp)
  rw [decide_eq_decide]
  show min (xs.count p.1) (quota p.1) ≤ _ ↔ _
  omega

/-! ## Batches -/

/-- The outcomes of removing the addresses `ts`, one after the other. -/
def removals (xs ts : List Address) : List (Outcome ListError) := (run xs (ts.map .remove)).value

theorem listAfter_removals (xs ts : List Address) : listAfter xs (removals xs ts) = xs.diff ts := by
  induction ts generalizing xs with
  | nil => rw [List.diff_nil]; rfl
  | cons t ts ih =>
    rw [removals, List.map_cons, run_cons, listAfter_cons, Step.state_remove, List.diff_cons]
    exact ih _

/-- The removals that are answered take out what the list and the batch have in common. -/
theorem answered_removals (xs ts : List Address) :
    answered (removals xs ts) = ((xs : Multiset Address) ∩ ts).card := by
  have hthin : Thinned (answered (removals xs ts)) xs (listAfter xs (removals xs ts)) :=
    run_thinned (by simp [Step.isRemoval]) xs
  have hlen := hthin.length
  have hcard := congrArg Multiset.card (Multiset.sub_add_inter (xs : Multiset Address) ts)
  rw [listAfter_removals] at hlen
  rw [Multiset.card_add, Multiset.coe_sub, Multiset.coe_card, Multiset.coe_card] at hcard
  omega

/-- A batch of removals leaves out the first copies of every address, as many as both the list and
the batch have; so many removals are answered, and the order of the batch changes neither. -/
theorem removals_in_any_order (xs ts : List Address) :
    listAfter xs (removals xs ts) =
      withoutFirst (fun a => min (xs.count a) (ts.count a)) xs ∧
    answered (removals xs ts) = ∑ a ∈ (xs ++ ts).toFinset, min (xs.count a) (ts.count a) ∧
    ∀ ts' : List Address, ts'.Perm ts →
      listAfter xs (removals xs ts') = listAfter xs (removals xs ts) ∧
      answered (removals xs ts') = answered (removals xs ts) := by
  refine ⟨?_, ?_, fun ts' h => ⟨?_, ?_⟩⟩
  · rw [listAfter_removals, diff_eq_withoutFirst, withoutFirst_min]
  · have hmem : ∀ a ∈ (xs : Multiset Address) ∩ ts, a ∈ (xs ++ ts).toFinset := by
      intro a ha
      rw [List.mem_toFinset]
      exact List.mem_append_left _ (Multiset.mem_inter.1 ha).1
    rw [answered_removals, ← Multiset.sum_count_eq_card hmem]
    refine Finset.sum_congr rfl fun a _ => ?_
    rw [Multiset.count_inter, Multiset.coe_count, Multiset.coe_count]
  · rw [listAfter_removals, listAfter_removals, h.diff_left]
  · rw [answered_removals, answered_removals, Multiset.coe_eq_coe.2 h]

/-- Two of three copies go, and an address that does not occur is passed over. -/
example :
    let one := Address.ofDigits [1] (by decide)
    let two := Address.ofDigits [2] (by decide)
    let three := Address.ofDigits [3] (by decide)
    let xs := [two, one, two, two]
    listAfter xs (removals xs [two, three, two]) = [one, two] := by
  decide

end Roster
