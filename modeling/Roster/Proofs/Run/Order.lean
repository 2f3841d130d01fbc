/-
Removals keep the order. Each removal that is answered takes one element out and leaves the others
as they stand (`Thinned`); that is a preorder counted by the answers, so it holds between any two
lists of a run. A list without repetition stays one, and what was taken out of it is gone for good.
-/
import Roster.Proofs.Duplicates
import Roster.Proofs.Run.Conservation

namespace Roster

/-! ## Lists that lose elements -/

/-- `ys` is `xs` without `n` of its elements, the others standing in their order. -/
structure Thinned (n : Nat) (xs ys : List Address) : Prop where
  sublist : ys.Sublist xs
  length : ys.length + n = xs.length

theorem Thinned.refl (xs : List Address) : Thinned 0 xs xs := ⟨.refl xs, rfl⟩

theorem Thinned.trans {m n : Nat} {xs ys zs : List Address} (h1 : Thinned m xs ys)
    (h2 : Thinned n ys zs) : Thinned (m + n) xs zs := by
  refine ⟨h2.sublist.trans h1.sublist, ?_⟩
  have := h1.length
  have := h2.length
  omega

/-! ## Runs of removals -/

/-- How many of these outcomes are answers, not refusals. -/
def answered (outs : List (Outcome ListError)) : Nat := outs.countP (·.answer.isOk)

theorem answered_cons (out : Outcome ListError) (outs : List (Outcome ListError)) :
    answered (out :: outs) = answered [out] + answered outs := by
  rw [answered, ← List.singleton_append, List.countP_append]
  rfl

/-- A removal takes out one element if it is answered, and none if it is refused. -/
theorem Step.thinned {step : Step} (h : step.isRemoval = true) (xs : List Address) :
    Thinned (answered [(step.perform xs).value]) xs (step.perform xs).value.state := by
  have hc := step.effect xs
  generalize (step.perform xs).value = out at hc
  cases hc with
  | refused e => exact .refl xs
  | asked hq a => rw [isQuery_of_isRemoval h] at hq; cases hq
  | @removed target ht =>
    have hpos : 0 < xs.length := List.length_pos_of_mem ht
    refine ⟨List.erase_sublist, ?_⟩
    show (xs.erase target).length + 1 = xs.length
    rw [List.length_erase_of_mem ht]
    omega
  | @popped index hi =>
    refine ⟨List.eraseIdx_sublist xs index, ?_⟩
    show (xs.eraseIdx index).length + 1 = xs.length
    rw [List.length_eraseIdx_of_lt hi]
    omega
  | pushed | inserted | restored | removedAll => cases h

theorem run_thinned {steps : List Step} (h : ∀ step ∈ steps, step.isRemoval = true)
    (xs : List Address) :
    Thinned (answered (run xs steps).value) xs (listAfter xs (run xs steps).value) := by
  induction steps generalizing xs with
  | nil => exact .refl xs
  | cons step steps ih =>
    obtain ⟨hs, hss⟩ := List.forall_mem_cons.1 h
    simp only [run_cons, listAfter_cons]
    rw [answered_cons]
    exact (Step.thinned hs xs).trans (ih hss _)

/-- Between any two lists of a run. -/
theorem thinned_between {steps : List Step} (h : ∀ step ∈ steps, step.isRemoval = true)
    (xs : List Address) {i j : Nat} (hij : i ≤ j) :
    Thinned (answered (((run xs steps).value.take j).drop i))
      (listAfter xs ((run xs steps).value.take i))
      (listAfter xs ((run xs steps).value.take j)) := by
  have ht : ((run xs steps).value.take j).take i = (run xs steps).value.take i := by
    rw [List.take_take, Nat.min_eq_left hij]
  -- the outcomes from `i` to `j` are a run too, from the list reached at `i`
  have hd := drop_run xs (steps.take j) i
  rw [← take_run, ht] at hd
  have hl : listAfter xs ((run xs steps).value.take j) =
      listAfter (listAfter xs ((run xs steps).value.take i))
        (((run xs steps).value.take j).drop i) := by
    rw [← ht, ← listAfter_append, List.take_append_drop]
  rw [hl, hd]
  exact run_thinned (fun step hm => h step (List.mem_of_mem_take (List.mem_of_mem_drop hm))) _

/-! ## Lists without repetition -/

theorem nodup_of_hasDuplicate {scan : Scan} {xs : List Address}
    (h : (hasDuplicate scan xs).value = .ok false) : xs.Nodup :=
  (hasDuplicate_eq_false_iff.1 h).2

theorem hasDuplicate_of_nodup (scan : Scan) {xs : List Address} (h : xs.Nodup) :
    (hasDuplicate scan xs).value = if xs = [] then .error .empty else .ok false := by
  split
  · rename_i he; rw [he, hasDuplicate_nil]
  · rename_i hne; rw [hasDuplicate_of_ne_nil scan hne, decide_eq_true h]; rfl

/-- An address that a removal took out of a list without repetition is not left in it. -/
theorem Step.notMem_of_takenOut {step : Step} (h : step.isRemoval = true) {xs : List Address}
    (hn : xs.Nodup) {a : Address} (ha : a ∈ step.takenOut (step.perform xs).value.answer) :
    a ∉ (step.perform xs).value.state := by
  -- nothing is put in, so what was taken out and what is left make up the list
  have hp : step.putIn (step.perform xs).value.answer = [] := by
    cases step <;> first | rfl | cases h
  have hc := step.conserves xs
  rw [hp, Multiset.coe_nil, add_zero, Multiset.coe_add, Multiset.coe_eq_coe] at hc
  intro hs
  exact (List.nodup_append.1 (hc.symm.nodup hn)).2.2 a hs a ha rfl

/-- In a run of removals every later list is an earlier one with some elements missing, one for
each answer between them. Without a repetition in the beginning there is none later, as both scans
find, and an address that was taken out does not occur again and cannot be removed again. -/
theorem removals_keep_order {steps : List Step} (h : ∀ step ∈ steps, step.isRemoval = true)
    (xs : List Address) :
    let outs := (run xs steps).value
    (∀ i j, i ≤ j →
      (listAfter xs (outs.take j)).Sublist (listAfter xs (outs.take i)) ∧
      (listAfter xs (outs.take j)).length + answered ((outs.take j).drop i) =
        (listAfter xs (outs.take i)).length) ∧
    (∀ scan, (hasDuplicate scan xs).value = .ok false →
      (∀ k scan', (hasDuplicate scan' (listAfter xs (outs.take k))).value =
        if listAfter xs (outs.take k) = [] then .error .empty else .ok false) ∧
      (∀ k step out a, steps[k]? = some step → outs[k]? = some out →
        a ∈ step.takenOut out.answer → ∀ j, k < j →
          (contains (listAfter xs (outs.take j)) a).value = false ∧
          (remove (listAfter xs (outs.take j)) a).value = .error .notFound)) := by
  intro outs
  have hthin : ∀ i j, i ≤ j → Thinned (answered ((outs.take j).drop i))
      (listAfter xs (outs.take i)) (listAfter xs (outs.take j)) :=
    fun i j hij => thinned_between h xs hij
  refine ⟨fun i j hij => ⟨(hthin i j hij).sublist, (hthin i j hij).length⟩, fun scan hs => ?_⟩
  have hnodup : ∀ k, (listAfter xs (outs.take k)).Nodup := fun k =>
    (nodup_of_hasDuplicate hs).sublist (hthin 0 k (Nat.zero_le k)).sublist
  refine ⟨fun k scan' => hasDuplicate_of_nodup scan' (hnodup k), ?_⟩
  intro k step out a hstep hout ha j hkj
  have hrem : step.isRemoval = true := h step (List.mem_of_getElem? hstep)
  -- gone right after the step, and every later list has less in it
  have hgone : a ∉ listAfter xs (outs.take (k + 1)) := by
    rw [listAfter_take_succ hout]
    rw [getElem?_run hstep] at hout
    cases hout
    exact Step.notMem_of_takenOut hrem (hnodup k) ha
  have hlater : a ∉ listAfter xs (outs.take j) := fun hm =>
    hgone ((hthin (k + 1) j hkj).sublist.subset hm)
  rw [contains_eq, remove_of_notMem hlater]
  exact ⟨decide_eq_false hlater, rfl⟩

/-- Of three addresses the first is popped and the third removed, twice; the second removal of it
is refused, and the one in the middle is left. -/
theorem first_and_last_of_three :
    let one := Address.ofDigits [1] (by decide)
    let two := Address.ofDigits [2] (by decide)
    let three := Address.ofDigits [3] (by decide)
    let steps : List Step := [.pop 0, .remove three, .remove three]
    let outs := (run [one, two, three] steps).value
    (∀ step ∈ steps, step.isRemoval = true) ∧
    (hasDuplicate .pairwise [one, two, three]).value = .ok false ∧
    listAfter [one, two, three] (outs.take 1) = [two, three] ∧
    listAfter [one, two, three] (outs.take 3) = [two] ∧
    [two].Sublist [two, three] ∧ [two].length + 1 = [two, three].length ∧
    (hasDuplicate .hashSet [two]).value = .ok false ∧
    (contains [two] one).value = false ∧ (remove [two] three).value = .error .notFound := by
  intro one two three steps outs
  have hs : ∀ step ∈ steps, step.isRemoval = true := by decide
  have hd : (hasDuplicate .pairwise [one, two, three]).value = .ok false := by decide
  have h1 : listAfter [one, two, three] (outs.take 1) = [two, three] := by decide
  have h3 : listAfter [one, two, three] (outs.take 3) = [two] := by decide
  obtain ⟨horder, hfresh⟩ := removals_keep_order hs [one, two, three]
  obtain ⟨hsub, hlen⟩ := horder 1 3 (by decide)
  obtain ⟨hdup, hgone⟩ := hfresh .pairwise hd
  have hdup3 := hdup 3 .hashSet
  have hone := (hgone 0 (.pop 0) _ one rfl rfl (List.mem_singleton.2 rfl) 3 (by decide)).1
  have hthree :=
    (hgone 1 (.remove three) _ three rfl rfl (List.mem_singleton.2 rfl) 3 (by decide)).2
  rw [h3] at hsub hlen hdup3 hone hthree
  rw [h1] at hsub hlen
  exact ⟨hs, hd, h1, h3, hsub, hlen, hdup3, hone, hthree⟩

end Roster
