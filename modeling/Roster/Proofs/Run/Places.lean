/-
Popping a batch of places. Places are counted in the list that the batch starts on; once some of
them are gone, an element stands lower by as many as went from below it (`placeNow`). A pop there
takes out that element and leaves the list without one place more (`perform_pop_placeNow`), so that
a batch ends in the list without its places in whatever order it is popped (`listAfter_pops`). From
the largest place down nothing has to be lowered, and from the smallest up each place is lowered by
the number of pops before it (`pops_down_and_up`).
-/
import Mathlib.Data.List.FinRange
import Mathlib.Data.List.Nodup
import Roster.Proofs.Run

namespace Roster

/-! ## Places -/

section Places

variable {n : Nat} {gone : List (Fin n)} {i : Fin n}

/-- The places of a list of `n` elements without those in `gone`, in order. -/
def placesLeft (gone : List (Fin n)) : List (Fin n) := (List.finRange n).filter (· ∉ gone)

/-- Where the element from place `i` stands once those from `gone` are out. -/
def placeNow (gone : List (Fin n)) (i : Fin n) : Nat := i - gone.countP (· < i)

theorem pairwise_placesLeft (gone : List (Fin n)) : (placesLeft gone).Pairwise (· < ·) :=
  (List.pairwise_lt_finRange n).filter _

theorem mem_placesLeft : i ∈ placesLeft gone ↔ i ∉ gone := by
  rw [placesLeft, List.mem_filter, decide_eq_true_iff]
  exact and_iff_right (List.mem_finRange i)

theorem nodup_placesLeft (gone : List (Fin n)) : (placesLeft gone).Nodup :=
  (List.nodup_finRange n).filter _

/-- In a list in order a place stands after all that are below it. -/
theorem idxOf_eq_countP {places : List (Fin n)} (h : places.Pairwise (· < ·)) (hi : i ∈ places) :
    places.idxOf i = places.countP (· < i) := by
  induction places with
  | nil => cases hi
  | cons j places ih =>
    obtain ⟨hj, hrest⟩ := List.pairwise_cons.1 h
    rcases List.mem_cons.1 hi with rfl | hi
    · have hnone : (i :: places).countP (· < i) = 0 := by
        rw [List.countP_eq_zero]
        intro k hk
        rcases List.mem_cons.1 hk with rfl | hk
        · simp
        · simpa using (hj k hk).le
      rw [hnone, List.idxOf_cons_self]
    · have hlt : j < i := hj i hi
      rw [List.idxOf_cons_ne _ hlt.ne, ih hrest hi,
        List.countP_cons_of_pos (by simpa using hlt)]

/-- The places below `i` are those that are gone and those that are left. -/
theorem countP_placesLeft (h : gone.Nodup) (i : Fin n) :
    gone.countP (· < i) + (placesLeft gone).countP (· < i) = i := by
  -- every place is in one of the two lists, and in that once
  have hperm : (gone ++ placesLeft gone).Perm (List.finRange n) := by
    have hnodup : (gone ++ placesLeft gone).Nodup := by
      rw [List.nodup_append]
      refine ⟨h, nodup_placesLeft gone, ?_⟩
      rintro j hj _ hleft rfl
      exact mem_placesLeft.1 hleft hj
    rw [List.perm_ext_iff_of_nodup hnodup (List.nodup_finRange n)]
    intro j
    rw [List.mem_append, mem_placesLeft]
    exact ⟨fun _ => List.mem_finRange j, fun _ => em _⟩
  rw [← List.countP_append, hperm.countP_eq,
    ← idxOf_eq_countP (List.pairwise_lt_finRange n) (List.mem_finRange i), List.idxOf_finRange]

theorem idxOf_placesLeft (h : gone.Nodup) (hi : i ∉ gone) :
    (placesLeft gone).idxOf i = placeNow gone i := by
  have hsum := countP_placesLeft h i
  rw [idxOf_eq_countP (pairwise_placesLeft gone) (mem_placesLeft.2 hi), placeNow]
  omega

theorem erase_placesLeft (gone : List (Fin n)) (i : Fin n) :
    (placesLeft gone).erase i = placesLeft (i :: gone) := by
  rw [(nodup_placesLeft gone).erase_eq_filter, placesLeft, placesLeft, List.filter_filter]
  refine List.filter_congr fun j _ => ?_
  rw [Bool.eq_iff_iff]
  simp [not_or]

theorem placeNow_of_lt (h : ∀ j ∈ gone, i < j) : placeNow gone i = i := by
  have hnone : gone.countP (· < i) = 0 := by
    rw [List.countP_eq_zero]
    intro j hj
    simpa using (h j hj).le
  rw [placeNow, hnone, Nat.sub_zero]

theorem placeNow_of_gt (h : ∀ j ∈ gone, j < i) : placeNow gone i = i - gone.length := by
  have hall : gone.countP (· < i) = gone.length := by
    rw [List.countP_eq_length]
    intro j hj
    exact decide_eq_true (h j hj)
  rw [placeNow, hall]

end Places

/-! ## Popping places -/

/-- The list without the elements at these places, the others in their order. -/
def withoutPlaces (xs : List Address) (gone : List (Fin xs.length)) : List Address :=
  (placesLeft gone).map xs.get

/-- Pops of the elements from these places, each where it stands by then. -/
def pops {n : Nat} (gone : List (Fin n)) : List (Fin n) → List Step
  | [] => []
  | i :: places => .pop (placeNow gone i) :: pops (i :: gone) places

section Pops

variable {xs : List Address} {gone places : List (Fin xs.length)} {i : Fin xs.length}

theorem withoutPlaces_nil (xs : List Address) : withoutPlaces xs [] = xs := by
  simp [withoutPlaces, placesLeft]

/-- Only which places are gone counts, not the order in which they went. -/
theorem withoutPlaces_congr {gone' : List (Fin xs.length)} (h : ∀ i, i ∈ gone ↔ i ∈ gone') :
    withoutPlaces xs gone = withoutPlaces xs gone' := by
  simp only [withoutPlaces, placesLeft, h]

/-- A pop where an element stands by now takes out that element. -/
theorem perform_pop_placeNow (h : gone.Nodup) (hi : i ∉ gone) :
    ((Step.pop (placeNow gone i)).perform (withoutPlaces xs gone)).value =
      ⟨.ok (.popped (xs.get i)), withoutPlaces xs (i :: gone)⟩ := by
  have hidx : (placesLeft gone).idxOf i < (placesLeft gone).length :=
    List.idxOf_lt_length_of_mem (mem_placesLeft.2 hi)
  have hlt : (placesLeft gone).idxOf i < (withoutPlaces xs gone).length := by
    rwa [withoutPlaces, List.length_map]
  have hhit : (withoutPlaces xs gone)[(placesLeft gone).idxOf i] = xs.get i := by
    simp only [withoutPlaces, List.getElem_map, List.getElem_idxOf]
  have hrest : (withoutPlaces xs gone).eraseIdx ((placesLeft gone).idxOf i) =
      withoutPlaces xs (i :: gone) := by
    rw [withoutPlaces, List.eraseIdx_map, ← List.erase_eq_eraseIdx_of_idxOf rfl, erase_placesLeft,
      withoutPlaces]
  rw [← idxOf_placesLeft h hi, Step.perform_pop_of_lt hlt, hhit, hrest]

/-- The first of several pops, and the others on the list that it leaves. -/
theorem run_pops_cons (h : (i :: places ++ gone).Nodup) :
    (run (withoutPlaces xs gone) (pops gone (i :: places))).value =
      ⟨.ok (.popped (xs.get i)), withoutPlaces xs (i :: gone)⟩ ::
        (run (withoutPlaces xs (i :: gone)) (pops (i :: gone) places)).value := by
  obtain ⟨hi, hrest⟩ := List.nodup_cons.1 h
  have hgone : gone.Nodup := (List.nodup_append.1 hrest).2.1
  have hfresh : i ∉ gone := fun hm => hi (List.mem_append_right _ hm)
  rw [pops, run_cons, perform_pop_placeNow hgone hfresh]

theorem answers_pops (h : (places ++ gone).Nodup) :
    (run (withoutPlaces xs gone) (pops gone places)).value.map (·.answer) =
      places.map fun i => .ok (.popped (xs.get i)) := by
  induction places generalizing gone with
  | nil => rfl
  | cons i places ih =>
    rw [run_pops_cons h, List.map_cons, List.map_cons, ih (List.nodup_middle.2 h)]

theorem listAfter_pops (h : (places ++ gone).Nodup) :
    listAfter (withoutPlaces xs gone) (run (withoutPlaces xs gone) (pops gone places)).value =
      withoutPlaces xs (places ++ gone) := by
  induction places generalizing gone with
  | nil => rfl
  | cons i places ih =>
    rw [run_pops_cons h, listAfter_cons, ih (List.nodup_middle.2 h)]
    exact withoutPlaces_congr fun j => List.perm_middle.mem_iff

/-- A batch of places, in any order: every pop is answered with the element that stood there in the
beginning, and the others are left. -/
theorem run_pops (h : places.Nodup) :
    (run xs (pops [] places)).value.map (·.answer) =
        places.map (fun i => .ok (.popped (xs.get i))) ∧
      listAfter xs (run xs (pops [] places)).value = withoutPlaces xs places := by
  have hnodup : (places ++ []).Nodup := by rwa [List.append_nil]
  have hanswers := answers_pops hnodup
  have hlist := listAfter_pops hnodup
  rw [withoutPlaces_nil] at hanswers hlist
  rw [List.append_nil] at hlist
  exact ⟨hanswers, hlist⟩

end Pops

/-! ## From either end -/

section Ends

variable {n : Nat} {gone places : List (Fin n)}

theorem pops_of_decreasing (h : places.Pairwise (· > ·)) (hgone : ∀ i ∈ places, ∀ j ∈ gone, i < j) :
    pops gone places = places.map fun i => .pop i.val := by
  induction places generalizing gone with
  | nil => rfl
  | cons i places ih =>
    obtain ⟨hi, hrest⟩ := List.pairwise_cons.1 h
    obtain ⟨hbelow, hgone⟩ := List.forall_mem_cons.1 hgone
    have hnext : ∀ k ∈ places, ∀ j ∈ i :: gone, k < j := fun k hk =>
      List.forall_mem_cons.2 ⟨hi k hk, hgone k hk⟩
    rw [pops, placeNow_of_lt hbelow, ih hrest hnext, List.map_cons]

theorem pops_of_increasing (h : places.Pairwise (· < ·)) (hgone : ∀ i ∈ places, ∀ j ∈ gone, j < i) :
    pops gone places = places.mapIdx fun k i => .pop (i.val - (gone.length + k)) := by
  induction places generalizing gone with
  | nil => rfl
  | cons i places ih =>
    obtain ⟨hi, hrest⟩ := List.pairwise_cons.1 h
    obtain ⟨habove, hgone⟩ := List.forall_mem_cons.1 hgone
    have hnext : ∀ k ∈ places, ∀ j ∈ i :: gone, j < k := fun k hk =>
      List.forall_mem_cons.2 ⟨hi k hk, hgone k hk⟩
    -- one more is gone, and the others are counted from one further on
    rw [pops, placeNow_of_gt habove, ih hrest hnext, List.mapIdx_cons]
    simp only [List.length_cons, Nat.add_zero, Nat.add_assoc, Nat.add_comm 1]

/-- A place has no more listed places before it than it has places before it. -/
theorem le_of_increasing (h : places.Pairwise (· < ·)) {k : Nat} (hk : k < places.length) :
    k ≤ places[k] := by
  have hnodup : places.Nodup := h.imp fun hlt => hlt.ne
  have hsum := countP_placesLeft hnodup places[k]
  rw [← idxOf_eq_countP h (List.getElem_mem hk), hnodup.idxOf_getElem] at hsum
  omega

end Ends

/-- Increasing places of a list can be popped from the largest down as they are, or from the
smallest up, each lowered by the number of pops before it. Every pop is answered, with the element
that stood at its place in the beginning, and both ways leave the list without these places, all
else in its order. -/
theorem pops_down_and_up (xs : List Address) {places : List (Fin xs.length)}
    (h : places.Pairwise (· < ·)) :
    let down := (run xs (places.reverse.map fun i => .pop i.val)).value
    let up := (run xs (places.mapIdx fun k i => .pop (i.val - k))).value
    down.map (·.answer) = places.reverse.map (fun i => .ok (.popped (xs.get i))) ∧
    listAfter xs down = withoutPlaces xs places ∧
    (∀ k, (hk : k < places.length) → k ≤ places[k]) ∧
    up.map (·.answer) = places.map (fun i => .ok (.popped (xs.get i))) ∧
    listAfter xs up = withoutPlaces xs places := by
  intro down up
  have hnodup : places.Nodup := h.imp fun hlt => hlt.ne
  obtain ⟨hdown, hdownLeft⟩ := run_pops (List.nodup_reverse.2 hnodup)
  obtain ⟨hup, hupLeft⟩ := run_pops hnodup
  rw [pops_of_decreasing (List.pairwise_reverse.2 h) (by simp)] at hdown hdownLeft
  rw [pops_of_increasing h (by simp)] at hup hupLeft
  simp only [List.length_nil, Nat.zero_add] at hup hupLeft
  exact ⟨hdown, hdownLeft.trans (withoutPlaces_congr fun i => List.mem_reverse),
    fun k hk => le_of_increasing h hk, hup, hupLeft⟩

/-- The last two of three addresses are popped from either end; from below, both stand at the second
place in their turn. -/
theorem last_two_of_three :
    let one := Address.ofDigits [1] (by decide)
    let two := Address.ofDigits [2] (by decide)
    let three := Address.ofDigits [3] (by decide)
    let xs := [one, two, three]
    let places : List (Fin xs.length) := [1, 2]
    let down := (run xs [.pop 2, .pop 1]).value
    let up := (run xs [.pop 1, .pop 1]).value
    places.Pairwise (· < ·) ∧
    down.map (·.answer) = [.ok (.popped three), .ok (.popped two)] ∧ listAfter xs down = [one] ∧
    up.map (·.answer) = [.ok (.popped two), .ok (.popped three)] ∧ listAfter xs up = [one] := by
  intro one two three xs places down up
  have h : places.Pairwise (· < ·) := by decide
  obtain ⟨hdown, hdownLeft, -, hup, hupLeft⟩ := pops_down_and_up xs h
  have hleft : withoutPlaces xs places = [one] := by decide
  exact ⟨h, hdown, hdownLeft.trans hleft, hup, hupLeft.trans hleft⟩

end Roster
