/-
Where a search finds an address once an element is out. A first place is told by the elements at
places alone (`FirstFrom`), and so is what a pop leaves: nothing moves below its index, and all
above comes one place lower. So a first copy below the index stays where it is, one above it comes
lower, and when it is the first copy that goes, the next one is found in its stead
(`lookup_after_pop`).
-/
import Roster.Proofs.Removal

namespace Roster

variable {xs : List Address} {a : Address} {start index k : Nat}

/-! ## First places -/

/-- Among the places of `xs` from `start` on, `k` is the first that holds `a`. -/
structure FirstFrom (start : Nat) (xs : List Address) (a : Address) (k : Nat) : Prop where
  start_le : start ≤ k
  here : xs[k]? = some a
  before : ∀ j, start ≤ j → j < k → xs[j]? ≠ some a

theorem FirstFrom.mono {start' : Nat} (h : FirstFrom start xs a k) (hs : start ≤ start')
    (hk : start' ≤ k) : FirstFrom start' xs a k :=
  ⟨hk, h.here, fun j hj => h.before j (Nat.le_trans hs hj)⟩

theorem FirstFrom.none_below (h : FirstFrom 0 xs a k) (hle : index ≤ k) :
    ∀ j < index, xs[j]? ≠ some a :=
  fun j hj => h.before j (Nat.zero_le j) (Nat.lt_of_lt_of_le hj hle)

/-- A search finds the first place. -/
theorem lookup_of_first (h : FirstFrom 0 xs a k) : (lookup xs a).value = ⟨k, true⟩ := by
  obtain ⟨hlt, hhit⟩ := List.getElem?_eq_some_iff.1 h.here
  have hidx : xs.idxOf a = k := by
    rw [List.idxOf, List.findIdx_eq hlt]
    refine ⟨beq_iff_eq.2 hhit, fun j hj => ?_⟩
    have hmiss := h.before j (Nat.zero_le j) hj
    rw [List.getElem?_eq_getElem (Nat.lt_trans hj hlt)] at hmiss
    exact beq_eq_false_iff_ne.2 fun he => hmiss (congrArg some he)
  rw [lookup_of_mem (List.mem_of_getElem? h.here), hidx]

/-! ## Without one element -/

theorem FirstFrom.eraseIdx_of_lt (h : FirstFrom 0 xs a k) (hk : k < index) :
    FirstFrom 0 (xs.eraseIdx index) a k := by
  refine ⟨h.start_le, ?_, fun j hj hjk => ?_⟩
  · rw [List.getElem?_eraseIdx_of_lt hk]
    exact h.here
  · rw [List.getElem?_eraseIdx_of_lt (Nat.lt_trans hjk hk)]
    exact h.before j hj hjk

/-- Without a copy below the index, the first one above it is found one place lower. -/
theorem FirstFrom.eraseIdx_of_gt (hbelow : ∀ j < index, xs[j]? ≠ some a)
    (h : FirstFrom (index + 1) xs a k) : FirstFrom 0 (xs.eraseIdx index) a (k - 1) := by
  have hk := h.start_le
  refine ⟨Nat.zero_le _, ?_, fun j _ hjk => ?_⟩
  · rw [List.getElem?_eraseIdx_of_ge (by omega), Nat.sub_add_cancel (by omega)]
    exact h.here
  · rcases Nat.lt_or_ge j index with hj | hj
    · rw [List.getElem?_eraseIdx_of_lt hj]
      exact hbelow j hj
    · rw [List.getElem?_eraseIdx_of_ge hj]
      exact h.before (j + 1) (by omega) (by omega)

theorem notMem_eraseIdx (hbelow : ∀ j < index, xs[j]? ≠ some a)
    (habove : ∀ j, index < j → xs[j]? ≠ some a) : a ∉ xs.eraseIdx index := by
  intro hmem
  obtain ⟨j, hne, hj⟩ := List.mem_eraseIdx_iff_getElem?.1 hmem
  rcases Nat.lt_or_gt_of_ne hne with hlt | hgt
  · exact hbelow j hlt hj
  · exact habove j hgt hj

/-- What a search finds after a pop is told by what stood at the places before. An address that did
not occur is not found. One whose first place is below the index is found in that place, and one
whose first place is above it one place lower. One whose first copy was popped is found where its
next copy has come to stand, or no more if there is none; removing that address would have left the
same list. -/
theorem lookup_after_pop (h : index < xs.length) (target : Address) :
    ∃ rest, (pop xs index).value = .ok ⟨rest, xs[index]⟩ ∧
      (target ∉ xs → (lookup rest target).value = .notFound) ∧
      ∀ k, FirstFrom 0 xs target k →
        (k < index → (lookup rest target).value = ⟨k, true⟩) ∧
        (index < k → (lookup rest target).value = ⟨k - 1, true⟩) ∧
        (k = index →
          (∀ m, FirstFrom (index + 1) xs target m → (lookup rest target).value = ⟨m - 1, true⟩) ∧
          ((∀ m, index < m → xs[m]? ≠ some target) → (lookup rest target).value = .notFound) ∧
          (remove xs target).value = .ok rest) := by
  refine ⟨xs.eraseIdx index, by rw [pop_of_lt h], fun hnot => ?_, fun k hfirst => ⟨?_, ?_, ?_⟩⟩
  · rw [lookup_of_notMem fun hmem => hnot (List.mem_of_mem_eraseIdx hmem)]
  · intro hlt
    exact lookup_of_first (hfirst.eraseIdx_of_lt hlt)
  · intro hgt
    have hbelow := hfirst.none_below (Nat.le_of_lt hgt)
    exact lookup_of_first (.eraseIdx_of_gt hbelow (hfirst.mono (Nat.zero_le _) hgt))
  · -- the copy that goes was the first, so none is left below the index
    rintro rfl
    have hbelow := hfirst.none_below (Nat.le_refl k)
    refine ⟨fun m hm => lookup_of_first (hm.eraseIdx_of_gt hbelow), fun habove => ?_, ?_⟩
    · rw [lookup_of_notMem (notMem_eraseIdx hbelow habove)]
    · have hpos : (lookup xs target).value.position? = some k := by
        rw [lookup_of_first hfirst]; rfl
      rw [remove_of_position hpos, pop_of_lt h]
      rfl

/-- When the first of three addresses is popped, its second copy is found one place lower than it
stood, and so is the address between the two. -/
theorem next_copy_of_three :
    let one := Address.ofDigits [1] (by decide)
    let two := Address.ofDigits [2] (by decide)
    let xs := [two, one, two]
    0 < xs.length ∧ FirstFrom 0 xs two 0 ∧ FirstFrom 1 xs two 2 ∧ FirstFrom 0 xs one 1 ∧
    (pop xs 0).value = .ok ⟨[one, two], two⟩ ∧ (lookup [one, two] two).value = ⟨1, true⟩ ∧
    (lookup [one, two] one).value = ⟨0, true⟩ ∧ (remove xs two).value = .ok [one, two] := by
  intro one two xs
  have h : 0 < xs.length := by decide
  have hfirst : FirstFrom 0 xs two 0 := ⟨Nat.le_refl 0, rfl, fun j _ hj => absurd hj (by omega)⟩
  have hnext : FirstFrom 1 xs two 2 := by
    refine ⟨by decide, rfl, fun j hj hj2 => ?_⟩
    obtain rfl : j = 1 := by omega
    decide
  have hbetween : FirstFrom 0 xs one 1 := by
    refine ⟨by decide, rfl, fun j _ hj => ?_⟩
    obtain rfl : j = 0 := by omega
    decide
  obtain ⟨rest, hpop, -, htwo⟩ := lookup_after_pop h two
  obtain ⟨rest', hpop', -, hone⟩ := lookup_after_pop h one
  cases hpop
  cases hpop'
  obtain ⟨hmoved, -, hremove⟩ := (htwo 0 hfirst).2.2 rfl
  exact ⟨h, hfirst, hnext, hbetween, rfl, hmoved 2 hnext, (hone 1 hbetween).2.1 (by decide),
    hremove⟩

end Roster
