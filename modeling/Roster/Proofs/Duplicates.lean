/-
The search for a repeated address. Both scans find a repetition exactly when the list has one: the
pairwise scan by induction on the list, the scan with a set because that set holds the addresses
passed so far (`meets_eq_true_iff`). So the answer does not depend on the scan, and the log tells
the two apart by the name of the scan only (`scans_agree`).
-/
import Mathlib.Data.List.Nodup
import Roster.Duplicates

namespace Roster

/-! ## The two scans -/

namespace Scan

theorem recurs_eq_true_iff (xs : List Address) : recurs xs = true ↔ ¬ xs.Nodup := by
  induction xs with
  | nil => simp [recurs]
  | cons x xs ih =>
    rw [recurs, Bool.or_eq_true, ih, List.contains_iff_mem, List.nodup_cons]
    tauto

/-- The scan stops at an address that it started out with or that the list repeats. -/
theorem meets_eq_true_iff (seen : Std.HashSet Address) (xs : List Address) :
    meets seen xs = true ↔ (∃ a ∈ xs, a ∈ seen) ∨ ¬ xs.Nodup := by
  induction xs generalizing seen with
  | nil => simp [meets]
  | cons x xs ih =>
    rw [meets, Bool.or_eq_true, ih, Std.HashSet.contains_iff_mem, List.nodup_cons]
    -- a hit in the larger set is the head once more, or was in the set before
    constructor
    · rintro (hx | ⟨a, ha, hs⟩ | hn)
      · exact .inl ⟨x, List.mem_cons_self .., hx⟩
      · rcases Std.HashSet.mem_insert.1 hs with hxa | hs
        · cases eq_of_beq hxa; exact .inr fun h => h.1 ha
        · exact .inl ⟨a, List.mem_cons_of_mem _ ha, hs⟩
      · exact .inr fun h => hn h.2
    · rintro (⟨a, ha, hs⟩ | hn)
      · rcases List.mem_cons.1 ha with rfl | ha
        · exact .inl hs
        · exact .inr (.inl ⟨a, ha, Std.HashSet.mem_insert.2 (.inr hs)⟩)
      · by_cases hx : x ∈ xs
        · exact .inr (.inl ⟨x, hx, Std.HashSet.mem_insert_self⟩)
        · exact .inr (.inr fun h => hn ⟨hx, h⟩)

theorem repeats_eq_true_iff (scan : Scan) (xs : List Address) :
    scan.repeats xs = true ↔ ¬ xs.Nodup := by
  cases scan with
  | pairwise => exact recurs_eq_true_iff xs
  | hashSet =>
    have h := meets_eq_true_iff ∅ xs
    simpa [repeats] using h

theorem repeats_eq (scan : Scan) (xs : List Address) : scan.repeats xs = !decide xs.Nodup := by
  rw [Bool.eq_iff_iff, repeats_eq_true_iff, Bool.not_eq_true', decide_eq_false_iff_not]

end Scan

/-! ## The answer and its report -/

theorem hasDuplicate_nil (scan : Scan) :
    hasDuplicate scan [] = ⟨.error .empty, [.scannedEmpty]⟩ := rfl

theorem hasDuplicate_of_ne_nil (scan : Scan) {xs : List Address} (h : xs ≠ []) :
    hasDuplicate scan xs =
      ⟨.ok (!decide xs.Nodup), [.scanned xs.length scan (!decide xs.Nodup)]⟩ := by
  cases xs with
  | nil => exact absurd rfl h
  | cons x xs => rw [hasDuplicate, Scan.repeats_eq]; exact List.cons_ne_nil _ _

/-- The answer is no when there is something to search and nothing comes twice. -/
theorem hasDuplicate_eq_false_iff {scan : Scan} {xs : List Address} :
    (hasDuplicate scan xs).value = .ok false ↔ xs ≠ [] ∧ xs.Nodup := by
  rcases eq_or_ne xs [] with rfl | h
  · rw [hasDuplicate_nil]
    constructor
    · intro he; cases he
    · rintro ⟨hne, -⟩; exact absurd rfl hne
  · rw [hasDuplicate_of_ne_nil scan h, and_iff_right h, Except.ok.injEq, Bool.not_eq_false',
      decide_eq_true_iff]

/-- A list repeats an address when two of its positions hold the same one. -/
theorem not_nodup_iff_positions (xs : List Address) :
    ¬ xs.Nodup ↔ ∃ i j : Fin xs.length, i < j ∧ xs[i] = xs[j] := by
  rw [List.nodup_iff_getElem?_ne_getElem?]
  push Not
  constructor
  · rintro ⟨i, j, hij, hj, h⟩
    have hi : i < xs.length := Nat.lt_trans hij hj
    rw [List.getElem?_eq_getElem hi, List.getElem?_eq_getElem hj] at h
    exact ⟨⟨i, hi⟩, ⟨j, hj⟩, hij, Option.some.inj h⟩
  · rintro ⟨i, j, hij, h⟩
    refine ⟨i, j, hij, j.isLt, ?_⟩
    rw [List.getElem?_eq_getElem i.isLt, List.getElem?_eq_getElem j.isLt]
    exact congrArg some h

/-! ## The log -/

/-- An event as the log shows it. -/
structure Entry where
  level : Level
  message : String
  fields : List (String × String)
  deriving DecidableEq, Repr

namespace Entry

/-- The entry with another value in every field of this name. -/
def withField (name value : String) (e : Entry) : Entry :=
  { e with fields := e.fields.map fun f => if f.1 = name then (name, value) else f }

end Entry

/-- What the log shows of an event. -/
def Event.entry (e : Event) : Entry := ⟨e.level, e.message, e.fields⟩

/-- Every scan gives the answer of the default one: the empty list is refused, and any other list
is searched for two positions that hold one address. What the log shows is the same too, with the
name of the scan in its field. -/
theorem scans_agree (xs : List Address) :
    (∀ scan : Scan, (hasDuplicate scan xs).value = (hasDuplicate default xs).value) ∧
    (∀ scan : Scan, (hasDuplicate scan xs).value = .error .empty ↔ xs = []) ∧
    (∀ scan : Scan, xs ≠ [] → ∃ b, (hasDuplicate scan xs).value = .ok b ∧
      (b = true ↔ ∃ i j : Fin xs.length, i < j ∧ xs[i] = xs[j])) ∧
    (∀ scan scan' : Scan, (hasDuplicate scan' xs).events.map Event.entry =
      (hasDuplicate scan xs).events.map fun e => e.entry.withField "scan" scan'.label) := by
  rcases eq_or_ne xs [] with rfl | h
  · refine ⟨fun _ => rfl, fun _ => ⟨fun _ => rfl, fun _ => rfl⟩, fun _ h => absurd rfl h, ?_⟩
    intro scan scan'
    rfl
  · refine ⟨fun scan => ?_, fun scan => ⟨fun he => ?_, fun hx => absurd hx h⟩, fun scan _ => ?_,
      fun scan scan' => ?_⟩
    · rw [hasDuplicate_of_ne_nil scan h, hasDuplicate_of_ne_nil default h]
    · rw [hasDuplicate_of_ne_nil scan h] at he; cases he
    · refine ⟨!decide xs.Nodup, by rw [hasDuplicate_of_ne_nil scan h], ?_⟩
      rw [Bool.not_eq_true', decide_eq_false_iff_not, not_nodup_iff_positions]
    · rw [hasDuplicate_of_ne_nil scan h, hasDuplicate_of_ne_nil scan' h]
      rfl

end Roster
