/-
The two views of an answer that was read from a text. Its position goes by the flag and its word by
the index, and a text may pair any index of sixty-four bits with either flag (`decode_toJson`). So
what every search keeps, that the index stands for "nowhere" without a hit and never with one, may
fail of an answer that was read, and then one view shows a hit and the other none. A text gives one
value for the index and one for the flag (`Gives.eq`), and the rule holds exactly when it writes
that index just where it writes `false` (`views_agree_iff_text`).
-/
import Roster.Proofs.Lookup.Json
import Roster.Proofs.Lookup.Word

namespace Roster.Lookup

open Json

variable {r : Lookup} {text : String} {i i' b b' t : List Char}

/-! ## What a text pairs -/

/-- The values that a text gives for the index and for the flag of an answer; whatever else it gives
are values as well. -/
inductive Gives (i b : List Char) (t : List Char) : Prop where
  | object {ms : List (String × List Char)} : Enclosed '{' '}' NamedMember ms t →
      (∀ m ∈ ms, IsValue m.2) → valuesOf "index" ms = [i] → valuesOf "found" ms = [b] → Gives i b t
  | list : Enclosed '[' ']' Eq [i, b] t → (∀ v ∈ [i, b], IsValue v) → Gives i b t

theorem Gives.isValue (h : Gives i b t) : IsValue t := by
  cases h with
  | object ht hv _ _ => exact isValue_of_members ht hv
  | list ht hv => exact isValue_of_enclosed ht fun v hmem u hu => hu ▸ hv v hmem

/-- A text gives one index and one flag. -/
theorem Gives.eq (h : Gives i b t) (h' : Gives i' b' t) : i = i' ∧ b = b' := by
  cases h with
  | object ht hv hi hb =>
    cases h' with
    | object ht' hv' hi' hb' =>
      obtain rfl := ht.eq distinct_members (.inr rfl) ht' rfl hv hv'
      exact ⟨(List.cons.inj (hi.symm.trans hi')).1, (List.cons.inj (hb.symm.trans hb')).1⟩
    | list ht' _ => exact absurd (ht.opening_eq ht') (by decide)
  | list ht hv =>
    cases h' with
    | object ht' _ _ _ => exact absurd (ht.opening_eq ht') (by decide)
    | list ht' hv' =>
      cases ht.eq distinct_values (.inl rfl) ht' rfl hv hv'
      exact ⟨rfl, rfl⟩

/-- So does a text with blanks around it. -/
theorem eq_of_padded_gives (h : Padded (Gives i b) t) (h' : Padded (Gives i' b') t) :
    i = i' ∧ b = b' := by
  obtain ⟨s, u, s', hs, hu, hs', rfl⟩ := h
  exact hu.eq ((padded_iff (fun _ => Gives.isValue) hs hs' hu.isValue).1 h')

theorem Written.exists_gives (h : r.Written t) :
    ∃ i b, Gives i b t ∧ Index r.index i ∧ Flag r.found b := by
  cases h with
  | object ht hother hi hiv hb hbv =>
    exact ⟨_, _, .object ht (isValue_of_other hother hi hiv hb hbv) hi hb, hiv, hbv⟩
  | list ht hiv hbv => exact ⟨_, _, .list ht (isValue_of_pair hiv hbv), hiv, hbv⟩

theorem exists_gives_of_decode (h : reader.decode text = .ok r) :
    ∃ i b, Padded (Gives i b) text.toList ∧ Index r.index i ∧ Flag r.found b := by
  obtain ⟨s, t, s', hs, ht, hs', htext⟩ := (reader_accepts.decode_iff text r).1 h
  obtain ⟨i, b, hgives, hi, hb⟩ := ht.exists_gives
  exact ⟨i, b, ⟨s, t, s', hs, hgives, hs', htext⟩, hi, hb⟩

theorem decode_toJson (h : r.index < 2 ^ 64) : reader.decode (toJson r) = .ok r :=
  (reader_accepts.decode_iff _ _).2 (padded_of (written_toJson r.found h))

/-! ## Where the views agree -/

theorem position?_eq_none_iff : r.position? = none ↔ r.found = false := by
  cases hf : r.found <;> simp [position?, hf]

theorem word_eq_max_iff (h : r.index < 2 ^ 64) : r.word = Word.max ↔ r.index = notFoundIndex := by
  constructor
  · intro hw
    by_contra hne
    have hlt : r.index < notFoundIndex := Nat.lt_of_le_of_ne (Nat.le_of_lt_succ h) hne
    rw [word_of_lt hlt] at hw
    exact absurd (hw ▸ hlt) (Nat.not_lt.2 (Nat.le_of_lt Word.notFoundIndex_lt_max))
  · intro hi
    rw [word, hi, Word.ofIndex_notFoundIndex]

theorem flag_iff {b b' : Bool} {t : List Char} (h : Flag b t) : Flag b' t ↔ b = b' := by
  constructor
  · intro h'
    have heq := h.symm.trans h'
    cases b <;> cases b' <;> simp at heq ⊢
  · rintro rfl
    exact h

theorem index_iff_eq {i j : Nat} {t : List Char} (h : Index i t) : Index j t ↔ i = j := by
  constructor
  · intro h'
    exact h.number.symm.trans h'.number
  · rintro rfl
    exact h

/-- What is read from a text keeps the rule of a search, that the index stands for "nowhere" without
a hit and never with one, and shows a hit in both views or in none, exactly when the text writes
that index just where it writes `false`. -/
theorem views_agree_iff_text (text : String) (r : Lookup) (h : reader.decode text = .ok r) :
    (∃ i b, Padded (Gives i b) text.toList) ∧
    ∀ i b, Padded (Gives i b) text.toList →
      ((r.found = false → r.index = notFoundIndex) ∧ (r.found = true → r.index ≠ notFoundIndex) ∧
        (r.position? = none ↔ r.word = 2 ^ 256 - 1) ↔
          (Flag false b ↔ Index notFoundIndex i)) := by
  obtain ⟨i, b, hgives, hi, hb⟩ := exists_gives_of_decode h
  refine ⟨⟨i, b, hgives⟩, fun i' b' hgives' => ?_⟩
  obtain ⟨rfl, rfl⟩ := eq_of_padded_gives hgives hgives'
  have hmax : 2 ^ 256 - 1 = Word.max := by decide
  rw [flag_iff hb, index_iff_eq hi, hmax, position?_eq_none_iff, word_eq_max_iff hi.lt]
  cases r.found <;> simp

/-- The index zero is read with either flag, but only one of the two texts keeps the rule. -/
theorem zero_with_either_flag :
    let hit := "\x7b\"index\":0,\"found\":true\x7d"
    let miss := "\x7b\"index\":0,\"found\":false\x7d"
    reader.decode hit = .ok ⟨0, true⟩ ∧
    (∃ i b, Padded (Gives i b) hit.toList ∧ (Flag false b ↔ Index notFoundIndex i)) ∧
    reader.decode miss = .ok ⟨0, false⟩ ∧
    ∃ i b, Padded (Gives i b) miss.toList ∧ ¬ (Flag false b ↔ Index notFoundIndex i) := by
  intro hit miss
  have hhit : hit = toJson ⟨0, true⟩ := by decide
  have hmiss : miss = toJson ⟨0, false⟩ := by decide
  have hread : reader.decode hit = .ok ⟨0, true⟩ := hhit ▸ decode_toJson (by decide)
  have hread' : reader.decode miss = .ok ⟨0, false⟩ := hmiss ▸ decode_toJson (by decide)
  obtain ⟨⟨i, b, hgives⟩, hiff⟩ := views_agree_iff_text hit _ hread
  obtain ⟨⟨i', b', hgives'⟩, hiff'⟩ := views_agree_iff_text miss _ hread'
  exact ⟨hread, ⟨i, b, hgives, (hiff i b hgives).1 (by decide)⟩, hread',
    ⟨i', b', hgives', mt (hiff' i' b' hgives').2 (by decide)⟩⟩

/-- Without a hit the index need not stand for "nowhere", and the word is then that of a hit; with a
hit it may, and the word is then that of none. -/
theorem miss_at_zero_and_hit_nowhere :
    let miss := "\x7b\"index\":0,\"found\":false\x7d"
    let hit := "\x7b\"index\":18446744073709551615,\"found\":true\x7d"
    (∃ r, reader.decode miss = .ok r ∧ r.found = false ∧ r.index ≠ notFoundIndex ∧
      r.position? = none ∧ r.word ≠ 2 ^ 256 - 1) ∧
    ∃ r, reader.decode hit = .ok r ∧ r.found = true ∧ r.index = notFoundIndex ∧
      r.position? ≠ none ∧ r.word = 2 ^ 256 - 1 := by
  intro miss hit
  have hmiss : miss = toJson ⟨0, false⟩ := by decide
  have hhit : hit = toJson ⟨notFoundIndex, true⟩ := by decide
  have hread : reader.decode miss = .ok ⟨0, false⟩ := hmiss ▸ decode_toJson (by decide)
  have hread' : reader.decode hit = .ok ⟨notFoundIndex, true⟩ := hhit ▸ decode_toJson (by decide)
  exact ⟨⟨_, hread, rfl, by decide, rfl, by decide⟩, ⟨_, hread', rfl, rfl, nofun, by decide⟩⟩

end Roster.Lookup
