/-
The format of answers. An answer is an object that gives its index and its flag once each, among any
other members, or the list of the two (`Written`). The index is the number that its digits denote,
never one that was cut to fit (`index_of_gives`), and every answer with an index of sixty-four bits
comes back from its text; `decode_exact` puts these together.
-/
import Roster.Lookup.Json
import Roster.Proofs.Json.Record
import Roster.Proofs.Json.Unambiguous

namespace Roster.Lookup

open Json

/-- How an answer is written: as an object that may have other members, or as a list. -/
inductive Written (r : Lookup) (t : List Char) : Prop where
  | object {ms : List (String × List Char)} {i b : List Char} :
      Enclosed '{' '}' NamedMember ms t →
      (∀ m ∈ ms, m.1 ≠ "index" → m.1 ≠ "found" → IsValue m.2) →
      valuesOf "index" ms = [i] → Index r.index i →
      valuesOf "found" ms = [b] → Flag r.found b → Written r t
  | list {i b : List Char} : Enclosed '[' ']' Eq [i, b] t → Index r.index i → Flag r.found b →
      Written r t

/-! ## Fields -/

theorem indexField_shows : indexField.Shows record.fields Draft.index where
  find := by simp [record]
  isSet _ := rfl
  set _ _ := rfl
  other g hg hne v d := by
    rcases List.mem_pair.1 hg with rfl | rfl
    · exact absurd rfl hne
    · rfl

theorem foundField_shows : foundField.Shows record.fields Draft.found where
  find := by simp [record, indexField, foundField]
  isSet _ := rfl
  set _ _ := rfl
  other g hg hne v d := by
    rcases List.mem_pair.1 hg with rfl | rfl
    · rfl
    · exact absurd rfl hne

theorem fields_accept : ∀ f ∈ record.fields, f.reader.Accepts f.reader.Takes := by
  intro f hf
  rcases List.mem_pair.1 hf with rfl | rfl
  · exact index_accepts.takes
  · exact boolean_accepts.takes

/-- A draft makes an answer when it holds both of its members. -/
theorem build_eq_ok_iff {d : Draft} {r : Lookup} :
    record.build d = .ok r ↔ d = ⟨some r.index, some r.found⟩ := by
  constructor
  · intro h
    obtain ⟨_ | i, _ | b⟩ := d <;> cases h
    rfl
  · rintro rfl
    rfl

/-! ## Answers -/

theorem written_iff (r : Lookup) (t : List Char) : record.Written r t ↔ r.Written t := by
  constructor
  · rintro (⟨ht, hd, hr⟩ | ⟨ht, hd, hr⟩)
    · obtain rfl := build_eq_ok_iff.1 hr
      obtain ⟨i, hi, hiv⟩ := index_accepts.filled_some_iff.1 (hd.filled indexField_shows)
      obtain ⟨b, hb, hbv⟩ := boolean_accepts.filled_some_iff.1 (hd.filled foundField_shows)
      exact .object ht (fun m hm _ _ => hd.isValue m hm) hi hiv hb hbv
    · -- a list with fewer items leaves a member out, and one with more is not read
      cases hd with
      | nil => cases hr
      | cons hv hd =>
        cases hd with
        | nil => cases hr
        | cons hw hd =>
          cases hd
          cases hr
          exact .list ht (index_accepts.takes_iff.1 hv) (boolean_accepts.takes_iff.1 hw)
  · rintro (⟨ht, hother, hi, hiv, hb, hbv⟩ | ⟨ht, hiv, hbv⟩)
    · have hi' := index_accepts.filled_some_iff.2 ⟨_, hi, hiv⟩
      have hb' := boolean_accepts.filled_some_iff.2 ⟨_, hb, hbv⟩
      obtain ⟨d, hd⟩ : ∃ d, Fills record.fields ⟨none, none⟩ _ d := by
        refine exists_fills (fun m hm h => hother m hm (h indexField (.head _))
          (h foundField (.tail _ (.head _)))) fun f hf => ?_
        rcases List.mem_pair.1 hf with rfl | rfl
        · exact ⟨_, _, indexField_shows, hi'⟩
        · exact ⟨_, _, foundField_shows, hb'⟩
      have hindex := (hd.filled indexField_shows).eq hi'
      have hfound := (hd.filled foundField_shows).eq hb'
      refine .object ht hd (build_eq_ok_iff.2 ?_)
      cases d
      cases hindex
      cases hfound
      rfl
    · exact .list ht (.cons (index_accepts.takes_iff.2 hiv)
        (.cons (boolean_accepts.takes_iff.2 hbv) .nil)) rfl

theorem reader_accepts : reader.Accepts Written :=
  (recordOf_accepts fields_accept).congr written_iff

/-! ## The index given -/

/-- An object or a list of values that gives this value for the index. -/
inductive GivesIndex (v t : List Char) : Prop where
  | object {ms : List (String × List Char)} : Enclosed '{' '}' NamedMember ms t →
      (∀ m ∈ ms, IsValue m.2) → v ∈ valuesOf "index" ms → GivesIndex v t
  | list {vs : List (List Char)} : Enclosed '[' ']' Eq (v :: vs) t →
      (∀ w ∈ v :: vs, IsValue w) → GivesIndex v t

theorem GivesIndex.isValue {v t : List Char} (h : GivesIndex v t) : IsValue t := by
  cases h with
  | object ht hv _ => exact isValue_of_members ht hv
  | list ht hv => exact isValue_of_enclosed ht fun w hw u hu => hu ▸ hv w hw

/-- The members that are known have values as well. -/
theorem isValue_of_other {r : Lookup} {ms : List (String × List Char)} {i b : List Char}
    (hother : ∀ m ∈ ms, m.1 ≠ "index" → m.1 ≠ "found" → IsValue m.2)
    (hi : valuesOf "index" ms = [i]) (hiv : Index r.index i) (hb : valuesOf "found" ms = [b])
    (hbv : Flag r.found b) : ∀ m ∈ ms, IsValue m.2 := by
  intro m hm
  have hmem := mem_valuesOf hm
  by_cases h₁ : m.1 = "index"
  · rw [h₁, hi, List.mem_singleton] at hmem
    exact hmem ▸ index_accepts.isValue hiv
  by_cases h₂ : m.1 = "found"
  · rw [h₂, hb, List.mem_singleton] at hmem
    exact hmem ▸ boolean_accepts.isValue hbv
  exact hother m hm h₁ h₂

theorem isValue_of_pair {r : Lookup} {i b : List Char} (hiv : Index r.index i)
    (hbv : Flag r.found b) : ∀ v ∈ [i, b], IsValue v := by
  simp [index_accepts.isValue hiv, boolean_accepts.isValue hbv]

/-- The index of an answer is what its text gives for it. -/
theorem Written.index_of_gives {r : Lookup} {v t : List Char} (h : r.Written t)
    (hv : GivesIndex v t) : Index r.index v := by
  cases h with
  | @object ms i b ht hother hi hiv hb hbv =>
    have hgood := isValue_of_other hother hi hiv hb hbv
    cases hv with
    | object ht' hgood' hv =>
      obtain rfl := ht.eq distinct_members (.inr rfl) ht' rfl hgood hgood'
      rw [hi, List.mem_singleton] at hv
      exact hv ▸ hiv
    | list ht' _ => exact absurd (ht.opening_eq ht') (by decide)
  | @list i b ht hiv hbv =>
    have hgood := isValue_of_pair hiv hbv
    cases hv with
    | object ht' _ _ => exact absurd (ht.opening_eq ht') (by decide)
    | list ht' hgood' =>
      have hvs := ht.eq distinct_values (.inl rfl) ht' rfl hgood hgood'
      exact (List.cons.inj hvs).1 ▸ hiv

/-! ## Texts of answers -/

theorem written_toJson {i : Nat} (b : Bool) (h : i < 2 ^ 64) :
    Written ⟨i, b⟩ (toJson ⟨i, b⟩).toList := by
  have hflag : Flag b (toString b).toList := by cases b <;> rfl
  have hdigits : (toString i).toList = Nat.toDigits 10 i := Nat.toList_repr
  have hindex := namedMember_of_plain "index" (toString i).toList (by decide)
  have hfound := namedMember_of_plain "found" (toString b).toList (by decide)
  have htext : (toJson ⟨i, b⟩).toList =
      '{' :: ('"' :: ("index".toList ++ '"' :: ':' :: (toString i).toList) ++
        ',' :: ('"' :: ("found".toList ++ '"' :: ':' :: (toString b).toList) ++ ['}'])) := by
    simp [toJson]
  have hmembers : Enclosed '{' '}' NamedMember
      [("index", (toString i).toList), ("found", (toString b).toList)] (toJson ⟨i, b⟩).toList := by
    rw [htext]
    exact .cons blanks_nil hindex (.cons blanks_nil blanks_nil hfound (.nil blanks_nil))
  refine .object hmembers (fun m hm h₁ h₂ => ?_) rfl (hdigits ▸ Numeral.index_toDigits h) rfl hflag
  rcases List.mem_pair.1 hm with rfl | rfl
  · exact absurd rfl h₁
  · exact absurd rfl h₂

/-- A text holds an answer when it is written as one, with blanks around it. Every answer with an
index of sixty-four bits comes back from its text, and no text that gives a greater number for the
index holds any. -/
theorem decode_exact :
    (∀ text r, reader.decode text = .ok r ↔ Padded r.Written text.toList) ∧
    (∀ i b, i < 2 ^ 64 → reader.decode (toJson ⟨i, b⟩) = .ok ⟨i, b⟩) ∧
    (∀ text v, Padded (GivesIndex v) text.toList → Numeral.IsWhole v →
      2 ^ 64 ≤ Nat.ofDigitChars 10 v 0 → ∀ r, reader.decode text ≠ .ok r) := by
  have hok : ∀ text r, reader.decode text = .ok r ↔ Padded r.Written text.toList :=
    fun text r => reader_accepts.decode_iff text r
  refine ⟨hok, fun i b hi => ?_, ?_⟩
  · exact (hok _ _).2 (padded_of (written_toJson b hi))
  · rintro text v ⟨b₁, t₁, b₁', hb₁, hv, hb₁', htext₁⟩ - hlarge r hr
    obtain ⟨b, t, b', hb, ht, hb', htext⟩ := (hok text r).1 hr
    obtain rfl := IsValue.eq_of_padded hb hb' hb₁ hb₁' (reader_accepts.isValue ht) hv.isValue
      (htext.symm.trans htext₁)
    have hindex := ht.index_of_gives hv
    have hnumber := hindex.number
    have hlt := hindex.lt
    omega

/-- The largest index comes back from its text, and the next number is refused. -/
theorem largest_index :
    reader.decode (toJson ⟨2 ^ 64 - 1, true⟩) = .ok ⟨2 ^ 64 - 1, true⟩ ∧
    ∀ r, reader.decode "[18446744073709551616,true]" ≠ .ok r := by
  obtain ⟨-, hback, hlarge⟩ := decode_exact
  have hwhole : Numeral.IsWhole "18446744073709551616".toList :=
    ⟨⟨by decide, List.all_eq_true.1 (by decide)⟩, by decide⟩
  have hitems : Enclosed '[' ']' Eq ["18446744073709551616".toList, ['t', 'r', 'u', 'e']]
      "[18446744073709551616,true]".toList :=
    .cons blanks_nil rfl (.cons blanks_nil blanks_nil rfl (.nil blanks_nil))
  have hvalues : ∀ w ∈ ["18446744073709551616".toList, ['t', 'r', 'u', 'e']], IsValue w := by
    intro w hw
    rcases List.mem_pair.1 hw with rfl | rfl
    · exact .number hwhole.written
    · exact .flag (b := true) rfl
  exact ⟨hback _ _ (by decide),
    hlarge _ _ (padded_of (.list hitems hvalues)) hwhole (by decide)⟩

end Roster.Lookup
