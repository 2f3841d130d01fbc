/-
Lists of addresses and their JSON texts. A list is written without blanks, each address in its own
text, and that is one of the ways in which the list may be spelled (`enclosed_listToJson`), so the
list comes back. Reading a list and writing it therefore gives one text for all the texts of that
list, and gives it again when it is done twice (`list_round_trip`).
-/
import Roster.Proofs.Address.Json
import Roster.Proofs.Address.Text

namespace Roster.Address

open Json

/-! ## Writing -/

/-- No character of an address needs an escape. -/
theorem isPlain_render (a : Address) : a.render.toList.all isPlain = true := by
  have hdigit : ∀ d, isPlain (Hex.digitChar d) = true := by decide
  rw [toList_render, List.all_eq_true]
  intro c hc
  rcases List.mem_cons.1 hc with rfl | hc
  · rfl
  rcases List.mem_cons.1 hc with rfl | hc
  · rfl
  · obtain ⟨d, -, rfl⟩ := List.mem_map.1 hc
    exact hdigit d

theorem toList_toJson (a : Address) : a.toJson.toList = '"' :: (a.render.toList ++ ['"']) := by
  simp [toJson]

theorem spelled_toJson (a : Address) : Spelled a a.toJson.toList := by
  refine ⟨a.render, ?_, parse_render a⟩
  rw [toList_toJson]
  exact literal_of_plain (isPlain_render a)

theorem toList_listToJson (xs : List Address) : (listToJson xs).toList =
    '[' :: ([','].intercalate (xs.map fun a => a.toJson.toList) ++ [']']) := by
  simp [listToJson, String.toList_intercalate, Function.comp_def]

/-- A list is written in one of the ways in which it may be spelled. -/
theorem enclosed_listToJson (xs : List Address) :
    Enclosed '[' ']' Spelled xs (listToJson xs).toList := by
  rw [toList_listToJson]
  exact enclosed_intercalate spelled_toJson xs

/-! ## Reading what was written -/

theorem decode_listToJson (xs : List Address) : listReader.decode (listToJson xs) = .ok xs := by
  rw [listReader_accepts.decode_iff]
  exact padded_of (enclosed_listToJson xs)

theorem listToJson_injective : Function.Injective listToJson := by
  intro xs ys h
  have hy := decode_listToJson ys
  rw [← h, decode_listToJson xs] at hy
  exact Except.ok.inj hy

/-- What the list in a text is written as. -/
def canonical (text : String) : Except Fault String := (listReader.decode text).map listToJson

theorem canonical_eq_ok_iff {text t : String} :
    canonical text = .ok t ↔ ∃ xs, listReader.decode text = .ok xs ∧ listToJson xs = t := by
  unfold canonical
  cases listReader.decode text <;> simp [Except.map]

/-- Every list comes back from its text, and no two lists have the same. The text that a list is
written as after it was read holds the same list and is written as itself, and two texts are
written as one exactly when they hold one list. -/
theorem list_round_trip :
    (∀ xs, listReader.decode (listToJson xs) = .ok xs) ∧
    Function.Injective listToJson ∧
    (∀ text t, canonical text = .ok t →
      listReader.decode t = listReader.decode text ∧ canonical t = .ok t) ∧
    (∀ text text' t t', canonical text = .ok t → canonical text' = .ok t' →
      (t = t' ↔ listReader.decode text = listReader.decode text')) := by
  refine ⟨decode_listToJson, listToJson_injective, ?_, ?_⟩
  · intro text t h
    obtain ⟨xs, hxs, rfl⟩ := canonical_eq_ok_iff.1 h
    have hback := decode_listToJson xs
    exact ⟨hback.trans hxs.symm, canonical_eq_ok_iff.2 ⟨xs, hback, rfl⟩⟩
  · intro text text' t t' h h'
    obtain ⟨xs, hxs, rfl⟩ := canonical_eq_ok_iff.1 h
    obtain ⟨ys, hys, rfl⟩ := canonical_eq_ok_iff.1 h'
    rw [hxs, hys, Except.ok.injEq]
    exact listToJson_injective.eq_iff

/-- An upper-case digit, and an escape among blanks: the two texts are written as one, and so they
hold the same list. -/
theorem two_spellings :
    let t := "[\"0x000000000000000000000000000000000000000a\"]"
    canonical "[\"0xA\"]" = .ok t ∧ canonical " [ \"\\u0030x0a\" ]" = .ok t ∧
    canonical t = .ok t ∧
    listReader.decode "[\"0xA\"]" = listReader.decode " [ \"\\u0030x0a\" ]" := by
  intro t
  let a := ofDigits [10] (by decide)
  have hblank : Blanks [' '] := fun c hc => .inl (List.mem_singleton.1 hc)
  have hupper : Spelled a "\"0xA\"".toList := ⟨"0xA", literal_of_plain (by decide), by decide⟩
  have hcode : CodeUnit '0'.toNat ['0', '0', '3', '0'] := ⟨rfl, by simp [Hex.IsDigit], by decide⟩
  have hzero : Spelling '0' ('\\' :: 'u' :: ['0', '0', '3', '0']) := .unit (.unit hcode)
  have hescape : Spelled a "\"\\u0030x0a\"".toList :=
    ⟨"0x0a", ⟨_, .cons hzero (run_of_plain (by decide)), rfl⟩, by decide⟩
  have hwritten : listToJson [a] = t := by decide
  have hread : listReader.decode "[\"0xA\"]" = .ok [a] :=
    (listReader_accepts.decode_iff _ _).2 (padded_of (.cons blanks_nil hupper (.nil blanks_nil)))
  have hread' : listReader.decode " [ \"\\u0030x0a\" ]" = .ok [a] :=
    (listReader_accepts.decode_iff _ _).2
      ⟨[' '], _, [], hblank, .cons hblank hescape (.nil hblank), blanks_nil, by decide⟩
  have h : canonical "[\"0xA\"]" = .ok t := canonical_eq_ok_iff.2 ⟨_, hread, hwritten⟩
  have h' : canonical " [ \"\\u0030x0a\" ]" = .ok t := canonical_eq_ok_iff.2 ⟨_, hread', hwritten⟩
  obtain ⟨-, -, hstable, hsame⟩ := list_round_trip
  exact ⟨h, h', (hstable _ _ h).2, (hsame _ _ _ _ h h').1 rfl⟩

end Roster.Address
