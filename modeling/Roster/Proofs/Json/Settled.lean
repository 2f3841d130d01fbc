/-
Texts that end in no decimal digit. What can be read of such a text can be read of every longer one,
with more left after it: only a number that reaches the end of its text may go on in what is added.
The rest of a settled text is settled, so that this holds of each reading after the first as well.
-/
import Roster.Proofs.Json.Reader

namespace Roster.Json

/-- A text whose last character is no decimal digit, so that no number at its end goes on. -/
def Settled (s : List Char) : Prop := ∀ c ∈ s.getLast?, c.isDigit = false

theorem Settled.of_append {t s : List Char} (h : Settled (t ++ s)) : Settled s := by
  intro c hc
  exact h c (by rw [List.getLast?_append, hc]; rfl)

theorem settled_append_singleton {t : List Char} {c : Char} (h : c.isDigit = false) :
    Settled (t ++ [c]) := by
  intro d hd
  rw [List.getLast?_append] at hd
  cases hd
  exact h

theorem Settled.append {t s : List Char} (ht : Settled t) (hs : Settled s) : Settled (t ++ s) := by
  intro c hc
  rw [List.getLast?_append] at hc
  cases h : s.getLast? with
  | none =>
    rw [h] at hc
    exact ht c hc
  | some d =>
    rw [h] at hc
    exact hs c (h.trans hc)

theorem Blanks.settled {b : List Char} (hb : Blanks b) : Settled b := by
  intro c hc
  rcases hb c (List.mem_of_getLast? hc) with rfl | rfl | rfl | rfl
  all_goals rfl

theorem skipBlanks_append_of_cons {s t : List Char} {c : Char} (h : skipBlanks s = c :: t)
    (x : List Char) : skipBlanks (s ++ x) = c :: (t ++ x) := by
  obtain ⟨hc, b, hb, rfl⟩ := skipBlanks_eq_cons_iff.1 h
  rw [List.append_assoc]
  exact hb.skip hc _

/-- What a text comes to after its blanks is what every longer text comes to. -/
theorem skipBlanks_append_ne {s : List Char} {c : Char} (hne : skipBlanks s ≠ [])
    (h : ∀ r, skipBlanks s ≠ c :: r) (x r : List Char) : skipBlanks (s ++ x) ≠ c :: r := by
  obtain ⟨d, t, hd⟩ := List.exists_cons_of_ne_nil hne
  rw [skipBlanks_append_of_cons hd]
  rintro hr
  cases hr
  exact h t hd

theorem Settled.dropBlanks {s : List Char} (hs : Settled s) : Settled (skipBlanks s) := by
  obtain ⟨b, -, hb⟩ := exists_blanks s
  rw [hb] at hs
  exact hs.of_append

theorem Settled.of_skipBlanks {s t : List Char} {c : Char} (hs : Settled s)
    (h : skipBlanks s = c :: t) : Settled t := by
  obtain ⟨-, b, -, rfl⟩ := skipBlanks_eq_cons_iff.1 h
  have h' : Settled ((b ++ [c]) ++ t) := by simpa using hs
  exact h'.of_append

/-! ## Phrases that close -/

theorem Literal.settled {s : String} {t : List Char} (h : Literal s t) : Settled t := by
  obtain ⟨u, -, rfl⟩ := h
  exact settled_append_singleton (t := '"' :: u) rfl

section Brackets

variable {α : Type} {opening close : Char} {P : α → List Char → Prop} {xs : List α}
  {t : List Char}

theorem Continued.exists_append_close (h : Continued close P xs t) : ∃ u, t = u ++ [close] := by
  induction h with
  | nil => exact ⟨_, rfl⟩
  | @cons b b' v _ _ _ _ _ _ _ ih =>
    obtain ⟨u, rfl⟩ := ih
    exact ⟨b ++ ',' :: (b' ++ (v ++ u)), by simp⟩

theorem Enclosed.exists_append_close (h : Enclosed opening close P xs t) :
    ∃ u, t = u ++ [close] := by
  cases h with
  | @nil b => exact ⟨opening :: b, rfl⟩
  | @cons b v _ _ _ _ _ h =>
    obtain ⟨u, rfl⟩ := h.exists_append_close
    exact ⟨opening :: (b ++ (v ++ u)), by simp⟩

theorem Enclosed.settled (h : Enclosed opening close P xs t) (hclose : close.isDigit = false) :
    Settled t := by
  obtain ⟨u, rfl⟩ := h.exists_append_close
  exact settled_append_singleton hclose

end Brackets

/-! ## Numbers -/

namespace Numeral

variable {s rest : List Char}

theorem noDigit_append (h : NoDigit rest) (hne : rest ≠ []) (x : List Char) :
    NoDigit (rest ++ x) := by
  obtain ⟨c, t, rfl⟩ := List.exists_cons_of_ne_nil hne
  exact h

theorem ne_nil_of_settled {t : List Char} (ht : IsDigits t) (hs : Settled (t ++ rest)) :
    rest ≠ [] := by
  rintro rfl
  rw [List.append_nil] at hs
  have hd := ht.isDigit _ (List.getLast_mem ht.ne_nil)
  rw [hs _ (List.getLast?_eq_some_getLast ht.ne_nil)] at hd
  cases hd

theorem readDigits_of_settled {ds : List Nat} (h : readDigits s = some (ds, rest))
    (hs : Settled s) : rest ≠ [] ∧ Settled rest ∧
      ∀ x, readDigits (s ++ x) = some (ds, rest ++ x) := by
  obtain ⟨t, ht, rfl, rfl, hr⟩ := readDigits_eq_some_iff.1 h
  have hne := ne_nil_of_settled ht hs
  refine ⟨hne, hs.of_append, fun x => ?_⟩
  exact readDigits_eq_some_iff.2 ⟨t, ht, List.append_assoc .., rfl, noDigit_append hr hne x⟩

theorem readWhole_of_settled {ds : List Nat} (h : readWhole s = some (ds, rest))
    (hs : Settled s) : rest ≠ [] ∧ Settled rest ∧
      ∀ x, readWhole (s ++ x) = some (ds, rest ++ x) := by
  obtain ⟨hd, hp⟩ := Option.filter_eq_some_iff.1 h
  obtain ⟨hne, hset, hx⟩ := readDigits_of_settled hd hs
  exact ⟨hne, hset, fun x => Option.filter_eq_some_iff.2 ⟨hx x, hp⟩⟩

theorem sign_append_of_ne_nil (h : s ≠ []) (x : List Char) :
    sign (s ++ x) = ((sign s).1, (sign s).2 ++ x) := by
  obtain ⟨c, t, rfl⟩ := List.exists_cons_of_ne_nil h
  by_cases hc : c = '-'
  · subst hc; rfl
  · have hh : ∀ u : List Char, (c :: u).head? ≠ some '-' := fun u hu => hc (Option.some.inj hu)
    have hs : ∀ u, sign (c :: u) = (false, c :: u) := fun u => sign_append .absent (hh u)
    rw [List.cons_append, hs, hs]
    rfl

theorem exponentSign_append_of_ne_nil (h : s ≠ []) (x : List Char) :
    exponentSign (s ++ x) = ((exponentSign s).1, (exponentSign s).2 ++ x) := by
  obtain ⟨c, t, rfl⟩ := List.exists_cons_of_ne_nil h
  by_cases hc : c = '+'
  · subst hc; rfl
  · have he : ∀ u, exponentSign (c :: u) = sign (c :: u) := by
      intro u
      unfold exponentSign
      split
      · rename_i hu; exact absurd (List.cons.inj hu).1 hc
      · rfl
    rw [List.cons_append, he, he, ← List.cons_append]
    exact sign_append_of_ne_nil h x

theorem readFraction_of_settled {ds : List Nat} (h : readFraction s = some (ds, rest))
    (hs : Settled s) (hne : s ≠ []) : rest ≠ [] ∧ Settled rest ∧
      ∀ x, readFraction (s ++ x) = some (ds, rest ++ x) := by
  obtain ⟨c, t, rfl⟩ := List.exists_cons_of_ne_nil hne
  by_cases hc : c = '.'
  · subst hc
    exact readDigits_of_settled h (Settled.of_append (t := ['.']) hs)
  · have he : ∀ u, readFraction (c :: u) = some ([], c :: u) := by
      intro u
      unfold readFraction
      split
      · rename_i hu; exact absurd (List.cons.inj hu).1 hc
      · rfl
    rw [he] at h
    cases h
    exact ⟨hne, hs, fun x => he _⟩

theorem readExponent_of_settled {e : Option Int} (h : readExponent s = some (e, rest))
    (hs : Settled s) (hne : s ≠ []) : rest ≠ [] ∧ Settled rest ∧
      ∀ x, readExponent (s ++ x) = some (e, rest ++ x) := by
  obtain ⟨c, t, rfl⟩ := List.exists_cons_of_ne_nil hne
  by_cases hc : c = 'e' ∨ c = 'E'
  · rw [readExponent, if_pos hc] at h
    obtain ⟨⟨ds, r⟩, hr, he⟩ := Option.map_eq_some_iff.1 h
    cases he
    have ht : t ≠ [] := by rintro rfl; cases hr
    obtain ⟨u, -, hu⟩ := exponentSign_spec t
    have hset : Settled (exponentSign t).2 :=
      Settled.of_append (t := c :: u) (by rw [List.cons_append, ← hu]; exact hs)
    obtain ⟨hne, hset, hx⟩ := readDigits_of_settled hr hset
    refine ⟨hne, hset, fun x => ?_⟩
    rw [List.cons_append, readExponent, if_pos hc, exponentSign_append_of_ne_nil ht]
    simp only [hx, Option.map_some]
  · have he : ∀ u, readExponent (c :: u) = some (none, c :: u) := fun u => if_neg hc
    rw [he] at h
    cases h
    exact ⟨hne, hs, fun x => he _⟩

/-- A number that is read off a settled text ends before the text does. -/
theorem read_of_settled {n : Numeral} (h : read s = some (n, rest)) (hs : Settled s) :
    Settled rest ∧ ∀ x, read (s ++ x) = some (n, rest ++ x) := by
  obtain ⟨r₁, r₂, hw, hf, he, hn⟩ := read_eq_some_iff.1 h
  have hne : s ≠ [] := by rintro rfl; cases h
  obtain ⟨t, -, ht⟩ := sign_spec s
  have hset : Settled (sign s).2 := Settled.of_append (t := t) (ht ▸ hs)
  obtain ⟨hne₁, hs₁, hw⟩ := readWhole_of_settled hw hset
  obtain ⟨hne₂, hs₂, hf⟩ := readFraction_of_settled hf hs₁ hne₁
  obtain ⟨-, hs₃, he⟩ := readExponent_of_settled he hs₂ hne₂
  refine ⟨hs₃, fun x => ?_⟩
  rw [read_eq_some_iff, sign_append_of_ne_nil hne]
  exact ⟨_, _, hw x, hf x, he x, hn⟩

end Numeral

/-! ## Scalars and names -/

section Scalars

variable {s rest : List Char}

theorem readString_append {t : String} (h : readString s = some (t, rest)) (x : List Char) :
    readString (s ++ x) = some (t, rest ++ x) := by
  obtain ⟨u, hu, hs⟩ := exists_literal_of_readString h
  obtain ⟨v, rfl, hread⟩ := hu.read
  obtain rfl : s = v ++ rest := (List.cons.inj hs).2
  rw [List.append_assoc]
  exact hread _

theorem Settled.of_readString {t : String} (hs : Settled s) (h : readString s = some (t, rest)) :
    Settled rest := by
  obtain ⟨u, hu, hs'⟩ := exists_literal_of_readString h
  obtain ⟨v, rfl, -⟩ := hu.read
  obtain rfl : s = v ++ rest := (List.cons.inj hs').2
  exact hs.of_append

theorem afterColon_append (h : afterColon s = some rest) (x : List Char) :
    afterColon (s ++ x) = some (rest ++ x) := by
  obtain ⟨b, hb, rfl⟩ := afterColon_eq_some_iff.1 h
  exact afterColon_eq_some_iff.2 ⟨b, hb, by simp⟩

theorem Settled.of_afterColon (hs : Settled s) (h : afterColon s = some rest) : Settled rest := by
  obtain ⟨b, -, rfl⟩ := afterColon_eq_some_iff.1 h
  exact Settled.of_append (t := b ++ [':']) (by simpa using hs)

theorem readShape_of_settled {v : Shape} (h : readShape s = some (v, rest)) (hs : Settled s) :
    Settled rest ∧ ∀ x, readShape (s ++ x) = some (v, rest ++ x) := by
  obtain ⟨b, t, hb, hv, rfl⟩ := exists_written_of_readShape h
  refine ⟨hs.of_append.of_append, fun x => ?_⟩
  simp only [List.append_assoc]
  cases v with
  | number n =>
    obtain ⟨y, hy, hn⟩ := readShape_eq_number_iff.1 h
    have hskip : ∀ r, skipBlanks (b ++ (t ++ r)) = t ++ r :=
      skipBlanks_value hb (hv.isValue (by simp) (by simp))
    rw [hskip] at hy
    have hread := (Numeral.read_of_settled hy hs.of_append).2 x
    rw [List.append_assoc] at hread
    exact readShape_eq_number_iff.2 ⟨y, by rwa [hskip], hn⟩
  | _ => exact readShape_append hb hv (by simp)

theorem readShape_of_blanks (h : Blanks s) : readShape s = none := by
  unfold readShape
  rw [skipBlanks_eq_nil_iff.2 h]
  rfl

/-! ## Passing over -/

/-- A number that is passed over is one that is read. -/
theorem skipValue_number {x : Numeral} {b t : List Char} (hb : Blanks b) (hx : x.Written t)
    (rest : List Char) : skipValue (b ++ (t ++ rest)) = (Numeral.read (t ++ rest)).map (·.2) := by
  have hs := skipBlanks_value hb (.number hx) rest
  have hne := hx.not_bracket rest
  rw [skipValue, skipIn_scalar hs (fun r => (hne r).1) (fun r => (hne r).2),
    afterScalar_of_written hx]
  cases Numeral.read (t ++ rest) with
  | none => rfl
  | some p => rw [Option.map_some, Option.bind_some, skipOut]

theorem skipValue_of_settled (h : skipValue s = some rest) (hs : Settled s) :
    Settled rest ∧ ∀ x, skipValue (s ++ x) = some (rest ++ x) := by
  obtain ⟨b, t, hb, ht, rfl⟩ := exists_value_of_skipValue h
  refine ⟨hs.of_append.of_append, fun x => ?_⟩
  simp only [List.append_assoc]
  by_cases hn : ∃ n : Numeral, n.Written t
  · obtain ⟨n, hn⟩ := hn
    rw [skipValue_number hb hn] at h ⊢
    obtain ⟨⟨m, r⟩, hm, rfl⟩ := Option.map_eq_some_iff.1 h
    have hread := (Numeral.read_of_settled hm hs.of_append).2 x
    rw [List.append_assoc] at hread
    rw [hread]
    rfl
  · rw [skipValue, skipIn_append ht hb fun n hw => absurd ⟨n, hw⟩ hn, skipOut]

end Scalars

end Roster.Json
