/-
The lexical layer against the grammar. What is passed over as blanks is blanks, a word is taken
when it stands there, and a literal is read exactly when the grammar has it: first its pieces
(`pieces_eq_some_iff`), then the text that the pieces denote, surrogates joined
(`run_spelling_iff`).
-/
import Mathlib.Data.List.TakeWhile
import Roster.Proofs.Json.Grammar

namespace Roster.Json

/-! ## Blanks and words -/

theorem isBlank_iff {c : Char} :
    isBlank c = true ↔ c = ' ' ∨ c = '\t' ∨ c = '\n' ∨ c = '\r' := by
  simp [isBlank, or_assoc]

theorem blanks_nil : Blanks [] := fun _ h => by cases h

theorem padded_of {P : List Char → Prop} {t : List Char} (h : P t) : Padded P t :=
  ⟨[], t, [], blanks_nil, h, blanks_nil, (List.append_nil t).symm⟩

theorem skipBlanks_append {b : List Char} (h : Blanks b) (t : List Char) :
    skipBlanks (b ++ t) = skipBlanks t :=
  List.dropWhile_append_of_pos fun c hc => isBlank_iff.2 (h c hc)

theorem skipBlanks_cons {c : Char} (h : isBlank c = false) (t : List Char) :
    skipBlanks (c :: t) = c :: t :=
  List.dropWhile_cons_of_neg (by simp [h])

/-- A text is what is passed over and what is left. -/
theorem exists_blanks (s : List Char) : ∃ b, Blanks b ∧ s = b ++ skipBlanks s :=
  ⟨s.takeWhile isBlank, fun _ hc => isBlank_iff.1 (List.mem_takeWhile_imp hc),
    List.takeWhile_append_dropWhile.symm⟩

theorem isBlank_of_skipBlanks {s t : List Char} {c : Char} (h : skipBlanks s = c :: t) :
    isBlank c = false := by
  have := List.head?_dropWhile_not isBlank s
  rw [show s.dropWhile isBlank = c :: t from h] at this
  simpa using this

theorem skipBlanks_eq_cons_iff {s t : List Char} {c : Char} :
    skipBlanks s = c :: t ↔ isBlank c = false ∧ ∃ b, Blanks b ∧ s = b ++ c :: t := by
  constructor
  · intro h
    obtain ⟨b, hb, hs⟩ := exists_blanks s
    exact ⟨isBlank_of_skipBlanks h, b, hb, h ▸ hs⟩
  · rintro ⟨hc, b, hb, rfl⟩
    rw [skipBlanks_append hb, skipBlanks_cons hc]

/-- Blanks are passed over up to a character that is none. -/
theorem Blanks.skip {b : List Char} {c : Char} (hb : Blanks b) (hc : isBlank c = false)
    (s : List Char) : skipBlanks (b ++ c :: s) = c :: s :=
  skipBlanks_eq_cons_iff.2 ⟨hc, b, hb, rfl⟩

theorem skipBlanks_eq_nil_iff {s : List Char} : skipBlanks s = [] ↔ Blanks s := by
  rw [skipBlanks, List.dropWhile_eq_nil_iff]
  exact forall₂_congr fun c _ => isBlank_iff

theorem afterWord_eq_some_iff {word s rest : List Char} :
    afterWord word s = some rest ↔ s = word ++ rest := by
  fun_induction afterWord word s with
  | case1 s => simp
  | case2 => simp
  | case3 word c s ih => simpa using ih
  | case4 w word c s h => simp [Ne.symm h]

/-! ## Pieces -/

theorem shortEscape?_eq_some_iff {e c : Char} :
    shortEscape? e = some c ↔ (e, c) ∈ shortEscapes := by
  unfold shortEscape? shortEscapes
  split <;> simp_all [eq_comm]

theorem codeUnit?_eq_some_iff {a b c d : Char} {n : Nat} :
    codeUnit? a b c d = some n ↔ CodeUnit n [a, b, c, d] := by
  constructor
  · intro h
    unfold codeUnit? at h
    split at h
    · rename_i x y z w ha hb hc hd
      cases h
      have hm : [a, b, c, d].map (fun c => Hex.digit? c.toNat) = [x, y, z, w].map some := by
        simp [ha, hb, hc, hd]
      obtain ⟨hdig, hw⟩ := Hex.map_digit?_eq_iff.1 hm
      refine ⟨rfl, hdig, ?_⟩
      rw [Hex.number_eq_ofDigits hw]
      simp [Nat.ofDigits]
      ring
    · cases h
  · rintro ⟨-, hdig, hn⟩
    obtain ⟨ds, hw⟩ := Hex.exists_digits hdig
    have hm := Hex.map_digit?_eq_iff.2 ⟨hdig, hw⟩
    obtain ⟨x, y, z, w, rfl⟩ : ∃ x y z w, ds = [x, y, z, w] := by
      match ds, congrArg List.length hw with
      | [x, y, z, w], _ => exact ⟨x, y, z, w, rfl⟩
    rw [Hex.number_eq_ofDigits hw] at hn
    simp only [List.map_cons, List.map_nil, List.cons.injEq, and_true] at hm
    obtain ⟨ha, hb, hc, hd⟩ := hm
    unfold codeUnit?
    rw [ha, hb, hc, hd, ← hn]
    simp [Nat.ofDigits]
    ring

theorem CodeUnit.lt {n : Nat} {t : List Char} (h : CodeUnit n t) : n < 0x10000 := by
  obtain ⟨ds, hw⟩ := Hex.exists_digits h.isDigit
  have hl : ds.length = 4 := by simpa [h.length] using congrArg List.length hw
  have hb := Nat.ofDigits_lt_base_pow_length (b := 16) (l := ds.reverse.map Fin.val) (by decide)
    (by simp only [List.mem_map]; rintro x ⟨d, -, rfl⟩; exact d.isLt)
  rw [← Hex.number_eq_ofDigits hw, h.number, List.length_map, List.length_reverse, hl] at hb
  exact hb

/-- A piece in front is read first. -/
theorem pieces_append {p : Piece} {t s rest : List Char} {ps : List Piece} (hp : p.Written t)
    (h : pieces s = some (ps, rest)) : pieces (t ++ s) = some (p :: ps, rest) := by
  cases hp with
  | raw hc hq hb =>
    rw [List.singleton_append, pieces.eq_4 _ _ hq (fun _ _ _ _ _ hc' _ => hb hc')
      (fun _ _ hc' _ => hb hc'), if_neg (not_or.2 ⟨hb, Char.not_lt.2 hc⟩), h]
  | @short e c he =>
    have hu : e ≠ 'u' := by rintro rfl; simp [shortEscapes] at he
    rw [List.cons_append, List.singleton_append, pieces.eq_3 _ _ (fun _ _ _ _ _ he' _ => hu he'),
      shortEscape?_eq_some_iff.2 he, h]
  | @unit n t hn =>
    obtain ⟨a, b, c, d, rfl⟩ : ∃ a b c d, t = [a, b, c, d] := by
      match t, hn.length with
      | [a, b, c, d], _ => exact ⟨a, b, c, d, rfl⟩
    simp only [List.cons_append, List.nil_append]
    rw [pieces.eq_2, codeUnit?_eq_some_iff.2 hn, h]

/-- Reading takes off the pieces that are written up to the closing quote. -/
theorem pieces_eq_some_iff {s rest : List Char} {ps : List Piece} :
    pieces s = some (ps, rest) ↔ ∃ u, Run Piece.Written ps u ∧ s = u ++ '"' :: rest := by
  constructor
  · intro h
    fun_induction pieces s generalizing ps rest with
    | case1 => cases h; exact ⟨[], .nil, rfl⟩
    | case2 a b c d r n _ _ hp hn ih =>
      cases h
      obtain ⟨u, hu, rfl⟩ := ih hp
      exact ⟨_, .cons (.unit (codeUnit?_eq_some_iff.1 hn)) hu, rfl⟩
    | case4 e r _ c _ _ hp hc ih =>
      cases h
      obtain ⟨u, hu, rfl⟩ := ih hp
      exact ⟨_, .cons (.short (shortEscape?_eq_some_iff.1 hc)) hu, rfl⟩
    | case7 c r hq _ _ hc _ _ hp ih =>
      cases h
      obtain ⟨u, hu, rfl⟩ := ih hp
      rw [not_or, Char.not_lt] at hc
      exact ⟨_, .cons (.raw hc.2 hq hc.1) hu, rfl⟩
    | _ => cases h
  · rintro ⟨u, hu, rfl⟩
    induction hu with
    | nil => rfl
    | cons hx _ ih => rw [List.append_assoc]; exact pieces_append hx ih

/-! ## What pieces denote -/

theorem isLowSurrogate_iff {n : Nat} :
    isLowSurrogate n = true ↔ ∃ low < 0x400, n = 0xDC00 + low := by
  simp only [isLowSurrogate, Bool.and_eq_true, decide_eq_true_eq]
  exact ⟨fun h => ⟨n - 0xDC00, by omega, by omega⟩, by rintro ⟨low, hl, rfl⟩; omega⟩

theorem isHighSurrogate_iff {n : Nat} :
    isHighSurrogate n = true ↔ ∃ high < 0x400, n = 0xD800 + high := by
  simp only [isHighSurrogate, Bool.and_eq_true, decide_eq_true_eq]
  exact ⟨fun h => ⟨n - 0xD800, by omega, by omega⟩, by rintro ⟨high, hh, rfl⟩; omega⟩

/-- No character is half of one. -/
theorem not_surrogate (c : Char) :
    isLowSurrogate c.toNat = false ∧ isHighSurrogate c.toNat = false := by
  have hv : c.toNat < 0xD800 ∨ (0xDFFF < c.toNat ∧ c.toNat < 0x110000) := c.valid
  rw [Bool.eq_false_iff, Bool.eq_false_iff, Ne, Ne, isLowSurrogate_iff, isHighSurrogate_iff]
  constructor
  · rintro ⟨low, hl, hn⟩; omega
  · rintro ⟨high, hh, hn⟩; omega

theorem toNat_ofNat {n : Nat} (h : n.isValidChar) : (Char.ofNat n).toNat = n := by
  rw [Char.ofNat, dif_pos h]
  rfl

/-- A code unit of sixteen bits that is no half is a character. -/
theorem toNat_ofNat_of_not_surrogate {n : Nat} (hn : n < 0x10000)
    (hl : ¬ isLowSurrogate n = true) (hh : ¬ isHighSurrogate n = true) :
    (Char.ofNat n).toNat = n := by
  have hv : n.isValidChar := by
    rw [isLowSurrogate_iff] at hl
    rw [isHighSurrogate_iff] at hh
    by_contra h
    have h : ¬ (n < 0xD800 ∨ (0xDFFF < n ∧ n < 0x110000)) := h
    by_cases hd : n < 0xDC00
    · exact hh ⟨n - 0xD800, by omega, by omega⟩
    · exact hl ⟨n - 0xDC00, by omega, by omega⟩
  exact toNat_ofNat hv

/-- Two halves make the character whose code lies that far beyond sixteen bits. -/
theorem toNat_joinSurrogates {high low : Nat} (hh : high < 0x400) (hl : low < 0x400) :
    (joinSurrogates (0xD800 + high) (0xDC00 + low)).toNat = 0x10000 + 0x400 * high + low := by
  have hn : 0x10000 + (0xD800 + high - 0xD800) * 0x400 + (0xDC00 + low - 0xDC00) =
      0x10000 + 0x400 * high + low := by omega
  have hv : (0x10000 + 0x400 * high + low).isValidChar := .inr ⟨by omega, by omega⟩
  rw [joinSurrogates, hn, toNat_ofNat hv]

/-- A text is spelled when its characters are what the pieces written denote. -/
theorem run_spelling_iff {cs u : List Char} :
    Run Spelling cs u ↔ ∃ ps, Run Piece.Written ps u ∧ denote? ps = some cs := by
  constructor
  · intro h
    induction h with
    | nil => exact ⟨[], .nil, rfl⟩
    | @cons c cs t u hc _ ih =>
      obtain ⟨ps, hps, hd⟩ := ih
      cases hc with
      | plain hp => exact ⟨_, .cons hp hps, by rw [denote?, hd]; rfl⟩
      | unit hp =>
        obtain ⟨hl, hh⟩ := not_surrogate c
        refine ⟨_, .cons hp hps, ?_⟩
        unfold denote?
        rw [hl, hh, hd]
        simp
      | @pair high low t t' hh hl hn hp hq =>
        refine ⟨_, by rw [List.append_assoc]; exact .cons hp (.cons hq hps), ?_⟩
        have hlow : ¬ isLowSurrogate (0xD800 + high) = true := by
          rw [isLowSurrogate_iff]; rintro ⟨low, -, hn⟩; omega
        rw [denote?.eq_3, if_neg hlow, if_pos (isHighSurrogate_iff.2 ⟨_, hh, rfl⟩),
          if_pos (isLowSurrogate_iff.2 ⟨_, hl, rfl⟩), hd]
        rw [Char.toNat_inj.1 ((toNat_joinSurrogates hh hl).trans hn.symm)]
        rfl
  · rintro ⟨ps, hps, hd⟩
    fun_induction denote? ps generalizing cs u with
    | case1 => cases hd; cases hps; exact .nil
    | case2 c ps ih =>
      obtain ⟨ds, hds, rfl⟩ := Option.map_eq_some_iff.1 hd
      cases hps with | cons hp hps => exact .cons (.plain hp) (ih hps hds)
    | case4 n _ hh m ps hm ih =>
      -- two halves
      obtain ⟨ds, hds, rfl⟩ := Option.map_eq_some_iff.1 hd
      obtain ⟨high, hhigh, rfl⟩ := isHighSurrogate_iff.1 hh
      obtain ⟨low, hlow, rfl⟩ := isLowSurrogate_iff.1 hm
      cases hps with
      | cons hp hps =>
        cases hps with
        | cons hq hps =>
          rw [← List.append_assoc]
          exact .cons (.pair hhigh hlow (toNat_joinSurrogates hhigh hlow) hp hq) (ih hps hds)
    | case7 n ps hl hh ih =>
      -- a code unit that is no half
      obtain ⟨ds, hds, rfl⟩ := Option.map_eq_some_iff.1 hd
      cases hps with
      | cons hp hps =>
        have hn : n < 0x10000 := by cases hp with | unit hu => exact hu.lt
        refine .cons (.unit ?_) (ih hps hds)
        rw [toNat_ofNat_of_not_surrogate hn hl hh]
        exact hp
    -- a half that stands alone denotes nothing
    | _ => cases hd

/-! ## Literals -/

/-- What is read after an opening quote is a literal that denotes the text read. -/
theorem exists_literal_of_readString {s rest : List Char} {text : String}
    (h : readString s = some (text, rest)) : ∃ t, Literal text t ∧ '"' :: s = t ++ rest := by
  unfold readString at h
  split at h
  · cases h
  · rename_i ps r hp
    obtain ⟨cs, hcs, hr⟩ := Option.map_eq_some_iff.1 h
    cases hr
    obtain ⟨u, hu, rfl⟩ := pieces_eq_some_iff.1 hp
    refine ⟨_, ⟨u, ?_, rfl⟩, by simp⟩
    rw [String.toList_ofList]
    exact run_spelling_iff.2 ⟨ps, hu, hcs⟩

/-- A literal is read as the text it denotes, whatever follows it. -/
theorem Literal.read {text : String} {t : List Char} (h : Literal text t) :
    ∃ u, t = '"' :: u ∧ ∀ rest, readString (u ++ rest) = some (text, rest) := by
  obtain ⟨u, hu, rfl⟩ := h
  obtain ⟨ps, hps, hd⟩ := run_spelling_iff.1 hu
  refine ⟨_, rfl, fun rest => ?_⟩
  have hp : pieces (u ++ ['"'] ++ rest) = some (ps, rest) :=
    pieces_eq_some_iff.2 ⟨u, hps, by simp⟩
  rw [readString, hp]
  simp [hd]

/-- The pieces after an opening quote go up to the end of a literal. -/
theorem exists_isLiteral_of_pieces {s rest : List Char} {ps : List Piece}
    (h : pieces s = some (ps, rest)) : ∃ t, IsLiteral t ∧ '"' :: s = t ++ rest := by
  obtain ⟨u, hu, rfl⟩ := pieces_eq_some_iff.1 h
  exact ⟨_, ⟨ps, u, hu, rfl⟩, by simp⟩

/-- A literal is cut into pieces, whatever follows it. -/
theorem IsLiteral.pieces {t : List Char} (h : IsLiteral t) :
    ∃ u ps, t = '"' :: u ∧ ∀ rest, Json.pieces (u ++ rest) = some (ps, rest) := by
  obtain ⟨ps, u, hu, rfl⟩ := h
  exact ⟨_, ps, rfl, fun rest => pieces_eq_some_iff.2 ⟨u, hu, by simp⟩⟩

/-- A character that may stand in a literal as it is. -/
def isPlain (c : Char) : Bool := ' ' ≤ c && c ≠ '"' && c ≠ '\\'

/-- Characters that are neither controls nor quotes nor backslashes may be written as they are. -/
theorem run_of_plain {cs : List Char} (h : cs.all isPlain = true) : Run Spelling cs cs := by
  induction cs with
  | nil => exact .nil
  | cons c cs ih =>
    rw [List.all_cons, Bool.and_eq_true] at h
    obtain ⟨hc, hcs⟩ := h
    simp only [isPlain, Bool.and_eq_true, decide_eq_true_eq] at hc
    exact .cons (t := [c]) (.plain (.raw hc.1.1 hc.1.2 hc.2)) (ih hcs)

theorem literal_of_plain {text : String} (h : text.toList.all isPlain = true) :
    Literal text ('"' :: (text.toList ++ ['"'])) :=
  ⟨_, run_of_plain h, rfl⟩

/-- A literal that denotes a text is a literal. -/
theorem Literal.isLiteral {text : String} {t : List Char} (h : Literal text t) : IsLiteral t := by
  obtain ⟨u, hu, rfl⟩ := h
  obtain ⟨ps, hps, -⟩ := run_spelling_iff.1 hu
  exact ⟨ps, u, hps, rfl⟩

end Roster.Json
