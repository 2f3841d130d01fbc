/-
Numbers against the grammar. What is read off a text is a number that is written there
(`exists_written_of_read`), and a written number is read as a whole when no character follows that
would carry it on (`read_append`). Digits are taken up into sixty-four bits without overflow, so
that the number read as an index is the one denoted, or none (`index_iff`).
-/
import Roster.Proofs.Json.Grammar

namespace Roster.Json.Numeral

/-! ## Digits -/

/-- No decimal digit stands in front. -/
def NoDigit (t : List Char) : Prop := ∀ c ∈ t.head?, c.isDigit = false

/-- What may follow a number without being taken for a part of it. -/
def Ends (t : List Char) : Prop :=
  ∀ c ∈ t.head?, c.isDigit = false ∧ c ≠ '.' ∧ c ≠ 'e' ∧ c ≠ 'E'

theorem readDigits_eq_some_iff {s rest : List Char} {ds : List Nat} :
    readDigits s = some (ds, rest) ↔
      ∃ t, IsDigits t ∧ s = t ++ rest ∧ ds = t.map worth ∧ NoDigit rest := by
  constructor
  · intro h
    unfold readDigits at h
    split at h
    · cases h
    · rename_i hne
      cases h
      refine ⟨s.takeWhile Char.isDigit, ⟨fun h => hne (by rw [digits, h]; rfl), ?_⟩,
        List.takeWhile_append_dropWhile.symm, rfl, ?_⟩
      · exact List.all_eq_true.1 List.all_takeWhile
      · intro c hc
        have := List.head?_dropWhile_not Char.isDigit s
        rw [show (s.dropWhile Char.isDigit).head? = some c from hc] at this
        simpa using this
  · rintro ⟨t, ht, rfl, rfl, hr⟩
    have hstop : rest.takeWhile Char.isDigit = [] ∧ rest.dropWhile Char.isDigit = rest := by
      cases rest with
      | nil => exact ⟨rfl, rfl⟩
      | cons c rest => simp [hr c rfl]
    have hd : digits (t ++ rest) = (t.map worth, rest) := by
      rw [digits, List.takeWhile_append_of_pos ht.isDigit, List.dropWhile_append_of_pos ht.isDigit,
        hstop.1, hstop.2, List.append_nil]
      rfl
    rw [readDigits, hd, if_neg (by simpa using ht.ne_nil)]

/-- Only the digit zero is worth nothing. -/
theorem worth_eq_zero_iff {c : Char} (h : c.isDigit = true) : worth c = 0 ↔ c = '0' := by
  have hc : '0'.toNat ≤ c.toNat := by
    simp only [Char.isDigit, Bool.and_eq_true, decide_eq_true_eq] at h
    exact h.1
  rw [worth, Nat.sub_eq_zero_iff_le]
  exact ⟨fun hle => Char.toNat_inj.1 (Nat.le_antisymm hle hc), fun e => e ▸ Nat.le_refl _⟩

theorem isPlainWhole_iff {t : List Char} (h : IsDigits t) :
    isPlainWhole (t.map worth) = true ↔ (t.head? = some '0' → t = ['0']) := by
  match t, h with
  | [], h => exact absurd rfl h.ne_nil
  | [c], _ => simp [isPlainWhole]
  | c :: d :: t, h =>
    have hc := worth_eq_zero_iff (h.isDigit c (List.mem_cons_self ..))
    simp only [List.map_cons, List.head?_cons, Option.some.injEq, ← hc]
    unfold isPlainWhole
    split <;> simp_all

theorem readWhole_eq_some_iff {s rest : List Char} {ds : List Nat} :
    readWhole s = some (ds, rest) ↔
      ∃ w, IsWhole w ∧ s = w ++ rest ∧ ds = w.map worth ∧ NoDigit rest := by
  rw [readWhole, Option.filter_eq_some_iff, readDigits_eq_some_iff]
  constructor
  · rintro ⟨⟨w, hw, rfl, rfl, hr⟩, hp⟩
    exact ⟨w, ⟨hw, (isPlainWhole_iff hw).1 hp⟩, rfl, rfl, hr⟩
  · rintro ⟨w, hw, rfl, rfl, hr⟩
    exact ⟨⟨w, hw.toIsDigits, rfl, rfl, hr⟩, (isPlainWhole_iff hw.toIsDigits).2 hw.plain⟩

/-! ## Sign, fraction and exponent -/

theorem sign_spec (s : List Char) : ∃ t, Sign (sign s).1 t ∧ s = t ++ (sign s).2 := by
  unfold sign
  split
  · exact ⟨_, .minus, rfl⟩
  · exact ⟨_, .absent, rfl⟩

theorem sign_append {negative : Bool} {t s : List Char} (h : Sign negative t)
    (hs : s.head? ≠ some '-') : sign (t ++ s) = (negative, s) := by
  cases h with
  | minus => rfl
  | absent =>
    rw [List.nil_append]
    unfold sign
    split
    · exact absurd rfl hs
    · rfl

theorem exponentSign_spec (s : List Char) :
    ∃ t, ExponentSign (exponentSign s).1 t ∧ s = t ++ (exponentSign s).2 := by
  unfold exponentSign
  split
  · exact ⟨_, .plus, rfl⟩
  · obtain ⟨t, ht, hs⟩ := sign_spec s
    exact ⟨t, .sign ht, hs⟩

theorem exponentSign_append {negative : Bool} {t s : List Char} (h : ExponentSign negative t)
    (hm : s.head? ≠ some '-') (hp : s.head? ≠ some '+') :
    exponentSign (t ++ s) = (negative, s) := by
  cases h with
  | plus => rfl
  | sign h =>
    have hs := sign_append h hm
    unfold exponentSign
    split
    · rename_i r hr
      cases h with
      | minus => cases hr
      | absent => rw [List.nil_append] at hr; rw [hr] at hp; exact absurd rfl hp
    · exact hs

theorem exists_fraction_of_readFraction {s rest : List Char} {ds : List Nat}
    (h : readFraction s = some (ds, rest)) : ∃ f, Fraction ds f ∧ s = f ++ rest := by
  unfold readFraction at h
  split at h
  · obtain ⟨t, ht, rfl, rfl, -⟩ := readDigits_eq_some_iff.1 h
    exact ⟨_, .present ht, rfl⟩
  · cases h
    exact ⟨_, .absent, rfl⟩

theorem readFraction_append {ds : List Nat} {f rest : List Char} (h : Fraction ds f)
    (hd : NoDigit rest) (hp : rest.head? ≠ some '.') : readFraction (f ++ rest) = some (ds, rest) := by
  cases h with
  | absent =>
    rw [List.nil_append]
    unfold readFraction
    split
    · exact absurd rfl hp
    · rfl
  | present ht => exact readDigits_eq_some_iff.2 ⟨_, ht, rfl, rfl, hd⟩

theorem exists_exponent_of_readExponent {s rest : List Char} {e : Option Int}
    (h : readExponent s = some (e, rest)) : ∃ t, Exponent e t ∧ s = t ++ rest := by
  unfold readExponent at h
  split at h
  · cases h
    exact ⟨_, .absent, rfl⟩
  · rename_i c s
    split at h
    · rename_i hc
      obtain ⟨⟨ds, r⟩, hr, he⟩ := Option.map_eq_some_iff.1 h
      cases he
      obtain ⟨t, ht, hs, rfl, -⟩ := readDigits_eq_some_iff.1 hr
      obtain ⟨u, hu, hs'⟩ := exponentSign_spec s
      refine ⟨_, .present hc hu ht, ?_⟩
      rw [List.cons_append, List.append_assoc, ← hs, ← hs']
    · cases h
      exact ⟨_, .absent, rfl⟩

theorem head?_ne_of_isDigits {t : List Char} (h : IsDigits t) {c : Char} (hc : c.isDigit = false)
    (s : List Char) : (t ++ s).head? ≠ some c := by
  obtain ⟨d, t, rfl⟩ := List.exists_cons_of_ne_nil h.ne_nil
  have hd := h.isDigit d (List.mem_cons_self ..)
  rintro ⟨⟩
  rw [hd] at hc
  cases hc

theorem readExponent_append {e : Option Int} {t rest : List Char} (h : Exponent e t)
    (hr : Ends rest) : readExponent (t ++ rest) = some (e, rest) := by
  cases h with
  | absent =>
    cases rest with
    | nil => rfl
    | cons c rest =>
      obtain ⟨-, -, he, hE⟩ := hr c rfl
      rw [List.nil_append, readExponent, if_neg (not_or.2 ⟨he, hE⟩)]
  | @present c negative s t hc hs ht =>
    have hsign := exponentSign_append hs (head?_ne_of_isDigits ht rfl rest)
      (head?_ne_of_isDigits ht rfl rest)
    have hd : readDigits (t ++ rest) = some (t.map worth, rest) :=
      readDigits_eq_some_iff.2 ⟨t, ht, rfl, rfl, fun c hc => (hr c hc).1⟩
    rw [List.cons_append, List.append_assoc, readExponent, if_pos hc, hsign]
    simp only [hd, Option.map_some]

/-! ## Numbers -/

theorem read_eq_some_iff {s rest : List Char} {x : Numeral} :
    read s = some (x, rest) ↔ ∃ r₁ r₂, readWhole (sign s).2 = some (x.whole, r₁) ∧
      readFraction r₁ = some (x.fraction, r₂) ∧ readExponent r₂ = some (x.exponent, rest) ∧
      (sign s).1 = x.negative := by
  obtain ⟨negative, whole, fraction, exponent⟩ := x
  simp only [read, Option.bind_eq_bind, Option.bind_eq_some_iff, Option.pure_def,
    Option.some.injEq, Prod.mk.injEq, Prod.exists, Numeral.mk.injEq]
  constructor
  · rintro ⟨w, r₁, hw, f, r₂, hf, e, r₃, he, ⟨hn, rfl, rfl, rfl⟩, rfl⟩
    exact ⟨r₁, r₂, hw, hf, he, hn⟩
  · rintro ⟨r₁, r₂, hw, hf, he, hn⟩
    exact ⟨_, r₁, hw, _, r₂, hf, _, rest, he, ⟨hn, rfl, rfl, rfl⟩, rfl⟩

/-- What is read is written there. -/
theorem exists_written_of_read {s rest : List Char} {x : Numeral} (h : read s = some (x, rest)) :
    ∃ t, x.Written t ∧ s = t ++ rest := by
  obtain ⟨r₁, r₂, hw, hf, he, hn⟩ := read_eq_some_iff.1 h
  obtain ⟨t, ht, hs⟩ := sign_spec s
  obtain ⟨w, hw, hr₁, hx, -⟩ := readWhole_eq_some_iff.1 hw
  obtain ⟨f, hf, hr₂⟩ := exists_fraction_of_readFraction hf
  obtain ⟨e, he, hr⟩ := exists_exponent_of_readExponent he
  have hx : x = ⟨(sign s).1, w.map worth, x.fraction, x.exponent⟩ := by rw [hn, ← hx]
  refine ⟨t ++ (w ++ (f ++ e)), hx ▸ .mk ht hw hf he, ?_⟩
  simp only [List.append_assoc]
  rw [← hr, ← hr₂, ← hr₁]
  exact hs

theorem noDigit_exponent {e : Option Int} {t rest : List Char} (h : Exponent e t)
    (hr : Ends rest) : NoDigit (t ++ rest) ∧ (t ++ rest).head? ≠ some '.' := by
  cases h with
  | absent => exact ⟨fun c hc => (hr c hc).1, fun hp => (hr '.' hp).2.1 rfl⟩
  | present hc =>
    rw [List.cons_append]
    rcases hc with rfl | rfl
    · exact ⟨fun c hc => by cases hc; rfl, by simp⟩
    · exact ⟨fun c hc => by cases hc; rfl, by simp⟩

theorem noDigit_fraction {ds : List Nat} {f rest : List Char} (h : Fraction ds f)
    (hr : NoDigit rest) : NoDigit (f ++ rest) := by
  cases h with
  | absent => exact hr
  | present => intro c hc; cases hc; rfl

/-- A number is read as a whole. -/
theorem read_append {x : Numeral} {t rest : List Char} (h : x.Written t) (hr : Ends rest) :
    read (t ++ rest) = some (x, rest) := by
  cases h with
  | @mk negative fraction exponent s w f e hs hw hf he =>
    obtain ⟨hd, hp⟩ := noDigit_exponent he hr
    have hsign : sign (s ++ (w ++ (f ++ (e ++ rest)))) = (negative, w ++ (f ++ (e ++ rest))) :=
      sign_append hs (head?_ne_of_isDigits hw.toIsDigits rfl _)
    simp only [List.append_assoc]
    rw [read_eq_some_iff, hsign]
    exact ⟨_, _, readWhole_eq_some_iff.2 ⟨w, hw, rfl, rfl, noDigit_fraction hf hd⟩,
      readFraction_append hf hd hp, readExponent_append he hr, rfl⟩

/-! ## Writing -/

/-- Digits without sign, fraction and exponent are a number. -/
theorem IsWhole.written {t : List Char} (h : IsWhole t) :
    Written ⟨false, t.map worth, [], none⟩ t := by
  simpa using Written.mk .absent h .absent .absent

/-- A number is not written with a zero in front. -/
theorem head?_toDigits (n : Nat) (h : 0 < n) : (Nat.toDigits 10 n).head? ≠ some '0' := by
  induction n using Nat.strong_induction_on with
  | _ n ih =>
    rcases Nat.lt_or_ge n 10 with hn | hn
    · rw [Nat.toDigits_of_lt_base hn]
      intro hd
      have := Nat.digitChar_eq_zero.1 (Option.some.inj hd)
      omega
    · rw [Nat.toDigits_of_base_le (by decide) hn,
        List.head?_append_of_ne_nil _ Nat.toDigits_ne_nil]
      exact ih (n / 10) (by omega) (by omega)

theorem isWhole_toDigits (n : Nat) : IsWhole (Nat.toDigits 10 n) where
  ne_nil := Nat.toDigits_ne_nil
  isDigit _ hc := Nat.isDigit_of_mem_toDigits (by decide) (by decide) hc
  plain h := by
    rcases Nat.eq_zero_or_pos n with rfl | hn
    · rfl
    · exact absurd h (head?_toDigits n hn)

/-- A number of sixty-four bits is written as an index. -/
theorem index_toDigits {n : Nat} (h : n < 2 ^ 64) : Index n (Nat.toDigits 10 n) :=
  ⟨isWhole_toDigits n, Nat.ofDigitChars_ten_toDigits, h⟩

/-! ## Sixty-four bits -/

theorem le_foldl (ds : List Nat) (n : Nat) : n ≤ ds.foldl (fun n d => 10 * n + d) n := by
  induction ds generalizing n with
  | nil => exact Nat.le_refl _
  | cons d ds ih =>
    calc n ≤ 10 * n + d := by omega
      _ ≤ ds.foldl (fun n d => 10 * n + d) (10 * n + d) := ih _

/-- As long as the number fits, all digits are taken up. -/
theorem takeDigits_of_lt {ds : List Nat} {n : Nat}
    (h : ds.foldl (fun n d => 10 * n + d) n < wordBound) :
    takeDigits n ds = (ds.foldl (fun n d => 10 * n + d) n, []) := by
  induction ds generalizing n with
  | nil => rfl
  | cons d ds ih =>
    rw [List.foldl_cons] at h
    rw [takeDigits, if_pos (Nat.lt_of_le_of_lt (le_foldl ds _) h), ih h, List.foldl_cons]

/-- When all digits are taken up, the number fits, and nothing of it is lost. -/
theorem lt_of_takeDigits {ds : List Nat} {n m : Nat} (hn : n < wordBound)
    (h : takeDigits n ds = (m, [])) :
    m = ds.foldl (fun n d => 10 * n + d) n ∧ m < wordBound := by
  induction ds generalizing n with
  | nil => cases h; exact ⟨rfl, hn⟩
  | cons d ds ih =>
    rw [takeDigits] at h
    split at h
    · rename_i hlt; exact ih hlt h
    · cases h

theorem foldl_worth (t : List Char) :
    (t.map worth).foldl (fun n d => 10 * n + d) 0 = Nat.ofDigitChars 10 t 0 := by
  rw [List.foldl_map, Nat.ofDigitChars_eq_foldl]
  rfl

/-- A number is written as an index exactly when its value is a whole number of sixty-four bits. -/
theorem index_iff {i : Nat} {t : List Char} :
    Index i t ↔ ∃ x : Numeral, x.Written t ∧ x.value? = some (.integer i) := by
  have hbound : wordBound = 2 ^ 64 := by decide
  constructor
  · intro h
    refine ⟨_, h.isWhole.written, ?_⟩
    have hf := foldl_worth t
    rw [h.number] at hf
    have hlt : (t.map worth).foldl (fun n d => 10 * n + d) 0 < wordBound := by
      rw [hf, hbound]
      exact h.lt
    simp [value?, takeDigits_of_lt hlt, hf]
  · rintro ⟨x, hx, hv⟩
    cases hx with
    | @mk negative fraction exponent s w f e hs hw hf he =>
      unfold value? at hv
      simp only at hv
      split at hv
      · rename_i hplain
        obtain ⟨htake, rfl, rfl⟩ := hplain
        obtain ⟨hm, hlt⟩ := lt_of_takeDigits (by decide) (Prod.ext rfl htake)
        rw [foldl_worth] at hm
        have hf : f = [] := by
          generalize hz : ([] : List Nat) = z at hf
          cases hf with
          | absent => rfl
          | present ht => exact absurd (List.map_eq_nil_iff.1 hz.symm) ht.ne_nil
        cases he
        cases hs with
        | absent =>
          have hi := Int.ofNat.inj (Number.integer.inj (Option.some.inj hv))
          subst hf
          exact ⟨by simpa using hw, by simp [← hm, hi], by rw [← hi, ← hbound]; exact hlt⟩
        | minus =>
          -- a number below zero, or a double when its digits are all zero
          rw [if_neg (by simp)] at hv
          split at hv
          · have := Number.integer.inj (Option.some.inj hv)
            omega
          · cases hv
      · simp at hv

end Roster.Json.Numeral
