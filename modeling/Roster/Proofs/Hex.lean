/-
Hexadecimal digits as numbers: which characters are digits, what each is worth, and what number a
run of them denotes. The bytes of a text give the same digits as its characters
(`digits_of_utf8`), reading gives a value for every byte or none at all (`readFrom_eq_ok_iff`), and
packing two digits to a byte keeps the number (`ofDigits_pack`). Packing and unpacking undo each
other (`pack_unpack`, `unpack_pack`), so bytes are written in lower case and read back as they were.
-/
import Mathlib.Data.Nat.Digits.Lemmas
import Mathlib.Tactic.Ring
import Roster.Hex

namespace Roster.Hex

/-! ## Characters -/

/-- The characters `0` to `9`, `a` to `f` and `A` to `F`. -/
def IsDigit (c : Char) : Prop :=
  ('0' ≤ c ∧ c ≤ '9') ∨ ('a' ≤ c ∧ c ≤ 'f') ∨ ('A' ≤ c ∧ c ≤ 'F')

instance : DecidablePred IsDigit := fun _ => inferInstanceAs (Decidable (_ ∨ _))

/-- What a digit is worth: its place among the sixteen, in either letter case. -/
def worth (c : Char) : Nat := "0123456789abcdef".toList.idxOf c.toLower

/-- The number that a run of digits denotes in base 16, the first digit being the most
significant. -/
def number (cs : List Char) : Nat := Nat.ofDigits 16 (cs.reverse.map worth)

example : number "1aF".toList = 0x1af := by decide

theorem IsDigit.lt {c : Char} (h : IsDigit c) : c.toNat < 128 := by
  have up : ∀ d : Char, c ≤ d → c.toNat ≤ d.toNat := fun d hd => hd
  rcases h with ⟨-, h⟩ | ⟨-, h⟩ | ⟨-, h⟩
  · exact lt_of_le_of_lt (up _ h) (by decide)
  · exact lt_of_le_of_lt (up _ h) (by decide)
  · exact lt_of_le_of_lt (up _ h) (by decide)

theorem digit?_eq_none_of_le {n : Nat} (h : 128 ≤ n) : digit? n = none := by
  have h0 : '9'.toNat < 128 ∧ 'f'.toNat < 128 ∧ 'F'.toNat < 128 := by decide
  unfold digit?
  rw [if_neg (by omega), if_neg (by omega), if_neg (by omega)]

/-- The value read from a code is what the character is worth. -/
theorem map_digit? (c : Char) :
    (digit? c.toNat).map Fin.val = if IsDigit c then some (worth c) else none := by
  by_cases hc : c.toNat < 128
  · -- ASCII is small enough to look at every code
    have key : ∀ n < 128, (digit? (Char.ofNat n).toNat).map Fin.val =
        if IsDigit (Char.ofNat n) then some (worth (Char.ofNat n)) else none := by decide +kernel
    simpa using key c.toNat hc
  · rw [digit?_eq_none_of_le (by omega), if_neg (fun h => hc h.lt)]
    rfl

theorem digit?_eq_some_iff {c : Char} {d : Fin 16} :
    digit? c.toNat = some d ↔ IsDigit c ∧ d.val = worth c := by
  have h := map_digit? c
  constructor
  · intro hd
    rw [hd] at h
    split at h
    · rename_i hc; exact ⟨hc, by simpa using h⟩
    · cases h
  · rintro ⟨hc, hd⟩
    rw [if_pos hc, ← hd, Option.map_eq_some_iff] at h
    obtain ⟨e, he, hv⟩ := h
    rw [he, Fin.val_injective hv]

/-! ## Runs of characters -/

/-- The values read from a run of characters, when all of them are digits. -/
theorem map_digit?_eq_iff {cs : List Char} {ds : List (Fin 16)} :
    cs.map (fun c => digit? c.toNat) = ds.map some ↔
      (∀ c ∈ cs, IsDigit c) ∧ ds.map Fin.val = cs.map worth := by
  induction cs generalizing ds with
  | nil => simp
  | cons c cs ih =>
    cases ds with
    | nil => simp
    | cons d ds =>
      simp only [List.map_cons, List.cons.injEq, List.forall_mem_cons, digit?_eq_some_iff, ih]
      tauto

theorem exists_digits {cs : List Char} (h : ∀ c ∈ cs, IsDigit c) :
    ∃ ds : List (Fin 16), ds.map Fin.val = cs.map worth := by
  induction cs with
  | nil => exact ⟨[], rfl⟩
  | cons c cs ih =>
    obtain ⟨hc, hcs⟩ := List.forall_mem_cons.1 h
    obtain ⟨ds, hds⟩ := ih hcs
    have hd := map_digit? c
    rw [if_pos hc, Option.map_eq_some_iff] at hd
    obtain ⟨d, -, hv⟩ := hd
    exact ⟨d :: ds, by rw [List.map_cons, List.map_cons, hv, hds]⟩

/-- The number of a run of characters is that of the values read from it. -/
theorem number_eq_ofDigits {cs : List Char} {ds : List (Fin 16)}
    (h : ds.map Fin.val = cs.map worth) :
    number cs = Nat.ofDigits 16 (ds.reverse.map Fin.val) := by
  rw [number, List.map_reverse, List.map_reverse, h]

/-! ## Bytes of a text -/

/-- An ASCII character is one byte, its code. -/
theorem utf8_of_lt {c : Char} (h : c.toNat < 128) :
    String.utf8EncodeChar c = [UInt8.ofNat c.toNat] := by
  have hc : c.val.toNat ≤ 0x7f := Nat.le_of_lt_succ h
  unfold String.utf8EncodeChar
  exact if_pos hc

/-- The first byte of a character beyond ASCII is 128 or more. -/
theorem utf8_of_le {c : Char} (h : 128 ≤ c.toNat) :
    ∃ b bs, String.utf8EncodeChar c = b :: bs ∧ 128 ≤ b.toNat := by
  have hc : ¬ c.val.toNat ≤ 0x7f := Nat.not_le.2 h
  unfold String.utf8EncodeChar
  simp only [if_neg hc]
  split_ifs
  all_goals exact ⟨_, _, rfl, by rw [UInt8.toNat_ofNat']; omega⟩

/-- The bytes of a text are digits when its characters are, and then the same ones. -/
theorem digits_of_utf8 {cs : List Char} {ds : List (Fin 16)} :
    (cs.flatMap String.utf8EncodeChar).map (fun b => digit? b.toNat) = ds.map some ↔
      cs.map (fun c => digit? c.toNat) = ds.map some := by
  induction cs generalizing ds with
  | nil => rfl
  | cons c cs ih =>
    by_cases hc : c.toNat < 128
    · have hb : (UInt8.ofNat c.toNat).toNat = c.toNat := by
        rw [UInt8.toNat_ofNat']; omega
      rw [List.flatMap_cons, utf8_of_lt hc]
      cases ds with
      | nil => simp
      | cons d ds => simp [hb, ih]
    · obtain ⟨b, bs, he, hb⟩ := utf8_of_le (by omega : 128 ≤ c.toNat)
      rw [List.flatMap_cons, he]
      -- neither the character nor its first byte is a digit, so neither side can hold
      cases ds <;> simp [digit?_eq_none_of_le hb, digit?_eq_none_of_le (by omega : 128 ≤ c.toNat)]

theorem readFrom_eq_ok_iff {k : Nat} {bs : List UInt8} {ds : List (Fin 16)} :
    readFrom k bs = .ok ds ↔ bs.map (fun b => digit? b.toNat) = ds.map some := by
  induction bs generalizing k ds with
  | nil => cases ds <;> simp [readFrom]
  | cons b bs ih =>
    rw [readFrom]
    cases hb : digit? b.toNat with
    | none => cases ds <;> simp [hb]
    | some d =>
      cases ds with
      | nil => cases hr : readFrom (k + 1) bs <;> simp [Except.map]
      | cons e es =>
        simp only [List.map_cons, List.cons.injEq, hb, ← ih (k := k + 1)]
        cases hr : readFrom (k + 1) bs <;> simp [Except.map]

/-! ## Packing -/

/-- Two digits to a byte: the bytes are the same number in base 256. -/
theorem ofDigits_pack : ∀ ds : List (Fin 16), ds.length % 2 = 0 →
    Nat.ofDigits 256 ((pack ds).reverse.map UInt8.toNat) = Nat.ofDigits 16 (ds.reverse.map Fin.val)
  | [], _ => rfl
  | [_], h => by simp at h
  | hi :: lo :: rest, h => by
    have hr : rest.length % 2 = 0 := by simp only [List.length_cons] at h; omega
    have hb : (UInt8.ofNat (16 * hi.val + lo.val)).toNat = 16 * hi.val + lo.val := by
      rw [UInt8.toNat_ofNat']; omega
    -- the two digits in front stand above `2 * m` digits, and their byte above `m` bytes
    obtain ⟨m, hm⟩ : ∃ m, rest.length = 2 * m := ⟨rest.length / 2, by omega⟩
    have hp : (256 : Nat) ^ m = 16 ^ (2 * m) := by rw [pow_mul]; norm_num
    simp only [pack, List.reverse_cons, List.map_append, List.map_cons, List.map_nil,
      Nat.ofDigits_append, Nat.ofDigits_singleton, ofDigits_pack rest hr, hb, List.length_map,
      List.length_append, List.length_reverse, length_pack, List.length_cons, List.length_nil, hm]
    rw [show 2 * m / 2 = m by omega, hp, pow_add]
    ring

/-- Zeros in front leave the number as it is. -/
theorem ofDigits_padded (n : Nat) (ds : List (Fin 16)) :
    Nat.ofDigits 16 ((List.replicate n zeroDigit ++ ds).reverse.map Fin.val) =
      Nat.ofDigits 16 (ds.reverse.map Fin.val) := by
  have hz : zeroDigit.val = 0 := rfl
  rw [List.reverse_append, List.reverse_replicate, List.map_append, List.map_replicate, hz,
    Nat.ofDigits_append_replicate_zero]

/-- Two zeros in front are one more byte in front. -/
theorem pack_padded (n : Nat) (ds : List (Fin 16)) :
    pack (List.replicate (2 * n) zeroDigit ++ ds) = List.replicate n 0 ++ pack ds := by
  induction n with
  | zero => rfl
  | succ n ih =>
    rw [show 2 * (n + 1) = 2 * n + 1 + 1 from rfl, List.replicate_succ, List.replicate_succ,
      List.replicate_succ, List.cons_append, List.cons_append, pack, ih]
    rfl

theorem length_unpack (bs : List UInt8) : (unpack bs).length = 2 * bs.length := by
  induction bs with
  | nil => rfl
  | cons b bs ih =>
    show (unpack bs).length + 2 = _
    rw [ih, List.length_cons]
    omega

/-- The two digits of a byte make it up. -/
theorem pack_unpack (bs : List UInt8) : pack (unpack bs) = bs := by
  induction bs with
  | nil => rfl
  | cons b bs ih =>
    have hb : 16 * (b.toNat / 16 % 16) + b.toNat % 16 = b.toNat := by
      have := b.toNat_lt
      omega
    show UInt8.ofNat (16 * (b.toNat / 16 % 16) + b.toNat % 16) :: pack (unpack bs) = _
    rw [ih, hb, UInt8.ofNat_toNat]

/-- A byte made of two digits has these two. -/
theorem unpack_pack : ∀ ds : List (Fin 16), ds.length % 2 = 0 → unpack (pack ds) = ds
  | [], _ => rfl
  | [_], h => by simp at h
  | hi :: lo :: rest, h => by
    have hr : rest.length % 2 = 0 := by simp only [List.length_cons] at h; omega
    have hb : (UInt8.ofNat (16 * hi.val + lo.val)).toNat = 16 * hi.val + lo.val := by
      rw [UInt8.toNat_ofNat']; omega
    have hhi : Fin.ofNat 16 ((16 * hi.val + lo.val) / 16) = hi := by
      apply Fin.ext
      show (16 * hi.val + lo.val) / 16 % 16 = hi.val
      omega
    have hlo : Fin.ofNat 16 (16 * hi.val + lo.val) = lo := by
      apply Fin.ext
      show (16 * hi.val + lo.val) % 16 = lo.val
      omega
    rw [pack, unpack, List.flatMap_cons, hb, hhi, hlo]
    show hi :: lo :: unpack (pack rest) = _
    rw [unpack_pack rest hr]

/-! ## Writing -/

/-- The characters `0` to `9` and `a` to `f`, with which digits are written. -/
def IsLowerDigit (c : Char) : Prop := ('0' ≤ c ∧ c ≤ '9') ∨ ('a' ≤ c ∧ c ≤ 'f')

instance : DecidablePred IsLowerDigit := fun _ => inferInstanceAs (Decidable (_ ∨ _))

theorem IsLowerDigit.isDigit {c : Char} (h : IsLowerDigit c) : IsDigit c := by
  rcases h with h | h
  · exact .inl h
  · exact .inr (.inl h)

theorem isLowerDigit_digitChar (d : Fin 16) : IsLowerDigit (digitChar d) := by
  decide +revert

theorem exists_digitChar {c : Char} (h : IsLowerDigit c) : ∃ d, digitChar d = c := by
  have key : ∀ n < 128, IsLowerDigit (Char.ofNat n) → ∃ d, digitChar d = Char.ofNat n := by
    decide +kernel
  have hc := key c.toNat h.isDigit.lt
  rw [Char.ofNat_toNat] at hc
  exact hc h

/-- A digit that was read is written as the character in lower case. -/
theorem digitChar_of_digit? {c : Char} {d : Fin 16} (h : digit? c.toNat = some d) :
    digitChar d = c.toLower := by
  have key : ∀ n < 128, ∀ d, digit? (Char.ofNat n).toNat = some d →
      digitChar d = (Char.ofNat n).toLower := by
    decide +kernel
  have hc := key c.toNat (digit?_eq_some_iff.1 h).1.lt d
  rw [Char.ofNat_toNat] at hc
  exact hc h

theorem map_digitChar_of_digits {cs : List Char} {ds : List (Fin 16)}
    (h : cs.map (fun c => digit? c.toNat) = ds.map some) :
    ds.map digitChar = cs.map Char.toLower := by
  induction cs generalizing ds with
  | nil => rw [List.map_eq_nil_iff.1 h.symm]; rfl
  | cons c cs ih =>
    cases ds with
    | nil => cases h
    | cons d ds =>
      obtain ⟨hd, hds⟩ := List.cons.inj h
      rw [List.map_cons, List.map_cons, digitChar_of_digit? hd, ih hds]

/-- Lower-case digits are written for some digits. -/
theorem exists_map_digitChar {cs : List Char} (h : ∀ c ∈ cs, IsLowerDigit c) :
    ∃ ds : List (Fin 16), ds.map digitChar = cs := by
  induction cs with
  | nil => exact ⟨[], rfl⟩
  | cons c cs ih =>
    obtain ⟨hc, hcs⟩ := List.forall_mem_cons.1 h
    obtain ⟨d, rfl⟩ := exists_digitChar hc
    obtain ⟨ds, rfl⟩ := ih hcs
    exact ⟨d :: ds, rfl⟩

theorem length_encode (bs : List UInt8) : (encode bs).length = 2 * bs.length := by
  rw [encode, List.length_map, length_unpack]

theorem isLowerDigit_of_mem_encode {bs : List UInt8} {c : Char} (h : c ∈ encode bs) :
    IsLowerDigit c := by
  obtain ⟨d, -, rfl⟩ := List.mem_map.1 h
  exact isLowerDigit_digitChar d

/-- What is read from written bytes are their digits. -/
theorem map_digit?_encode (bs : List UInt8) :
    (encode bs).map (fun c => digit? c.toNat) = (unpack bs).map some := by
  rw [encode, List.map_map]
  apply List.map_congr_left
  intro d _
  exact digit?_digitChar d

/-- An even run of digits is written as its bytes are. -/
theorem encode_pack {ds : List (Fin 16)} (h : ds.length % 2 = 0) :
    encode (pack ds) = ds.map digitChar := by
  rw [encode, unpack_pack ds h]

end Roster.Hex
