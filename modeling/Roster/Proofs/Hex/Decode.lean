/-
The first byte that is no digit. Reading a run of bytes fails exactly when it has such a byte, and
tells the first one (`readFrom_eq_error_iff`); in a text that byte begins a character, since all
before it are characters of one byte (`FirstBad.begins`). Digits are decoded two to a byte, so an
odd run is refused; one more digit in front makes it even, and moves every offset by one
(`decode_evened`).
-/
import Roster.Proofs.Hex

namespace Roster.Hex

/-! ## Digits among bytes -/

/-- The byte is the code of a digit. -/
def IsDigitByte (b : UInt8) : Prop := IsDigit (Char.ofNat b.toNat)

instance : DecidablePred IsDigitByte := fun _ => inferInstanceAs (Decidable (IsDigit _))

/-- Every byte is the code of a character. -/
theorem toNat_ofNat_byte (b : UInt8) : (Char.ofNat b.toNat).toNat = b.toNat := by
  have hb := b.toNat_lt
  have hv : b.toNat.isValidChar := .inl (by omega)
  rw [Char.ofNat, dif_pos hv]
  rfl

theorem IsDigitByte.lt {b : UInt8} (h : IsDigitByte b) : b.toNat < 128 := by
  rw [← toNat_ofNat_byte]
  exact IsDigit.lt h

theorem isDigitByte_iff {b : UInt8} : IsDigitByte b ↔ ∃ d, digit? b.toNat = some d := by
  have hread := map_digit? (Char.ofNat b.toNat)
  rw [toNat_ofNat_byte] at hread
  unfold IsDigitByte
  constructor
  · intro h
    rw [if_pos h, Option.map_eq_some_iff] at hread
    obtain ⟨d, hd, -⟩ := hread
    exact ⟨d, hd⟩
  · rintro ⟨d, hd⟩
    by_contra h
    rw [if_neg h, hd] at hread
    cases hread

/-! ## The first byte that is no digit -/

/-- The first byte that is no digit is `b`, at offset `k`. -/
structure FirstBad (bs : List UInt8) (k : Nat) (b : UInt8) : Prop where
  here : bs[k]? = some b
  bad : ¬ IsDigitByte b
  before : ∀ j < k, ∀ c, bs[j]? = some c → IsDigitByte c

variable {bs : List UInt8} {b c : UInt8} {k : Nat}

theorem not_firstBad_nil : ¬ FirstBad [] k b := by
  rintro ⟨hk, -, -⟩
  cases hk

theorem firstBad_cons_zero : FirstBad (b :: bs) 0 c ↔ c = b ∧ ¬ IsDigitByte b := by
  constructor
  · rintro ⟨hk, hbad, -⟩
    cases hk
    exact ⟨rfl, hbad⟩
  · rintro ⟨rfl, hbad⟩
    exact ⟨rfl, hbad, fun j hj => absurd hj (Nat.not_lt_zero j)⟩

theorem firstBad_cons_succ :
    FirstBad (b :: bs) (k + 1) c ↔ IsDigitByte b ∧ FirstBad bs k c := by
  constructor
  · rintro ⟨hk, hbad, hbefore⟩
    exact ⟨hbefore 0 (Nat.succ_pos k) b rfl, hk, hbad,
      fun j hj => hbefore (j + 1) (Nat.succ_lt_succ hj)⟩
  · rintro ⟨hb, hk, hbad, hbefore⟩
    refine ⟨hk, hbad, fun j hj d hd => ?_⟩
    cases j with
    | zero => cases hd; exact hb
    | succ j => exact hbefore j (Nat.lt_of_succ_lt_succ hj) d hd

/-- A run that has a byte that is no digit has a first one. -/
theorem exists_firstBad_iff : (∃ k b, FirstBad bs k b) ↔ ∃ b ∈ bs, ¬ IsDigitByte b := by
  constructor
  · rintro ⟨k, b, h⟩
    exact ⟨b, List.mem_of_getElem? h.here, h.bad⟩
  · rintro ⟨b, hb, hbad⟩
    induction bs with
    | nil => cases hb
    | cons c bs ih =>
      by_cases hc : IsDigitByte c
      · rcases List.mem_cons.1 hb with rfl | hb
        · exact absurd hc hbad
        · obtain ⟨k, d, h⟩ := ih hb
          exact ⟨k + 1, d, firstBad_cons_succ.2 ⟨hc, h⟩⟩
      · exact ⟨0, c, firstBad_cons_zero.2 ⟨rfl, hc⟩⟩

/-- Reading fails at the first byte that is no digit, and at no other. -/
theorem readFrom_eq_error_iff {o : Nat} {bad : BadDigit} :
    readFrom o bs = .error bad ↔ ∃ k, FirstBad bs k bad.byte ∧ bad.offset = k + o := by
  induction bs generalizing o with
  | nil => simp [readFrom, not_firstBad_nil]
  | cons b bs ih =>
    cases hd : digit? b.toNat with
    | some d =>
      have hb : IsDigitByte b := isDigitByte_iff.2 ⟨d, hd⟩
      have hrest : readFrom o (b :: bs) = .error bad ↔ readFrom (o + 1) bs = .error bad := by
        rw [readFrom, hd]
        cases readFrom (o + 1) bs <;> simp [Except.map]
      rw [hrest, ih]
      constructor
      · rintro ⟨k, hk, ho⟩
        exact ⟨k + 1, firstBad_cons_succ.2 ⟨hb, hk⟩, by omega⟩
      · rintro ⟨k, hk, ho⟩
        cases k with
        | zero => exact absurd hb (firstBad_cons_zero.1 hk).2
        | succ k => exact ⟨k, (firstBad_cons_succ.1 hk).2, by omega⟩
    | none =>
      have hb : ¬ IsDigitByte b := by simp [isDigitByte_iff, hd]
      rw [readFrom, hd]
      constructor
      · rintro ⟨⟩
        exact ⟨0, firstBad_cons_zero.2 ⟨rfl, hb⟩, (Nat.zero_add o).symm⟩
      · rintro ⟨k, hk, ho⟩
        cases k with
        | zero =>
          have hbyte : bad.byte = b := (firstBad_cons_zero.1 hk).1
          have hoffset : bad.offset = o := ho.trans (Nat.zero_add o)
          rw [← hbyte, ← hoffset]
        | succ k => exact absurd (firstBad_cons_succ.1 hk).1 hb

/-- A run is read when every byte is a digit. -/
theorem exists_readFrom_iff {o : Nat} :
    (∃ ds, readFrom o bs = .ok ds) ↔ ∀ b ∈ bs, IsDigitByte b := by
  cases hread : readFrom o bs with
  | ok ds =>
    refine iff_of_true ⟨ds, rfl⟩ ?_
    by_contra hno
    push Not at hno
    obtain ⟨k, b, hb⟩ := exists_firstBad_iff.2 hno
    have herr : readFrom o bs = .error ⟨b, k + o⟩ := readFrom_eq_error_iff.2 ⟨k, hb, rfl⟩
    rw [hread] at herr
    cases herr
  | error bad =>
    obtain ⟨k, hk, -⟩ := readFrom_eq_error_iff.1 hread
    refine iff_of_false (by simp) fun hall => ?_
    exact hk.bad (hall _ (List.mem_of_getElem? hk.here))

/-! ## Bytes of a text -/

/-- In a text the first byte that is no digit is the first of a character. -/
theorem FirstBad.begins {cs : List Char}
    (h : FirstBad (cs.flatMap String.utf8EncodeChar) k b) :
    b.IsUTF8FirstByte := by
  induction cs generalizing k with
  | nil => exact absurd h not_firstBad_nil
  | cons c cs ih =>
    obtain ⟨first, more, hc⟩ := List.exists_cons_of_ne_nil (@String.utf8EncodeChar_ne_nil c)
    rw [List.flatMap_cons, hc, List.cons_append] at h
    cases k with
    | zero =>
      have hpos : 0 < (String.utf8EncodeChar c).length := by rw [hc]; exact Nat.succ_pos _
      have hfirst : (String.utf8EncodeChar c)[0] = first := by
        simp only [hc, List.getElem_cons_zero]
      rw [(firstBad_cons_zero.1 h).1, ← hfirst]
      exact UInt8.isUTF8FirstByte_getElem_utf8EncodeChar.2 rfl
    | succ k =>
      obtain ⟨hdigit, h⟩ := firstBad_cons_succ.1 h
      -- a digit is a whole character, so the next byte begins one again
      have hone : more = [] := by
        by_cases hlt : c.toNat < 128
        · rw [utf8_of_lt hlt] at hc
          cases hc
          rfl
        · obtain ⟨first', more', hc', hle⟩ := utf8_of_le (Nat.le_of_not_lt hlt)
          cases hc.symm.trans hc'
          exact absurd hdigit.lt (Nat.not_lt.2 hle)
      rw [hone, List.nil_append] at h
      exact ih h

/-- The first byte of a character goes on with no character. -/
theorem not_continuation (h : b.IsUTF8FirstByte) : ¬ (0x80 ≤ b ∧ b < 0xc0) := by
  have key : ∀ n < 256, (UInt8.ofNat n).IsUTF8FirstByte →
      ¬ (0x80 ≤ UInt8.ofNat n ∧ UInt8.ofNat n < 0xc0) := by decide +kernel
  have hb := key b.toNat b.toNat_lt
  rw [UInt8.ofNat_toNat] at hb
  exact hb h

/-! ## Decoding -/

/-- Why a run of bytes is not the digits of other bytes. -/
inductive DecodeError where
  | oddLength
  | badDigit (bad : BadDigit)
  deriving DecidableEq, Repr

/-- The bytes that a run of digits denotes, two digits for each. The length is looked at first. -/
def decode (bs : List UInt8) : Except DecodeError (List UInt8) :=
  if bs.length % 2 = 1 then .error .oddLength
  else
    match readFrom 0 bs with
    | .error bad => .error (.badDigit bad)
    | .ok ds => .ok (pack ds)

/-- An odd run with the digit zero in front, an even run as it is. -/
def evened (bs : List UInt8) : List UInt8 := if bs.length % 2 = 1 then 0x30 :: bs else bs

/-- An evened run is never refused for its length, and reading it is reading the run itself. -/
theorem decode_evened (bs : List UInt8) :
    decode (evened bs) =
      match readFrom (bs.length % 2) bs with
      | .error bad => .error (.badDigit bad)
      | .ok ds => .ok (pack (List.replicate (bs.length % 2) zeroDigit ++ ds)) := by
  unfold evened
  split
  · rename_i hodd
    have heven : ¬ ((0x30 :: bs).length % 2 = 1) := by rw [List.length_cons]; omega
    have hzero : readFrom 0 (0x30 :: bs) = (readFrom 1 bs).map (zeroDigit :: ·) := rfl
    rw [decode, if_neg heven, hzero, hodd]
    cases readFrom 1 bs <;> rfl
  · rename_i heven
    have hmod : bs.length % 2 = 0 := by omega
    rw [decode, if_neg heven, hmod]
    rfl

end Roster.Hex
