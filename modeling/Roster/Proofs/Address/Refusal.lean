/-
Which texts are refused as addresses, and why. Without the mark nothing else is looked at; after it
the first byte that is no digit is told, however long the text is, and a text of digits is refused
only for having more than forty of them (`refused_texts`). Reading the digits goes through the same
stages as decoding a run made even and counting its bytes (`Staged`), so that an odd number of
digits is never a reason.
-/
import Roster.Proofs.Address.Grammar
import Roster.Proofs.Hex.Decode

namespace Roster.Address

/-! ## The digits after the mark -/

variable {r : List UInt8} {cs : List Char} {text : String}

theorem parseDigits_eq_badDigit_iff {bad : Hex.BadDigit} :
    parseDigits r = .error (.badDigit bad) ↔
      ∃ k, Hex.FirstBad r k bad.byte ∧ bad.offset = k + r.length % 2 := by
  rw [← Hex.readFrom_eq_error_iff, parseDigits]
  cases Hex.readFrom (r.length % 2) r with
  | error e => simp
  | ok ds => simp only; split <;> simp

theorem parseDigits_eq_tooLong_iff {m : Nat} :
    parseDigits r = .error (.tooLong m) ↔
      (∀ b ∈ r, Hex.IsDigitByte b) ∧ 40 < r.length ∧ m = (r.length + r.length % 2) / 2 := by
  rw [← Hex.exists_readFrom_iff (o := r.length % 2), parseDigits]
  cases hread : Hex.readFrom (r.length % 2) r with
  | error e => simp
  | ok ds =>
    have hlen : ds.length = r.length := Hex.length_of_readFrom hread
    simp only
    split
    · rename_i hle
      refine iff_of_false (by simp) fun h => ?_
      omega
    · rename_i hlt
      rw [Except.error.injEq, ParseError.tooLong.injEq]
      constructor
      · intro hm
        exact ⟨⟨ds, rfl⟩, by omega, by omega⟩
      · rintro ⟨-, -, hm⟩
        omega

/-- The outcomes of reading a run of digits in stages: it is made even and decoded, its bytes are
counted, and an address is filled up with zero bytes on the left. -/
inductive Staged (r : List UInt8) : Except ParseError Address → Prop where
  | badDigit {bad : Hex.BadDigit} : Hex.decode (Hex.evened r) = .error (.badDigit bad) →
      Staged r (.error (.badDigit bad))
  | tooLong {bytes : List UInt8} : Hex.decode (Hex.evened r) = .ok bytes → 20 < bytes.length →
      Staged r (.error (.tooLong bytes.length))
  | fits {bytes : List UInt8} {a : Address} : Hex.decode (Hex.evened r) = .ok bytes →
      bytes.length ≤ 20 → a.bytes = List.replicate (20 - bytes.length) 0 ++ bytes →
      Staged r (.ok a)

theorem staged_parseDigits (r : List UInt8) : Staged r (parseDigits r) := by
  have hdecode := Hex.decode_evened r
  unfold parseDigits
  cases hread : Hex.readFrom (r.length % 2) r with
  | error bad =>
    rw [hread] at hdecode
    exact .badDigit hdecode
  | ok ds =>
    rw [hread] at hdecode
    have hds : ds.length = r.length := Hex.length_of_readFrom hread
    have hbytes : (Hex.pack (List.replicate (r.length % 2) Hex.zeroDigit ++ ds)).length =
        (ds.length + 1) / 2 := by
      rw [Hex.length_pack, List.length_append, List.length_replicate]
      omega
    simp only
    split
    · rename_i hle
      refine .fits hdecode (by omega) ?_
      -- the zeros that fill up the digits are those that make them even, and two for each byte
      have hzeros : List.replicate (40 - ds.length) Hex.zeroDigit =
          List.replicate (2 * (20 - (ds.length + 1) / 2)) Hex.zeroDigit ++
            List.replicate (r.length % 2) Hex.zeroDigit := by
        rw [List.replicate_append_replicate]
        congr 1
        omega
      show Hex.pack (List.replicate (40 - ds.length) Hex.zeroDigit ++ ds) = _
      rw [hbytes, hzeros, List.append_assoc, Hex.pack_padded]
    · rename_i hlt
      rw [← hbytes]
      exact .tooLong hdecode (by omega)

/-- Making a run even leaves no odd length to refuse. -/
theorem Staged.ne_oddLength {out : Except ParseError Address} (h : Staged r out) :
    Hex.decode (Hex.evened r) ≠ .error .oddLength := by
  intro hodd
  cases h with
  | badDigit h => rw [h] at hodd; cases hodd
  | tooLong h | fits h => rw [h] at hodd; cases hodd

/-! ## Refused texts -/

theorem parse_of_no_mark (h : ∀ cs, text.toList ≠ '0' :: 'x' :: cs) :
    parse text = .error (.missingMark text) := by
  unfold parse
  split
  · rename_i cs hcs
    exact absurd hcs (h cs)
  · rfl

theorem parseDigits_ne_missingMark {t : String} : parseDigits r ≠ .error (.missingMark t) := by
  unfold parseDigits
  split
  · simp
  · split <;> simp

theorem parse_eq_missingMark_iff {t : String} :
    parse text = .error (.missingMark t) ↔ t = text ∧ ∀ cs, text.toList ≠ '0' :: 'x' :: cs := by
  constructor
  · intro h
    by_cases hmark : ∃ cs, text.toList = '0' :: 'x' :: cs
    · obtain ⟨cs, hcs⟩ := hmark
      rw [parse_of_mark hcs] at h
      exact absurd h parseDigits_ne_missingMark
    · push Not at hmark
      rw [parse_of_no_mark hmark] at h
      cases h
      exact ⟨rfl, hmark⟩
  · rintro ⟨rfl, h⟩
    exact parse_of_no_mark h

/-- The message names the character with the code of the byte, and its place. -/
theorem message_badDigit (b : UInt8) : ∃ c : Char, c.toNat = b.toNat ∧ ∀ offset,
    (ParseError.badDigit ⟨b, offset⟩).message = "fail to parse a hex string: Invalid character " ++
      Text.quotedChar c ++ " at position " ++ toString offset :=
  ⟨Char.ofNat b.toNat, Hex.toNat_ofNat_byte b, fun _ => rfl⟩

/-- A text is refused for its mark exactly when it does not begin with `0x`, and nothing else is
told then than the text. Otherwise its bytes after the mark decide. If one of them is no digit, the
first such byte is told as the character with its code, at its offset counted with the zero that
completes an odd run, and it begins a character; if all are digits, they are refused when there are
more than forty of them, with the number of bytes that they fill. An odd run is never refused as
such. -/
theorem refused_texts (text : String) :
    (∀ t, parse text = .error (.missingMark t) ↔
      t = text ∧ ∀ cs, text.toList ≠ '0' :: 'x' :: cs) ∧
    (∀ cs, text.toList = '0' :: 'x' :: cs →
      let r := cs.flatMap String.utf8EncodeChar
      ((∃ bad, parse text = .error (.badDigit bad)) ↔ ∃ b ∈ r, ¬ Hex.IsDigitByte b) ∧
      (∀ bad, parse text = .error (.badDigit bad) ↔
        ∃ k, Hex.FirstBad r k bad.byte ∧ bad.offset = k + r.length % 2) ∧
      (∀ k b, Hex.FirstBad r k b → ¬ (0x80 ≤ b ∧ b < 0xc0) ∧
        ∃ c : Char, c.toNat = b.toNat ∧ ∀ offset, (ParseError.badDigit ⟨b, offset⟩).message =
          "fail to parse a hex string: Invalid character " ++ Text.quotedChar c ++
            " at position " ++ toString offset) ∧
      (∀ m, parse text = .error (.tooLong m) ↔
        (∀ b ∈ r, Hex.IsDigitByte b) ∧ 40 < r.length ∧ m = (r.length + r.length % 2) / 2) ∧
      Hex.decode (Hex.evened r) ≠ .error .oddLength ∧ Staged r (parse text)) := by
  refine ⟨fun t => parse_eq_missingMark_iff, ?_⟩
  intro cs hcs r
  rw [parse_of_mark hcs]
  have hstaged := staged_parseDigits r
  refine ⟨?_, fun bad => parseDigits_eq_badDigit_iff, fun k b h => ?_,
    fun m => parseDigits_eq_tooLong_iff, hstaged.ne_oddLength, hstaged⟩
  · rw [← Hex.exists_firstBad_iff]
    constructor
    · rintro ⟨bad, hbad⟩
      obtain ⟨k, hk, -⟩ := parseDigits_eq_badDigit_iff.1 hbad
      exact ⟨k, bad.byte, hk⟩
    · rintro ⟨k, b, hk⟩
      exact ⟨⟨b, k + r.length % 2⟩, parseDigits_eq_badDigit_iff.2 ⟨k, hk, rfl⟩⟩
  · exact ⟨Hex.not_continuation h.begins, message_badDigit b⟩

/-- The last character takes two bytes, so the run is odd, and the zero in front of it moves the
first of them to offset 2. -/
example : parse "0x1é" = .error (.badDigit ⟨0xc3, 2⟩) := by decide

end Roster.Address
