/-
Which texts are addresses. An address stands for a number below 2^160, its bytes being that number
in base 256; a text is accepted exactly when it is `0x` and at most forty hexadecimal digits, and
then gives the address of the number they denote (`parse_eq_ok_iff`).
-/
import Roster.Address.Text
import Roster.Proofs.Hex

namespace Roster.Address

/-! ## Addresses as numbers -/

/-- The number that the twenty bytes denote in base 256, the first byte being the most
significant. -/
def toNat (a : Address) : Nat := Nat.ofDigits 256 (a.bytes.reverse.map UInt8.toNat)

/-- Twenty bytes are determined by their number. -/
theorem toNat_injective {a b : Address} (h : a.toNat = b.toNat) : a = b := by
  have small : ∀ c : Address, ∀ n ∈ c.bytes.reverse.map UInt8.toNat, n < 256 := by
    intro c n hn
    obtain ⟨byte, -, rfl⟩ := List.mem_map.1 hn
    exact byte.toNat_lt
  have hl : (a.bytes.reverse.map UInt8.toNat).length =
      (b.bytes.reverse.map UInt8.toNat).length := by
    simp [a.length_bytes, b.length_bytes]
  have hm := Nat.ofDigits_inj_of_len_eq (by decide) hl (small a) (small b) h
  have hr := List.map_injective_iff.2 (fun x y hxy => UInt8.toNat_inj.1 hxy) hm
  have hb : a.bytes = b.bytes := List.reverse_injective hr
  cases a; cases b; cases hb; rfl

/-- The address of a run of digits has their number. -/
theorem toNat_ofDigits (ds : List (Fin 16)) (h : ds.length ≤ 40) :
    (ofDigits ds h).toNat = Nat.ofDigits 16 (ds.reverse.map Fin.val) := by
  have he : (List.replicate (40 - ds.length) Hex.zeroDigit ++ ds).length % 2 = 0 := by
    rw [List.length_append, List.length_replicate]; omega
  calc (ofDigits ds h).toNat
      = Nat.ofDigits 16
          ((List.replicate (40 - ds.length) Hex.zeroDigit ++ ds).reverse.map Fin.val) :=
        Hex.ofDigits_pack _ he
    _ = Nat.ofDigits 16 (ds.reverse.map Fin.val) := Hex.ofDigits_padded _ ds

/-! ## Accepted texts -/

/-- Digit bytes are accepted up to forty of them, and give the address of their number. -/
theorem parseDigits_eq_ok_iff {bs : List UInt8} {a : Address} :
    parseDigits bs = .ok a ↔
      ∃ ds : List (Fin 16), bs.map (fun b => Hex.digit? b.toNat) = ds.map some ∧
        ds.length ≤ 40 ∧ a.toNat = Nat.ofDigits 16 (ds.reverse.map Fin.val) := by
  unfold parseDigits
  constructor
  · intro h
    split at h
    · cases h
    · rename_i ds hds
      split at h
      · rename_i hl
        cases h
        exact ⟨ds, Hex.readFrom_eq_ok_iff.1 hds, hl, toNat_ofDigits ds hl⟩
      · cases h
  · rintro ⟨ds, hds, hl, ha⟩
    rw [Hex.readFrom_eq_ok_iff.2 hds]
    simp only [dif_pos hl]
    rw [toNat_injective (ha.trans (toNat_ofDigits ds hl).symm)]

theorem parse_of_mark {text : String} {cs : List Char} (h : text.toList = '0' :: 'x' :: cs) :
    parse text = parseDigits (cs.flatMap String.utf8EncodeChar) := by
  simp only [parse, h]

theorem mark_of_parse {text : String} {a : Address} (h : parse text = .ok a) :
    ∃ cs, text.toList = '0' :: 'x' :: cs := by
  unfold parse at h
  split at h
  · exact ⟨_, by assumption⟩
  · cases h

/-- A text is an address exactly when it is `0x` and at most forty hexadecimal digits; the address
is the one whose bytes are the number of those digits. -/
theorem parse_eq_ok_iff (text : String) (a : Address) :
    parse text = .ok a ↔
      ∃ cs : List Char, text.toList = '0' :: 'x' :: cs ∧ cs.length ≤ 40 ∧
        (∀ c ∈ cs, Hex.IsDigit c) ∧ a.toNat = Hex.number cs := by
  constructor
  · intro h
    obtain ⟨cs, hcs⟩ := mark_of_parse h
    rw [parse_of_mark hcs, parseDigits_eq_ok_iff] at h
    obtain ⟨ds, hds, hl, ha⟩ := h
    obtain ⟨hd, hv⟩ := Hex.map_digit?_eq_iff.1 (Hex.digits_of_utf8.1 hds)
    have hlen : ds.length = cs.length := by simpa using congrArg List.length hv
    exact ⟨cs, hcs, hlen ▸ hl, hd, ha.trans (Hex.number_eq_ofDigits hv).symm⟩
  · rintro ⟨cs, hcs, hl, hd, ha⟩
    obtain ⟨ds, hv⟩ := Hex.exists_digits hd
    have hlen : ds.length = cs.length := by simpa using congrArg List.length hv
    rw [parse_of_mark hcs, parseDigits_eq_ok_iff]
    have hread := Hex.digits_of_utf8.2 (Hex.map_digit?_eq_iff.2 ⟨hd, hv⟩)
    exact ⟨ds, hread, hlen ▸ hl, ha.trans (Hex.number_eq_ofDigits hv)⟩

end Roster.Address
