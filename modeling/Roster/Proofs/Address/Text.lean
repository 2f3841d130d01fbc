/-
Addresses and their texts. An address is written as `0x` and forty lower-case digits, two for each
byte, and reading that text gives the address back: the forty digits are its number
(`ofDigits_unpack`), so nothing is filled up and nothing is too long. Every such text is written for
some address, so the texts written are told by their characters alone (`text_round_trip`).
-/
import Roster.Proofs.Address.Grammar

namespace Roster.Address

/-- `0x` and forty lower-case digits. -/
def IsCanonical (text : String) : Prop :=
  ∃ cs, text.toList = '0' :: 'x' :: cs ∧ cs.length = 40 ∧ ∀ c ∈ cs, Hex.IsLowerDigit c

theorem toList_render (a : Address) : a.render.toList = '0' :: 'x' :: Hex.encode a.bytes := by
  rw [render, String.toList_ofList, chars]

/-- The digits of an address are its number. -/
theorem ofDigits_unpack (a : Address) :
    Nat.ofDigits 16 ((Hex.unpack a.bytes).reverse.map Fin.val) = a.toNat := by
  have he : (Hex.unpack a.bytes).length % 2 = 0 := by
    rw [Hex.length_unpack]
    omega
  rw [← Hex.ofDigits_pack _ he, Hex.pack_unpack, toNat]

theorem parse_render (a : Address) : parse a.render = .ok a := by
  rw [parse_of_mark (toList_render a), parseDigits_eq_ok_iff]
  refine ⟨Hex.unpack a.bytes, ?_, ?_, (ofDigits_unpack a).symm⟩
  · exact Hex.digits_of_utf8.2 (Hex.map_digit?_encode a.bytes)
  · rw [Hex.length_unpack, a.length_bytes]

theorem render_injective : Function.Injective render := by
  intro a b h
  have hb := parse_render b
  rw [← h, parse_render a] at hb
  exact Except.ok.inj hb

theorem isCanonical_render (a : Address) : IsCanonical a.render := by
  refine ⟨Hex.encode a.bytes, toList_render a, ?_, ?_⟩
  · rw [Hex.length_encode, a.length_bytes]
  · intro c hc
    exact Hex.isLowerDigit_of_mem_encode hc

/-- Forty digits are the bytes of an address. -/
theorem exists_render {text : String} (h : IsCanonical text) : ∃ a : Address, a.render = text := by
  obtain ⟨cs, htext, hlen, hcs⟩ := h
  obtain ⟨ds, rfl⟩ := Hex.exists_map_digitChar hcs
  rw [List.length_map] at hlen
  have hbytes : (Hex.pack ds).length = 20 := by rw [Hex.length_pack, hlen]
  refine ⟨⟨Hex.pack ds, hbytes⟩, String.toList_injective ?_⟩
  rw [toList_render, htext, Hex.encode_pack (by rw [hlen])]

/-- Every address comes back from its text, and no two have the same. The texts of addresses are
those of `0x` and forty lower-case digits, and they are the texts that are written as they are read. -/
theorem text_round_trip :
    (∀ a : Address, parse a.render = .ok a) ∧
    Function.Injective render ∧
    (∀ text : String, (∃ a : Address, a.render = text) ↔ IsCanonical text) ∧
    (∀ text : String, IsCanonical text ↔ ∃ a : Address, parse text = .ok a ∧ a.render = text) := by
  refine ⟨parse_render, render_injective, ?_, ?_⟩
  · intro text
    constructor
    · rintro ⟨a, rfl⟩
      exact isCanonical_render a
    · exact exists_render
  · intro text
    constructor
    · intro h
      obtain ⟨a, rfl⟩ := exists_render h
      exact ⟨a, parse_render a, rfl⟩
    · rintro ⟨a, -, rfl⟩
      exact isCanonical_render a

end Roster.Address
