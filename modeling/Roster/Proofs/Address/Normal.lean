/-
Reading an address and writing it again. The digits come back in lower case and filled up with
zeros on the left (`render_of_parse`), so what is left of an address's spelling are its digits
without letter case and without zeros in front: two texts give one address exactly when they agree
in these (`parse_normalises`).
-/
import Mathlib.Data.List.TakeWhile
import Roster.Proofs.Address.Text

namespace Roster.Address

/-! ## Filling up on the left -/

section Leftpad

variable {α : Type} [DecidableEq α] {n : Nat} {a : α} {l l' : List α}

/-- What is filled up is dropped again. -/
theorem dropWhile_leftpad : (l.leftpad n a).dropWhile (· = a) = l.dropWhile (· = a) := by
  rw [List.leftpad]
  apply List.dropWhile_append_of_pos
  intro b hb
  exact decide_eq_true (List.eq_of_mem_replicate hb)

/-- What is dropped is filled up again. -/
theorem leftpad_dropWhile (h : l.length ≤ n) :
    (l.dropWhile (· = a)).leftpad n a = l.leftpad n a := by
  have htake : l.takeWhile (· = a) = List.replicate (l.takeWhile (· = a)).length a := by
    rw [List.eq_replicate_iff]
    refine ⟨rfl, fun b hb => ?_⟩
    have hdropped := List.mem_takeWhile_imp hb
    exact of_decide_eq_true hdropped
  have hsplit : l.takeWhile (· = a) ++ l.dropWhile (· = a) = l := List.takeWhile_append_dropWhile
  have hlength := congrArg List.length hsplit
  rw [List.length_append] at hlength
  calc (l.dropWhile (· = a)).leftpad n a
      = List.replicate (n - l.length) a ++
          (List.replicate (l.takeWhile (· = a)).length a ++ l.dropWhile (· = a)) := by
        rw [List.leftpad, ← List.append_assoc, List.replicate_append_replicate]
        congr 2
        omega
    _ = l.leftpad n a := by rw [← htake, hsplit, List.leftpad]

theorem leftpad_inj (h : l.length ≤ n) (h' : l'.length ≤ n) :
    l.leftpad n a = l'.leftpad n a ↔ l.dropWhile (· = a) = l'.dropWhile (· = a) := by
  constructor
  · intro he
    rw [← dropWhile_leftpad (n := n), he, dropWhile_leftpad]
  · intro he
    rw [← leftpad_dropWhile h, he, leftpad_dropWhile h']

end Leftpad

/-! ## Digits that come back -/

variable {text text' : String} {a b : Address} {cs cs' : List Char}

/-- An address that was read is made of the digits that were read. -/
theorem exists_digits_of_parse (h : parse text = .ok a) (hcs : text.toList = '0' :: 'x' :: cs) :
    ∃ (ds : List (Fin 16)) (hl : ds.length ≤ 40),
      cs.map (fun c => Hex.digit? c.toNat) = ds.map some ∧ a = ofDigits ds hl := by
  rw [parse_of_mark hcs, parseDigits_eq_ok_iff] at h
  obtain ⟨ds, hds, hl, ha⟩ := h
  refine ⟨ds, hl, Hex.digits_of_utf8.1 hds, toNat_injective ?_⟩
  rw [ha, toNat_ofDigits]

/-- At most forty digits are written with the zeros that fill them up. -/
theorem encode_ofDigits (ds : List (Fin 16)) (h : ds.length ≤ 40) :
    Hex.encode (ofDigits ds h).bytes = (ds.map Hex.digitChar).leftpad 40 '0' := by
  have heven : (List.replicate (40 - ds.length) Hex.zeroDigit ++ ds).length % 2 = 0 := by
    rw [List.length_append, List.length_replicate]; omega
  show Hex.encode (Hex.pack (List.replicate (40 - ds.length) Hex.zeroDigit ++ ds)) = _
  rw [Hex.encode_pack heven, List.map_append, List.map_replicate, List.leftpad, List.length_map]
  rfl

theorem length_of_parse (h : parse text = .ok a) (hcs : text.toList = '0' :: 'x' :: cs) :
    cs.length ≤ 40 := by
  obtain ⟨ds, hl, hds, -⟩ := exists_digits_of_parse h hcs
  have hlength := congrArg List.length hds
  rw [List.length_map, List.length_map] at hlength
  omega

/-- The digits of an address that was read are written in lower case, filled up with zeros. -/
theorem render_of_parse (h : parse text = .ok a) (hcs : text.toList = '0' :: 'x' :: cs) :
    a.render.toList = '0' :: 'x' :: (cs.map Char.toLower).leftpad 40 '0' := by
  obtain ⟨ds, hl, hds, rfl⟩ := exists_digits_of_parse h hcs
  rw [toList_render, encode_ofDigits, Hex.map_digitChar_of_digits hds]

/-! ## One address in many spellings -/

/-- The digits without zeros in front, in lower case. -/
def significant (cs : List Char) : List Char := (cs.dropWhile (· = '0')).map Char.toLower

theorem toLower_eq_zero_iff {c : Char} : c.toLower = '0' ↔ c = '0' := by
  constructor
  · intro h
    unfold Char.toLower at h
    split at h
    · -- a letter gives a letter
      rename_i hc
      have hlow : 65 ≤ c.val.toNat := hc.1
      have hhigh : c.val.toNat ≤ 90 := hc.2
      have hcode : (c.val + 32).toNat = 48 := congrArg Char.toNat h
      have hshift : (32 : UInt32).toNat = 32 := rfl
      rw [UInt32.toNat_add] at hcode
      omega
    · exact h
  · rintro rfl
    rfl

/-- Lower case makes no digit a zero, so the zeros in front may be dropped before or after. -/
theorem significant_eq (cs : List Char) :
    significant cs = (cs.map Char.toLower).dropWhile (· = '0') := by
  rw [List.dropWhile_map, significant]
  congr 2
  funext c
  exact decide_eq_decide.2 toLower_eq_zero_iff.symm

/-- An address that was read is written as `0x` and forty characters: its digits in lower case, with
zeros in front. Two texts that are read give one address exactly when their digits agree without
zeros in front and without letter case. -/
theorem parse_normalises :
    (∀ text a, parse text = .ok a → ∃ cs, text.toList = '0' :: 'x' :: cs ∧ cs.length ≤ 40 ∧
      a.render.toList = '0' :: 'x' :: (cs.map Char.toLower).leftpad 40 '0') ∧
    (∀ text text' a b cs cs', parse text = .ok a → parse text' = .ok b →
      text.toList = '0' :: 'x' :: cs → text'.toList = '0' :: 'x' :: cs' →
      (parse text = parse text' ↔ significant cs = significant cs')) := by
  constructor
  · intro text a h
    obtain ⟨cs, hcs⟩ := mark_of_parse h
    exact ⟨cs, hcs, length_of_parse h hcs, render_of_parse h hcs⟩
  · intro text text' a b cs cs' h h' hcs hcs'
    have hl : (cs.map Char.toLower).length ≤ 40 := by
      rw [List.length_map]; exact length_of_parse h hcs
    have hl' : (cs'.map Char.toLower).length ≤ 40 := by
      rw [List.length_map]; exact length_of_parse h' hcs'
    rw [h, h', Except.ok.injEq, ← render_injective.eq_iff, ← String.toList_inj,
      render_of_parse h hcs, render_of_parse h' hcs', List.cons.injEq, List.cons.injEq,
      leftpad_inj hl hl', significant_eq, significant_eq]
    simp only [true_and]

/-- Two digits in either letter case, one text with zeros in front: both give one address. -/
theorem two_digits_and_zeros :
    let a := ofDigits [10, 11] (by decide)
    parse "0xAb" = .ok a ∧ parse "0x000aB" = .ok a ∧
    a.render.toList = '0' :: 'x' :: ['a', 'b'].leftpad 40 '0' ∧
    significant ['A', 'b'] = significant ['0', '0', '0', 'a', 'B'] := by
  intro a
  have h : parse "0xAb" = .ok a := by decide
  have h' : parse "0x000aB" = .ok a := by decide
  obtain ⟨hwrite, hsame⟩ := parse_normalises
  obtain ⟨cs, hcs, -, hrender⟩ := hwrite "0xAb" a h
  obtain rfl : ['A', 'b'] = cs := (List.cons.inj (List.cons.inj hcs).2).2
  exact ⟨h, h', hrender, (hsame _ _ _ _ _ _ h h' rfl rfl).1 (h.trans h'.symm)⟩

end Roster.Address
