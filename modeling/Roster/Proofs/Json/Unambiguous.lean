/-
The grammar is unambiguous. Where a value ends follows from the text, because passing over it stops
there; so does the name a literal denotes, because reading gives it. Items between brackets are then
the same in every way to take them apart (`Enclosed.eq`).
-/
import Roster.Proofs.Json.Skip

namespace Roster.Json

variable {α : Type} {r r' t t' : List Char}

/-! ## Values and literals -/

/-- What follows a value at the head of a text. -/
theorem IsValue.rest_eq (h : IsValue t) (h' : IsValue t') (hr : Numeral.Ends r)
    (hr' : Numeral.Ends r') (he : t ++ r = t' ++ r') : r = r' := by
  have hs := skipValue_append blanks_nil h hr
  have hs' := skipValue_append blanks_nil h' hr'
  rw [List.nil_append] at hs hs'
  rw [he] at hs
  exact Option.some.inj (hs.symm.trans hs')

/-- A value with blanks around it is given by the text. -/
theorem IsValue.eq_of_padded {b b' b₁ b₁' : List Char} (hb : Blanks b) (hb' : Blanks b')
    (hb₁ : Blanks b₁) (hb₁' : Blanks b₁') (h : IsValue t) (h' : IsValue t')
    (he : b ++ (t ++ b') = b₁ ++ (t' ++ b₁')) : t = t' := by
  have hs := congrArg skipBlanks he
  rw [skipBlanks_value hb h, skipBlanks_value hb₁ h'] at hs
  obtain rfl := h.rest_eq h' (ends_of_blanks_self hb') (ends_of_blanks_self hb₁') hs
  exact List.append_cancel_right hs

/-- Blanks around a value do not matter. -/
theorem padded_iff {P : List Char → Prop} {b b' : List Char} (hP : ∀ u, P u → IsValue u)
    (hb : Blanks b) (hb' : Blanks b') (h : IsValue t) : Padded P (b ++ (t ++ b')) ↔ P t := by
  constructor
  · rintro ⟨b₁, u, b₁', hb₁, hu, hb₁', he⟩
    obtain rfl := IsValue.eq_of_padded hb hb' hb₁ hb₁' h (hP u hu) he
    exact hu
  · exact fun ht => ⟨b, t, b', hb, ht, hb', rfl⟩

/-- After a value there may be nothing but blanks. -/
theorem not_padded_of_rest {P : List Char → Prop} (hP : ∀ u, P u → IsValue u) (h : IsValue t)
    (hr : Numeral.Ends r) (hrest : ¬ Blanks r) : ¬ Padded P (t ++ r) := by
  rintro ⟨b, u, b', hb, hu, hb', he⟩
  have hs := congrArg skipBlanks he
  rw [← List.nil_append (t ++ r), skipBlanks_value blanks_nil h,
    skipBlanks_value hb (hP u hu)] at hs
  exact hrest (h.rest_eq (hP u hu) hr (ends_of_blanks_self hb') hs ▸ hb')

/-- What a literal at the head of a text denotes, and what follows it. -/
theorem Literal.eq {s s' : String} (h : Literal s t) (h' : Literal s' t')
    (he : t ++ r = t' ++ r') : s = s' ∧ r = r' := by
  obtain ⟨u, rfl, hread⟩ := h.read
  obtain ⟨u', rfl, hread'⟩ := h'.read
  have hs : readString (u' ++ r') = some (s, r) := by
    rw [← hread r]
    exact congrArg readString (List.cons.inj he).2.symm
  rw [hread'] at hs
  cases hs
  exact ⟨rfl, rfl⟩

/-! ## Items -/

/-- Items that are told apart in every text: an item and what follows it are given by the text. -/
structure Distinct (P : α → List Char → Prop) (good : α → Prop) : Prop where
  head : ∀ {x : α} {t : List Char}, good x → P x t → ∃ c u, t = c :: u ∧ Opens c
  eq : ∀ {x x' : α} {t t' r r' : List Char}, good x → good x' → P x t → P x' t' →
    Numeral.Ends r → Numeral.Ends r' → t ++ r = t' ++ r' → x = x' ∧ r = r'

theorem distinct_values : Distinct Eq IsValue where
  head := by rintro x _ hx rfl; exact hx.head
  eq := by
    rintro x x' _ _ r r' hx hx' rfl rfl hr hr' he
    obtain rfl := hx.rest_eq hx' hr hr' he
    exact ⟨List.append_cancel_right he, rfl⟩

theorem distinct_members : Distinct NamedMember fun m => IsValue m.2 where
  head := by
    rintro m _ - ⟨key, hk, b, b', -, -, rfl⟩
    obtain ⟨c, u, rfl, hc⟩ := (IsValue.literal hk.isLiteral).head
    exact ⟨c, _, rfl, hc⟩
  eq := by
    rintro ⟨name, v⟩ ⟨name', v'⟩ _ _ r r' hv hv' ⟨key, hk, b₁, b₂, hb₁, hb₂, rfl⟩
      ⟨key', hk', b₁', b₂', hb₁', hb₂', rfl⟩ hr hr' he
    simp only [List.append_assoc, List.cons_append] at he
    obtain ⟨rfl, hrest⟩ := hk.eq hk' he
    -- a colon follows either key, and the value either colon
    have hcolon : afterColon (b₁ ++ ':' :: (b₂ ++ (v ++ r))) = some _ :=
      afterColon_eq_some_iff.2 ⟨b₁, hb₁, rfl⟩
    rw [hrest, afterColon_eq_some_iff.2 ⟨b₁', hb₁', rfl⟩] at hcolon
    have hvalue := congrArg skipBlanks (Option.some.inj hcolon)
    rw [skipBlanks_value hb₂' hv', skipBlanks_value hb₂ hv] at hvalue
    obtain rfl := hv.rest_eq hv' hr hr' hvalue.symm
    exact ⟨Prod.ext rfl (List.append_cancel_right hvalue).symm, rfl⟩

/-! ## Brackets -/

variable {P : α → List Char → Prop} {good : α → Prop} {close : Char} {xs ys : List α}

theorem Distinct.skipBlanks_eq (hP : Distinct P good) {x : α} (hx : good x) (ht : P x t)
    {b : List Char} (hb : Blanks b) (s : List Char) : skipBlanks (b ++ (t ++ s)) = t ++ s := by
  obtain ⟨c, u, rfl, hc⟩ := hP.head hx ht
  exact hb.skip hc.1 _

theorem Distinct.ne_close (hP : Distinct P good) (hc : close = ']' ∨ close = '}') {x : α}
    (hx : good x) (ht : P x t) (s : List Char) : t ++ s ≠ [close] := by
  obtain ⟨c, u, rfl, -, -, hl, hr⟩ := hP.head hx ht
  intro h
  rcases hc with rfl | rfl
  · exact hl (List.cons.inj h).1
  · exact hr (List.cons.inj h).1

theorem skipBlanks_close {b : List Char} (hc : close = ']' ∨ close = '}') (hb : Blanks b) :
    skipBlanks (b ++ [close]) = [close] :=
  hb.skip (by rcases hc with rfl | rfl <;> rfl) []

theorem Continued.ends_self (hc : close = ']' ∨ close = '}') (ht : Continued close P xs t) :
    Numeral.Ends t := by
  simpa using ht.ends hc []

theorem Continued.eq (hP : Distinct P good) (hc : close = ']' ∨ close = '}')
    (ht : Continued close P xs t) (ht' : Continued close P ys t') (he : t = t')
    (hxs : ∀ x ∈ xs, good x) (hys : ∀ y ∈ ys, good y) : xs = ys := by
  have hcomma : close ≠ ',' := by rcases hc with rfl | rfl <;> decide
  induction ht generalizing ys t' with
  | nil hb =>
    cases ht' with
    | nil => rfl
    | cons hb₁ =>
      have hs := congrArg skipBlanks he
      rw [skipBlanks_close hc hb, hb₁.skip rfl] at hs
      exact absurd (List.cons.inj hs).1 hcomma
  | cons hb hb' hx hu ih =>
    cases ht' with
    | nil hb₁ =>
      have hs := congrArg skipBlanks he
      rw [skipBlanks_close hc hb₁, hb.skip rfl] at hs
      exact absurd (List.cons.inj hs).1.symm hcomma
    | cons hb₁ hb₁' hy hu₁ =>
      have hs := congrArg skipBlanks he
      rw [hb.skip rfl, hb₁.skip rfl] at hs
      obtain ⟨hgx, hgxs⟩ := List.forall_mem_cons.1 hxs
      obtain ⟨hgy, hgys⟩ := List.forall_mem_cons.1 hys
      have hs := congrArg skipBlanks (List.cons.inj hs).2
      rw [hP.skipBlanks_eq hgx hx hb', hP.skipBlanks_eq hgy hy hb₁'] at hs
      obtain ⟨rfl, hrest⟩ := hP.eq hgx hgy hx hy (hu.ends_self hc) (hu₁.ends_self hc) hs
      rw [ih hu₁ hrest hgxs hgys]

theorem Enclosed.head? {opening : Char} (ht : Enclosed opening close P xs t) :
    t.head? = some opening := by
  cases ht <;> rfl

/-- The opening bracket is given by the text. -/
theorem Enclosed.opening_eq {β : Type} {Q : β → List Char → Prop} {zs : List β}
    {opening opening' close' : Char} (ht : Enclosed opening close P xs t)
    (ht' : Enclosed opening' close' Q zs t) : opening = opening' :=
  Option.some.inj (ht.head?.symm.trans ht'.head?)

/-- So are the items between the brackets. -/
theorem Enclosed.eq {opening : Char} (hP : Distinct P good) (hc : close = ']' ∨ close = '}')
    (ht : Enclosed opening close P xs t) (ht' : Enclosed opening close P ys t') (he : t = t')
    (hxs : ∀ x ∈ xs, good x) (hys : ∀ y ∈ ys, good y) : xs = ys := by
  cases ht with
  | nil hb =>
    cases ht' with
    | nil => rfl
    | cons hb₁ hy hu₁ =>
      have hgy := (List.forall_mem_cons.1 hys).1
      have hs := congrArg skipBlanks (List.cons.inj he).2
      rw [skipBlanks_close hc hb, hP.skipBlanks_eq hgy hy hb₁] at hs
      exact absurd hs.symm (hP.ne_close hc hgy hy _)
  | cons hb hx hu =>
    obtain ⟨hgx, hgxs⟩ := List.forall_mem_cons.1 hxs
    cases ht' with
    | nil hb₁ =>
      have hs := congrArg skipBlanks (List.cons.inj he).2
      rw [skipBlanks_close hc hb₁, hP.skipBlanks_eq hgx hx hb] at hs
      exact absurd hs (hP.ne_close hc hgx hx _)
    | cons hb₁ hy hu₁ =>
      obtain ⟨hgy, hgys⟩ := List.forall_mem_cons.1 hys
      have hs := congrArg skipBlanks (List.cons.inj he).2
      rw [hP.skipBlanks_eq hgx hx hb, hP.skipBlanks_eq hgy hy hb₁] at hs
      obtain ⟨rfl, hrest⟩ := hP.eq hgx hgy hx hy (hu.ends_self hc) (hu₁.ends_self hc) hs
      rw [hu.eq hP hc hu₁ hrest hgxs hgys]

end Roster.Json
