/-
Passing over values against the grammar: what is passed over is a well-formed value of any depth,
and every such value is passed over. Soundness follows the reader and says what the open brackets
still demand of the text (`Closes`); completeness follows the value, for all brackets around it.
-/
import Roster.Json.Skip
import Roster.Proofs.Json.Literal
import Roster.Proofs.Json.Numeral

namespace Roster.Json

/-! ## First characters -/

/-- No blank, no comma and no closing bracket. -/
def Opens (c : Char) : Prop := isBlank c = false ∧ c ≠ ',' ∧ c ≠ ']' ∧ c ≠ '}'

theorem opens_of_isDigit {c : Char} (h : c.isDigit = true) : Opens c := by
  refine ⟨Bool.eq_false_iff.2 fun hb => ?_, ?_, ?_, ?_⟩
  · rcases isBlank_iff.1 hb with rfl | rfl | rfl | rfl <;> cases h
  all_goals rintro rfl; cases h

theorem Numeral.Written.head {x : Numeral} {t : List Char} (h : x.Written t) :
    ∃ c u, t = c :: u ∧ (c = '-' ∨ c.isDigit = true) := by
  cases h with
  | @mk _ _ _ s w f e hs hw _ _ =>
    cases hs with
    | minus => exact ⟨_, _, rfl, .inl rfl⟩
    | absent =>
      obtain ⟨c, u, rfl⟩ := List.exists_cons_of_ne_nil hw.ne_nil
      exact ⟨_, _, rfl, .inr (hw.isDigit c (List.mem_cons_self ..))⟩

theorem IsValue.head {t : List Char} (h : IsValue t) : ∃ c u, t = c :: u ∧ Opens c := by
  have hword : ∀ c : Char, c = 'n' ∨ c = 't' ∨ c = 'f' ∨ c = '"' ∨ c = '[' ∨ c = '{' ∨ c = '-' →
      Opens c := by
    rintro c (rfl | rfl | rfl | rfl | rfl | rfl | rfl)
    all_goals exact ⟨rfl, by decide, by decide, by decide⟩
  cases h with
  | null => exact ⟨_, _, rfl, hword _ (by decide)⟩
  | @flag b _ hb => cases b <;> exact ⟨_, _, hb, hword _ (by decide)⟩
  | number hx =>
    obtain ⟨c, u, rfl, rfl | hc⟩ := hx.head
    · exact ⟨_, _, rfl, hword _ (by decide)⟩
    · exact ⟨_, _, rfl, opens_of_isDigit hc⟩
  | literal hl => obtain ⟨ps, u, -, rfl⟩ := hl; exact ⟨_, _, rfl, hword _ (by decide)⟩
  | list hl _ => cases hl <;> exact ⟨_, _, rfl, hword _ (by decide)⟩
  | object ho _ _ => cases ho <;> exact ⟨_, _, rfl, hword _ (by decide)⟩

/-- Blanks before a value end where it begins. -/
theorem skipBlanks_value {b t : List Char} (hb : Blanks b) (ht : IsValue t) (s : List Char) :
    skipBlanks (b ++ (t ++ s)) = t ++ s := by
  obtain ⟨c, u, rfl, hc, -⟩ := ht.head
  rw [skipBlanks_append hb, List.cons_append, skipBlanks_cons hc]

/-! ## What may follow -/

theorem ends_of_blanks {b s : List Char} (hb : Blanks b) (hs : Numeral.Ends s) :
    Numeral.Ends (b ++ s) := by
  cases b with
  | nil => exact hs
  | cons c b =>
    intro d hd
    cases hd
    rcases hb c (List.mem_cons_self ..) with rfl | rfl | rfl | rfl <;> decide

theorem ends_nil : Numeral.Ends [] := fun c hc => by cases hc

theorem ends_of_blanks_self {b : List Char} (hb : Blanks b) : Numeral.Ends b := by
  simpa using ends_of_blanks hb ends_nil

theorem ends_cons {c : Char} (h : c = ',' ∨ c = ']' ∨ c = '}') (s : List Char) :
    Numeral.Ends (c :: s) := by
  intro d hd
  cases hd
  rcases h with rfl | rfl | rfl <;> decide

theorem Continued.ends {α : Type} {close : Char} {P : α → List Char → Prop} {xs : List α}
    {t : List Char} (h : Continued close P xs t) (hc : close = ']' ∨ close = '}')
    (s : List Char) : Numeral.Ends (t ++ s) := by
  cases h with
  | nil hb => rw [List.append_assoc]; exact ends_of_blanks hb (ends_cons (.inr hc) _)
  | cons hb => rw [List.append_assoc]; exact ends_of_blanks hb (ends_cons (.inl rfl) _)

/-! ## Scalars and names -/

theorem afterColon_eq_some_iff {s rest : List Char} :
    afterColon s = some rest ↔ ∃ b, Blanks b ∧ s = b ++ ':' :: rest := by
  have h : afterColon s = some rest ↔ skipBlanks s = ':' :: rest := by
    unfold afterColon
    split <;> simp_all
  rw [h, skipBlanks_eq_cons_iff]
  exact and_iff_right rfl

/-- What is passed over as a name is a literal and a colon. -/
theorem exists_name_of_afterName {s rest : List Char} (h : afterName s = some rest) :
    ∃ key b, IsLiteral key ∧ Blanks b ∧ s = key ++ (b ++ ':' :: rest) := by
  unfold afterName at h
  split at h
  · split at h
    · rename_i hp
      obtain ⟨key, hk, hs⟩ := exists_isLiteral_of_pieces hp
      obtain ⟨b, hb, rfl⟩ := afterColon_eq_some_iff.1 h
      exact ⟨key, b, hk, hb, hs⟩
    · cases h
  · cases h

theorem afterName_append {key b : List Char} (hk : IsLiteral key) (hb : Blanks b)
    (rest : List Char) : afterName (key ++ (b ++ ':' :: rest)) = some rest := by
  obtain ⟨u, ps, rfl, hp⟩ := hk.pieces
  rw [List.cons_append, afterName, hp]
  exact afterColon_eq_some_iff.2 ⟨b, hb, rfl⟩

theorem afterName_skipBlanks {b key b' : List Char} (hb : Blanks b) (hk : IsLiteral key)
    (hb' : Blanks b') (rest : List Char) :
    afterName (skipBlanks (b ++ (key ++ (b' ++ ':' :: rest)))) = some rest := by
  rw [skipBlanks_value hb (.literal hk), afterName_append hk hb']

theorem exists_value_of_afterScalar {s rest : List Char} (h : afterScalar s = some rest) :
    ∃ t, IsValue t ∧ s = t ++ rest := by
  unfold afterScalar at h
  split at h
  · obtain ⟨⟨ps, r⟩, hp, rfl⟩ := Option.map_eq_some_iff.1 h
    obtain ⟨t, ht, hs⟩ := exists_isLiteral_of_pieces hp
    exact ⟨t, .literal ht, hs⟩
  · exact ⟨_, .null, by rw [afterWord_eq_some_iff.1 h]; rfl⟩
  · exact ⟨_, .flag (b := true) rfl, by rw [afterWord_eq_some_iff.1 h]; rfl⟩
  · exact ⟨_, .flag (b := false) rfl, by rw [afterWord_eq_some_iff.1 h]; rfl⟩
  · obtain ⟨⟨x, r⟩, hr, rfl⟩ := Option.map_eq_some_iff.1 h
    obtain ⟨t, ht, hs⟩ := Numeral.exists_written_of_read hr
    exact ⟨t, .number ht, hs⟩

/-- Where a number is written, what follows it is what reading it leaves. -/
theorem afterScalar_of_written {x : Numeral} {t : List Char} (h : x.Written t)
    (rest : List Char) : afterScalar (t ++ rest) = (Numeral.read (t ++ rest)).map (·.2) := by
  obtain ⟨c, u, rfl, hc⟩ := h.head
  have hne : ∀ d, d = '"' ∨ d = 'n' ∨ d = 't' ∨ d = 'f' → ∀ s, c :: u ++ rest = d :: s → False := by
    rintro d hd s ⟨⟩
    rcases hc with rfl | hc
    · revert hd; decide
    · rcases hd with rfl | rfl | rfl | rfl <;> cases hc
  exact afterScalar.eq_5 _ (hne _ (by decide)) (hne _ (by decide)) (hne _ (by decide))
    (hne _ (by decide))

theorem Numeral.Written.not_bracket {x : Numeral} {t : List Char} (h : x.Written t)
    (rest r : List Char) : t ++ rest ≠ '[' :: r ∧ t ++ rest ≠ '{' :: r := by
  obtain ⟨c, u, rfl, hc⟩ := h.head
  constructor
  · rintro ⟨⟩; rcases hc with hc | hc <;> cases hc
  · rintro ⟨⟩; rcases hc with hc | hc <;> cases hc

/-! ## Steps -/

section Steps

variable {outer : List Bracket} {s t u rest : List Char}

theorem skipIn_list_nil (hs : skipBlanks s = '[' :: t) (ht : skipBlanks t = ']' :: rest) :
    skipIn outer s = skipOut outer rest := by
  rw [skipIn]
  split
  · rename_i h
    cases hs.symm.trans h
    split
    · rename_i h; cases ht.symm.trans h; rfl
    · rename_i h; exact absurd ht (h _)
  · rename_i h; cases hs.symm.trans h
  · rename_i h _; exact absurd hs (h _)

theorem skipIn_list_cons (hs : skipBlanks s = '[' :: t) (ht : ∀ r, skipBlanks t ≠ ']' :: r) :
    skipIn outer s = skipIn (.list :: outer) t := by
  rw [skipIn]
  split
  · rename_i h
    cases hs.symm.trans h
    split
    · rename_i h; exact absurd h (ht _)
    · rfl
  · rename_i h; cases hs.symm.trans h
  · rename_i h _; exact absurd hs (h _)

theorem skipIn_object_nil (hs : skipBlanks s = '{' :: t) (ht : skipBlanks t = '}' :: rest) :
    skipIn outer s = skipOut outer rest := by
  rw [skipIn]
  split
  · rename_i h; cases hs.symm.trans h
  · rename_i h
    cases hs.symm.trans h
    split
    · rename_i h; cases ht.symm.trans h; rfl
    · rename_i h; exact absurd ht (h _)
  · rename_i h; exact absurd hs (h _)

theorem skipIn_object_cons (hs : skipBlanks s = '{' :: t)
    (ht : afterName (skipBlanks t) = some rest) :
    skipIn outer s = skipIn (.record :: outer) rest := by
  rw [skipIn]
  split
  · rename_i h; cases hs.symm.trans h
  · rename_i h
    cases hs.symm.trans h
    split
    · rename_i h; rw [h] at ht; cases ht
    · split
      · rename_i h; cases ht.symm.trans h; rfl
      · rename_i h; cases ht.symm.trans h
  · rename_i h; exact absurd hs (h _)

theorem skipIn_scalar (hs : skipBlanks s = t) (hl : ∀ r, t ≠ '[' :: r)
    (ho : ∀ r, t ≠ '{' :: r) : skipIn outer s = (afterScalar t).bind (skipOut outer) := by
  rw [skipIn]
  split
  · rename_i h; exact absurd (hs.symm.trans h) (hl _)
  · rename_i h; exact absurd (hs.symm.trans h) (ho _)
  · rw [hs]
    split
    · rename_i h; rw [h, Option.bind_some]
    · rename_i h; rw [h, Option.bind_none]

theorem skipOut_list_comma (hs : skipBlanks s = ',' :: t) :
    skipOut (.list :: outer) s = skipIn (.list :: outer) t := by
  rw [skipOut, hs]
  simp only

theorem skipOut_list_close (hs : skipBlanks s = ']' :: t) :
    skipOut (.list :: outer) s = skipOut outer t := by
  rw [skipOut, hs]
  simp only

theorem skipOut_record_comma (hs : skipBlanks s = ',' :: t)
    (ht : afterName (skipBlanks t) = some rest) :
    skipOut (.record :: outer) s = skipIn (.record :: outer) rest := by
  rw [skipOut, hs]
  simp only
  split
  · rename_i h; cases ht.symm.trans h; rfl
  · rename_i h; cases ht.symm.trans h

theorem skipOut_record_close (hs : skipBlanks s = '}' :: t) :
    skipOut (.record :: outer) s = skipOut outer t := by
  rw [skipOut, hs]
  simp only

end Steps

/-! ## Every value is passed over -/

/-- The text is passed over, blanks before it included, whatever brackets are open around it. -/
def Skipped (t : List Char) : Prop :=
  ∀ (outer : List Bracket) (b rest : List Char), Blanks b → Numeral.Ends rest →
    skipIn outer (b ++ (t ++ rest)) = skipOut outer rest

theorem skipIn_scalar_append {b t rest : List Char} (hb : Blanks b) (ht : IsValue t)
    (hl : ∀ u, t ≠ '[' :: u) (ho : ∀ u, t ≠ '{' :: u) (h : afterScalar (t ++ rest) = some rest)
    (outer : List Bracket) : skipIn outer (b ++ (t ++ rest)) = skipOut outer rest := by
  have hs := skipBlanks_value hb ht rest
  obtain ⟨c, u, rfl, -⟩ := ht.head
  rw [skipIn_scalar hs, h, Option.bind_some]
  · rintro r ⟨⟩; exact hl _ rfl
  · rintro r ⟨⟩; exact ho _ rfl

/-- The items that are left of a list are passed over with its bracket. -/
theorem skipOut_list {vs : List (List Char)} {t : List Char} (h : Continued ']' Eq vs t)
    (hv : ∀ v ∈ vs, Skipped v) (outer : List Bracket) (rest : List Char) :
    skipOut (.list :: outer) (t ++ rest) = skipOut outer rest := by
  induction h with
  | nil hb =>
    rw [List.append_assoc]
    exact skipOut_list_close (hb.skip rfl _)
  | @cons b b' _ u v vs hb hb' hx hu ih =>
    subst hx
    obtain ⟨hv, hvs⟩ := List.forall_mem_cons.1 hv
    simp only [List.append_assoc, List.cons_append]
    calc skipOut (.list :: outer) (b ++ ',' :: (b' ++ (v ++ (u ++ rest))))
        = skipIn (.list :: outer) (b' ++ (v ++ (u ++ rest))) :=
          skipOut_list_comma (hb.skip rfl _)
      _ = skipOut (.list :: outer) (u ++ rest) := hv _ _ _ hb' (hu.ends (.inl rfl) rest)
      _ = skipOut outer rest := ih hvs

/-- The members that are left of an object are passed over with its bracket. -/
theorem skipOut_record {ms : List (List Char × List Char)} {t : List Char}
    (h : Continued '}' Member ms t) (hk : ∀ m ∈ ms, IsLiteral m.1) (hv : ∀ m ∈ ms, Skipped m.2)
    (outer : List Bracket) (rest : List Char) :
    skipOut (.record :: outer) (t ++ rest) = skipOut outer rest := by
  induction h with
  | nil hb =>
    rw [List.append_assoc]
    exact skipOut_record_close (hb.skip rfl _)
  | @cons b b' v u m ms hb hb' hx hu ih =>
    obtain ⟨a, a', ha, ha', rfl⟩ := hx
    obtain ⟨hk, hks⟩ := List.forall_mem_cons.1 hk
    obtain ⟨hv, hvs⟩ := List.forall_mem_cons.1 hv
    simp only [List.append_assoc, List.cons_append]
    calc skipOut (.record :: outer)
          (b ++ ',' :: (b' ++ (m.1 ++ (a ++ ':' :: (a' ++ (m.2 ++ (u ++ rest)))))))
        = skipIn (.record :: outer) (a' ++ (m.2 ++ (u ++ rest))) :=
          skipOut_record_comma (hb.skip rfl _) (afterName_skipBlanks hb' hk ha _)
      _ = skipOut (.record :: outer) (u ++ rest) := hv _ _ _ ha' (hu.ends (.inr rfl) rest)
      _ = skipOut outer rest := ih hks hvs

theorem skipIn_list_append {vs : List (List Char)} {b t : List Char} (hb : Blanks b)
    (h : Enclosed '[' ']' Eq vs t) (hvalue : ∀ v ∈ vs, IsValue v) (hv : ∀ v ∈ vs, Skipped v)
    (outer : List Bracket) (rest : List Char) :
    skipIn outer (b ++ (t ++ rest)) = skipOut outer rest := by
  cases h with
  | nil hb' =>
    simp only [List.cons_append, List.append_assoc]
    exact skipIn_list_nil (hb.skip rfl _) (hb'.skip rfl _)
  | @cons b' _ u v vs hb' hx hu =>
    subst hx
    obtain ⟨hvalue, -⟩ := List.forall_mem_cons.1 hvalue
    obtain ⟨hv, hvs⟩ := List.forall_mem_cons.1 hv
    simp only [List.cons_append, List.append_assoc]
    have hopen : ∀ r, skipBlanks (b' ++ (v ++ (u ++ rest))) ≠ ']' :: r := by
      obtain ⟨c, w, rfl, -, -, hc, -⟩ := hvalue.head
      rw [skipBlanks_value hb' hvalue]
      rintro r ⟨⟩
      exact hc rfl
    calc skipIn outer (b ++ '[' :: (b' ++ (v ++ (u ++ rest))))
        = skipIn (.list :: outer) (b' ++ (v ++ (u ++ rest))) :=
          skipIn_list_cons (hb.skip rfl _) hopen
      _ = skipOut (.list :: outer) (u ++ rest) := hv _ _ _ hb' (hu.ends (.inl rfl) rest)
      _ = skipOut outer rest := skipOut_list hu hvs outer rest

theorem skipIn_object_append {ms : List (List Char × List Char)} {b t : List Char}
    (hb : Blanks b) (h : Enclosed '{' '}' Member ms t) (hk : ∀ m ∈ ms, IsLiteral m.1)
    (hv : ∀ m ∈ ms, Skipped m.2) (outer : List Bracket) (rest : List Char) :
    skipIn outer (b ++ (t ++ rest)) = skipOut outer rest := by
  cases h with
  | nil hb' =>
    simp only [List.cons_append, List.append_assoc]
    exact skipIn_object_nil (hb.skip rfl _) (hb'.skip rfl _)
  | @cons b' _ u m ms hb' hx hu =>
    obtain ⟨a, a', ha, ha', rfl⟩ := hx
    obtain ⟨hk, hks⟩ := List.forall_mem_cons.1 hk
    obtain ⟨hv, hvs⟩ := List.forall_mem_cons.1 hv
    simp only [List.cons_append, List.append_assoc]
    calc skipIn outer (b ++ '{' :: (b' ++ (m.1 ++ (a ++ ':' :: (a' ++ (m.2 ++ (u ++ rest)))))))
        = skipIn (.record :: outer) (a' ++ (m.2 ++ (u ++ rest))) :=
          skipIn_object_cons (hb.skip rfl _) (afterName_skipBlanks hb' hk ha _)
      _ = skipOut (.record :: outer) (u ++ rest) := hv _ _ _ ha' (hu.ends (.inr rfl) rest)
      _ = skipOut outer rest := skipOut_record hu hks hvs outer rest

/-- A number is told from what follows it; any other value ends by itself. -/
theorem skipIn_append {t : List Char} (h : IsValue t) {b rest : List Char} (hb : Blanks b)
    (hr : ∀ x : Numeral, x.Written t → Numeral.Ends rest) (outer : List Bracket) :
    skipIn outer (b ++ (t ++ rest)) = skipOut outer rest := by
  induction h generalizing outer b rest with
  | null => exact skipIn_scalar_append hb .null (by simp) (by simp) rfl outer
  | @flag f t hf =>
    subst hf
    cases f <;> exact skipIn_scalar_append hb (.flag rfl) (by simp) (by simp) rfl outer
  | @number x t hx =>
    have hs : afterScalar (t ++ rest) = some rest := by
      rw [afterScalar_of_written hx, Numeral.read_append hx (hr x hx)]
      rfl
    have hne := fun r => hx.not_bracket [] r
    rw [List.append_nil] at hne
    exact skipIn_scalar_append hb (.number hx) (fun r => (hne r).1) (fun r => (hne r).2) hs outer
  | literal hl =>
    obtain ⟨u, ps, rfl, hp⟩ := hl.pieces
    refine skipIn_scalar_append hb (.literal hl) (by simp) (by simp) ?_ outer
    rw [List.cons_append, afterScalar, hp]
    rfl
  | list hl hvs ih =>
    exact skipIn_list_append hb hl hvs (fun v hv o b r hb hr => ih v hv hb (fun _ _ => hr) o)
      outer rest
  | object ho hk _ ih =>
    exact skipIn_object_append hb ho hk (fun m hm o b r hb hr => ih m hm hb (fun _ _ => hr) o)
      outer rest

/-! ## Only values are passed over -/

/-- What the open brackets demand of the text after the value being read: the items or members that
are left, and each closing bracket in its turn. -/
def Closes : List Bracket → List Char → Prop
  | [], t => t = []
  | .list :: outer, t => ∃ vs u v, Continued ']' Eq vs u ∧ (∀ x ∈ vs, IsValue x) ∧
      Closes outer v ∧ t = u ++ v
  | .record :: outer, t => ∃ ms u v, Continued '}' Member ms u ∧ (∀ m ∈ ms, IsLiteral m.1) ∧
      (∀ m ∈ ms, IsValue m.2) ∧ Closes outer v ∧ t = u ++ v

/-- What is passed over from the start of a value is a value and what the open brackets demand. -/
def TakesValue (outer : List Bracket) (s : List Char) : Prop :=
  ∀ rest, skipIn outer s = some rest → ∃ b t u, Blanks b ∧ IsValue t ∧ Closes outer u ∧
    s = b ++ (t ++ (u ++ rest))

/-- What is passed over from the end of a value is what the open brackets demand. -/
def TakesRest (outer : List Bracket) (s : List Char) : Prop :=
  ∀ rest, skipOut outer s = some rest → ∃ u, Closes outer u ∧ s = u ++ rest

theorem takesValue (outer : List Bracket) (s : List Char) : TakesValue outer s := by
  -- along the calls of the reader: first its steps at the start of a value, then those at the end
  apply skipIn.induct TakesValue TakesRest
  case case1 =>
    -- an empty list
    intro outer s t hs r ht ih rest h
    rw [skipIn_list_nil hs ht] at h
    obtain ⟨-, b, hb, rfl⟩ := skipBlanks_eq_cons_iff.1 hs
    obtain ⟨-, b', hb', rfl⟩ := skipBlanks_eq_cons_iff.1 ht
    obtain ⟨u, hu, rfl⟩ := ih rest h
    exact ⟨b, _, u, hb, .list (.nil hb') (by simp), hu, by simp⟩
  case case2 =>
    -- a list with items: the first is read next, and the bracket demands the others
    intro outer s t hs ht ih rest h
    rw [skipIn_list_cons hs ht] at h
    obtain ⟨-, b, hb, rfl⟩ := skipBlanks_eq_cons_iff.1 hs
    obtain ⟨b', v, u, hb', hv, ⟨vs, u, w, hu, hvs, hw, rfl⟩, rfl⟩ := ih rest h
    exact ⟨b, _, w, hb, .list (.cons hb' rfl hu) (List.forall_mem_cons.2 ⟨hv, hvs⟩), hw, by simp⟩
  case case3 =>
    -- an empty object
    intro outer s t hs r ht ih rest h
    rw [skipIn_object_nil hs ht] at h
    obtain ⟨-, b, hb, rfl⟩ := skipBlanks_eq_cons_iff.1 hs
    obtain ⟨-, b', hb', rfl⟩ := skipBlanks_eq_cons_iff.1 ht
    obtain ⟨u, hu, rfl⟩ := ih rest h
    exact ⟨b, _, u, hb, .object (.nil hb') (by simp) (by simp), hu, by simp⟩
  case case4 =>
    -- an object with members, likewise
    intro outer s t hs r ht hn ih rest h
    rw [skipIn_object_cons hs hn] at h
    obtain ⟨-, b, hb, rfl⟩ := skipBlanks_eq_cons_iff.1 hs
    obtain ⟨b', hb', ht⟩ := exists_blanks t
    obtain ⟨key, a, hk, ha, hn⟩ := exists_name_of_afterName hn
    obtain ⟨a', v, u, ha', hv, ⟨ms, u, w, hu, hks, hvs, hw, rfl⟩, rfl⟩ := ih rest h
    have hobject : Enclosed '{' '}' Member ((key, v) :: ms) _ :=
      .cons hb' ⟨a, a', ha, ha', rfl⟩ hu
    refine ⟨b, _, w, hb, .object hobject (List.forall_mem_cons.2 ⟨hk, hks⟩)
      (List.forall_mem_cons.2 ⟨hv, hvs⟩), hw, ?_⟩
    rw [ht, hn]
    simp
  case case6 =>
    -- a word, a literal or a number
    intro outer s r hl ho hr ih rest h
    rw [skipIn_scalar rfl hl ho, hr, Option.bind_some] at h
    obtain ⟨b, hb, hs⟩ := exists_blanks s
    obtain ⟨t, ht, hr⟩ := exists_value_of_afterScalar hr
    obtain ⟨u, hu, rfl⟩ := ih rest h
    exact ⟨b, t, u, hb, ht, hu, by rw [← hr]; exact hs⟩
  case case8 =>
    -- no bracket is open
    intro s rest h
    rw [skipOut] at h
    cases h
    exact ⟨[], rfl, rfl⟩
  case case9 =>
    -- a comma in a list
    intro s outer t hs ih rest h
    rw [skipOut_list_comma hs] at h
    obtain ⟨-, b, hb, rfl⟩ := skipBlanks_eq_cons_iff.1 hs
    obtain ⟨b', v, u, hb', hv, ⟨vs, u, w, hu, hvs, hw, rfl⟩, rfl⟩ := ih rest h
    exact ⟨_, ⟨v :: vs, _, w, .cons hb hb' rfl hu, List.forall_mem_cons.2 ⟨hv, hvs⟩, hw, rfl⟩,
      by simp⟩
  case case10 =>
    -- the end of a list
    intro s outer t hs ih rest h
    rw [skipOut_list_close hs] at h
    obtain ⟨-, b, hb, rfl⟩ := skipBlanks_eq_cons_iff.1 hs
    obtain ⟨u, hu, rfl⟩ := ih rest h
    exact ⟨_, ⟨[], _, u, .nil hb, by simp, hu, rfl⟩, by simp⟩
  case case12 =>
    -- a comma in an object
    intro s outer t hs r hn ih rest h
    rw [skipOut_record_comma hs hn] at h
    obtain ⟨-, b, hb, rfl⟩ := skipBlanks_eq_cons_iff.1 hs
    obtain ⟨b', hb', ht⟩ := exists_blanks t
    obtain ⟨key, a, hk, ha, hn⟩ := exists_name_of_afterName hn
    obtain ⟨a', v, u, ha', hv, ⟨ms, u, w, hu, hks, hvs, hw, rfl⟩, rfl⟩ := ih rest h
    refine ⟨_, ⟨(key, v) :: ms, _, w, .cons hb hb' ⟨a, a', ha, ha', rfl⟩ hu,
      List.forall_mem_cons.2 ⟨hk, hks⟩, List.forall_mem_cons.2 ⟨hv, hvs⟩, hw, rfl⟩, ?_⟩
    rw [ht, hn]
    simp
  case case14 =>
    -- the end of an object
    intro s outer t hs ih rest h
    rw [skipOut_record_close hs] at h
    obtain ⟨-, b, hb, rfl⟩ := skipBlanks_eq_cons_iff.1 hs
    obtain ⟨u, hu, rfl⟩ := ih rest h
    exact ⟨_, ⟨[], _, u, .nil hb, by simp, by simp, hu, rfl⟩, by simp⟩
  -- elsewhere nothing is passed over
  case case5 | case7 =>
    intros
    intro rest h
    rw [skipIn] at h
    grind
  case case11 | case13 | case15 =>
    intros
    intro rest h
    rw [skipOut] at h
    grind

/-- What is passed over is a value, with blanks before it. -/
theorem exists_value_of_skipValue {s rest : List Char} (h : skipValue s = some rest) :
    ∃ b t, Blanks b ∧ IsValue t ∧ s = b ++ (t ++ rest) := by
  obtain ⟨b, t, u, hb, ht, rfl, rfl⟩ := takesValue [] s rest h
  exact ⟨b, t, hb, ht, rfl⟩

/-- A value is passed over to its end. -/
theorem skipValue_append {b t rest : List Char} (hb : Blanks b) (ht : IsValue t)
    (hr : Numeral.Ends rest) : skipValue (b ++ (t ++ rest)) = some rest := by
  rw [skipValue, skipIn_append ht hb (fun _ _ => hr), skipOut]

end Roster.Json
