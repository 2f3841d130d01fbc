/-
Readers against the grammar. A reader accepts a kind of phrase when what it takes off a text is,
after blanks, a phrase of that kind, and when it takes every such phrase off (`Reader.Accepts`); a
text is then decoded exactly when it is such a phrase with blanks around it (`Accepts.decode_iff`).
Scalars and lists of what is accepted are accepted.
-/
import Mathlib.Data.List.Forall2
import Roster.Json.Reader
import Roster.Proofs.Json.Skip

namespace Roster.Json

variable {α β : Type}

/-! ## What stands at the head of a text -/

/-- How a scalar is written, and the bracket of a list or record. -/
inductive Shape.Written : Shape → List Char → Prop where
  | null : Written .null ['n', 'u', 'l', 'l']
  | boolean {b : Bool} {t : List Char} : Flag b t → Written (.boolean b) t
  | number {x : Numeral} {n : Number} {t : List Char} : x.Written t → x.value? = some n →
      Written (.number n) t
  | string {s : String} {t : List Char} : Literal s t → Written (.string s) t
  | list : Written .list ['[']
  | record : Written .record ['{']

theorem exists_written_of_readShape {s rest : List Char} {v : Shape}
    (h : readShape s = some (v, rest)) :
    ∃ b t, Blanks b ∧ v.Written t ∧ s = b ++ (t ++ rest) := by
  obtain ⟨b, hb, hs⟩ := exists_blanks s
  suffices hw : ∃ t, v.Written t ∧ skipBlanks s = t ++ rest by
    obtain ⟨t, ht, hr⟩ := hw
    exact ⟨b, t, hb, ht, hr ▸ hs⟩
  unfold readShape at h
  split at h
  · rename_i hs; cases h; exact ⟨_, .list, hs⟩
  · rename_i hs; cases h; exact ⟨_, .record, hs⟩
  · rename_i hs
    obtain ⟨p, hp, hv⟩ := Option.map_eq_some_iff.1 h
    cases hv
    obtain ⟨t, ht, hr⟩ := exists_literal_of_readString hp
    exact ⟨t, .string ht, hs.trans hr⟩
  · rename_i hs
    obtain ⟨p, hp, hv⟩ := Option.map_eq_some_iff.1 h
    cases hv
    exact ⟨_, .null, by rw [hs, afterWord_eq_some_iff.1 hp]; rfl⟩
  · rename_i hs
    obtain ⟨p, hp, hv⟩ := Option.map_eq_some_iff.1 h
    cases hv
    exact ⟨_, .boolean rfl, by rw [hs, afterWord_eq_some_iff.1 hp]; rfl⟩
  · rename_i hs
    obtain ⟨p, hp, hv⟩ := Option.map_eq_some_iff.1 h
    cases hv
    exact ⟨_, .boolean rfl, by rw [hs, afterWord_eq_some_iff.1 hp]; rfl⟩
  · split at h
    · cases h
    · rename_i hr
      obtain ⟨n, hn, hv⟩ := Option.map_eq_some_iff.1 h
      cases hv
      obtain ⟨t, ht, hr⟩ := Numeral.exists_written_of_read hr
      exact ⟨t, .number ht hn, hr⟩

theorem readShape_blanks {b : List Char} (hb : Blanks b) (s : List Char) :
    readShape (b ++ s) = readShape s := by
  unfold readShape
  rw [skipBlanks_append hb]

/-- A number stands at the head of a text when it can be read there and has a value. -/
theorem readShape_eq_number_iff {s rest : List Char} {n : Number} :
    readShape s = some (.number n, rest) ↔
      ∃ x, Numeral.read (skipBlanks s) = some (x, rest) ∧ x.value? = some n := by
  constructor
  · intro h
    unfold readShape at h
    split at h
    case h_7 =>
      split at h
      · cases h
      · rename_i x r hr
        obtain ⟨m, hm, hv⟩ := Option.map_eq_some_iff.1 h
        cases hv
        exact ⟨x, hr, hm⟩
    case h_1 | h_2 => cases h
    all_goals
      obtain ⟨p, -, hv⟩ := Option.map_eq_some_iff.1 h
      cases hv
  · rintro ⟨x, hr, hx⟩
    obtain ⟨t, ht, hs⟩ := Numeral.exists_written_of_read hr
    obtain ⟨c, u, rfl, hc⟩ := ht.head
    unfold readShape
    split
    case h_7 => rw [hr]; simp only [hx, Option.map_some]
    -- neither the minus sign nor a digit opens anything else
    all_goals
      rename_i heq
      cases heq.symm.trans hs
      exact absurd hc (by decide)

/-- A number is told from what follows it; anything else ends by itself. -/
theorem readShape_append {b t rest : List Char} {v : Shape} (hb : Blanks b) (hv : v.Written t)
    (hr : ∀ n, v = .number n → Numeral.Ends rest) :
    readShape (b ++ (t ++ rest)) = some (v, rest) := by
  rw [readShape_blanks hb]
  cases hv with
  | null => rfl
  | @boolean f t hf => subst hf; cases f <;> rfl
  | @number x n t hx hn =>
    have hread := Numeral.read_append hx (hr n rfl)
    have hs : skipBlanks (t ++ rest) = t ++ rest := skipBlanks_value blanks_nil (.number hx) rest
    exact readShape_eq_number_iff.2 ⟨x, hs.symm ▸ hread, hn⟩
  | string hl =>
    obtain ⟨u, rfl, hread⟩ := hl.read
    show (readString (u ++ rest)).map _ = _
    rw [hread]
    rfl
  | list => rfl
  | record => rfl

/-! ## Accepted phrases -/

theorem padded_congr {P Q : List Char → Prop} (h : ∀ u, P u ↔ Q u) {t : List Char} :
    Padded P t ↔ Padded Q t := by
  simp only [Padded, h]

theorem padded_exists_iff {P : α → List Char → Prop} {p : α → Prop} {t : List Char} :
    Padded (fun u => ∃ a, P a u ∧ p a) t ↔ ∃ a, Padded (P a) t ∧ p a := by
  constructor
  · rintro ⟨b, u, b', hb, ⟨a, hu, ha⟩, hb', ht⟩
    exact ⟨a, ⟨b, u, b', hb, hu, hb', ht⟩, ha⟩
  · rintro ⟨a, ⟨b, u, b', hb, hu, hb', ht⟩, ha⟩
    exact ⟨b, u, b', hb, ⟨a, hu, ha⟩, hb', ht⟩

/-- A reader takes the phrases of one kind, and nothing else. -/
structure Reader.Accepts (r : Reader α) (P : α → List Char → Prop) : Prop where
  isValue : ∀ {a : α} {t : List Char}, P a t → IsValue t
  sound : ∀ {s rest : List Char} {a : α}, r.run s = .ok (a, rest) →
    ∃ b t, Blanks b ∧ P a t ∧ s = b ++ (t ++ rest)
  complete : ∀ {b t rest : List Char} {a : α}, Blanks b → P a t → Numeral.Ends rest →
    r.run (b ++ (t ++ rest)) = .ok (a, rest)

namespace Reader.Accepts

variable {r : Reader α} {P Q : α → List Char → Prop}

theorem congr (h : r.Accepts P) (hPQ : ∀ a t, P a t ↔ Q a t) : r.Accepts Q where
  isValue hq := h.isValue ((hPQ _ _).2 hq)
  sound hr := by
    obtain ⟨b, t, hb, hp, hs⟩ := h.sound hr
    exact ⟨b, t, hb, (hPQ _ _).1 hp, hs⟩
  complete hb hq hr := h.complete hb ((hPQ _ _).2 hq) hr

/-- A text holds a value when it is one of its phrases with blanks around it. -/
theorem decode_iff (h : r.Accepts P) (text : String) (a : α) :
    r.decode text = .ok a ↔ Padded (P a) text.toList := by
  unfold Reader.decode
  constructor
  · intro hd
    split at hd
    · cases hd
    · rename_i a' rest hr
      split at hd
      · rename_i hrest
        cases hd
        obtain ⟨b, t, hb, ht, hs⟩ := h.sound hr
        exact ⟨b, t, rest, hb, ht, skipBlanks_eq_nil_iff.1 hrest, hs⟩
      · cases hd
  · rintro ⟨b, t, b', hb, ht, hb', hs⟩
    rw [hs, h.complete hb ht (ends_of_blanks_self hb')]
    simp only [skipBlanks_eq_nil_iff.2 hb', if_true]

end Reader.Accepts

/-! ## Scalars -/

/-- What a scalar stands for, when it is accepted. -/
def Scalar (accept : Shape → Except Mismatch α) (a : α) (t : List Char) : Prop :=
  ∃ v, v.Written t ∧ accept v = .ok a

theorem Shape.Written.isValue {v : Shape} {t : List Char} (h : v.Written t) (hl : v ≠ .list)
    (hr : v ≠ .record) : IsValue t := by
  cases h with
  | null => exact .null
  | boolean hf => exact .flag hf
  | number hx => exact .number hx
  | string hs => exact .literal hs.isLiteral
  | list => exact absurd rfl hl
  | record => exact absurd rfl hr

theorem scalar_accepts {accept : Shape → Except Mismatch α} (hl : ∀ a, accept .list ≠ .ok a)
    (hr : ∀ a, accept .record ≠ .ok a) : (scalar accept).Accepts (Scalar accept) where
  isValue := by
    rintro a t ⟨v, hv, ha⟩
    exact hv.isValue (fun h => hl a (h ▸ ha)) (fun h => hr a (h ▸ ha))
  sound {s rest a} h := by
    simp only [scalar] at h
    split at h
    · cases h
    · rename_i v r hs
      split at h
      · cases h
      · rename_i ha
        cases h
        obtain ⟨b, t, hb, hv, hs⟩ := exists_written_of_readShape hs
        exact ⟨b, t, hb, ⟨v, hv, ha⟩, hs⟩
  complete := by
    rintro b t rest a hb ⟨v, hv, ha⟩ hr
    simp only [scalar, readShape_append hb hv fun _ _ => hr, ha]

/-- A scalar that is refused is told of, whatever follows it. -/
theorem scalar_refuses {accept : Shape → Except Mismatch α} {b t rest : List Char} {v : Shape}
    {m : Mismatch} (hb : Blanks b) (hv : v.Written t) (hr : ∀ n, v = .number n → Numeral.Ends rest)
    (h : accept v = .error m) : (scalar accept).run (b ++ (t ++ rest)) = .error (.mismatch m) := by
  simp only [scalar, readShape_append hb hv hr, h]

theorem null_accepts : null.Accepts fun _ t => t = ['n', 'u', 'l', 'l'] := by
  refine (scalar_accepts (by simp) (by simp)).congr fun _ t => ⟨?_, ?_⟩
  · rintro ⟨v, hv, ha⟩
    cases hv with
    | null => rfl
    | _ => cases ha
  · rintro rfl
    exact ⟨_, .null, rfl⟩

theorem boolean_accepts : boolean.Accepts Flag := by
  refine (scalar_accepts (by simp) (by simp)).congr fun b t => ⟨?_, ?_⟩
  · rintro ⟨v, hv, ha⟩
    cases hv with
    | boolean hf => cases ha; exact hf
    | _ => cases ha
  · exact fun hf => ⟨_, .boolean hf, rfl⟩

theorem index_accepts : index.Accepts Index := by
  refine (scalar_accepts (by simp) (by simp)).congr fun i t => ?_
  rw [Numeral.index_iff]
  constructor
  · rintro ⟨v, hv, ha⟩
    cases hv with
    | @number x n t hx hn =>
      refine ⟨x, hx, ?_⟩
      cases n with
      | integer k =>
        simp only at ha
        split at ha
        · cases ha
        · rename_i hk
          cases ha
          rw [hn, Int.toNat_of_nonneg (Int.not_lt.1 hk)]
      | float => cases ha
    | _ => cases ha
  · rintro ⟨x, hx, hn⟩
    exact ⟨_, .number hx hn, by simp⟩

/-! ## Items -/

/-- Items in brackets are also items of another kind, when each of them is one. -/
theorem Continued.exists_map {close : Char} {P : α → List Char → Prop} {Q : β → List Char → Prop}
    {R : β → α → Prop} {xs : List α} {t : List Char} (ht : Continued close P xs t)
    (h : ∀ x ∈ xs, ∀ u, P x u → ∃ y, Q y u ∧ R y x) :
    ∃ ys, Continued close Q ys t ∧ List.Forall₂ R ys xs := by
  induction ht with
  | nil hb => exact ⟨[], .nil hb, .nil⟩
  | cons hb hb' hx _ ih =>
    obtain ⟨h, hs⟩ := List.forall_mem_cons.1 h
    obtain ⟨y, hy, hr⟩ := h _ hx
    obtain ⟨ys, hys, hrs⟩ := ih hs
    exact ⟨y :: ys, .cons hb hb' hy hys, .cons hr hrs⟩

theorem Enclosed.exists_map {opening close : Char} {P : α → List Char → Prop}
    {Q : β → List Char → Prop} {R : β → α → Prop} {xs : List α} {t : List Char}
    (ht : Enclosed opening close P xs t) (h : ∀ x ∈ xs, ∀ u, P x u → ∃ y, Q y u ∧ R y x) :
    ∃ ys, Enclosed opening close Q ys t ∧ List.Forall₂ R ys xs := by
  cases ht with
  | nil hb => exact ⟨[], .nil hb, .nil⟩
  | cons hb hx hxs =>
    obtain ⟨h, hs⟩ := List.forall_mem_cons.1 h
    obtain ⟨y, hy, hr⟩ := h _ hx
    obtain ⟨ys, hys, hrs⟩ := hxs.exists_map hs
    exact ⟨y :: ys, .cons hb hy hys, .cons hr hrs⟩

theorem Continued.map {close : Char} {P : α → List Char → Prop} {Q : β → List Char → Prop}
    {R : β → α → Prop} {ys : List β} {xs : List α} {t : List Char} (ht : Continued close Q ys t)
    (hr : List.Forall₂ R ys xs) (h : ∀ y x u, R y x → Q y u → P x u) :
    Continued close P xs t := by
  induction ht generalizing xs with
  | nil hb => cases hr; exact .nil hb
  | cons hb hb' hy _ ih => cases hr with | cons hr hrs => exact .cons hb hb' (h _ _ _ hr hy) (ih hrs)

theorem Enclosed.map {opening close : Char} {P : α → List Char → Prop} {Q : β → List Char → Prop}
    {R : β → α → Prop} {ys : List β} {xs : List α} {t : List Char}
    (ht : Enclosed opening close Q ys t) (hr : List.Forall₂ R ys xs)
    (h : ∀ y x u, R y x → Q y u → P x u) : Enclosed opening close P xs t := by
  cases ht with
  | nil hb => cases hr; exact .nil hb
  | cons hb hy hys => cases hr with | cons hr hrs => exact .cons hb (h _ _ _ hr hy) (hys.map hrs h)

/-- Items with commas between them and no blanks are in brackets once these are added. -/
theorem exists_continued_of_intercalate {close : Char} {P : α → List Char → Prop}
    {write : α → List Char} (hw : ∀ x, P x (write x)) (x : α) (xs : List α) :
    ∃ t, Continued close P xs t ∧
      [','].intercalate ((x :: xs).map write) ++ [close] = write x ++ t := by
  induction xs generalizing x with
  | nil => exact ⟨_, .nil blanks_nil, by simp⟩
  | cons y ys ih =>
    obtain ⟨t, ht, hs⟩ := ih y
    refine ⟨_, .cons blanks_nil blanks_nil (hw y) ht, ?_⟩
    rw [List.map_cons, List.map_cons, List.intercalate_cons_cons, ← List.map_cons]
    simp only [List.append_assoc, hs]
    rfl

theorem enclosed_intercalate {opening close : Char} {P : α → List Char → Prop}
    {write : α → List Char} (hw : ∀ x, P x (write x)) (xs : List α) :
    Enclosed opening close P xs (opening :: ([','].intercalate (xs.map write) ++ [close])) := by
  cases xs with
  | nil => exact .nil blanks_nil
  | cons x xs =>
    obtain ⟨t, ht, hs⟩ := @exists_continued_of_intercalate α close P write hw x xs
    rw [hs]
    exact .cons blanks_nil (hw x) ht

/-- A list of values is a value. -/
theorem isValue_of_enclosed {P : α → List Char → Prop} {xs : List α} {t : List Char}
    (ht : Enclosed '[' ']' P xs t) (h : ∀ x ∈ xs, ∀ u, P x u → IsValue u) : IsValue t := by
  obtain ⟨vs, hvs, hv⟩ := ht.exists_map (Q := Eq) (R := fun v x => IsValue v ∧ P x v)
    fun x hx u hu => ⟨u, rfl, h x hx u hu, hu⟩
  exact .list hvs ((List.forall₂_and_left _ _).1 hv).1

variable {item : Reader α} {P : α → List Char → Prop}

theorem firstItem_eq_none_iff {s rest : List Char} :
    firstItem item s = .ok (none, rest) ↔ skipBlanks s = ']' :: rest := by
  unfold firstItem
  split
  · rename_i hs
    simp [hs]
  · rename_i hs
    have hs : skipBlanks s ≠ ']' :: rest := hs rest
    cases item.run s <;> simp [Except.map, hs]

theorem firstItem_eq_some_iff {s rest : List Char} {a : α} :
    firstItem item s = .ok (some a, rest) ↔
      (∀ r, skipBlanks s ≠ ']' :: r) ∧ item.run s = .ok (a, rest) := by
  unfold firstItem
  split
  · rename_i hs
    simp [hs]
  · rename_i hs
    cases h : item.run s <;> simp_all [Except.map, Prod.ext_iff]

theorem nextItem_eq_none_iff {s rest : List Char} :
    nextItem item s = .ok (none, rest) ↔ skipBlanks s = ']' :: rest := by
  unfold nextItem
  split
  · rename_i hs
    simp [hs]
  · rename_i t hs
    cases item.run t <;> simp [Except.map, hs]
  · rename_i hs _
    simpa using hs rest

theorem nextItem_eq_some_iff {s rest : List Char} {a : α} :
    nextItem item s = .ok (some a, rest) ↔
      ∃ t, skipBlanks s = ',' :: t ∧ item.run t = .ok (a, rest) := by
  unfold nextItem
  split
  · rename_i hs
    simp [hs]
  · rename_i t hs
    cases h : item.run t <;> simp [Except.map, hs, h, Prod.ext_iff]
  · rename_i hs
    simpa using fun t ht => (hs t ht).elim

theorem exists_of_firstItem (hi : item.Accepts P) {s rest : List Char} {a : α}
    (h : firstItem item s = .ok (some a, rest)) :
    ∃ b t, Blanks b ∧ P a t ∧ s = b ++ (t ++ rest) :=
  hi.sound (firstItem_eq_some_iff.1 h).2

theorem exists_of_nextItem (hi : item.Accepts P) {s rest : List Char} {a : α}
    (h : nextItem item s = .ok (some a, rest)) :
    ∃ b b' t, Blanks b ∧ Blanks b' ∧ P a t ∧ s = b ++ ',' :: (b' ++ (t ++ rest)) := by
  obtain ⟨u, hu, hr⟩ := nextItem_eq_some_iff.1 h
  obtain ⟨-, b, hb, rfl⟩ := skipBlanks_eq_cons_iff.1 hu
  obtain ⟨b', t, hb', ht, rfl⟩ := hi.sound hr
  exact ⟨b, b', t, hb, hb', ht, rfl⟩

theorem firstItem_append (hi : item.Accepts P) {b t rest : List Char} {a : α} (hb : Blanks b)
    (ha : P a t) (hr : Numeral.Ends rest) :
    firstItem item (b ++ (t ++ rest)) = .ok (some a, rest) := by
  refine firstItem_eq_some_iff.2 ⟨fun r hs => ?_, hi.complete hb ha hr⟩
  have hv := hi.isValue ha
  obtain ⟨c, w, rfl, -, -, hc, -⟩ := hv.head
  rw [skipBlanks_value hb hv] at hs
  cases hs
  exact hc rfl

theorem nextItem_comma {b s : List Char} (hb : Blanks b) :
    nextItem item (b ++ ',' :: s) = (item.run s).map fun p => (some p.1, p.2) := by
  unfold nextItem
  rw [skipBlanks_append hb]
  rfl

theorem nextItem_append (hi : item.Accepts P) {b b' t rest : List Char} {a : α} (hb : Blanks b)
    (hb' : Blanks b') (ha : P a t) (hr : Numeral.Ends rest) :
    nextItem item (b ++ ',' :: (b' ++ (t ++ rest))) = .ok (some a, rest) := by
  rw [nextItem_comma hb, hi.complete hb' ha hr]
  rfl

theorem moreItems_of_none {s rest : List Char} (h : nextItem item s = .ok (none, rest)) :
    moreItems item s = .ok ([], rest) := by
  rw [moreItems]
  split
  · rename_i h'; cases h.symm.trans h'
  · rename_i h'; cases h.symm.trans h'; rfl
  · rename_i h'; cases h.symm.trans h'

theorem moreItems_of_some {s t : List Char} {a : α} (h : nextItem item s = .ok (some a, t)) :
    moreItems item s = (moreItems item t).map fun p => (a :: p.1, p.2) := by
  rw [moreItems]
  split
  · rename_i h'; cases h.symm.trans h'
  · rename_i h'; cases h.symm.trans h'
  · rename_i h'; cases h.symm.trans h'; rfl

theorem moreItems_of_error {s : List Char} {e : Fault} (h : nextItem item s = .error e) :
    moreItems item s = .error e := by
  rw [moreItems]
  split
  · rename_i h'; cases h.symm.trans h'; rfl
  · rename_i h'; cases h.symm.trans h'
  · rename_i h'; cases h.symm.trans h'

/-- The items read after one are written there, with the closing bracket. -/
theorem exists_continued_of_moreItems (hi : item.Accepts P) {s rest : List Char} {as : List α}
    (h : moreItems item s = .ok (as, rest)) : ∃ t, Continued ']' P as t ∧ s = t ++ rest := by
  fun_induction moreItems item s generalizing as with
  | case1 => cases h
  | case2 s r hn =>
    cases h
    obtain ⟨-, b, hb, rfl⟩ := skipBlanks_eq_cons_iff.1 (nextItem_eq_none_iff.1 hn)
    exact ⟨_, .nil hb, by simp⟩
  | case3 s a u hn ih =>
    cases hm : moreItems item u with
    | error e => rw [hm] at h; cases h
    | ok p =>
      rw [hm] at h
      cases h
      obtain ⟨t, ht, rfl⟩ := ih hm
      obtain ⟨b, b', u, hb, hb', hu, rfl⟩ := exists_of_nextItem hi hn
      exact ⟨_, .cons hb hb' hu ht, by simp⟩

/-- All items that are written after one are read. -/
theorem moreItems_append (hi : item.Accepts P) {as : List α} {t : List Char}
    (h : Continued ']' P as t) (rest : List Char) :
    moreItems item (t ++ rest) = .ok (as, rest) := by
  induction h with
  | nil hb =>
    rw [List.append_assoc]
    exact moreItems_of_none (nextItem_eq_none_iff.2 (hb.skip rfl _))
  | cons hb hb' ht hu ih =>
    simp only [List.append_assoc, List.cons_append]
    rw [moreItems_of_some (nextItem_append hi hb hb' ht (hu.ends (.inl rfl) rest)), ih]
    rfl

/-- An item that is refused is told of, whatever follows it. -/
theorem moreItems_refuses (hi : item.Accepts P) {as : List α} {b t s : List Char} {e : Fault}
    (hb : Blanks b) (h : Begun P as t) (hs : item.run s = .error e) :
    moreItems item (b ++ ',' :: (t ++ s)) = .error e := by
  induction h generalizing b with
  | nil =>
    refine moreItems_of_error ?_
    rw [nextItem_comma hb, List.nil_append, hs]
    rfl
  | @cons b₁ b₂ t u a as hb₁ ha hb₂ _ ih =>
    simp only [List.append_assoc, List.cons_append]
    have hend := ends_of_blanks hb₂ (ends_cons (.inl rfl) (u ++ s))
    rw [moreItems_of_some (nextItem_append hi hb hb₁ ha hend), ih hb₂]
    rfl

/-! ## Lists -/

/-- Lists of what is accepted are accepted. -/
theorem listOf_accepts (hi : item.Accepts P) : (listOf item).Accepts (Enclosed '[' ']' P) where
  isValue ht := isValue_of_enclosed ht fun _ _ _ => hi.isValue
  sound {s rest as} h := by
    simp only [listOf] at h
    split at h
    · cases h
    · rename_i t hs
      obtain ⟨b, u, hb, hu, rfl⟩ := exists_written_of_readShape hs
      cases hu
      split at h
      · cases h
      · rename_i hf
        cases h
        obtain ⟨-, b', hb', rfl⟩ := skipBlanks_eq_cons_iff.1 (firstItem_eq_none_iff.1 hf)
        exact ⟨b, _, hb, .nil hb', by simp⟩
      · rename_i a v hf
        obtain ⟨b', w, hb', hw, rfl⟩ := exists_of_firstItem hi hf
        cases hm : moreItems item v with
        | error e => rw [hm] at h; cases h
        | ok p =>
          rw [hm] at h
          cases h
          obtain ⟨x, hx, rfl⟩ := exists_continued_of_moreItems hi hm
          exact ⟨b, _, hb, .cons hb' hw hx, by simp⟩
    · cases h
  complete {b t rest as} hb ht _ := by
    have hs : ∀ u, readShape (b ++ '[' :: u) = some (.list, u) := fun u =>
      readShape_append hb .list (by simp)
    cases ht with
    | @nil b' hb' =>
      have hf : firstItem item (b' ++ ']' :: rest) = .ok (none, rest) :=
        firstItem_eq_none_iff.2 (hb'.skip rfl _)
      simp only [List.cons_append, List.append_assoc, List.nil_append, listOf, hs, hf]
    | cons hb' ha has =>
      have hf := firstItem_append hi hb' ha (has.ends (.inl rfl) rest)
      simp only [List.cons_append, List.append_assoc, listOf, hs, hf, moreItems_append hi has rest]
      rfl

/-- The first item that is refused is told of, whatever follows it. -/
theorem listOf_refuses (hi : item.Accepts P) {as : List α} {b t s : List Char} {e : Fault}
    (hb : Blanks b) (h : Begun P as t) (hs : item.run s = .error e)
    (hopen : ∀ r, skipBlanks s ≠ ']' :: r) :
    (listOf item).run (b ++ '[' :: (t ++ s)) = .error e := by
  have hshape : ∀ u, readShape (b ++ '[' :: u) = some (.list, u) := fun u =>
    readShape_append hb .list (by simp)
  cases h with
  | nil =>
    have hf : firstItem item s = .error e := by
      unfold firstItem
      split
      · rename_i h; exact absurd h (hopen _)
      · rw [hs]; rfl
    simp only [List.nil_append, listOf, hshape, hf]
  | @cons b₁ b₂ t u a as hb₁ ha hb₂ has =>
    have hend := ends_of_blanks hb₂ (ends_cons (.inl rfl) (u ++ s))
    have hf := firstItem_append hi hb₁ ha hend
    simp only [List.append_assoc, List.cons_append, listOf, hshape, hf,
      moreItems_refuses hi hb₂ has hs]
    rfl

end Roster.Json
