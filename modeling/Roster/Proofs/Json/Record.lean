/-
Records against the grammar. One member of an object fills a draft or leaves it as it is (`Fill`),
and the members of a whole object fill it one after the other (`Fills`); the items of a list fill it
in order (`FillsInOrder`). A record is accepted when its draft makes a value (`recordOf_accepts`).
What a draft then holds in one field is told by the values of the members with the field's name
(`Fills.filled`, `exists_fills`).
-/
import Roster.Json.Record
import Roster.Proofs.Json.Reader

namespace Roster.Json

variable {σ α β : Type}

/-! ## What a reader takes -/

/-- The reader takes the whole text, which is a value and so begins without a blank. -/
def Reader.Takes (r : Reader α) (a : α) (t : List Char) : Prop := IsValue t ∧ r.run t = .ok (a, [])

/-- What a reader takes are the phrases that it accepts. -/
theorem Reader.Accepts.takes_iff {r : Reader α} {P : α → List Char → Prop} (h : r.Accepts P)
    {a : α} {t : List Char} : r.Takes a t ↔ P a t := by
  constructor
  · rintro ⟨hv, hr⟩
    obtain ⟨b, u, hb, hu, hs⟩ := h.sound hr
    rw [List.append_nil] at hs
    -- a value begins without a blank, so there is none in front
    cases b with
    | nil => rw [List.nil_append] at hs; exact hs ▸ hu
    | cons c b =>
      obtain ⟨d, w, rfl, hd, -⟩ := hv.head
      cases hs
      rw [isBlank_iff.2 (hb _ (List.mem_cons_self ..))] at hd
      cases hd
  · intro ha
    have hr := h.complete blanks_nil ha ends_nil
    rw [List.nil_append, List.append_nil] at hr
    exact ⟨h.isValue ha, hr⟩

theorem Reader.Accepts.takes {r : Reader α} {P : α → List Char → Prop} (h : r.Accepts P) :
    r.Accepts r.Takes :=
  h.congr fun _ _ => h.takes_iff.symm

theorem Reader.Takes.eq {r : Reader α} {a b : α} {t : List Char} (ha : r.Takes a t)
    (hb : r.Takes b t) : a = b := by
  have h := ha.2.symm.trans hb.2
  cases h
  rfl

/-! ## Filling a draft -/

/-- What one member does to a draft: a known name that the draft lacks is filled in, an unknown one
must have a value. -/
inductive Fill (fields : List (Field σ)) (draft : σ) : String × List Char → σ → Prop where
  | known {f : Field σ} {v : f.Value} {name : String} {t : List Char} :
      fields.find? (·.name = name) = some f → f.isSet draft = false → f.reader.Takes v t →
      Fill fields draft (name, t) (f.set v draft)
  | other {name : String} {t : List Char} : fields.find? (·.name = name) = none → IsValue t →
      Fill fields draft (name, t) draft

/-- What members do to a draft, one after the other. -/
inductive Fills (fields : List (Field σ)) : σ → List (String × List Char) → σ → Prop where
  | nil {d : σ} : Fills fields d [] d
  | cons {d d' d'' : σ} {m : String × List Char} {ms : List (String × List Char)} :
      Fill fields d m d' → Fills fields d' ms d'' → Fills fields d (m :: ms) d''

/-- What items do to a draft, each to the next field; fields may be left over. -/
inductive FillsInOrder : List (Field σ) → σ → List (List Char) → σ → Prop where
  | nil {fields : List (Field σ)} {d : σ} : FillsInOrder fields d [] d
  | cons {f : Field σ} {fields : List (Field σ)} {d d' : σ} {v : f.Value} {t : List Char}
      {ts : List (List Char)} : f.reader.Takes v t → FillsInOrder fields (f.set v d) ts d' →
      FillsInOrder (f :: fields) d (t :: ts) d'

theorem Fill.isValue {fields : List (Field σ)} {d d' : σ} {m : String × List Char}
    (h : Fill fields d m d') : IsValue m.2 := by
  cases h with
  | known _ _ hv => exact hv.1
  | other _ hv => exact hv

theorem Fills.isValue {fields : List (Field σ)} {d d' : σ} {ms : List (String × List Char)}
    (h : Fills fields d ms d') : ∀ m ∈ ms, IsValue m.2 := by
  induction h with
  | nil => simp
  | cons hm _ ih => exact List.forall_mem_cons.2 ⟨hm.isValue, ih⟩

theorem FillsInOrder.isValue {fields : List (Field σ)} {d d' : σ} {ts : List (List Char)}
    (h : FillsInOrder fields d ts d') : ∀ t ∈ ts, IsValue t := by
  induction h with
  | nil => simp
  | cons hv _ ih => exact List.forall_mem_cons.2 ⟨hv.1, ih⟩

/-! ## Members -/

/-- Objects whose members have values are values. -/
theorem isValue_of_members {ms : List (String × List Char)} {t : List Char}
    (h : Enclosed '{' '}' NamedMember ms t) (hv : ∀ m ∈ ms, IsValue m.2) : IsValue t := by
  obtain ⟨ns, hns, hn⟩ := h.exists_map (Q := Member)
    (R := fun n m => (IsLiteral n.1 ∧ IsValue n.2) ∧ n.2 = m.2)
    fun m hm u ⟨key, hk, hu⟩ => ⟨(key, m.2), hu, ⟨hk.isLiteral, hv m hm⟩, rfl⟩
  have hn := ((List.forall₂_and_left _ _).1 hn).1
  exact .object hns (fun n h => (hn n h).1) fun n h => (hn n h).2

/-- No blank is passed over where a member begins. -/
theorem NamedMember.skipBlanks_eq {m : String × List Char} {b t : List Char} (h : NamedMember m t)
    (hb : Blanks b) (s : List Char) : skipBlanks (b ++ (t ++ s)) = t ++ s := by
  obtain ⟨key, hk, b₁, b₂, -, -, rfl⟩ := h
  rw [List.append_assoc]
  exact skipBlanks_value hb (.literal hk.isLiteral) _

theorem NamedMember.head {m : String × List Char} {t : List Char} (h : NamedMember m t) :
    ∃ u, t = '"' :: u := by
  obtain ⟨key, ⟨u, -, rfl⟩, b, b', -, -, rfl⟩ := h
  exact ⟨_, rfl⟩

/-- A member with a plain name, written without blanks. -/
theorem namedMember_of_plain (name : String) (v : List Char)
    (h : name.toList.all isPlain = true) :
    NamedMember (name, v) ('"' :: (name.toList ++ '"' :: ':' :: v)) :=
  ⟨_, literal_of_plain h, [], [], blanks_nil, blanks_nil, by simp⟩

variable {fields : List (Field σ)}

/-- The member read is written there and fills the draft. -/
theorem exists_member_of_readMember (hf : ∀ f ∈ fields, f.reader.Accepts f.reader.Takes)
    {d d' : σ} {s rest : List Char} (h : readMember fields d s = .ok (d', rest)) :
    ∃ m t, NamedMember m t ∧ Fill fields d m d' ∧ s = t ++ rest := by
  unfold readMember at h
  split at h
  · split at h
    · cases h
    · rename_i name u hs
      obtain ⟨key, hk, hs⟩ := exists_literal_of_readString hs
      rw [hs]
      split at h
      · rename_i f hfind
        split at h
        · cases h
        · rename_i hset
          split at h
          · cases h
          · rename_i v hc
            obtain ⟨b, hb, rfl⟩ := afterColon_eq_some_iff.1 hc
            cases hr : f.reader.run v with
            | error e => rw [hr] at h; cases h
            | ok p =>
              rw [hr] at h
              cases h
              obtain ⟨b', t, hb', ht, rfl⟩ := (hf f (List.mem_of_find?_eq_some hfind)).sound hr
              exact ⟨(name, t), _, ⟨key, hk, b, b', hb, hb', rfl⟩,
                .known hfind (Bool.eq_false_iff.2 hset) ht, by simp⟩
      · rename_i hfind
        split at h
        · cases h
        · rename_i r hskip
          cases h
          obtain ⟨v, hc, hv⟩ := Option.bind_eq_some_iff.1 hskip
          obtain ⟨b, hb, rfl⟩ := afterColon_eq_some_iff.1 hc
          obtain ⟨b', t, hb', ht, rfl⟩ := exists_value_of_skipValue hv
          exact ⟨(name, t), _, ⟨key, hk, b, b', hb, hb', rfl⟩, .other hfind ht, by simp⟩
  · cases h

/-- A member that fills the draft is read. -/
theorem readMember_append (hf : ∀ f ∈ fields, f.reader.Accepts f.reader.Takes) {d d' : σ}
    {m : String × List Char} {t rest : List Char} (ht : NamedMember m t) (h : Fill fields d m d')
    (hr : Numeral.Ends rest) : readMember fields d (t ++ rest) = .ok (d', rest) := by
  obtain ⟨key, hk, b, b', hb, hb', rfl⟩ := ht
  obtain ⟨u, rfl, hread⟩ := hk.read
  have hcolon : ∀ v, afterColon (b ++ ':' :: v) = some v := fun v =>
    afterColon_eq_some_iff.2 ⟨b, hb, rfl⟩
  simp only [List.append_assoc, List.cons_append]
  unfold readMember
  cases h with
  | known hfind hset hv =>
    have hrun := (hf _ (List.mem_of_find?_eq_some hfind)).complete hb' hv hr
    simp only [hread, hfind, hset, hcolon, hrun]
    rfl
  | other hfind hv =>
    simp only [hread, hfind, hcolon, Option.bind_some, skipValue_append hb' hv hr]

/-! ## Objects -/

theorem moreMembers_of_close {d : σ} {s rest : List Char} (h : skipBlanks s = '}' :: rest) :
    moreMembers fields d s = .ok (d, rest) := by
  rw [moreMembers]
  split
  · rename_i h'; cases h.symm.trans h'; rfl
  · rename_i h'; cases h.symm.trans h'
  · rename_i h' _; exact absurd h (h' rest)

theorem moreMembers_of_comma {d d' : σ} {s t u : List Char} (h : skipBlanks s = ',' :: t)
    (hm : readMember fields d (skipBlanks t) = .ok (d', u)) :
    moreMembers fields d s = moreMembers fields d' u := by
  rw [moreMembers]
  split
  · rename_i h'; cases h.symm.trans h'
  · rename_i h'
    cases h.symm.trans h'
    split
    · rename_i hm'; cases hm.symm.trans hm'
    · rename_i hm'; cases hm.symm.trans hm'; rfl
  · rename_i h'; exact absurd h (h' t)

/-- The members read after one are written there, with the closing bracket. -/
theorem exists_continued_of_moreMembers (hf : ∀ f ∈ fields, f.reader.Accepts f.reader.Takes)
    {d d' : σ} {s rest : List Char} (h : moreMembers fields d s = .ok (d', rest)) :
    ∃ ms t, Continued '}' NamedMember ms t ∧ Fills fields d ms d' ∧ s = t ++ rest := by
  fun_induction moreMembers fields d s with
  | case1 d s r hs =>
    cases h
    obtain ⟨-, b, hb, rfl⟩ := skipBlanks_eq_cons_iff.1 hs
    exact ⟨[], _, .nil hb, .nil, by simp⟩
  | case2 => cases h
  | case3 d s t hs d₁ u hm ih =>
    obtain ⟨ms, w, hw, hfill, rfl⟩ := ih h
    obtain ⟨m, v, hv, hfm, ht⟩ := exists_member_of_readMember hf hm
    obtain ⟨-, b, hb, rfl⟩ := skipBlanks_eq_cons_iff.1 hs
    obtain ⟨b', hb', hbt⟩ := exists_blanks t
    rw [ht] at hbt
    subst hbt
    exact ⟨m :: ms, _, .cons hb hb' hv hw, .cons hfm hfill, by simp⟩
  | case4 => cases h

/-- All members that are written after one are read. -/
theorem moreMembers_append (hf : ∀ f ∈ fields, f.reader.Accepts f.reader.Takes) {d d' : σ}
    {ms : List (String × List Char)} {t : List Char} (ht : Continued '}' NamedMember ms t)
    (h : Fills fields d ms d') (rest : List Char) :
    moreMembers fields d (t ++ rest) = .ok (d', rest) := by
  induction ht generalizing d with
  | nil hb =>
    cases h
    rw [List.append_assoc]
    exact moreMembers_of_close (hb.skip rfl _)
  | @cons b b' t u m ms hb hb' hm hu ih =>
    cases h with
    | cons hfm hms =>
      have hread := readMember_append hf hm hfm (hu.ends (.inr rfl) rest)
      simp only [List.append_assoc, List.cons_append]
      rw [moreMembers_of_comma (hb.skip rfl _), ih hms]
      rwa [hm.skipBlanks_eq hb']

theorem readMembers_of_member {d d' : σ} {s t u : List Char} (h : skipBlanks s = '"' :: t)
    (hm : readMember fields d ('"' :: t) = .ok (d', u)) :
    readMembers fields d s = moreMembers fields d' u := by
  unfold readMembers
  split
  · rename_i h'; cases h.symm.trans h'
  · rw [h, hm]

/-- The members read after a bracket are written there, and fill the draft. -/
theorem exists_enclosed_of_readMembers (hf : ∀ f ∈ fields, f.reader.Accepts f.reader.Takes)
    {d d' : σ} {s rest : List Char} (h : readMembers fields d s = .ok (d', rest)) :
    ∃ ms t, Enclosed '{' '}' NamedMember ms t ∧ Fills fields d ms d' ∧ '{' :: s = t ++ rest := by
  unfold readMembers at h
  split at h
  · rename_i hs
    cases h
    obtain ⟨-, b, hb, rfl⟩ := skipBlanks_eq_cons_iff.1 hs
    exact ⟨[], _, .nil hb, .nil, by simp⟩
  · split at h
    · cases h
    · rename_i hm
      obtain ⟨m, t, ht, hfm, hs⟩ := exists_member_of_readMember hf hm
      obtain ⟨ms, u, hu, hms, rfl⟩ := exists_continued_of_moreMembers hf h
      obtain ⟨b, hb, hbs⟩ := exists_blanks s
      exact ⟨m :: ms, _, .cons hb ht hu, .cons hfm hms, by rw [hbs, hs]; simp⟩

/-- The members of an object that fill the draft are read. -/
theorem readMembers_append (hf : ∀ f ∈ fields, f.reader.Accepts f.reader.Takes) {d d' : σ}
    {ms : List (String × List Char)} {t : List Char} (ht : Enclosed '{' '}' NamedMember ms t)
    (h : Fills fields d ms d') :
    ∃ u, t = '{' :: u ∧ ∀ rest, readMembers fields d (u ++ rest) = .ok (d', rest) := by
  cases ht with
  | @nil b hb =>
    cases h
    refine ⟨_, rfl, fun rest => ?_⟩
    have hs : skipBlanks (b ++ ['}'] ++ rest) = '}' :: rest :=
      by rw [List.append_assoc]; exact hb.skip rfl rest
    simp only [readMembers, hs]
  | @cons b t u m ms hb hm hu =>
    cases h with
    | cons hfm hms =>
      refine ⟨_, rfl, fun rest => ?_⟩
      have hread := readMember_append hf hm hfm (hu.ends (.inr rfl) rest)
      have hs := hm.skipBlanks_eq hb (u ++ rest)
      obtain ⟨w, rfl⟩ := hm.head
      rw [List.append_assoc, List.append_assoc, readMembers_of_member hs hread]
      exact moreMembers_append hf hu hms rest

/-! ## Lists of members -/

/-- The items read in order after one are written there, with the closing bracket. -/
theorem exists_continued_of_moreInOrder (hf : ∀ f ∈ fields, f.reader.Accepts f.reader.Takes)
    {d d' : σ} {s rest : List Char} (h : moreInOrder d s fields = .ok (d', rest)) :
    ∃ ts t, Continued ']' Eq ts t ∧ FillsInOrder fields d ts d' ∧ s = t ++ rest := by
  fun_induction moreInOrder d s fields with
  | case1 d s r hs =>
    cases h
    obtain ⟨-, b, hb, rfl⟩ := skipBlanks_eq_cons_iff.1 hs
    exact ⟨[], _, .nil hb, .nil, by simp⟩
  | case2 => cases h
  | case3 => cases h
  | case4 d s f fields r hn =>
    cases h
    obtain ⟨-, b, hb, rfl⟩ := skipBlanks_eq_cons_iff.1 (nextItem_eq_none_iff.1 hn)
    exact ⟨[], _, .nil hb, .nil, by simp⟩
  | case5 d s f fields v u hn ih =>
    obtain ⟨hf, hfs⟩ := List.forall_mem_cons.1 hf
    obtain ⟨ts, w, hw, hfill, rfl⟩ := ih hfs h
    obtain ⟨b, b', t, hb, hb', ht, rfl⟩ := exists_of_nextItem hf hn
    exact ⟨t :: ts, _, .cons hb hb' rfl hw, .cons ht hfill, by simp⟩

/-- All items that are written after one, and fill the draft in order, are read. -/
theorem moreInOrder_append (hf : ∀ f ∈ fields, f.reader.Accepts f.reader.Takes) {d d' : σ}
    {ts : List (List Char)} {t : List Char} (ht : Continued ']' Eq ts t)
    (h : FillsInOrder fields d ts d') (rest : List Char) :
    moreInOrder d (t ++ rest) fields = .ok (d', rest) := by
  induction h generalizing t with
  | @nil fields d =>
    cases ht with
    | @nil b hb =>
      have hs : skipBlanks (b ++ [']'] ++ rest) = ']' :: rest :=
        by rw [List.append_assoc]; exact hb.skip rfl rest
      cases fields with
      | nil => simp only [moreInOrder, hs]
      | cons f fields => rw [moreInOrder, nextItem_eq_none_iff.2 hs]
  | cons hv _ ih =>
    obtain ⟨hf, hfs⟩ := List.forall_mem_cons.1 hf
    cases ht with
    | cons hb hb' ht hu =>
      subst ht
      have hn := nextItem_append hf hb hb' hv (hu.ends (.inl rfl) rest)
      simp only [List.append_assoc, List.cons_append]
      rw [moreInOrder]
      simp only [hn]
      exact ih hfs hu

/-- The items read in order after a bracket are written there, and fill the draft. -/
theorem exists_enclosed_of_readInOrder (hf : ∀ f ∈ fields, f.reader.Accepts f.reader.Takes)
    {d d' : σ} {s rest : List Char} (h : readInOrder d s fields = .ok (d', rest)) :
    ∃ ts t, Enclosed '[' ']' Eq ts t ∧ FillsInOrder fields d ts d' ∧ '[' :: s = t ++ rest := by
  unfold readInOrder at h
  split at h
  · rw [moreInOrder] at h
    split at h
    · rename_i hs
      cases h
      obtain ⟨-, b, hb, rfl⟩ := skipBlanks_eq_cons_iff.1 hs
      exact ⟨[], _, .nil hb, .nil, by simp⟩
    · cases h
  · obtain ⟨hf, hfs⟩ := List.forall_mem_cons.1 hf
    split at h
    · cases h
    · rename_i hn
      cases h
      obtain ⟨-, b, hb, rfl⟩ := skipBlanks_eq_cons_iff.1 (firstItem_eq_none_iff.1 hn)
      exact ⟨[], _, .nil hb, .nil, by simp⟩
    · rename_i hn
      obtain ⟨b, t, hb, ht, rfl⟩ := exists_of_firstItem hf hn
      obtain ⟨ts, u, hu, hts, rfl⟩ := exists_continued_of_moreInOrder hfs h
      exact ⟨t :: ts, _, .cons hb rfl hu, .cons ht hts, by simp⟩

/-- The items of a list that fill the draft in order are read. -/
theorem readInOrder_append (hf : ∀ f ∈ fields, f.reader.Accepts f.reader.Takes) {d d' : σ}
    {ts : List (List Char)} {t : List Char} (ht : Enclosed '[' ']' Eq ts t)
    (h : FillsInOrder fields d ts d') :
    ∃ u, t = '[' :: u ∧ ∀ rest, readInOrder d (u ++ rest) fields = .ok (d', rest) := by
  cases h with
  | nil =>
    cases ht with
    | @nil b hb =>
      refine ⟨_, rfl, fun rest => ?_⟩
      have hs : skipBlanks (b ++ [']'] ++ rest) = ']' :: rest :=
        by rw [List.append_assoc]; exact hb.skip rfl rest
      cases fields with
      | nil => simp only [readInOrder, moreInOrder, hs]
      | cons f fields => rw [readInOrder, firstItem_eq_none_iff.2 hs]
  | cons hv hts =>
    obtain ⟨hf, hfs⟩ := List.forall_mem_cons.1 hf
    cases ht with
    | cons hb ht hu =>
      subst ht
      refine ⟨_, rfl, fun rest => ?_⟩
      have hn := firstItem_append hf hb hv (hu.ends (.inl rfl) rest)
      simp only [List.append_assoc]
      rw [readInOrder]
      simp only [hn]
      exact moreInOrder_append hfs hu hts rest

/-! ## Records -/

/-- How a record is written: as an object whose members make a draft of it, in any order and with
others between them, or as the list of its members in order. -/
inductive Record.Written (r : Record σ α) (a : α) (t : List Char) : Prop where
  | object {ms : List (String × List Char)} {d : σ} : Enclosed '{' '}' NamedMember ms t →
      Fills r.fields r.empty ms d → r.build d = .ok a → Written r a t
  | list {ts : List (List Char)} {d : σ} : Enclosed '[' ']' Eq ts t →
      FillsInOrder r.fields r.empty ts d → r.build d = .ok a → Written r a t

/-- Records of what is accepted are accepted. -/
theorem recordOf_accepts {r : Record σ α}
    (hf : ∀ f ∈ r.fields, f.reader.Accepts f.reader.Takes) : (recordOf r).Accepts r.Written where
  isValue h := by
    cases h with
    | object ht hd _ => exact isValue_of_members ht hd.isValue
    | list ht hd _ => exact isValue_of_enclosed ht fun v hv u hu => hu ▸ hd.isValue v hv
  sound {s rest a} h := by
    simp only [recordOf] at h
    split at h
    · cases h
    · rename_i hs
      obtain ⟨b, u, hb, hu, rfl⟩ := exists_written_of_readShape hs
      cases hu
      split at h
      · cases h
      · rename_i hm
        split at h
        · cases h
        · rename_i hbuild
          cases h
          obtain ⟨ms, t, ht, hd, hs⟩ := exists_enclosed_of_readMembers hf hm
          exact ⟨b, t, hb, .object ht hd hbuild, congrArg (b ++ ·) hs⟩
    · rename_i hs
      obtain ⟨b, u, hb, hu, rfl⟩ := exists_written_of_readShape hs
      cases hu
      split at h
      · cases h
      · rename_i hm
        split at h
        · cases h
        · rename_i hbuild
          cases h
          obtain ⟨ts, t, ht, hd, hs⟩ := exists_enclosed_of_readInOrder hf hm
          exact ⟨b, t, hb, .list ht hd hbuild, congrArg (b ++ ·) hs⟩
    · cases h
  complete {b t rest a} hb h _ := by
    cases h with
    | object ht hd hbuild =>
      obtain ⟨u, rfl, hread⟩ := readMembers_append hf ht hd
      have hs : readShape (b ++ '{' :: (u ++ rest)) = some (.record, u ++ rest) :=
        readShape_append hb .record (by simp)
      simp only [List.cons_append, recordOf, hs, hread, hbuild]
    | list ht hd hbuild =>
      obtain ⟨u, rfl, hread⟩ := readInOrder_append hf ht hd
      have hs : readShape (b ++ '[' :: (u ++ rest)) = some (.list, u ++ rest) :=
        readShape_append hb .list (by simp)
      simp only [List.cons_append, recordOf, hs, hread, hbuild]

/-! ## One field of a draft -/

/-- What members with one name do to what is held under it: nothing, or the only one fills it. -/
inductive Filled (P : β → List Char → Prop) : Option β → List (List Char) → Option β → Prop where
  | kept {o : Option β} : Filled P o [] o
  | set {v : β} {t : List Char} : P v t → Filled P none [t] (some v)

theorem Filled.eq {r : Reader β} {o o₁ o₂ : Option β} {vs : List (List Char)}
    (h₁ : Filled r.Takes o vs o₁) (h₂ : Filled r.Takes o vs o₂) : o₁ = o₂ := by
  cases h₁ with
  | kept => cases h₂; rfl
  | set h₁ => cases h₂ with | set h₂ => rw [h₁.eq h₂]

/-- What was not held before is filled in by the only value given. -/
theorem Reader.Accepts.filled_some_iff {r : Reader β} {P : β → List Char → Prop} (h : r.Accepts P)
    {vs : List (List Char)} {v : β} :
    Filled r.Takes none vs (some v) ↔ ∃ t, vs = [t] ∧ P v t := by
  constructor
  · rintro (_ | hv)
    exact ⟨_, rfl, h.takes_iff.1 hv⟩
  · rintro ⟨t, rfl, hv⟩
    exact .set (h.takes_iff.2 hv)

/-- A field among others, and what a draft holds in it: the field sets it, and the others leave it
as it is. -/
structure Field.Shows (f : Field σ) (fields : List (Field σ)) (get : σ → Option f.Value) :
    Prop where
  find : fields.find? (·.name = f.name) = some f
  isSet : ∀ d, f.isSet d = (get d).isSome
  set : ∀ v d, get (f.set v d) = some v
  other : ∀ g ∈ fields, g.name ≠ f.name → ∀ v d, get (g.set v d) = get d

theorem valuesOf_cons_of_eq {name : String} {t : List Char} (ms : List (String × List Char)) :
    valuesOf name ((name, t) :: ms) = t :: valuesOf name ms := by
  simp [valuesOf]

theorem valuesOf_cons_of_ne {name : String} {m : String × List Char} (h : m.1 ≠ name)
    (ms : List (String × List Char)) : valuesOf name (m :: ms) = valuesOf name ms := by
  simp [valuesOf, h]

theorem mem_valuesOf {m : String × List Char} {ms : List (String × List Char)} (h : m ∈ ms) :
    m.2 ∈ valuesOf m.1 ms :=
  List.mem_map.2 ⟨m, List.mem_filter.2 ⟨h, decide_eq_true rfl⟩, rfl⟩

/-- What a draft holds in one field is told by the members with the field's name. -/
theorem Fills.filled {f : Field σ} {get : σ → Option f.Value} (hg : f.Shows fields get) {d d' : σ}
    {ms : List (String × List Char)} (h : Fills fields d ms d') :
    Filled f.reader.Takes (get d) (valuesOf f.name ms) (get d') := by
  induction h with
  | nil => exact .kept
  | @cons d d₁ d₂ m ms hm _ ih =>
    cases hm with
    | @known g v name t hfind hset hv =>
      have hname : g.name = name := by simpa using List.find?_some hfind
      by_cases hne : g.name = f.name
      · -- the field itself: nothing was held before, and nothing may come after
        rw [← hname, hne, hg.find] at hfind
        cases hfind
        rw [hg.set] at ih
        rw [← hname, valuesOf_cons_of_eq]
        have hnone : get d = none := by
          rw [hg.isSet] at hset
          simpa using hset
        rw [hnone]
        generalize get d₂ = o, valuesOf f.name ms = vs at ih ⊢
        cases ih
        exact .set hv
      · rw [hg.other g (List.mem_of_find?_eq_some hfind) hne] at ih
        rwa [valuesOf_cons_of_ne (by rwa [← hname])]
    | @other name t hfind hv =>
      have hne : name ≠ f.name := fun h => by rw [h, hg.find] at hfind; cases hfind
      rwa [valuesOf_cons_of_ne hne]

/-- Members fill a draft when each known name is given as its field allows, and the other members
have values. -/
theorem exists_fills {d : σ} {ms : List (String × List Char)}
    (hother : ∀ m ∈ ms, (∀ f ∈ fields, m.1 ≠ f.name) → IsValue m.2)
    (hknown : ∀ f ∈ fields, ∃ get o, f.Shows fields get ∧
      Filled f.reader.Takes (get d) (valuesOf f.name ms) o) :
    ∃ d', Fills fields d ms d' := by
  induction ms generalizing d with
  | nil => exact ⟨d, .nil⟩
  | cons m ms ih =>
    obtain ⟨name, t⟩ := m
    obtain ⟨hm, hothers⟩ := List.forall_mem_cons.1 hother
    cases hfind : fields.find? (·.name = name) with
    | none =>
      -- no field has the name, so the member counts for none of them
      have hne : ∀ f ∈ fields, name ≠ f.name := fun f hf h => by
        simpa [h] using List.find?_eq_none.1 hfind f hf
      obtain ⟨d', hd'⟩ := @ih d hothers fun f hf => by
        have := hknown f hf
        rwa [valuesOf_cons_of_ne (hne f hf)] at this
      exact ⟨d', .cons (.other hfind (hm hne)) hd'⟩
    | some f =>
      have hname : f.name = name := by simpa using List.find?_some hfind
      have hmem := List.mem_of_find?_eq_some hfind
      subst hname
      obtain ⟨get, o, hget, ho⟩ := hknown f hmem
      rw [valuesOf_cons_of_eq] at ho
      generalize hvs : valuesOf f.name ms = vs, hold : get d = old at ho
      cases ho with
      | @set v _ hv =>
        have hset : f.isSet d = false := by rw [hget.isSet, hold]; rfl
        -- the field is set now, and nothing else is given for it; the other fields are as before
        obtain ⟨d', hd'⟩ := @ih (f.set v d) hothers fun g hg => by
          by_cases hne : f.name = g.name
          · have hgf : g = f := by
              obtain ⟨_, _, hg', -⟩ := hknown g hg
              have := hg'.find
              rw [← hne, hfind] at this
              exact (Option.some.inj this).symm
            subst hgf
            exact ⟨get, _, hget, by rw [hvs]; exact .kept⟩
          · obtain ⟨get', o, hget', ho⟩ := hknown g hg
            rw [valuesOf_cons_of_ne hne, ← hget'.other f hmem hne v d] at ho
            exact ⟨get', o, hget', ho⟩
        exact ⟨d', .cons (.known hfind hset hv) hd'⟩

end Roster.Json
