/-
Records that are refused. A record is read member by member, and what its members so far have filled
is all that matters for the next one. So the first member that is refused decides, whatever follows
(`recordOf_refuses`): one that was already there is refused by its name alone (`recordOf_repeated`),
any other with what is wrong with its value (`recordOf_refuses_value`). A member that never came is
told of at the closing bracket (`recordOf_closes`).
-/
import Roster.Proofs.Json.Streaming

namespace Roster.Json

variable {σ α : Type} {fields : List (Field σ)} {r : Record σ α} {ms : List (String × List Char)}
  {d d' : σ} {e : Fault} {b s t rest : List Char}

/-! ## Texts of objects -/

/-- A text that opens an object with these members, each with its comma, and comes to a literal of
this name; the rest is what follows the literal. -/
def ReachesName (ms : List (String × List Char)) (name : String) (rest s : List Char) : Prop :=
  ∃ b t b' key, Blanks b ∧ Begun NamedMember ms t ∧ Blanks b' ∧ Literal name key ∧
    s = b ++ '{' :: (t ++ (b' ++ (key ++ rest)))

/-- A text that begins with an object of these members; the rest is what follows its bracket. -/
def ReachesClose (ms : List (String × List Char)) (rest s : List Char) : Prop :=
  ∃ b t, Blanks b ∧ Enclosed '{' '}' NamedMember ms t ∧ s = b ++ (t ++ rest)

/-- One value of a kind, or none. -/
inductive AtMostOne (P : α → List Char → Prop) : List (List Char) → Prop where
  | none : AtMostOne P []
  | one {a : α} {v : List Char} : P a v → AtMostOne P [v]

/-! ## The first member that is refused -/

/-- A member that is refused after others is told of. -/
theorem moreMembers_refuses (hf : ∀ f ∈ fields, f.reader.Accepts f.reader.Takes) (hb : Blanks b)
    (ht : Begun NamedMember ms t) (hd : Fills fields d ms d')
    (he : readMember fields d' (skipBlanks s) = .error e) :
    moreMembers fields d (b ++ ',' :: (t ++ s)) = .error e := by
  induction ht generalizing b d with
  | nil =>
    cases hd
    rw [moreMembers_eq_of_comma (hb.skip rfl _), List.nil_append, he]
    rfl
  | @cons b₁ b₂ v u m ms hb₁ hm hb₂ _ ih =>
    cases hd with
    | cons hfm hms =>
      have hend := ends_of_blanks hb₂ (ends_cons (.inl rfl) (u ++ s))
      simp only [List.append_assoc, List.cons_append]
      rw [moreMembers_eq_of_comma (hb.skip rfl _), hm.skipBlanks_eq hb₁,
        readMember_append hf hm hfm hend]
      exact ih hb₂ hms

/-- The first member that is refused is told of, be it the first of all or not. -/
theorem readMembers_refuses (hf : ∀ f ∈ fields, f.reader.Accepts f.reader.Takes)
    (ht : Begun NamedMember ms t) (hd : Fills fields d ms d')
    (hopen : ∀ u, skipBlanks s ≠ '}' :: u)
    (he : readMember fields d' (skipBlanks s) = .error e) :
    readMembers fields d (t ++ s) = .error e := by
  cases ht with
  | nil =>
    cases hd
    rw [List.nil_append, readMembers_of_ne hopen, he]
    rfl
  | @cons b₁ b₂ v u m ms hb₁ hm hb₂ hu =>
    cases hd with
    | cons hfm hms =>
      have hend := ends_of_blanks hb₂ (ends_cons (.inl rfl) (u ++ s))
      have hskip := hm.skipBlanks_eq hb₁ (b₂ ++ ',' :: (u ++ s))
      obtain ⟨w, rfl⟩ := hm.head
      simp only [List.append_assoc, List.cons_append] at hskip ⊢
      rw [readMembers_of_member hskip (readMember_append hf hm hfm hend)]
      exact moreMembers_refuses hf hb₂ hu hms he

/-- The first member that is refused decides. -/
theorem recordOf_refuses (hf : ∀ f ∈ r.fields, f.reader.Accepts f.reader.Takes) {name : String}
    (h : ReachesName ms name rest s) (hd : Fills r.fields r.empty ms d)
    (he : ∀ key, Literal name key → readMember r.fields d (key ++ rest) = .error e) :
    (recordOf r).run s = .error e := by
  obtain ⟨b, t, b', key, hb, ht, hb', hk, rfl⟩ := h
  have hskip : skipBlanks (b' ++ (key ++ rest)) = key ++ rest :=
    skipBlanks_value hb' (.literal hk.isLiteral) rest
  have hopen : ∀ u, skipBlanks (b' ++ (key ++ rest)) ≠ '}' :: u := by
    -- a literal begins with a quote, not with the closing bracket
    intro u hu
    obtain ⟨v, rfl, -⟩ := hk.read
    cases hskip.symm.trans hu
  have hmembers : readMembers r.fields r.empty (t ++ (b' ++ (key ++ rest))) = .error e :=
    readMembers_refuses hf ht hd hopen (by rw [hskip]; exact he key hk)
  have hshape : readShape (b ++ '{' :: (t ++ (b' ++ (key ++ rest)))) =
      some (.record, t ++ (b' ++ (key ++ rest))) := readShape_append hb .record (by simp)
  rw [recordOf_run_object hshape, hmembers]
  rfl

/-- A member that the draft has is refused by its name. -/
theorem readMember_of_set {f : Field σ} {name : String} {key : List Char}
    (hfind : fields.find? (·.name = name) = some f) (hset : f.isSet d = true)
    (hk : Literal name key) (rest : List Char) :
    readMember fields d (key ++ rest) = .error (.mismatch (.duplicateField name)) := by
  obtain ⟨u, rfl, hread⟩ := hk.read
  simp only [List.cons_append, readMember, hread, hfind, hset, if_true]

/-- A member that the draft lacks is refused for its value. -/
theorem readMember_of_value {f : Field σ} {name : String} {key v : List Char}
    (hfind : fields.find? (·.name = name) = some f) (hset : f.isSet d = false)
    (hk : Literal name key) (hb : Blanks b) (hv : f.reader.run v = .error e) :
    readMember fields d (key ++ (b ++ ':' :: v)) = .error e := by
  obtain ⟨u, rfl, hread⟩ := hk.read
  have hcolon : afterColon (b ++ ':' :: v) = some v := afterColon_eq_some_iff.2 ⟨b, hb, rfl⟩
  simp only [List.cons_append, readMember, hread, hfind, hset, hcolon, hv]
  rfl

/-! ## What the members so far have filled -/

theorem valuesOf_eq_nil_iff {name : String} : valuesOf name ms = [] ↔ name ∉ ms.map (·.1) := by
  rw [valuesOf, List.map_eq_nil_iff, List.filter_eq_nil_iff]
  constructor
  · intro h hmem
    obtain ⟨m, hm, hname⟩ := List.mem_map.1 hmem
    exact h m hm (decide_eq_true hname)
  · intro h m hm hname
    exact h (List.mem_map.2 ⟨m, hm, of_decide_eq_true hname⟩)

/-- A value of the kind, or none, fills what was not held. -/
theorem Reader.Accepts.exists_filled {β : Type} {reader : Reader β} {P : β → List Char → Prop}
    (h : reader.Accepts P) {vs : List (List Char)} (hvs : AtMostOne P vs) :
    ∃ o, Filled reader.Takes none vs o := by
  cases hvs with
  | none => exact ⟨none, .kept⟩
  | one hv => exact ⟨_, .set (h.takes_iff.2 hv)⟩

/-- A field is held when there was a member with its name. -/
theorem Fills.isSome_iff {f : Field σ} {get : σ → Option f.Value} (hg : f.Shows fields get)
    (hd : Fills fields d ms d') (hnone : get d = none) :
    (get d').isSome = true ↔ f.name ∈ ms.map (·.1) := by
  have hfilled := hd.filled hg
  rw [hnone] at hfilled
  rw [← not_iff_not, ← valuesOf_eq_nil_iff]
  generalize valuesOf f.name ms = vs, get d' = o at hfilled
  cases hfilled with
  | kept => simp
  | set => simp

/-- A member whose name came before is refused, whatever follows the name. -/
theorem recordOf_repeated (hf : ∀ f ∈ r.fields, f.reader.Accepts f.reader.Takes) {f : Field σ}
    {get : σ → Option f.Value} (hg : f.Shows r.fields get) (hnone : get r.empty = none)
    (hd : Fills r.fields r.empty ms d) (hmem : f.name ∈ ms.map (·.1))
    (h : ReachesName ms f.name rest s) :
    (recordOf r).run s = .error (.mismatch (.duplicateField f.name)) := by
  have hset : f.isSet d = true := by rw [hg.isSet, hd.isSome_iff hg hnone]; exact hmem
  exact recordOf_refuses hf h hd fun key hk => readMember_of_set hg.find hset hk rest

/-- A member whose name did not come before is refused with what is wrong with its value, whatever
follows the value. -/
theorem recordOf_refuses_value (hf : ∀ f ∈ r.fields, f.reader.Accepts f.reader.Takes) {f : Field σ}
    {get : σ → Option f.Value} (hg : f.Shows r.fields get) (hnone : get r.empty = none)
    (hd : Fills r.fields r.empty ms d) (hmem : f.name ∉ ms.map (·.1)) (hb : Blanks b)
    (he : f.reader.run t = .error e) (h : ReachesName ms f.name (b ++ ':' :: t) s) :
    (recordOf r).run s = .error e := by
  have hset : f.isSet d = false := by
    rw [hg.isSet, Bool.eq_false_iff, Ne, hd.isSome_iff hg hnone]
    exact hmem
  exact recordOf_refuses hf h hd fun key hk => readMember_of_value hg.find hset hk hb he

/-- At the closing bracket the members make a value, or one that is lacking is told of. -/
theorem recordOf_closes (hf : ∀ f ∈ r.fields, f.reader.Accepts f.reader.Takes)
    (hd : Fills r.fields r.empty ms d) (h : ReachesClose ms rest s) :
    (recordOf r).run s = r.finish .missingField (d, rest) := by
  obtain ⟨b, t, hb, ht, rfl⟩ := h
  obtain ⟨u, rfl, hread⟩ := readMembers_append hf ht hd
  have hshape : readShape (b ++ '{' :: (u ++ rest)) = some (.record, u ++ rest) :=
    readShape_append hb .record (by simp)
  rw [List.cons_append, recordOf_run_object hshape, hread rest]
  rfl

/-! ## Lists of members -/

/-- The first item of a list is refused for its value. -/
theorem recordOf_refuses_first {f : Field σ} {fs : List (Field σ)} (hfields : r.fields = f :: fs)
    (hb : Blanks b) (hopen : ∀ u, skipBlanks s ≠ ']' :: u) (he : f.reader.run s = .error e) :
    (recordOf r).run (b ++ '[' :: s) = .error e := by
  have hshape : readShape (b ++ '[' :: s) = some (.list, s) := readShape_append hb .list (by simp)
  have hfirst : firstItem f.reader s = .error e := by rw [firstItem_of_ne hopen, he]; rfl
  rw [recordOf_run_list hshape, hfields, readInOrder_cons, hfirst]
  rfl

/-! ## Members that are never missed -/

/-- The reader never tells of a missing member of this name. -/
def Reader.NeverMisses {β : Type} (reader : Reader β) (name : String) : Prop :=
  ∀ s, reader.run s ≠ .error (.mismatch (.missingField name))

section Never

variable {β γ : Type} {name : String}

theorem bind_ne_error {x : Except Fault β} {f : β → Except Fault γ} (hx : x ≠ .error e)
    (hf : ∀ b, f b ≠ .error e) : x.bind f ≠ .error e := by
  cases x with
  | error e' => exact fun h => hx (congrArg Except.error (Except.error.inj h))
  | ok b => exact hf b

theorem map_ne_error {x : Except Fault β} (f : β → γ) (hx : x ≠ .error e) :
    x.map f ≠ .error e := by
  cases x with
  | error e' => exact fun h => hx (congrArg Except.error (Except.error.inj h))
  | ok b => exact fun h => by cases h

theorem scalar_neverMisses {accept : Shape → Except Mismatch β}
    (h : ∀ v, accept v ≠ .error (.missingField name)) : (scalar accept).NeverMisses name := by
  intro s
  simp only [scalar]
  split
  · simp
  · rename_i v _ _
    split
    · rename_i m hm
      intro he
      cases he
      exact h v hm
    · simp

theorem readMember_ne_missing (hf : ∀ f ∈ fields, f.reader.NeverMisses name) (d : σ)
    (s : List Char) : readMember fields d s ≠ .error (.mismatch (.missingField name)) := by
  unfold readMember
  split
  · split
    · simp
    · split
      · rename_i f hfind
        split
        · simp
        · split
          · simp
          · exact map_ne_error _ (hf f (List.mem_of_find?_eq_some hfind) _)
      · split <;> simp
  · simp

theorem moreMembers_ne_missing (hf : ∀ f ∈ fields, f.reader.NeverMisses name) (d : σ)
    (s : List Char) : moreMembers fields d s ≠ .error (.mismatch (.missingField name)) := by
  fun_induction moreMembers fields d s with
  | case1 => simp
  | case2 d s t hs e hm =>
    intro he
    cases he
    exact readMember_ne_missing hf _ _ hm
  | case3 d s t hs d' u hm ih => exact ih
  | case4 => simp

theorem readMembers_ne_missing (hf : ∀ f ∈ fields, f.reader.NeverMisses name) (d : σ)
    (s : List Char) : readMembers fields d s ≠ .error (.mismatch (.missingField name)) := by
  by_cases hclose : ∃ u, skipBlanks s = '}' :: u
  · obtain ⟨u, hu⟩ := hclose
    simp [readMembers, hu]
  · rw [readMembers_of_ne (not_exists.1 hclose)]
    exact bind_ne_error (readMember_ne_missing hf _ _) fun p => moreMembers_ne_missing hf _ _

theorem moreInOrder_ne_missing (hf : ∀ f ∈ fields, f.reader.NeverMisses name) (d : σ)
    (s : List Char) : moreInOrder d s fields ≠ .error (.mismatch (.missingField name)) := by
  induction fields generalizing d s with
  | nil => unfold moreInOrder; split <;> simp
  | cons f fs ih =>
    obtain ⟨hf, hfs⟩ := List.forall_mem_cons.1 hf
    rw [moreInOrder_cons]
    refine bind_ne_error ?_ fun o => ?_
    · unfold nextItem
      split
      · simp
      · exact map_ne_error _ (hf _)
      · simp
    · rcases o with ⟨_ | v, u⟩
      · simp [inOrderFrom]
      · exact ih hfs _ _

theorem readInOrder_ne_missing (hf : ∀ f ∈ fields, f.reader.NeverMisses name) (d : σ)
    (s : List Char) : readInOrder d s fields ≠ .error (.mismatch (.missingField name)) := by
  cases fields with
  | nil => exact moreInOrder_ne_missing hf d s
  | cons f fs =>
    obtain ⟨hf, hfs⟩ := List.forall_mem_cons.1 hf
    rw [readInOrder_cons]
    refine bind_ne_error ?_ fun o => ?_
    · unfold firstItem
      split
      · simp
      · exact map_ne_error _ (hf _)
    · rcases o with ⟨_ | v, u⟩
      · simp [inOrderFrom]
      · exact moreInOrder_ne_missing hfs _ _

/-- A record that is made of every draft misses no member, when the readers of its members miss
none. -/
theorem recordOf_neverMisses (hf : ∀ f ∈ r.fields, f.reader.NeverMisses name)
    (hbuild : ∀ d n, r.build d ≠ .error n) : (recordOf r).NeverMisses name := by
  have hfinish : ∀ lacking p, r.finish lacking p ≠ .error (.mismatch (.missingField name)) := by
    intro lacking p
    cases h : r.build p.1 with
    | error n => exact absurd h (hbuild _ _)
    | ok a => simp [Record.finish, h]
  intro s
  cases h : readShape s with
  | none => simp [recordOf, h]
  | some p =>
    obtain ⟨v, t⟩ := p
    by_cases hrecord : v = .record
    · subst hrecord
      rw [recordOf_run_object h]
      exact bind_ne_error (readMembers_ne_missing hf _ _) (hfinish _)
    by_cases hlist : v = .list
    · subst hlist
      rw [recordOf_run_list h]
      exact bind_ne_error (readInOrder_ne_missing hf _ _) (hfinish _)
    · rw [recordOf_run_other h hlist hrecord]
      simp

end Never

end Roster.Json
