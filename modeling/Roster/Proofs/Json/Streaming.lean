/-
Readers decide from left to right. What is told of a settled text, a value or what is wrong with it,
is told of every longer text, and only what is malformed may come out otherwise (`Decided`). This
passes from each step of a reader to the next (`Decided.bind`), so that lists and records of what is
decided are decided as well. For whole texts it says what becomes of an outcome when more is added
(`Reader.GoesOn`).
-/
import Roster.Proofs.Json.Record
import Roster.Proofs.Json.Settled

namespace Roster.Json

variable {α β : Type}

/-! ## Readings that are decided -/

/-- What is read of a text is read of every longer one: the value, with more left after it, or what
is wrong with the value. Only where the text itself is malformed may it come out otherwise. -/
inductive Decided (f : List Char → Reading α) (s : List Char) : Prop where
  | value (a : α) {rest : List Char} : Settled rest →
      (∀ x, f (s ++ x) = .ok (a, rest ++ x)) → Decided f s
  | mismatch (m : Mismatch) : (∀ x, f (s ++ x) = .error (.mismatch m)) → Decided f s
  | malformed : f s = .error .malformed → Decided f s

namespace Decided

variable {f : List Char → Reading α} {g : List Char → Reading β} {s t : List Char}

theorem ok_append (h : Decided f s) {a : α} {rest : List Char} (hf : f s = .ok (a, rest))
    (x : List Char) : f (s ++ x) = .ok (a, rest ++ x) := by
  cases h with
  | value _ _ hx =>
    have h0 := hx []
    rw [List.append_nil, List.append_nil, hf] at h0
    cases h0
    exact hx x
  | mismatch _ hx =>
    have h0 := hx []
    rw [List.append_nil, hf] at h0
    cases h0
  | malformed h => rw [hf] at h; cases h

theorem mismatch_append (h : Decided f s) {m : Mismatch} (hf : f s = .error (.mismatch m))
    (x : List Char) : f (s ++ x) = .error (.mismatch m) := by
  cases h with
  | value _ _ hx =>
    have h0 := hx []
    rw [List.append_nil, hf] at h0
    cases h0
  | mismatch _ hx =>
    have h0 := hx []
    rw [List.append_nil, hf] at h0
    cases h0
    exact hx x
  | malformed h => rw [hf] at h; cases h

/-- A reading that goes on from where another one stops is decided when both are. -/
theorem bind {k : β × List Char → Reading α} (hg : Decided g t)
    (hf : ∀ x, f (s ++ x) = (g (t ++ x)).bind k)
    (hk : ∀ b rest, g t = .ok (b, rest) → Settled rest → Decided (fun r => k (b, r)) rest) :
    Decided f s := by
  have hs := hf []
  rw [List.append_nil, List.append_nil] at hs
  cases hg with
  | @value b rest hr hx =>
    have ht := hx []
    rw [List.append_nil, List.append_nil] at ht
    cases hk b rest ht hr with
    | value a hr' hx' => exact .value a hr' fun x => by rw [hf, hx]; exact hx' x
    | mismatch m hx' => exact .mismatch m fun x => by rw [hf, hx]; exact hx' x
    | malformed hm => exact .malformed (by rw [hs, ht]; exact hm)
  | mismatch m hx => exact .mismatch m fun x => by rw [hf, hx]; rfl
  | malformed hm => exact .malformed (by rw [hs, hm]; rfl)

/-- One that reads the same is decided too. -/
theorem congr {f g : List Char → Reading α} (hg : Decided g t)
    (hf : ∀ x, f (s ++ x) = g (t ++ x)) : Decided f s := by
  refine hg.bind (k := .ok) (fun x => ?_) fun b rest _ hr => .value b hr fun x => rfl
  rw [hf]
  cases g (t ++ x) <;> rfl

/-- So is one that only does something to the value. -/
theorem map (φ : β → α) (hg : Decided g t)
    (hf : ∀ x, f (s ++ x) = (g (t ++ x)).map fun p => (φ p.1, p.2)) : Decided f s := by
  refine hg.bind (k := fun p => .ok (φ p.1, p.2)) (fun x => ?_) fun b rest _ hr => ?_
  · rw [hf]
    cases g (t ++ x) <;> rfl
  · exact .value (φ b) hr fun x => rfl

/-- A text that is read from its first character that is no blank. -/
theorem of_skipBlanks (h : Decided f (skipBlanks s)) (h0 : f [] = .error .malformed) :
    Decided (fun t => f (skipBlanks t)) s := by
  cases hs : skipBlanks s with
  | nil => exact .malformed (by rw [hs, h0])
  | cons c t =>
    rw [hs] at h
    refine h.congr fun x => ?_
    show f (skipBlanks (s ++ x)) = _
    rw [skipBlanks_append_of_cons hs, List.cons_append]

/-- A text that may come to a closing bracket after its blanks; if it does, the value is known. -/
theorem of_close (c : Char) (a : α) (hs : Settled s)
    (hclose : ∀ {t r : List Char}, skipBlanks t = c :: r → f t = .ok (a, r))
    (hopen : (∀ r, skipBlanks s ≠ c :: r) → Decided f s) : Decided f s := by
  by_cases hc : ∃ r, skipBlanks s = c :: r
  · obtain ⟨r, hr⟩ := hc
    exact .value a (hs.of_skipBlanks hr) fun x => hclose (skipBlanks_append_of_cons hr x)
  · exact hopen (not_exists.1 hc)

end Decided

/-- What the reader finds in a settled text is decided, and in blanks it finds nothing. -/
structure Reader.Streams (r : Reader α) : Prop where
  decided : ∀ {s : List Char}, Settled s → Decided r.run s
  blank : ∀ {s : List Char}, Blanks s → r.run s = .error .malformed

theorem scalar_streams (accept : Shape → Except Mismatch α) : (scalar accept).Streams where
  decided {s} hs := by
    cases h : readShape s with
    | none => exact .malformed (by simp only [scalar, h])
    | some p =>
      obtain ⟨v, rest⟩ := p
      obtain ⟨hr, hx⟩ := readShape_of_settled h hs
      cases ha : accept v with
      | error m => exact .mismatch m fun x => by simp only [scalar, hx, ha]
      | ok a => exact .value a hr fun x => by simp only [scalar, hx, ha]
  blank hb := by simp only [scalar, readShape_of_blanks hb]

/-! ## Lists -/

section Lists

variable {item : Reader α} {s t : List Char}

theorem firstItem_of_ne (h : ∀ r, skipBlanks s ≠ ']' :: r) :
    firstItem item s = (item.run s).map fun p => (some p.1, p.2) := by
  unfold firstItem
  split
  · rename_i hs; exact absurd hs (h _)
  · rfl

theorem decided_firstItem (hi : item.Streams) (hs : Settled s) : Decided (firstItem item) s := by
  refine .of_close ']' none hs firstItem_eq_none_iff.2 fun hopen => ?_
  by_cases hb : skipBlanks s = []
  · refine .malformed ?_
    rw [firstItem_of_ne hopen, hi.blank (skipBlanks_eq_nil_iff.1 hb)]
    rfl
  · exact (hi.decided hs).map some fun x => firstItem_of_ne (skipBlanks_append_ne hb hopen x)

theorem nextItem_of_ne (hclose : ∀ r, skipBlanks s ≠ ']' :: r)
    (hcomma : ∀ r, skipBlanks s ≠ ',' :: r) : nextItem item s = .error .malformed := by
  unfold nextItem
  split
  · rename_i h; exact absurd h (hclose _)
  · rename_i h; exact absurd h (hcomma _)
  · rfl

theorem decided_nextItem (hi : item.Streams) (hs : Settled s) : Decided (nextItem item) s := by
  refine .of_close ']' none hs nextItem_eq_none_iff.2 fun hclose => ?_
  by_cases hcomma : ∃ r, skipBlanks s = ',' :: r
  · obtain ⟨r, h⟩ := hcomma
    refine (hi.decided (hs.of_skipBlanks h)).map some fun x => ?_
    unfold nextItem
    rw [skipBlanks_append_of_cons h]
    rfl
  · exact .malformed (nextItem_of_ne hclose (not_exists.1 hcomma))

/-- Reads a list on from an item, or from its end. -/
def itemsFrom (item : Reader α) : Option α × List Char → Reading (List α)
  | (none, rest) => .ok ([], rest)
  | (some a, t) => (moreItems item t).map fun p => (a :: p.1, p.2)

theorem moreItems_eq (item : Reader α) (s : List Char) :
    moreItems item s = (nextItem item s).bind (itemsFrom item) := by
  rw [moreItems]
  split
  · rename_i h; rw [h]; rfl
  · rename_i h; rw [h]; rfl
  · rename_i h; rw [h]; rfl

theorem decided_itemsFrom (o : Option α) (hs : Settled s) (h : Decided (moreItems item) s) :
    Decided (fun r => itemsFrom item (o, r)) s := by
  cases o with
  | none => exact .value [] hs fun x => rfl
  | some a => exact h.map (a :: ·) fun x => rfl

theorem decided_moreItems (hi : item.Streams) {s : List Char} (hs : Settled s) :
    Decided (moreItems item) s :=
  (decided_nextItem hi hs).bind (fun x => moreItems_eq item _) fun o _ _h hr =>
    decided_itemsFrom o hr (decided_moreItems hi hr)
termination_by s.length
decreasing_by exact length_lt_of_nextItem _h

theorem listOf_run_list (h : readShape s = some (.list, t)) :
    (listOf item).run s = (firstItem item t).bind (itemsFrom item) := by
  simp only [listOf, h]
  rcases firstItem item t with e | ⟨_ | a, u⟩
  · rfl
  · rfl
  · rfl

theorem listOf_run_other {v : Shape} (h : readShape s = some (v, t)) (hv : v ≠ .list) :
    (listOf item).run s = .error (.mismatch (.wrongKind v .list)) := by
  simp only [listOf, h]

theorem listOf_streams (hi : item.Streams) : (listOf item).Streams where
  decided {s} hs := by
    cases h : readShape s with
    | none => exact .malformed (by simp only [listOf, h])
    | some p =>
      obtain ⟨v, t⟩ := p
      obtain ⟨ht, hx⟩ := readShape_of_settled h hs
      by_cases hv : v = .list
      · subst hv
        exact (decided_firstItem hi ht).bind (fun x => listOf_run_list (hx x)) fun o _ _ hr =>
          decided_itemsFrom o hr (decided_moreItems hi hr)
      · exact .mismatch _ fun x => listOf_run_other (hx x) hv
  blank hb := by simp only [listOf, readShape_of_blanks hb]

end Lists

/-! ## Records -/

section Records

variable {σ : Type} {fields : List (Field σ)} {s t : List Char}

/-- A member of a known name is refused by its name, or read with its value. -/
theorem decided_known {d : σ} {name : String} {f : Field σ} (hr : readString s = some (name, t))
    (ht : Settled t) (hfind : fields.find? (·.name = name) = some f) (hf : f.reader.Streams) :
    Decided (readMember fields d) ('"' :: s) := by
  have hx := readString_append hr
  cases hset : f.isSet d with
  | true =>
    refine .mismatch (.duplicateField name) fun x => ?_
    simp only [List.cons_append, readMember, hx, hfind, hset, if_true]
  | false =>
    cases hcolon : afterColon t with
    | none => exact .malformed (by simp only [readMember, hr, hfind, hset, hcolon]; rfl)
    | some u =>
      refine (hf.decided (ht.of_afterColon hcolon)).map (f.set · d) fun x => ?_
      simp only [List.cons_append, readMember, hx, hfind, hset, afterColon_append hcolon]
      rfl

/-- A member of another name is passed over. -/
theorem decided_unknown {d : σ} {name : String} (hr : readString s = some (name, t))
    (ht : Settled t) (hfind : fields.find? (·.name = name) = none) :
    Decided (readMember fields d) ('"' :: s) := by
  have hx := readString_append hr
  cases hskip : (afterColon t).bind skipValue with
  | none => exact .malformed (by simp only [readMember, hr, hfind, hskip])
  | some rest =>
    obtain ⟨u, hcolon, hu⟩ := Option.bind_eq_some_iff.1 hskip
    obtain ⟨hrest, hux⟩ := skipValue_of_settled hu (ht.of_afterColon hcolon)
    refine .value d hrest fun x => ?_
    simp only [List.cons_append, readMember, hx, hfind, afterColon_append hcolon,
      Option.bind_some, hux]

theorem decided_readMember (hf : ∀ f ∈ fields, f.reader.Streams) (d : σ) (hs : Settled s) :
    Decided (readMember fields d) s := by
  cases s with
  | nil => exact .malformed rfl
  | cons c s =>
    by_cases hc : c = '"'
    · subst hc
      cases hr : readString s with
      | none => exact .malformed (by simp only [readMember, hr])
      | some p =>
        obtain ⟨name, t⟩ := p
        have ht : Settled t := Settled.of_readString (.of_append (t := ['"']) hs) hr
        cases hfind : fields.find? (·.name = name) with
        | none => exact decided_unknown hr ht hfind
        | some f => exact decided_known hr ht hfind (hf f (List.mem_of_find?_eq_some hfind))
    · refine .malformed ?_
      unfold readMember
      split
      · rename_i h; exact absurd (List.cons.inj h).1 hc
      · rfl

theorem moreMembers_eq_of_comma {d : σ} (h : skipBlanks s = ',' :: t) :
    moreMembers fields d s =
      (readMember fields d (skipBlanks t)).bind fun p => moreMembers fields p.1 p.2 := by
  rw [moreMembers]
  split
  · rename_i h'; cases h.symm.trans h'
  · rename_i h'
    cases h.symm.trans h'
    split
    · rename_i hm; rw [hm]; rfl
    · rename_i hm; rw [hm]; rfl
  · rename_i h'; exact absurd h (h' t)

theorem moreMembers_of_ne {d : σ} (hclose : ∀ r, skipBlanks s ≠ '}' :: r)
    (hcomma : ∀ r, skipBlanks s ≠ ',' :: r) : moreMembers fields d s = .error .malformed := by
  rw [moreMembers]
  split
  · rename_i h; exact absurd h (hclose _)
  · rename_i h; exact absurd h (hcomma _)
  · rfl

theorem decided_moreMembers (hf : ∀ f ∈ fields, f.reader.Streams) (d : σ) {s : List Char}
    (hs : Settled s) : Decided (moreMembers fields d) s := by
  refine .of_close '}' d hs moreMembers_of_close fun hclose => ?_
  by_cases hcomma : ∃ r, skipBlanks s = ',' :: r
  · obtain ⟨t, h⟩ := hcomma
    have hmember := decided_readMember hf d (hs.of_skipBlanks h).dropBlanks
    refine (hmember.of_skipBlanks rfl).bind
      (fun x => moreMembers_eq_of_comma (skipBlanks_append_of_cons h x)) fun d' rest hr hrest => ?_
    have hlt : rest.length < s.length := by
      have := length_lt_of_skipBlanks h
      have := length_skipBlanks_le t
      have := length_lt_of_readMember hr
      omega
    exact decided_moreMembers hf d' hrest
  · exact .malformed (moreMembers_of_ne hclose (not_exists.1 hcomma))
termination_by s.length

theorem readMembers_of_ne {d : σ} (hclose : ∀ r, skipBlanks s ≠ '}' :: r) :
    readMembers fields d s =
      (readMember fields d (skipBlanks s)).bind fun p => moreMembers fields p.1 p.2 := by
  unfold readMembers
  split
  · rename_i h; exact absurd h (hclose _)
  · cases readMember fields d (skipBlanks s) <;> rfl

theorem decided_readMembers (hf : ∀ f ∈ fields, f.reader.Streams) (d : σ) (hs : Settled s) :
    Decided (readMembers fields d) s := by
  refine .of_close '}' d hs (fun h => by simp only [readMembers, h]) fun hclose => ?_
  by_cases hb : skipBlanks s = []
  · exact .malformed (by rw [readMembers_of_ne hclose, hb]; rfl)
  · exact ((decided_readMember hf d hs.dropBlanks).of_skipBlanks rfl).bind
      (fun x => readMembers_of_ne (skipBlanks_append_ne hb hclose x))
      fun d' _ _ hr => decided_moreMembers hf d' hr

/-- Reads members in order on from one of them, or from the end of the list. -/
def inOrderFrom (f : Field σ) (fields : List (Field σ)) (d : σ) :
    Option f.Value × List Char → Reading σ
  | (none, rest) => .ok (d, rest)
  | (some v, t) => moreInOrder (f.set v d) t fields

theorem moreInOrder_cons (f : Field σ) (fields : List (Field σ)) (d : σ) (s : List Char) :
    moreInOrder d s (f :: fields) = (nextItem f.reader s).bind (inOrderFrom f fields d) := by
  rw [moreInOrder]
  rcases nextItem f.reader s with e | ⟨_ | v, t⟩
  · rfl
  · rfl
  · rfl

theorem readInOrder_cons (f : Field σ) (fields : List (Field σ)) (d : σ) (s : List Char) :
    readInOrder d s (f :: fields) = (firstItem f.reader s).bind (inOrderFrom f fields d) := by
  rw [readInOrder]
  rcases firstItem f.reader s with e | ⟨_ | v, t⟩
  · rfl
  · rfl
  · rfl

theorem decided_inOrderFrom {f : Field σ} {d : σ} (o : Option f.Value) (hs : Settled s)
    (h : ∀ v, Decided (fun t => moreInOrder (f.set v d) t fields) s) :
    Decided (fun r => inOrderFrom f fields d (o, r)) s := by
  cases o with
  | none => exact .value d hs fun x => rfl
  | some v => exact h v

theorem decided_moreInOrder (hf : ∀ f ∈ fields, f.reader.Streams) (d : σ) (hs : Settled s) :
    Decided (fun t => moreInOrder d t fields) s := by
  induction fields generalizing d s with
  | nil =>
    refine .of_close ']' d hs (fun h => by simp only [moreInOrder, h]) fun hclose => .malformed ?_
    unfold moreInOrder
    split
    · rename_i h; exact absurd h (hclose _)
    · rfl
  | cons f fields ih =>
    obtain ⟨hf, hfs⟩ := List.forall_mem_cons.1 hf
    exact (decided_nextItem hf hs).bind (fun x => moreInOrder_cons f fields d _)
      fun o _ _ hr => decided_inOrderFrom o hr fun v => ih hfs _ hr

theorem decided_readInOrder (hf : ∀ f ∈ fields, f.reader.Streams) (d : σ) (hs : Settled s) :
    Decided (fun t => readInOrder d t fields) s := by
  cases fields with
  | nil => exact decided_moreInOrder hf d hs
  | cons f fields =>
    obtain ⟨hf, hfs⟩ := List.forall_mem_cons.1 hf
    exact (decided_firstItem hf hs).bind (fun x => readInOrder_cons f fields d _)
      fun o _ _ hr => decided_inOrderFrom o hr fun v => decided_moreInOrder hfs _ hr

/-- The value that a draft makes, or the mismatch for the member it lacks. -/
def Record.finish (r : Record σ α) (lacking : String → Mismatch) (p : σ × List Char) : Reading α :=
  match r.build p.1 with
  | .error name => .error (.mismatch (lacking name))
  | .ok a => .ok (a, p.2)

theorem decided_finish (r : Record σ α) (lacking : String → Mismatch) (d : σ) (hs : Settled s) :
    Decided (fun t => r.finish lacking (d, t)) s := by
  cases h : r.build d with
  | error name => exact .mismatch (lacking name) fun x => by simp only [Record.finish, h]
  | ok a => exact .value a hs fun x => by simp only [Record.finish, h]

section

variable {r : Record σ α}

theorem recordOf_run_object (h : readShape s = some (.record, t)) :
    (recordOf r).run s = (readMembers r.fields r.empty t).bind (r.finish .missingField) := by
  simp only [recordOf, h]
  cases readMembers r.fields r.empty t <;> rfl

theorem recordOf_run_list (h : readShape s = some (.list, t)) :
    (recordOf r).run s = (readInOrder r.empty t r.fields).bind (r.finish r.short) := by
  simp only [recordOf, h]
  cases readInOrder r.empty t r.fields <;> rfl

theorem recordOf_run_other {v : Shape} (h : readShape s = some (v, t)) (hl : v ≠ .list)
    (hr : v ≠ .record) :
    (recordOf r).run s = .error (.mismatch (.wrongKind v (.record r.kind))) := by
  simp only [recordOf, h]

theorem recordOf_streams (hf : ∀ f ∈ r.fields, f.reader.Streams) : (recordOf r).Streams where
  decided {s} hs := by
    cases h : readShape s with
    | none => exact .malformed (by simp only [recordOf, h])
    | some p =>
      obtain ⟨v, t⟩ := p
      obtain ⟨ht, hx⟩ := readShape_of_settled h hs
      by_cases hv : v = .record
      · subst hv
        exact (decided_readMembers hf r.empty ht).bind (fun x => recordOf_run_object (hx x))
          fun d _ _ hr => decided_finish r _ d hr
      by_cases hl : v = .list
      · subst hl
        exact (decided_readInOrder hf r.empty ht).bind (fun x => recordOf_run_list (hx x))
          fun d _ _ hr => decided_finish r _ d hr
      · exact .mismatch _ fun x => recordOf_run_other (hx x) hl hv
  blank hb := by simp only [recordOf, readShape_of_blanks hb]

end

end Records

/-! ## Whole texts -/

section Decode

variable {r : Reader α} {text : String}

theorem Reader.decode_eq_ok_iff {a : α} :
    r.decode text = .ok a ↔ ∃ rest, r.run text.toList = .ok (a, rest) ∧ Blanks rest := by
  unfold Reader.decode
  constructor
  · intro h
    split at h
    · cases h
    · rename_i rest hr
      split at h
      · rename_i hb
        cases h
        exact ⟨rest, hr, skipBlanks_eq_nil_iff.1 hb⟩
      · cases h
  · rintro ⟨rest, hr, hb⟩
    simp only [hr, skipBlanks_eq_nil_iff.2 hb, if_true]

theorem Reader.decode_eq_mismatch_iff {m : Mismatch} :
    r.decode text = .error (.mismatch m) ↔ r.run text.toList = .error (.mismatch m) := by
  unfold Reader.decode
  cases r.run text.toList with
  | error e => simp
  | ok p => by_cases h : skipBlanks p.2 = [] <;> simp [h]

/-- What becomes of the outcome of a text when more is added to it. A value stays when only blanks
are added, and anything else makes the text malformed. What was wrong with the value stays, whatever
is added, unless a number at the end of the text may go on. -/
structure Reader.GoesOn (r : Reader α) (text more : String) : Prop where
  blank : ∀ a, r.decode text = .ok a → Blanks more.toList → r.decode (text ++ more) = .ok a
  other : ∀ a, r.decode text = .ok a → ¬ Blanks more.toList →
    r.decode (text ++ more) = .error .malformed
  mismatch : ∀ m, r.decode text = .error (.mismatch m) → Settled text.toList →
    r.decode (text ++ more) = .error (.mismatch m)

/-- A reader that decides goes on in every text, when no value it takes ends in a digit. -/
theorem Reader.Streams.goesOn (h : r.Streams) {P : α → List Char → Prop} (hp : r.Accepts P)
    (hend : ∀ a t, P a t → Settled t) (text more : String) : r.GoesOn text more := by
  have hrun : ∀ a, r.decode text = .ok a → ∃ rest, Blanks rest ∧
      r.run (text ++ more).toList = .ok (a, rest ++ more.toList) := by
    intro a ha
    obtain ⟨b, t, b', hb, ht, hb', htext⟩ := (hp.decode_iff text a).1 ha
    have hset : Settled text.toList := by
      rw [htext]
      exact hb.settled.append ((hend a t ht).append hb'.settled)
    obtain ⟨rest, hr, hrest⟩ := Reader.decode_eq_ok_iff.1 ha
    exact ⟨rest, hrest, by rw [String.toList_append, (h.decided hset).ok_append hr]⟩
  refine ⟨fun a ha hmore => ?_, fun a ha hmore => ?_, fun m hm hset => ?_⟩
  · obtain ⟨rest, hrest, hr⟩ := hrun a ha
    exact Reader.decode_eq_ok_iff.2 ⟨_, hr, List.forall_mem_append.2 ⟨hrest, hmore⟩⟩
  · obtain ⟨rest, hrest, hr⟩ := hrun a ha
    have hleft : skipBlanks (rest ++ more.toList) ≠ [] := by
      rw [skipBlanks_append hrest]
      exact fun hb => hmore (skipBlanks_eq_nil_iff.1 hb)
    simp only [Reader.decode, hr, if_neg hleft]
  · rw [Reader.decode_eq_mismatch_iff] at hm ⊢
    rw [String.toList_append]
    exact (h.decided hset).mismatch_append hm _

end Decode

end Roster.Json
