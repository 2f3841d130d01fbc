/-
Readers of records. A record is written as an object or as the list of its members in order. In an
object the members come in any order, those not known are passed over, and one that comes twice is
refused before its value is looked at. What is absent is told at the closing bracket.
-/
import Roster.Json.Reader

namespace Roster.Json

variable {σ α : Type}

/-- A member of a record that is read into drafts of type `σ`: its name, whether a draft has it, and
the reader of its value. -/
structure Field (σ : Type) where
  name : String
  isSet : σ → Bool
  Value : Type
  reader : Reader Value
  set : Value → σ → σ

/-! ## Objects -/

/-- Reads one member into the draft, from its name on. -/
def readMember (fields : List (Field σ)) (draft : σ) : List Char → Reading σ
  | '"' :: s =>
    match readString s with
    | none => .error .malformed
    | some (name, t) =>
      match fields.find? (·.name = name) with
      | some f =>
        if f.isSet draft then .error (.mismatch (.duplicateField name))
        else
          match afterColon t with
          | none => .error .malformed
          | some u => (f.reader.run u).map fun p => (f.set p.1 draft, p.2)
      | none =>
        match (afterColon t).bind skipValue with
        | none => .error .malformed
        | some rest => .ok (draft, rest)
  | _ => .error .malformed

theorem length_lt_of_readMember {fields : List (Field σ)} {draft d : σ} {s rest : List Char}
    (h : readMember fields draft s = .ok (d, rest)) : rest.length < s.length := by
  unfold readMember at h
  split at h
  · rename_i s
    split at h
    · cases h
    · rename_i name t hs
      have hs := length_lt_of_readString hs
      split at h
      · rename_i f _
        split at h
        · cases h
        · split at h
          · cases h
          · rename_i u hc
            have hc := length_lt_of_afterColon hc
            cases hr : f.reader.run u with
            | error e => rw [hr] at h; cases h
            | ok p =>
              rw [hr] at h
              cases h
              have := f.reader.length_lt hr
              simp only [List.length_cons]
              omega
      · split at h
        · cases h
        · rename_i hv
          cases h
          obtain ⟨u, hc, hv⟩ := Option.bind_eq_some_iff.1 hv
          have := length_lt_of_afterColon hc
          have := length_lt_of_skipValue hv
          simp only [List.length_cons]
          omega
  · cases h

/-- Reads the members that are left of an object, with its closing bracket. -/
def moreMembers (fields : List (Field σ)) (draft : σ) (s : List Char) : Reading σ :=
  match _hs : skipBlanks s with
  | '}' :: rest => .ok (draft, rest)
  | ',' :: t =>
    match _hm : readMember fields draft (skipBlanks t) with
    | .error e => .error e
    | .ok (d, u) => moreMembers fields d u
  | _ => .error .malformed
termination_by s.length
decreasing_by
  have := length_lt_of_skipBlanks _hs
  have := length_skipBlanks_le t
  have := length_lt_of_readMember _hm
  omega

/-- Reads the members of an object after its bracket. -/
def readMembers (fields : List (Field σ)) (draft : σ) (s : List Char) : Reading σ :=
  match skipBlanks s with
  | '}' :: rest => .ok (draft, rest)
  | t =>
    match readMember fields draft t with
    | .error e => .error e
    | .ok (d, u) => moreMembers fields d u

theorem length_lt_of_moreMembers {fields : List (Field σ)} {draft d : σ} {s rest : List Char}
    (h : moreMembers fields draft s = .ok (d, rest)) : rest.length < s.length := by
  fun_induction moreMembers fields draft s with
  | case1 draft s rest hs => cases h; exact length_lt_of_skipBlanks hs
  | case2 => cases h
  | case3 draft s t hs d u hm ih =>
    have := length_lt_of_skipBlanks hs
    have := length_skipBlanks_le t
    have := length_lt_of_readMember hm
    have := ih h
    omega
  | case4 => cases h

theorem length_lt_of_readMembers {fields : List (Field σ)} {draft d : σ} {s rest : List Char}
    (h : readMembers fields draft s = .ok (d, rest)) : rest.length < s.length := by
  unfold readMembers at h
  split at h
  · rename_i hs
    cases h
    exact length_lt_of_skipBlanks hs
  · split at h
    · cases h
    · rename_i hm
      have := length_lt_of_readMember hm
      have := length_lt_of_moreMembers h
      have := length_skipBlanks_le s
      omega

/-! ## Lists of members -/

/-- Reads members in order after a first one, with the closing bracket; the last may be absent. -/
def moreInOrder (draft : σ) (s : List Char) : List (Field σ) → Reading σ
  | [] =>
    match skipBlanks s with
    | ']' :: rest => .ok (draft, rest)
    | _ => .error .malformed
  | f :: fields =>
    match nextItem f.reader s with
    | .error e => .error e
    | .ok (none, rest) => .ok (draft, rest)
    | .ok (some v, t) => moreInOrder (f.set v draft) t fields

/-- Reads members in order after the bracket of a list; the last may be absent. -/
def readInOrder (draft : σ) (s : List Char) : List (Field σ) → Reading σ
  | [] => moreInOrder draft s []
  | f :: fields =>
    match firstItem f.reader s with
    | .error e => .error e
    | .ok (none, rest) => .ok (draft, rest)
    | .ok (some v, t) => moreInOrder (f.set v draft) t fields

theorem length_lt_of_moreInOrder {fields : List (Field σ)} {draft d : σ} {s rest : List Char}
    (h : moreInOrder draft s fields = .ok (d, rest)) : rest.length < s.length := by
  fun_induction moreInOrder draft s fields with
  | case1 draft s rest hs => cases h; exact length_lt_of_skipBlanks hs
  | case2 => cases h
  | case3 => cases h
  | case4 draft s f fields rest hn => cases h; exact length_lt_of_nextItem hn
  | case5 draft s f fields v t hn ih =>
    have := length_lt_of_nextItem hn
    have := ih h
    omega

theorem length_lt_of_readInOrder {fields : List (Field σ)} {draft d : σ} {s rest : List Char}
    (h : readInOrder draft s fields = .ok (d, rest)) : rest.length < s.length := by
  unfold readInOrder at h
  split at h
  · exact length_lt_of_moreInOrder h
  · split at h
    · cases h
    · rename_i hf
      cases h
      exact length_lt_of_firstItem hf
    · rename_i hf
      have := length_lt_of_firstItem hf
      have := length_lt_of_moreInOrder h
      omega

/-! ## Records -/

/-- A kind of record: its name, its members in order, the draft that has none of them, and the value
that a draft makes, or the name of the first member it lacks. -/
structure Record (σ α : Type) where
  kind : String
  fields : List (Field σ)
  empty : σ
  build : σ → Except String α

/-- What is told of a list of members that ends before the one with this name. -/
def Record.short (r : Record σ α) (name : String) : Mismatch :=
  .shortRecord (r.fields.findIdx (·.name = name)) r.kind r.fields.length

/-- Reads a record. -/
def recordOf (r : Record σ α) : Reader α where
  run s :=
    match readShape s with
    | none => .error .malformed
    | some (.record, t) =>
      match readMembers r.fields r.empty t with
      | .error e => .error e
      | .ok (draft, rest) =>
        match r.build draft with
        | .error name => .error (.mismatch (.missingField name))
        | .ok a => .ok (a, rest)
    | some (.list, t) =>
      match readInOrder r.empty t r.fields with
      | .error e => .error e
      | .ok (draft, rest) =>
        match r.build draft with
        | .error name => .error (.mismatch (r.short name))
        | .ok a => .ok (a, rest)
    | some (v, _) => .error (.mismatch (.wrongKind v (.record r.kind)))
  length_lt {s a rest} h := by
    split at h
    · cases h
    · rename_i hs
      have := length_lt_of_readShape hs
      split at h
      · cases h
      · rename_i hm
        have := length_lt_of_readMembers hm
        split at h
        · cases h
        · cases h; omega
    · rename_i hs
      have := length_lt_of_readShape hs
      split at h
      · cases h
      · rename_i hm
        have := length_lt_of_readInOrder hm
        split at h
        · cases h
        · cases h; omega
    · cases h

end Roster.Json
