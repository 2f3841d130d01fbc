/-
Readers of JSON values. A reader takes a value off the head of a text, with the blanks in front of
it, and leaves the rest, which is shorter. It looks no further than it must: a scalar of the wrong
kind is read to its end, a list or record of the wrong kind is refused at its bracket.
-/
import Roster.Json.Fault
import Roster.Json.Skip

namespace Roster.Json

variable {α : Type}

/-! ## What stands at the head of a text -/

/-- The scalar at the head of a text, or the bracket of a list or record, and what follows it. -/
def readShape (s : List Char) : Option (Shape × List Char) :=
  match skipBlanks s with
  | '[' :: rest => some (.list, rest)
  | '{' :: rest => some (.record, rest)
  | '"' :: t => (readString t).map fun p => (.string p.1, p.2)
  | 'n' :: t => (afterWord ['u', 'l', 'l'] t).map fun rest => (.null, rest)
  | 't' :: t => (afterWord ['r', 'u', 'e'] t).map fun rest => (.boolean true, rest)
  | 'f' :: t => (afterWord ['a', 'l', 's', 'e'] t).map fun rest => (.boolean false, rest)
  | t =>
    match Numeral.read t with
    | none => none
    | some (x, rest) => x.value?.map fun n => (.number n, rest)

theorem length_lt_of_readShape {s rest : List Char} {v : Shape}
    (h : readShape s = some (v, rest)) : rest.length < s.length := by
  have hb := length_skipBlanks_le s
  unfold readShape at h
  split at h
  · rename_i hs
    cases h
    exact length_lt_of_skipBlanks hs
  · rename_i hs
    cases h
    exact length_lt_of_skipBlanks hs
  · rename_i hs
    obtain ⟨p, hp, hv⟩ := Option.map_eq_some_iff.1 h
    cases hv
    have := length_lt_of_readString hp
    have := length_lt_of_skipBlanks hs
    omega
  · rename_i hs
    obtain ⟨p, hp, hv⟩ := Option.map_eq_some_iff.1 h
    cases hv
    have := length_of_afterWord hp
    have := length_lt_of_skipBlanks hs
    omega
  · rename_i hs
    obtain ⟨p, hp, hv⟩ := Option.map_eq_some_iff.1 h
    cases hv
    have := length_of_afterWord hp
    have := length_lt_of_skipBlanks hs
    omega
  · rename_i hs
    obtain ⟨p, hp, hv⟩ := Option.map_eq_some_iff.1 h
    cases hv
    have := length_of_afterWord hp
    have := length_lt_of_skipBlanks hs
    omega
  · split at h
    · cases h
    · rename_i hr
      obtain ⟨n, _, hv⟩ := Option.map_eq_some_iff.1 h
      cases hv
      have := Numeral.length_lt_of_read hr
      omega

/-! ## Readers -/

/-- The outcome of reading from the head of a text: a value and what follows it, or a fault. -/
abbrev Reading (α : Type) := Except Fault (α × List Char)

/-- A way to read values of one kind, each of at least one character. -/
structure Reader (α : Type) where
  run : List Char → Reading α
  length_lt : ∀ {s : List Char} {a : α} {rest : List Char},
    run s = .ok (a, rest) → rest.length < s.length

/-- Reads a whole text: after the value only blanks may follow. -/
def Reader.decode (r : Reader α) (text : String) : Except Fault α :=
  match r.run text.toList with
  | .error e => .error e
  | .ok (a, rest) => if skipBlanks rest = [] then .ok a else .error .malformed

/-- Reads a scalar whose value is accepted. -/
def scalar (accept : Shape → Except Mismatch α) : Reader α where
  run s :=
    match readShape s with
    | none => .error .malformed
    | some (v, rest) =>
      match accept v with
      | .error m => .error (.mismatch m)
      | .ok a => .ok (a, rest)
  length_lt {s a rest} h := by
    split at h
    · cases h
    · rename_i hs
      split at h
      · cases h
      · cases h
        exact length_lt_of_readShape hs

/-- Reads `null`. -/
def null : Reader Unit := scalar fun
  | .null => .ok ()
  | v => .error (.wrongKind v .null)

/-- Reads `true` or `false`. -/
def boolean : Reader Bool := scalar fun
  | .boolean b => .ok b
  | v => .error (.wrongKind v .boolean)

/-- Reads an index: a whole number of sixty-four bits that is not negative. -/
def index : Reader Nat := scalar fun
  | .number (.integer n) => if n < 0 then .error (.wrongNumber n .index) else .ok n.toNat
  | v => .error (.wrongKind v .index)

/-! ## Lists -/

/-- Reads the first item of a list after its bracket, or finds the list empty. -/
def firstItem (item : Reader α) (s : List Char) : Reading (Option α) :=
  match skipBlanks s with
  | ']' :: rest => .ok (none, rest)
  | _ => (item.run s).map fun p => (some p.1, p.2)

/-- Reads the next item of a list after its comma, or finds the list at its end. -/
def nextItem (item : Reader α) (s : List Char) : Reading (Option α) :=
  match skipBlanks s with
  | ']' :: rest => .ok (none, rest)
  | ',' :: rest => (item.run rest).map fun p => (some p.1, p.2)
  | _ => .error .malformed

theorem length_lt_of_firstItem {item : Reader α} {s rest : List Char} {a : Option α}
    (h : firstItem item s = .ok (a, rest)) : rest.length < s.length := by
  unfold firstItem at h
  split at h
  · rename_i hs
    cases h
    exact length_lt_of_skipBlanks hs
  · cases hr : item.run s with
    | error e => rw [hr] at h; cases h
    | ok p => rw [hr] at h; cases h; exact item.length_lt hr

theorem length_lt_of_nextItem {item : Reader α} {s rest : List Char} {a : Option α}
    (h : nextItem item s = .ok (a, rest)) : rest.length < s.length := by
  unfold nextItem at h
  split at h
  · rename_i hs
    cases h
    exact length_lt_of_skipBlanks hs
  · rename_i t hs
    cases hr : item.run t with
    | error e => rw [hr] at h; cases h
    | ok p =>
      rw [hr] at h
      cases h
      have := item.length_lt hr
      have := length_lt_of_skipBlanks hs
      omega
  · cases h

/-- Reads the items that are left of a list, with its closing bracket. -/
def moreItems (item : Reader α) (s : List Char) : Reading (List α) :=
  match _h : nextItem item s with
  | .error e => .error e
  | .ok (none, rest) => .ok ([], rest)
  | .ok (some a, t) => (moreItems item t).map fun p => (a :: p.1, p.2)
termination_by s.length
decreasing_by exact length_lt_of_nextItem _h

theorem length_lt_of_moreItems {item : Reader α} {s rest : List Char} {as : List α}
    (h : moreItems item s = .ok (as, rest)) : rest.length < s.length := by
  fun_induction moreItems item s generalizing as with
  | case1 => cases h
  | case2 s r hn => cases h; exact length_lt_of_nextItem hn
  | case3 s a t hn ih =>
    cases hm : moreItems item t with
    | error e => rw [hm] at h; cases h
    | ok p =>
      rw [hm] at h
      cases h
      have := ih hm
      have := length_lt_of_nextItem hn
      omega

/-- Reads a list of items. -/
def listOf (item : Reader α) : Reader (List α) where
  run s :=
    match readShape s with
    | none => .error .malformed
    | some (.list, t) =>
      match firstItem item t with
      | .error e => .error e
      | .ok (none, rest) => .ok ([], rest)
      | .ok (some a, u) => (moreItems item u).map fun p => (a :: p.1, p.2)
    | some (v, _) => .error (.mismatch (.wrongKind v .list))
  length_lt {s as rest} h := by
    split at h
    · cases h
    · rename_i hs
      have := length_lt_of_readShape hs
      split at h
      · cases h
      · rename_i hf
        cases h
        have := length_lt_of_firstItem hf
        omega
      · rename_i u hf
        have := length_lt_of_firstItem hf
        cases hm : moreItems item u with
        | error e => rw [hm] at h; cases h
        | ok p =>
          rw [hm] at h
          cases h
          have := length_lt_of_moreItems hm
          omega
    · cases h

end Roster.Json
