/-
Passing over a JSON value of any kind and any depth. A list of open brackets stands for the values
around the one being read, so that no depth is too great. Numbers may be of any size here, and the
halves of a character may stand alone.
-/
import Roster.Json.Literal
import Roster.Json.Numeral

namespace Roster.Json

/-- What follows the word, literal or number at the head of a text. -/
def afterScalar : List Char → Option (List Char)
  | '"' :: s => (pieces s).map (·.2)
  | 'n' :: s => afterWord ['u', 'l', 'l'] s
  | 't' :: s => afterWord ['r', 'u', 'e'] s
  | 'f' :: s => afterWord ['a', 'l', 's', 'e'] s
  | s => (Numeral.read s).map (·.2)

/-- What follows a colon. -/
def afterColon (s : List Char) : Option (List Char) :=
  match skipBlanks s with
  | ':' :: rest => some rest
  | _ => none

/-- What follows a member's name and its colon; the name may denote no text. -/
def afterName : List Char → Option (List Char)
  | '"' :: s =>
    match pieces s with
    | some (_, rest) => afterColon rest
    | none => none
  | _ => none

theorem length_lt_of_afterScalar {s rest : List Char} (h : afterScalar s = some rest) :
    rest.length < s.length := by
  unfold afterScalar at h
  split at h
  · obtain ⟨p, hp, rfl⟩ := Option.map_eq_some_iff.1 h
    have := length_lt_of_pieces hp
    simp only [List.length_cons]
    omega
  · have := length_of_afterWord h
    simp only [List.length_cons] at this ⊢
    omega
  · have := length_of_afterWord h
    simp only [List.length_cons] at this ⊢
    omega
  · have := length_of_afterWord h
    simp only [List.length_cons] at this ⊢
    omega
  · obtain ⟨p, hp, rfl⟩ := Option.map_eq_some_iff.1 h
    exact Numeral.length_lt_of_read hp

theorem length_lt_of_afterColon {s rest : List Char} (h : afterColon s = some rest) :
    rest.length < s.length := by
  unfold afterColon at h
  split at h
  · rename_i hs
    cases h
    exact length_lt_of_skipBlanks hs
  · cases h

theorem length_lt_of_afterName {s rest : List Char} (h : afterName s = some rest) :
    rest.length < s.length := by
  unfold afterName at h
  split at h
  · split at h
    · rename_i hp
      have := length_lt_of_pieces hp
      have := length_lt_of_afterColon h
      simp only [List.length_cons]
      omega
    · cases h
  · cases h

/-- The kind of a value that is open around the one being read. -/
inductive Bracket where
  | list
  | record
  deriving DecidableEq, Repr

mutual

/-- What follows the outermost open value, read on from the start of a value in the innermost. -/
def skipIn (outer : List Bracket) (s : List Char) : Option (List Char) :=
  match _hs : skipBlanks s with
  | '[' :: t =>
    match _ht : skipBlanks t with
    | ']' :: rest => skipOut outer rest
    | _ => skipIn (.list :: outer) t
  | '{' :: t =>
    match _ht : skipBlanks t with
    | '}' :: rest => skipOut outer rest
    | u =>
      match _hn : afterName u with
      | some rest => skipIn (.record :: outer) rest
      | none => none
  | t =>
    match _ht : afterScalar t with
    | some rest => skipOut outer rest
    | none => none
termination_by s.length
decreasing_by
  all_goals grind [→ length_lt_of_skipBlanks, length_skipBlanks_le, → length_lt_of_afterScalar,
    → length_lt_of_afterName]

/-- What follows the outermost open value, read on from the end of a value in the innermost. -/
def skipOut (outer : List Bracket) (s : List Char) : Option (List Char) :=
  match outer with
  | [] => some s
  | .list :: outer =>
    match _hs : skipBlanks s with
    | ',' :: rest => skipIn (.list :: outer) rest
    | ']' :: rest => skipOut outer rest
    | _ => none
  | .record :: outer =>
    match _hs : skipBlanks s with
    | ',' :: t =>
      match _hn : afterName (skipBlanks t) with
      | some rest => skipIn (.record :: outer) rest
      | none => none
    | '}' :: rest => skipOut outer rest
    | _ => none
termination_by s.length
decreasing_by
  all_goals grind [→ length_lt_of_skipBlanks, length_skipBlanks_le, → length_lt_of_afterName]

end

/-- What follows the value at the head of a text, blanks in front of it included. -/
def skipValue (s : List Char) : Option (List Char) := skipIn [] s

/-- Reading on from the start of a value uses up text. -/
def SkipsSome (outer : List Bracket) (s : List Char) : Prop :=
  ∀ rest, skipIn outer s = some rest → rest.length < s.length

/-- Reading on from the end of a value gives no text back. -/
def SkipsOn (outer : List Bracket) (s : List Char) : Prop :=
  ∀ rest, skipOut outer s = some rest → rest.length ≤ s.length

theorem skipsSome (outer : List Bracket) (s : List Char) : SkipsSome outer s := by
  apply skipIn.induct SkipsSome SkipsOn
  case case8 =>
    intro s rest h
    rw [skipOut] at h
    cases h
    exact Nat.le_refl _
  case case1 | case2 | case3 | case4 | case5 | case6 | case7 =>
    intros
    intro rest h
    rw [skipIn] at h
    grind [→ length_lt_of_skipBlanks, length_skipBlanks_le, → length_lt_of_afterScalar,
      → length_lt_of_afterName, SkipsSome, SkipsOn]
  case case9 | case10 | case11 | case12 | case13 | case14 | case15 =>
    intros
    intro rest h
    rw [skipOut] at h
    grind [→ length_lt_of_skipBlanks, length_skipBlanks_le, → length_lt_of_afterName, SkipsSome,
      SkipsOn]

theorem length_lt_of_skipValue {s rest : List Char} (h : skipValue s = some rest) :
    rest.length < s.length := skipsSome [] s rest h

end Roster.Json
