/-
Scans as JSON: a name, or an object whose only member has that name and the value `null`. A name
that is not known is refused as soon as it has been read, in either form. The key of that object is
a string as all keys are: one that is not makes the text malformed, whatever else it may be.
-/
import Roster.Json.Reader
import Roster.Scan

namespace Roster.Scan

/-- Reads the name of a scan after its opening quote. -/
def readName (s : List Char) : Json.Reading Scan :=
  match Json.readString s with
  | none => .error .malformed
  | some (name, rest) =>
    match ofName? name with
    | none => .error (.mismatch (.unknownName name [pairwise.name, hashSet.name]))
    | some scan => .ok (scan, rest)

/-- Reads the `null` after the name of a scan, and the end of the object that holds it. -/
def readUnit (s : List Char) : Json.Reading Unit :=
  match Json.afterColon s with
  | none => .error .malformed
  | some t =>
    match Json.null.run t with
    | .error e => .error e
    | .ok ((), u) =>
      match Json.skipBlanks u with
      | '}' :: rest => .ok ((), rest)
      | _ => .error .malformed

/-- Reads a scan in either form. -/
def read (s : List Char) : Json.Reading Scan :=
  match Json.skipBlanks s with
  | '"' :: t => readName t
  | '{' :: t =>
    match Json.skipBlanks t with
    | '"' :: u =>
      match readName u with
      | .error e => .error e
      | .ok (scan, v) => (readUnit v).map fun p => (scan, p.2)
    | _ => .error .malformed
  | _ => .error .malformed

theorem length_lt_of_readName {s rest : List Char} {scan : Scan}
    (h : readName s = .ok (scan, rest)) : rest.length < s.length := by
  unfold readName at h
  split at h
  · cases h
  · rename_i hs
    split at h
    · cases h
    · cases h; exact Json.length_lt_of_readString hs

theorem length_lt_of_readUnit {s rest : List Char} {u : Unit}
    (h : readUnit s = .ok (u, rest)) : rest.length < s.length := by
  unfold readUnit at h
  split at h
  · cases h
  · rename_i hc
    have := Json.length_lt_of_afterColon hc
    split at h
    · cases h
    · rename_i hn
      have := Json.null.length_lt hn
      split at h
      · rename_i hs
        have := Json.length_lt_of_skipBlanks hs
        cases h
        omega
      · cases h

theorem length_lt_of_read {s rest : List Char} {scan : Scan}
    (h : read s = .ok (scan, rest)) : rest.length < s.length := by
  unfold read at h
  split at h
  · rename_i hs
    have := Json.length_lt_of_skipBlanks hs
    have := length_lt_of_readName h
    omega
  · rename_i hs
    have := Json.length_lt_of_skipBlanks hs
    split at h
    · rename_i ht
      have := Json.length_lt_of_skipBlanks ht
      split at h
      · cases h
      · rename_i v hn
        have := length_lt_of_readName hn
        cases hu : readUnit v with
        | error e => rw [hu] at h; cases h
        | ok p =>
          rw [hu] at h
          cases h
          have := length_lt_of_readUnit hu
          omega
    · cases h
  · cases h

/-- Reads a scan. -/
def reader : Json.Reader Scan where
  run := read
  length_lt := length_lt_of_read

/-- The name of a scan as a JSON string. -/
def toJson (scan : Scan) : String := "\"" ++ scan.name ++ "\""

end Roster.Scan
