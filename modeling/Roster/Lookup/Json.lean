/-
Answers of a search as JSON records of an index and a flag. A record is read as it stands: nothing
ties its flag to its index.
-/
import Roster.Json.Record
import Roster.Lookup

namespace Roster.Lookup

/-- A record of a search as far as it has been read. -/
structure Draft where
  index : Option Nat
  found : Option Bool

/-- The member that holds the index. -/
def indexField : Json.Field Draft where
  name := "index"
  isSet d := d.index.isSome
  Value := Nat
  reader := Json.index
  set i d := { d with index := some i }

/-- The member that holds the flag. -/
def foundField : Json.Field Draft where
  name := "found"
  isSet d := d.found.isSome
  Value := Bool
  reader := Json.boolean
  set b d := { d with found := some b }

/-- Records of a search; both members must be present. -/
def record : Json.Record Draft Lookup where
  kind := "IndexOf"
  fields := [indexField, foundField]
  empty := ⟨none, none⟩
  build
    | ⟨none, _⟩ => .error "index"
    | ⟨some _, none⟩ => .error "found"
    | ⟨some i, some b⟩ => .ok ⟨i, b⟩

/-- Reads the answer of a search. -/
def reader : Json.Reader Lookup := Json.recordOf record

/-- The answer of a search as JSON without blanks. -/
def toJson (r : Lookup) : String :=
  "\x7b\"index\":" ++ toString r.index ++ ",\"found\":" ++ toString r.found ++ "\x7d"

end Roster.Lookup
