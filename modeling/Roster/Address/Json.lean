/-
Addresses and lists of them as JSON. An address is a string in its text form, read in any of its
spellings and written without escapes.
-/
import Roster.Json.Reader

namespace Roster.Address

/-- Reads a string that is an address. -/
def reader : Json.Reader Address := Json.scalar fun
  | .string text => (parse text).mapError .address
  | v => .error (.wrongKind v .string)

/-- Reads a list of addresses. -/
def listReader : Json.Reader (List Address) := Json.listOf reader

/-- The address as a JSON string; none of its characters needs an escape. -/
def toJson (a : Address) : String := "\"" ++ a.render ++ "\""

/-- A list of addresses as JSON without blanks. -/
def listToJson (xs : List Address) : String :=
  "[" ++ String.intercalate "," (xs.map toJson) ++ "]"

end Roster.Address
