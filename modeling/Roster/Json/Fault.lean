/-
What can be wrong with a JSON text. A text is malformed, or it is well formed as far as it was read
but does not hold the value that was wanted; the second kind comes with a cause and its message.
-/
import Roster.Address.Text
import Roster.Decimal.Layout
import Roster.Json.Numeral

namespace Roster.Json

/-- What stands at a place of a text: a scalar with its value, or the start of a list or record. -/
inductive Shape where
  | null
  | boolean (b : Bool)
  | number (n : Number)
  | string (s : String)
  | list
  | record
  deriving DecidableEq, Repr

/-- Numbers in messages have no exponent from `0.00001` up to, but without, `10 ^ 16`. -/
def numberLayout : Decimal.Layout := ⟨-5, 15⟩

/-- A number in a message. -/
def Number.describe : Number → String
  | .integer n => "integer `" ++ toString n ++ "`"
  | .float x => "floating point `" ++ numberLayout.render x ++ "`"

/-- What stands at a place, in a message. -/
def Shape.describe : Shape → String
  | null => "null"
  | boolean b => "boolean `" ++ toString b ++ "`"
  | number n => n.describe
  | string s => "string " ++ Text.quoted s
  | list => "sequence"
  | record => "map"

/-- What a reader wants to find. -/
inductive Expected where
  | null
  | boolean
  /-- A whole number of sixty-four bits, not negative. -/
  | index
  | string
  | list
  /-- A record of the kind with this name. -/
  | record (kind : String)
  deriving DecidableEq, Repr

/-- What a reader wants, in a message. -/
def Expected.describe : Expected → String
  | null => "unit"
  | boolean => "a boolean"
  | index => "usize"
  | string => "a string"
  | list => "a sequence"
  | record kind => "struct " ++ kind

/-- Why a well-formed text does not hold the value that was wanted. -/
inductive Mismatch where
  /-- Something of another kind stands there. -/
  | wrongKind (found : Shape) (wanted : Expected)
  /-- A number of the right kind is out of range. -/
  | wrongNumber (n : Int) (wanted : Expected)
  /-- A record's member comes a second time. -/
  | duplicateField (name : String)
  /-- A record lacks a member. -/
  | missingField (name : String)
  /-- A record written as a list has `len` members instead of `size`. -/
  | shortRecord (len : Nat) (kind : String) (size : Nat)
  /-- A name is none of those known. -/
  | unknownName (name : String) (known : List String)
  /-- A string is no address. -/
  | address (e : Address.ParseError)
  deriving DecidableEq, Repr

/-- The message for a value that was not wanted. -/
def Mismatch.message : Mismatch → String
  | wrongKind found wanted =>
    "invalid type: " ++ found.describe ++ ", expected " ++ wanted.describe
  | wrongNumber n wanted =>
    "invalid value: " ++ (Number.integer n).describe ++ ", expected " ++ wanted.describe
  | duplicateField name => "duplicate field `" ++ name ++ "`"
  | missingField name => "missing field `" ++ name ++ "`"
  | shortRecord len kind size =>
    "invalid length " ++ toString len ++ ", expected struct " ++ kind ++ " with " ++
      toString size ++ " elements"
  | unknownName name known =>
    "unknown variant `" ++ name ++ "`, expected " ++
      String.intercalate " or " (known.map fun k => "`" ++ k ++ "`")
  | address e => e.message

/-- Why a text holds no value of the kind wanted. The first fault from left to right counts. -/
inductive Fault where
  /-- The text is no JSON at the place where reading stopped, its end included. -/
  | malformed
  /-- The text is well formed so far, but another value was wanted. -/
  | mismatch (m : Mismatch)
  deriving DecidableEq, Repr

end Roster.Json
