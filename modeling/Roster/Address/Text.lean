/-
Addresses as text: `0x` and hexadecimal digits. Reading takes up to forty digits of either letter
case, an odd number of them too, and fills up with zeros on the left; writing gives forty
lower-case digits. What is wrong with a text is told in this order: the mark in front, the first
byte that is no digit, the length.
-/
import Roster.Address.Basic
import Roster.Text.Quoted

namespace Roster.Address

/-! ## Reading -/

/-- Why a text is no address. -/
inductive ParseError where
  /-- The text does not begin with `0x`. -/
  | missingMark (text : String)
  /-- A byte is no hexadecimal digit; its offset counts the zero that completes an odd run. -/
  | badDigit (bad : Hex.BadDigit)
  /-- There are more than forty digits, which fill this many bytes. -/
  | tooLong (bytes : Nat)
  deriving DecidableEq, Repr

/-- The message for a text that is no address. -/
def ParseError.message : ParseError → String
  | .missingMark text =>
    "fail to strip 0x-prefix: given value " ++ text ++ " does not start with 0x"
  | .badDigit bad =>
    "fail to parse a hex string: Invalid character " ++
      Text.quotedChar (Char.ofNat bad.byte.toNat) ++ " at position " ++ toString bad.offset
  | .tooLong bytes => "too long hexadecimal sequence: " ++ toString bytes ++ " bytes"

/-- The address that a run of digit bytes denotes. An odd run is completed with a zero in front. -/
def parseDigits (bs : List UInt8) : Except ParseError Address :=
  match Hex.readFrom (bs.length % 2) bs with
  | .error bad => .error (.badDigit bad)
  | .ok ds =>
    if h : ds.length ≤ 40 then .ok (ofDigits ds h) else .error (.tooLong ((ds.length + 1) / 2))

/-- Reads `0x` and digits. What follows the mark is taken as its UTF-8 bytes. -/
def parse (text : String) : Except ParseError Address :=
  match text.toList with
  | '0' :: 'x' :: digits => parseDigits (digits.flatMap String.utf8EncodeChar)
  | _ => .error (.missingMark text)

/-- Reads a list of addresses; the first text that is none decides the error. -/
def parseAll (texts : List String) : Except ParseError (List Address) := texts.mapM parse

/-! ## Writing -/

/-- The characters of an address: `0x` and forty lower-case digits. -/
def chars (a : Address) : List Char := '0' :: 'x' :: Hex.encode a.bytes

/-- The address as text. -/
def render (a : Address) : String := String.ofList a.chars

instance : ToString Address := ⟨render⟩

/-- Whether an address comes back from its text. -/
def readsBack (a : Address) : Bool :=
  match parse a.render with
  | .ok b => a = b
  | .error _ => false

/-- The address byte by byte, in decimal. -/
def diagnostic (a : Address) : String :=
  "Address([" ++ String.intercalate ", " (a.bytes.map fun b => toString b.toNat) ++ "])"

end Roster.Address
