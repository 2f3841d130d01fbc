/-
Texts and characters in quotes, for messages. The quote in use, the backslash and the common
controls have short escapes; any other character that does not print is written by its code.
-/
import Roster.Text.Unprinted

namespace Roster.Text

/-- The code in lower-case hexadecimal without leading zeros. -/
def hexCode (c : Char) : String := String.ofList (Nat.toDigits 16 c.toNat)

/-- A character as it stands between two of the given quotes. -/
def escaped (quote : Char) (c : Char) : String :=
  match c with
  | '\x00' => "\\0"
  | '\t' => "\\t"
  | '\n' => "\\n"
  | '\r' => "\\r"
  | '\\' => "\\\\"
  | _ =>
    if c = quote then "\\" ++ String.singleton c
    else if isUnprinted c then "\\u\x7b" ++ hexCode c ++ "\x7d"
    else String.singleton c

/-- The character in single quotes. -/
def quotedChar (c : Char) : String := "'" ++ escaped '\'' c ++ "'"

/-- The text in double quotes. -/
def quoted (s : String) : String := "\"" ++ String.join (s.toList.map (escaped '"')) ++ "\""

end Roster.Text
