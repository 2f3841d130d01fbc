/-
The grammar of JSON text, written without any reader: blanks, string literals and the texts they
denote, numbers, and values of any depth. A phrase is told by its characters alone, never by what
follows it, so that phrases are put together by putting their characters one after the other.
-/
import Roster.Json.Literal
import Roster.Json.Numeral
import Roster.Proofs.Hex

namespace Roster.Json

variable {α : Type}

/-! ## Blanks -/

/-- Any number of spaces, tabs, line feeds and carriage returns. -/
def Blanks (t : List Char) : Prop := ∀ c ∈ t, c = ' ' ∨ c = '\t' ∨ c = '\n' ∨ c = '\r'

/-- A phrase with blanks on either side. -/
def Padded (P : List Char → Prop) (t : List Char) : Prop :=
  ∃ b u b', Blanks b ∧ P u ∧ Blanks b' ∧ t = b ++ (u ++ b')

/-! ## String literals -/

/-- The letters that may follow a backslash, each with the character it then stands for. -/
def shortEscapes : List (Char × Char) :=
  [('"', '"'), ('\\', '\\'), ('/', '/'), ('b', '\x08'), ('f', '\x0c'), ('n', '\n'), ('r', '\r'),
    ('t', '\t')]

/-- Four hexadecimal digits that write this number. -/
structure CodeUnit (n : Nat) (t : List Char) : Prop where
  length : t.length = 4
  isDigit : ∀ c ∈ t, Hex.IsDigit c
  number : Hex.number t = n

/-- How a piece of a literal is written: a character as it is, if it is neither a control nor a
quote nor a backslash, or by its short escape; a code unit by four digits. -/
inductive Piece.Written : Piece → List Char → Prop where
  | raw {c : Char} : ' ' ≤ c → c ≠ '"' → c ≠ '\\' → Written (.plain c) [c]
  | short {e c : Char} : (e, c) ∈ shortEscapes → Written (.plain c) ['\\', e]
  | unit {n : Nat} {t : List Char} : CodeUnit n t → Written (.unit n) ('\\' :: 'u' :: t)

/-- How a character of a text is written in a literal: as a plain piece, by its code, or by the two
surrogates that make it up. -/
inductive Spelling (c : Char) : List Char → Prop where
  | plain {t : List Char} : Piece.Written (.plain c) t → Spelling c t
  | unit {t : List Char} : Piece.Written (.unit c.toNat) t → Spelling c t
  | pair {high low : Nat} {t u : List Char} : high < 0x400 → low < 0x400 →
      c.toNat = 0x10000 + 0x400 * high + low → Piece.Written (.unit (0xD800 + high)) t →
      Piece.Written (.unit (0xDC00 + low)) u → Spelling c (t ++ u)

/-- Phrases one right after the other. -/
inductive Run (P : α → List Char → Prop) : List α → List Char → Prop where
  | nil : Run P [] []
  | cons {x : α} {xs : List α} {t u : List Char} : P x t → Run P xs u → Run P (x :: xs) (t ++ u)

/-- A string literal, whether or not it denotes a text. -/
def IsLiteral (t : List Char) : Prop :=
  ∃ ps u, Run Piece.Written ps u ∧ t = '"' :: (u ++ ['"'])

/-- A string literal that denotes this text. -/
def Literal (s : String) (t : List Char) : Prop :=
  ∃ u, Run Spelling s.toList u ∧ t = '"' :: (u ++ ['"'])

/-! ## Numbers -/

namespace Numeral

/-- What a decimal digit is worth. -/
def worth (c : Char) : Nat := c.toNat - '0'.toNat

/-- Decimal digits, at least one. -/
structure IsDigits (t : List Char) : Prop where
  ne_nil : t ≠ []
  isDigit : ∀ c ∈ t, c.isDigit = true

/-- Decimal digits without a zero in front of others. -/
structure IsWhole (t : List Char) : Prop extends IsDigits t where
  plain : t.head? = some '0' → t = ['0']

/-- A minus sign or none. -/
inductive Sign : Bool → List Char → Prop where
  | minus : Sign true ['-']
  | absent : Sign false []

/-- The sign of an exponent, which may also be a plus. -/
inductive ExponentSign : Bool → List Char → Prop where
  | plus : ExponentSign false ['+']
  | sign {negative : Bool} {t : List Char} : Sign negative t → ExponentSign negative t

/-- The digits after a point, or nothing. -/
inductive Fraction : List Nat → List Char → Prop where
  | absent : Fraction [] []
  | present {t : List Char} : IsDigits t → Fraction (t.map worth) ('.' :: t)

/-- An exponent after `e` or `E`, or nothing. -/
inductive Exponent : Option Int → List Char → Prop where
  | absent : Exponent none []
  | present {e : Char} {negative : Bool} {s t : List Char} : e = 'e' ∨ e = 'E' →
      ExponentSign negative s → IsDigits t →
      Exponent (some (signed negative (t.map worth))) (e :: (s ++ t))

/-- How a number is written. -/
inductive Written : Numeral → List Char → Prop where
  | mk {negative : Bool} {fraction : List Nat} {exponent : Option Int} {s w f e : List Char} :
      Sign negative s → IsWhole w → Fraction fraction f → Exponent exponent e →
      Written ⟨negative, w.map worth, fraction, exponent⟩ (s ++ (w ++ (f ++ e)))

end Numeral

/-- An unsigned number without fraction and exponent that denotes this index. -/
structure Index (i : Nat) (t : List Char) : Prop where
  isWhole : Numeral.IsWhole t
  number : Nat.ofDigitChars 10 t 0 = i
  lt : i < 2 ^ 64

/-- The word for this flag. -/
def Flag (b : Bool) (t : List Char) : Prop :=
  t = if b then ['t', 'r', 'u', 'e'] else ['f', 'a', 'l', 's', 'e']

/-! ## Lists and objects -/

/-- What follows an item: the closing bracket, or a comma and another item. -/
inductive Continued (close : Char) (P : α → List Char → Prop) : List α → List Char → Prop where
  | nil {b : List Char} : Blanks b → Continued close P [] (b ++ [close])
  | cons {b b' t u : List Char} {x : α} {xs : List α} : Blanks b → Blanks b' → P x t →
      Continued close P xs u → Continued close P (x :: xs) (b ++ ',' :: (b' ++ (t ++ u)))

/-- Items between brackets, with commas between them and blanks around each. -/
inductive Enclosed (opening close : Char) (P : α → List Char → Prop) :
    List α → List Char → Prop where
  | nil {b : List Char} : Blanks b → Enclosed opening close P [] (opening :: (b ++ [close]))
  | cons {b t u : List Char} {x : α} {xs : List α} : Blanks b → P x t → Continued close P xs u →
      Enclosed opening close P (x :: xs) (opening :: (b ++ (t ++ u)))

/-- Items of a list or object that is not yet closed, each with the comma after it. -/
inductive Begun (P : α → List Char → Prop) : List α → List Char → Prop where
  | nil : Begun P [] []
  | cons {b b' t u : List Char} {x : α} {xs : List α} : Blanks b → P x t → Blanks b' →
      Begun P xs u → Begun P (x :: xs) (b ++ (t ++ (b' ++ ',' :: u)))

/-- A member of an object: its key, a colon, its value. -/
def Member (m : List Char × List Char) (t : List Char) : Prop :=
  ∃ b b', Blanks b ∧ Blanks b' ∧ t = m.1 ++ (b ++ ':' :: (b' ++ m.2))

/-- A member whose key denotes this name. -/
def NamedMember (m : String × List Char) (t : List Char) : Prop :=
  ∃ key, Literal m.1 key ∧ Member (key, m.2) t

/-- The values of the members with this name, in order. -/
def valuesOf (name : String) (ms : List (String × List Char)) : List (List Char) :=
  (ms.filter fun m => m.1 = name).map (·.2)

/-! ## Values -/

/-- A well-formed JSON value, of any depth and with numbers of any size. -/
inductive IsValue : List Char → Prop where
  | null : IsValue ['n', 'u', 'l', 'l']
  | flag {b : Bool} {t : List Char} : Flag b t → IsValue t
  | number {x : Numeral} {t : List Char} : x.Written t → IsValue t
  | literal {t : List Char} : IsLiteral t → IsValue t
  | list {vs : List (List Char)} {t : List Char} : Enclosed '[' ']' Eq vs t →
      (∀ v ∈ vs, IsValue v) → IsValue t
  | object {ms : List (List Char × List Char)} {t : List Char} : Enclosed '{' '}' Member ms t →
      (∀ m ∈ ms, IsLiteral m.1) → (∀ m ∈ ms, IsValue m.2) → IsValue t

end Roster.Json
