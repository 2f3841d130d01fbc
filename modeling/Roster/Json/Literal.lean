/-
The lexical layer of JSON text: blanks, words, and string literals. A literal is first cut into
pieces, each a plain character or a `\u` escape; pieces with surrogates left alone form a literal
all the same, but denote no text.
-/
import Roster.Hex

namespace Roster.Json

/-! ## Blanks and words -/

/-- What may stand between tokens: space, tab, line feed, carriage return. -/
def isBlank (c : Char) : Bool := c = ' ' || c = '\t' || c = '\n' || c = '\r'

/-- The text from its first character that is no blank. -/
def skipBlanks (s : List Char) : List Char := s.dropWhile isBlank

theorem length_skipBlanks_le (s : List Char) : (skipBlanks s).length ≤ s.length :=
  (List.dropWhile_suffix isBlank).length_le

theorem length_lt_of_skipBlanks {s rest : List Char} {c : Char} (h : skipBlanks s = c :: rest) :
    rest.length < s.length := by
  have := length_skipBlanks_le s
  rw [h, List.length_cons] at this
  omega

/-- What follows a word at the head of a text. -/
def afterWord : (word s : List Char) → Option (List Char)
  | [], s => some s
  | _ :: _, [] => none
  | w :: word, c :: s => if w = c then afterWord word s else none

theorem length_of_afterWord {word s rest : List Char} (h : afterWord word s = some rest) :
    rest.length + word.length = s.length := by
  fun_induction afterWord word s with
  | case1 s => cases h; rfl
  | case2 => cases h
  | case3 word c s ih => simp [← ih h]; omega
  | case4 => cases h

/-! ## Pieces of a string literal -/

/-- What one piece of a literal stands for. -/
inductive Piece where
  /-- A character, written as it is or by a short escape. -/
  | plain (c : Char)
  /-- A code unit of sixteen bits, written with four hexadecimal digits. -/
  | unit (n : Nat)
  deriving DecidableEq, Repr

/-- The character that a backslash and this character stand for. -/
def shortEscape? : Char → Option Char
  | '"' => some '"'
  | '\\' => some '\\'
  | '/' => some '/'
  | 'b' => some '\x08'
  | 'f' => some '\x0c'
  | 'n' => some '\n'
  | 'r' => some '\r'
  | 't' => some '\t'
  | _ => none

/-- The code unit that four hexadecimal digits write. -/
def codeUnit? (a b c d : Char) : Option Nat :=
  match Hex.digit? a.toNat, Hex.digit? b.toNat, Hex.digit? c.toNat, Hex.digit? d.toNat with
  | some a, some b, some c, some d => some (((a.val * 16 + b.val) * 16 + c.val) * 16 + d.val)
  | _, _, _, _ => none

/-- The pieces of a literal after its opening quote, and what follows its closing quote. -/
def pieces : List Char → Option (List Piece × List Char)
  | '"' :: rest => some ([], rest)
  | '\\' :: 'u' :: a :: b :: c :: d :: rest =>
    match codeUnit? a b c d, pieces rest with
    | some n, some (ps, rest') => some (.unit n :: ps, rest')
    | _, _ => none
  | '\\' :: e :: rest =>
    match shortEscape? e, pieces rest with
    | some c, some (ps, rest') => some (.plain c :: ps, rest')
    | _, _ => none
  | c :: rest =>
    if c = '\\' ∨ c < ' ' then none
    else
      match pieces rest with
      | some (ps, rest') => some (.plain c :: ps, rest')
      | none => none
  | [] => none

theorem length_lt_of_pieces {s rest : List Char} {ps : List Piece}
    (h : pieces s = some (ps, rest)) : rest.length < s.length := by
  fun_induction pieces s generalizing ps rest with
  | case1 => cases h; simp
  | case2 a b c d r n _ _ hp _ ih =>
    cases h
    have := ih hp
    simp only [List.length_cons]
    omega
  | case4 e r _ _ _ _ hp _ ih =>
    cases h
    have := ih hp
    simp only [List.length_cons]
    omega
  | case7 c r _ _ _ _ _ _ hp ih =>
    cases h
    have := ih hp
    simp only [List.length_cons]
    omega
  | _ => cases h

/-! ## What a literal denotes -/

/-- The first half of a character beyond sixteen bits. -/
def isHighSurrogate (n : Nat) : Bool := 0xD800 ≤ n && n ≤ 0xDBFF

/-- The second half of a character beyond sixteen bits. -/
def isLowSurrogate (n : Nat) : Bool := 0xDC00 ≤ n && n ≤ 0xDFFF

/-- The character that two halves make. -/
def joinSurrogates (high low : Nat) : Char :=
  Char.ofNat (0x10000 + (high - 0xD800) * 0x400 + (low - 0xDC00))

/-- The characters that pieces denote, if no half of a character stands alone. -/
def denote? : List Piece → Option (List Char)
  | [] => some []
  | .plain c :: ps => (denote? ps).map (c :: ·)
  | .unit n :: ps =>
    if isLowSurrogate n then none
    else if isHighSurrogate n then
      match ps with
      | .unit m :: ps' =>
        if isLowSurrogate m then (denote? ps').map (joinSurrogates n m :: ·) else none
      | _ => none
    else (denote? ps).map (Char.ofNat n :: ·)

/-- The text of a literal after its opening quote, and what follows its closing quote. -/
def readString (s : List Char) : Option (String × List Char) :=
  match pieces s with
  | none => none
  | some (ps, rest) => (denote? ps).map fun cs => (String.ofList cs, rest)

theorem length_lt_of_readString {s rest : List Char} {t : String}
    (h : readString s = some (t, rest)) : rest.length < s.length := by
  unfold readString at h
  split at h
  · cases h
  · rename_i ps r hp
    obtain ⟨cs, _, hc⟩ := Option.map_eq_some_iff.1 h
    cases hc
    exact length_lt_of_pieces hp

end Roster.Json
