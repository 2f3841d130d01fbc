/-
Hexadecimal digits. Digits are read from character codes in either letter case and written in
lower case; a byte holds two of them, the high half first. Reading a run of bytes gives all their
values or the first byte that is no digit, together with its offset.
-/

namespace Roster.Hex

/-! ## One digit -/

/-- The value of the hexadecimal digit with this character code, in either letter case. -/
def digit? (code : Nat) : Option (Fin 16) :=
  if '0'.toNat ≤ code ∧ code ≤ '9'.toNat then some (Fin.ofNat 16 (code - '0'.toNat))
  else if 'a'.toNat ≤ code ∧ code ≤ 'f'.toNat then some (Fin.ofNat 16 (code - 'a'.toNat + 10))
  else if 'A'.toNat ≤ code ∧ code ≤ 'F'.toNat then some (Fin.ofNat 16 (code - 'A'.toNat + 10))
  else none

/-- The digit zero. -/
def zeroDigit : Fin 16 := ⟨0, by decide⟩

/-- The digit in lower case. -/
def digitChar (d : Fin 16) : Char := Nat.digitChar d.val

/-- A written digit reads back. -/
theorem digit?_digitChar (d : Fin 16) : digit? (digitChar d).toNat = some d := by
  decide +revert

/-! ## Runs of digits -/

/-- A byte that is no hexadecimal digit, and where it stands. -/
structure BadDigit where
  byte : UInt8
  offset : Nat
  deriving DecidableEq, Repr

/-- The values of a run of digits whose first byte has offset `k`, or the first that is none. -/
def readFrom (k : Nat) : List UInt8 → Except BadDigit (List (Fin 16))
  | [] => .ok []
  | b :: rest =>
    match digit? b.toNat with
    | none => .error ⟨b, k⟩
    | some d => (readFrom (k + 1) rest).map (d :: ·)

/-- Every byte read gives one digit. -/
theorem length_of_readFrom {k : Nat} {bs : List UInt8} {ds : List (Fin 16)}
    (h : readFrom k bs = .ok ds) : ds.length = bs.length := by
  induction bs generalizing k ds with
  | nil => cases h; rfl
  | cons b rest ih =>
    rw [readFrom] at h
    split at h
    · cases h
    · cases hr : readFrom (k + 1) rest with
      | error e => rw [hr] at h; cases h
      | ok tail => rw [hr] at h; cases h; simp [ih hr]

/-! ## Two digits to a byte -/

/-- The bytes of an even run of digits; a digit left over at the end is not read. -/
def pack : List (Fin 16) → List UInt8
  | hi :: lo :: rest => UInt8.ofNat (16 * hi.val + lo.val) :: pack rest
  | _ => []

/-- The two digits of every byte. -/
def unpack (bs : List UInt8) : List (Fin 16) :=
  bs.flatMap fun b => [Fin.ofNat 16 (b.toNat / 16), Fin.ofNat 16 b.toNat]

theorem length_pack : ∀ ds : List (Fin 16), (pack ds).length = ds.length / 2
  | [] => rfl
  | [_] => by simp [pack]
  | _ :: _ :: rest => by simp only [pack, List.length_cons, length_pack rest]; omega

/-- The bytes written as digits. -/
def encode (bs : List UInt8) : List Char := (unpack bs).map digitChar

end Roster.Hex
