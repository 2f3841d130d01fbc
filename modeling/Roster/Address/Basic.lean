/-
Account addresses: twenty bytes, most significant first. Nothing but equality is asked of them.
-/
import Roster.Hex

namespace Roster

/-- A 160-bit account identifier, most significant byte first. -/
structure Address where
  bytes : List UInt8
  length_bytes : bytes.length = 20
  deriving DecidableEq

namespace Address

instance : Hashable Address := ⟨fun a => hash a.bytes⟩

/-- How many bytes an address has. -/
def size : Nat := 20

/-- The address all of whose bytes are zero, which stands for no account. -/
def zero : Address := ⟨List.replicate 20 0, by simp⟩

instance : Inhabited Address := ⟨zero⟩

/-- The address with these bytes, if there are twenty of them. -/
def ofBytes? (bytes : List UInt8) : Option Address :=
  if h : bytes.length = 20 then some ⟨bytes, h⟩ else none

theorem length_padded {ds : List (Fin 16)} (h : ds.length ≤ 40) :
    (Hex.pack (List.replicate (40 - ds.length) Hex.zeroDigit ++ ds)).length = 20 := by
  rw [Hex.length_pack, List.length_append, List.length_replicate]
  omega

/-- The address that at most forty hexadecimal digits denote, filled up with zeros on the left. -/
def ofDigits (ds : List (Fin 16)) (h : ds.length ≤ 40) : Address :=
  ⟨Hex.pack (List.replicate (40 - ds.length) Hex.zeroDigit ++ ds), length_padded h⟩

/-- The last, least significant byte. -/
def lastByte (a : Address) : UInt8 := a.bytes.getLastD 0

end Address

end Roster
