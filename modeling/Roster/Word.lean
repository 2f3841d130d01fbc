/-
Positions as machine words. One index of sixty-four bits, the largest, stands for "nowhere"; among
words of two hundred and fifty-six bits the largest one does, so that every place in a list keeps
its own number in either width.
-/

namespace Roster

/-- The index that stands for "nowhere": sixty-four ones in binary. -/
def notFoundIndex : Nat := 0xffffffffffffffff

namespace Word

/-- The largest word: two hundred and fifty-six ones in binary. -/
def max : Nat := 0xffffffffffffffffffffffffffffffffffffffffffffffffffffffffffffffff

/-- The word for an index: its own number, and the largest word for "nowhere". -/
def ofIndex (index : Nat) : Nat := if index = notFoundIndex then max else index

/-- How many binary digits a word has, none for zero. -/
def bitLength (n : Nat) : Nat := if n = 0 then 0 else n.log2 + 1

end Word

end Roster
