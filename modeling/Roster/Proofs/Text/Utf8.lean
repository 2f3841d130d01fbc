/-
Texts as bytes. The first byte of a character is marked with how many belong to it and every other
one as a later one, and the bits that the marks leave make up a number (`Marked`). A character is
written in the fewest bytes that hold its own number (`Encoded`), and a text character by character
(`Encodes`). Since the first byte tells the length, bytes can be taken apart in one way only
(`Encoded.eq_of_append`): where no character begins there is no text, whatever stands before or
after that place (`Encodes.not_of_broken`). Bytes are read as exactly the text that they write
(`fromUTF8?_eq_some_iff`).
-/

namespace Roster.Utf8

variable {a : UInt8} {c d : Char} {cs ds : List Char} {m n mark room : Nat} {t u v w : List UInt8}

/-! ## Characters and texts -/

/-- A byte that is a mark and, in the bits that the mark leaves, a number. -/
structure Holds (mark room : Nat) (a : UInt8) (n : Nat) : Prop where
  lt : n < room
  toNat_eq : a.toNat = mark + n

/-- A byte after the first one of a character. -/
abbrev Later : UInt8 → Nat → Prop := Holds 0x80 0x40

/-- Bytes marked as those of one character, and the number that they hold. -/
inductive Marked : List UInt8 → Nat → Prop where
  | one {a : UInt8} {k : Nat} : Holds 0 0x80 a k → Marked [a] k
  | two {a b : UInt8} {k l : Nat} : Holds 0xC0 0x20 a k → Later b l →
      Marked [a, b] (0x40 * k + l)
  | three {a b c : UInt8} {k l m : Nat} : Holds 0xE0 0x10 a k → Later b l → Later c m →
      Marked [a, b, c] (0x40 * (0x40 * k + l) + m)
  | four {a b c d : UInt8} {k l m n : Nat} : Holds 0xF0 0x8 a k → Later b l → Later c m →
      Later d n → Marked [a, b, c, d] (0x40 * (0x40 * (0x40 * k + l) + m) + n)

/-- The least number for which fewer bytes than these many do not suffice. -/
def least : Nat → Nat
  | 2 => 0x80
  | 3 => 0x800
  | 4 => 0x10000
  | _ => 0

/-- The bytes that write this character. -/
structure Encoded (c : Char) (t : List UInt8) : Prop where
  marked : Marked t c.toNat
  shortest : least t.length ≤ c.toNat

/-- The bytes that write this text. -/
inductive Encodes : List Char → List UInt8 → Prop where
  | nil : Encodes [] []
  | cons {c : Char} {cs : List Char} {t u : List UInt8} : Encoded c t → Encodes cs u →
      Encodes (c :: cs) (t ++ u)

/-! ## Only one way to take bytes apart -/

theorem Holds.unique (hm : Holds mark room a m) (hn : Holds mark room a n) : m = n :=
  Nat.add_left_cancel (hm.toNat_eq.symm.trans hn.toNat_eq)

theorem Marked.unique (hm : Marked t m) (hn : Marked t n) : m = n := by
  cases hm with
  | one ha =>
    cases hn with
    | one ha' => exact ha.unique ha'
  | two ha hb =>
    cases hn with
    | two ha' hb' => rw [ha.unique ha', hb.unique hb']
  | three ha hb hc =>
    cases hn with
    | three ha' hb' hc' => rw [ha.unique ha', hb.unique hb', hc.unique hc']
  | four ha hb hc hd =>
    cases hn with
    | four ha' hb' hc' hd' => rw [ha.unique ha', hb.unique hb', hc.unique hc', hd.unique hd']

/-- How many bytes belong to a character that begins with this one. -/
def count (a : UInt8) : Nat :=
  if a.toNat < 0xC0 then 1 else if a.toNat < 0xE0 then 2 else if a.toNat < 0xF0 then 3 else 4

theorem Marked.exists_cons (h : Marked t n) : ∃ a u, t = a :: u ∧ t.length = count a := by
  cases h with
  | @one a k ha =>
    obtain ⟨hlt, ha⟩ := ha
    have hcount : count a = 1 := if_pos (by omega)
    exact ⟨a, _, rfl, hcount.symm⟩
  | @two a _ k _ ha =>
    obtain ⟨hlt, ha⟩ := ha
    have hcount : count a = 2 := by rw [count, if_neg (by omega), if_pos (by omega)]
    exact ⟨a, _, rfl, hcount.symm⟩
  | @three a _ _ k _ _ ha =>
    obtain ⟨hlt, ha⟩ := ha
    have hcount : count a = 3 := by
      rw [count, if_neg (by omega), if_neg (by omega), if_pos (by omega)]
    exact ⟨a, _, rfl, hcount.symm⟩
  | @four a _ _ _ k _ _ _ ha =>
    obtain ⟨hlt, ha⟩ := ha
    have hcount : count a = 4 := by
      rw [count, if_neg (by omega), if_neg (by omega), if_neg (by omega)]
    exact ⟨a, _, rfl, hcount.symm⟩

theorem Marked.eq_of_append (ht : Marked t m) (hu : Marked u n) (h : t ++ v = u ++ w) : t = u := by
  obtain ⟨a, t', rfl, hta⟩ := ht.exists_cons
  obtain ⟨b, u', rfl, hub⟩ := hu.exists_cons
  obtain rfl : a = b := (List.cons.inj h).1
  exact List.append_inj_left h (hta.trans hub.symm)

theorem Encoded.eq_of_append (ht : Encoded c t) (hu : Encoded d u) (h : t ++ v = u ++ w) :
    c = d ∧ t = u := by
  obtain rfl := ht.marked.eq_of_append hu.marked h
  exact ⟨Char.toNat_inj.1 (ht.marked.unique hu.marked), rfl⟩

/-- Bytes that begin with those of a character write a text that begins with it. -/
theorem Encodes.tail (hc : Encoded c t) (h : Encodes ds (t ++ u)) :
    ∃ es, ds = c :: es ∧ Encodes es u := by
  generalize hv : t ++ u = v at h
  cases h with
  | nil =>
    obtain ⟨a, t', rfl, -⟩ := hc.marked.exists_cons
    cases hv
  | cons hd hes =>
    obtain ⟨rfl, rfl⟩ := hc.eq_of_append hd hv
    exact ⟨_, rfl, List.append_cancel_left hv ▸ hes⟩

/-! ## Where no character begins -/

/-- There are bytes, and no character is written at their head. -/
structure Broken (t : List UInt8) : Prop where
  ne_nil : t ≠ []
  no_char : ∀ c u v, Encoded c u → t ≠ u ++ v

/-- No text goes over a place where no character begins. -/
theorem Encodes.not_of_broken (h : Encodes cs t) (hu : Broken u) : ¬ Encodes ds (t ++ u) := by
  induction h generalizing ds with
  | nil =>
    rintro (_ | ⟨hc, -⟩)
    · exact hu.ne_nil rfl
    · exact hu.no_char _ _ _ hc rfl
  | cons hc _ ih =>
    intro h
    rw [List.append_assoc] at h
    obtain ⟨es, -, hes⟩ := h.tail hc
    exact ih hes

/-- Bytes that write no text come to a place where no character begins. -/
theorem exists_broken (t : List UInt8) (h : ∀ cs, ¬ Encodes cs t) :
    ∃ cs u v, Encodes cs u ∧ Broken v ∧ t = u ++ v := by
  by_cases hc : ∃ c u v, Encoded c u ∧ t = u ++ v
  · -- the place is in what follows the first character, which is shorter
    obtain ⟨c, u, v, hc, rfl⟩ := hc
    have hlt : v.length < (u ++ v).length := by
      obtain ⟨a, u', rfl, -⟩ := hc.marked.exists_cons
      rw [List.length_append, List.length_cons]
      omega
    obtain ⟨cs, u', v', hu, hv, rfl⟩ := exists_broken v fun cs hcs => h _ (.cons hc hcs)
    exact ⟨c :: cs, u ++ u', v', .cons hc hu, hv, (List.append_assoc ..).symm⟩
  · exact ⟨[], [], t, .nil, ⟨fun ht => h [] (ht ▸ .nil),
      fun c u v hu ht => hc ⟨c, u, v, hu, ht⟩⟩, rfl⟩
termination_by t.length

/-- Bytes write no text when they come, after some text, to a place where no character begins. -/
theorem not_encodes_iff : (∀ text : String, ¬ Encodes text.toList t) ↔
    ∃ cs u v, Encodes cs u ∧ Broken v ∧ t = u ++ v := by
  constructor
  · intro h
    refine exists_broken t fun cs hcs => h (String.ofList cs) ?_
    rwa [String.toList_ofList]
  · rintro ⟨cs, u, v, hu, hv, rfl⟩ text
    exact hu.not_of_broken hv

/-- Bytes that are marked as one character are none when fewer bytes would have held their number,
and when no character has that number: it is a surrogate, or beyond the last character. -/
inductive Misfit (t : List UInt8) : Prop where
  | overlong {n : Nat} : Marked t n → n < least t.length → Misfit t
  | surrogate {n : Nat} : Marked t n → 0xD800 ≤ n → n ≤ 0xDFFF → Misfit t
  | beyond {n : Nat} : Marked t n → 0x10FFFF < n → Misfit t

theorem Misfit.broken (h : Misfit t) (u : List UInt8) : Broken (t ++ u) := by
  obtain ⟨n, hn, hbad⟩ : ∃ n, Marked t n ∧ (n < least t.length ∨ ¬ n.isValidChar) := by
    cases h with
    | overlong hn hlt => exact ⟨_, hn, .inl hlt⟩
    | surrogate hn hlo hhi => exact ⟨_, hn, .inr fun hv => by omega⟩
    | beyond hn hlt => exact ⟨_, hn, .inr fun hv => by omega⟩
  refine ⟨fun hnil => ?_, fun c v w hc hv => ?_⟩
  · obtain ⟨a, t', rfl, -⟩ := hn.exists_cons
    cases hnil
  · obtain rfl := hn.eq_of_append hc.marked hv
    obtain rfl := hn.unique hc.marked
    rcases hbad with hlt | hinvalid
    · exact absurd hc.shortest (Nat.not_le.2 hlt)
    · exact hinvalid c.valid

/-! ## Reading bytes -/

theorem Holds.eq_ofNat (h : Holds mark room a n) (hm : m = mark + n) : a = UInt8.ofNat m := by
  rw [hm, ← h.toNat_eq, UInt8.ofNat_toNat]

theorem holds_ofNat (hn : n < room) (hm : m = mark + n) (hlt : m < 0x100) :
    Holds mark room (UInt8.ofNat m) n :=
  ⟨hn, (UInt8.toNat_ofNat_of_lt' hlt).trans hm⟩

theorem encoded_encodeChar (c : Char) : Encoded c (String.utf8EncodeChar c) := by
  have hvalid : c.val.toNat.isValidChar := c.valid
  have hval : c.val.toNat = c.toNat := rfl
  rw [String.utf8EncodeChar]
  simp only [hval] at hvalid ⊢
  generalize hn : c.toNat = n at hvalid
  by_cases h₁ : n ≤ 127
  · rw [if_pos h₁]
    have ha : Holds 0 0x80 (UInt8.ofNat n) n := holds_ofNat (by omega) (by omega) (by omega)
    exact ⟨by rw [hn]; exact .one ha, Nat.zero_le _⟩
  rw [if_neg h₁]
  by_cases h₂ : n ≤ 2047
  · rw [if_pos h₂]
    have ha : Holds 0xC0 0x20 (UInt8.ofNat (n / 64 % 32 + 192)) (n / 0x40) :=
      holds_ofNat (by omega) (by omega) (by omega)
    have hb : Later (UInt8.ofNat (n % 64 + 128)) (n % 0x40) :=
      holds_ofNat (by omega) (by omega) (by omega)
    have hnumber : 0x40 * (n / 0x40) + n % 0x40 = c.toNat := by omega
    exact ⟨hnumber ▸ .two ha hb, by rw [hn]; exact Nat.lt_of_not_le h₁⟩
  rw [if_neg h₂]
  by_cases h₃ : n ≤ 65535
  · rw [if_pos h₃]
    have ha : Holds 0xE0 0x10 (UInt8.ofNat (n / 4096 % 16 + 224)) (n / 0x1000) :=
      holds_ofNat (by omega) (by omega) (by omega)
    have hb : Later (UInt8.ofNat (n / 64 % 64 + 128)) (n / 0x40 % 0x40) :=
      holds_ofNat (by omega) (by omega) (by omega)
    have hd : Later (UInt8.ofNat (n % 64 + 128)) (n % 0x40) :=
      holds_ofNat (by omega) (by omega) (by omega)
    have hnumber : 0x40 * (0x40 * (n / 0x1000) + n / 0x40 % 0x40) + n % 0x40 = c.toNat := by omega
    exact ⟨hnumber ▸ .three ha hb hd, by rw [hn]; exact Nat.lt_of_not_le h₂⟩
  · rw [if_neg h₃]
    have ha : Holds 0xF0 0x8 (UInt8.ofNat (n / 262144 % 8 + 240)) (n / 0x40000) :=
      holds_ofNat (by omega) (by omega) (by omega)
    have hb : Later (UInt8.ofNat (n / 4096 % 64 + 128)) (n / 0x1000 % 0x40) :=
      holds_ofNat (by omega) (by omega) (by omega)
    have hd : Later (UInt8.ofNat (n / 64 % 64 + 128)) (n / 0x40 % 0x40) :=
      holds_ofNat (by omega) (by omega) (by omega)
    have he : Later (UInt8.ofNat (n % 64 + 128)) (n % 0x40) :=
      holds_ofNat (by omega) (by omega) (by omega)
    have hnumber : 0x40 * (0x40 * (0x40 * (n / 0x40000) + n / 0x1000 % 0x40) + n / 0x40 % 0x40) +
        n % 0x40 = c.toNat := by omega
    exact ⟨hnumber ▸ .four ha hb hd he, by rw [hn]; exact Nat.lt_of_not_le h₃⟩

theorem Encoded.eq_encodeChar (h : Encoded c t) : t = String.utf8EncodeChar c := by
  obtain ⟨hm, hs⟩ := h
  have hn : c.toNat = c.val.toNat := rfl
  generalize c.toNat = n at hm hs hn
  rw [String.utf8EncodeChar]
  simp only [← hn]
  cases hm with
  | one ha =>
    have := ha.lt
    rw [if_pos (by omega), ha.eq_ofNat (Nat.zero_add _).symm]
  | two ha hb =>
    have := ha.lt
    have := hb.lt
    have : 0x80 ≤ _ := hs
    rw [if_neg (by omega), if_pos (by omega), ← ha.eq_ofNat (by omega), ← hb.eq_ofNat (by omega)]
  | three ha hb hc =>
    have := ha.lt
    have := hb.lt
    have := hc.lt
    have : 0x800 ≤ _ := hs
    rw [if_neg (by omega), if_neg (by omega), if_pos (by omega), ← ha.eq_ofNat (by omega),
      ← hb.eq_ofNat (by omega), ← hc.eq_ofNat (by omega)]
  | four ha hb hc hd =>
    have := ha.lt
    have := hb.lt
    have := hc.lt
    have := hd.lt
    have : 0x10000 ≤ _ := hs
    rw [if_neg (by omega), if_neg (by omega), if_neg (by omega), ← ha.eq_ofNat (by omega),
      ← hb.eq_ofNat (by omega), ← hc.eq_ofNat (by omega), ← hd.eq_ofNat (by omega)]

theorem encodes_iff : Encodes cs t ↔ t = cs.flatMap String.utf8EncodeChar := by
  constructor
  · intro h
    induction h with
    | nil => rfl
    | cons hc _ ih => rw [List.flatMap_cons, ← ih, ← hc.eq_encodeChar]
  · rintro rfl
    induction cs with
    | nil => exact .nil
    | cons c cs ih => exact .cons (encoded_encodeChar c) ih

example : Encodes "$¢€😀".toList [0x24, 0xC2, 0xA2, 0xE2, 0x82, 0xAC, 0xF0, 0x9F, 0x98, 0x80] :=
  encodes_iff.2 (by decide)

/-- Bytes are read as the text that they write, and not at all when they write none. -/
theorem fromUTF8?_eq_some_iff {text : String} :
    String.fromUTF8? t.toByteArray = some text ↔ Encodes text.toList t := by
  have hbytes : text.toByteArray = t.toByteArray ↔ Encodes text.toList t := by
    rw [encodes_iff, ← String.utf8Encode_toList, List.utf8Encode]
    constructor
    · intro h
      have hdata := congrArg (fun b => b.data.toList) h
      simp only [List.toList_data_toByteArray] at hdata
      exact hdata.symm
    · intro h
      rw [← h]
  rw [← hbytes]
  unfold String.fromUTF8?
  split
  · rename_i hvalid
    rw [Option.some.injEq, ← String.toByteArray_inj]
    exact eq_comm
  · rename_i hvalid
    exact ⟨nofun, fun h => absurd (h ▸ text.isValidUTF8) hvalid⟩

end Roster.Utf8
