/-
Addresses in JSON are read as their texts are. A literal is an address when the text it denotes
parses, in whatever way its characters are written (`Spelled`); a list is read from left to right,
and the first text that does not parse decides the outcome, whatever follows it (`decode_follows_parse`).
-/
import Roster.Address.Json
import Roster.Proofs.Json.Reader

namespace Roster.Address

open Json

/-- A literal whose text parses as this address. -/
def Spelled (a : Address) (t : List Char) : Prop := ∃ s, Literal s t ∧ parse s = .ok a

theorem reader_accepts : reader.Accepts Spelled := by
  refine (scalar_accepts (by simp) (by simp)).congr fun a t => ⟨?_, ?_⟩
  · rintro ⟨v, hv, ha⟩
    cases hv with
    | @string s t hs =>
      replace ha : (parse s).mapError Mismatch.address = .ok a := ha
      cases hp : parse s with
      | error e => rw [hp] at ha; cases ha
      | ok b => rw [hp] at ha; cases ha; exact ⟨s, hs, hp⟩
    | _ => cases ha
  · rintro ⟨s, hs, ha⟩
    exact ⟨_, .string hs, by simp only [ha]; rfl⟩

/-- A list of addresses is a list of literals whose texts parse one by one. -/
theorem enclosed_spelled_iff {xs : List Address} {t : List Char} :
    Enclosed '[' ']' Spelled xs t ↔
      ∃ ss, Enclosed '[' ']' Literal ss t ∧ List.Forall₂ (fun s a => parse s = .ok a) ss xs := by
  constructor
  · exact fun h => h.exists_map fun _ _ _ hs => hs
  · rintro ⟨ss, hss, hp⟩
    exact hss.map hp fun s _ _ ha hs => ⟨s, hs, ha⟩

theorem listReader_accepts : listReader.Accepts (Enclosed '[' ']' Spelled) :=
  listOf_accepts reader_accepts

/-! ## The first text that does not parse -/

/-- A text that comes, after blanks, to a literal of this text; anything may follow. -/
def Reaches (s : String) (t : List Char) : Prop :=
  ∃ b u rest, Blanks b ∧ Literal s u ∧ t = b ++ (u ++ rest)

/-- A text that begins as a list of literals of these texts, each with its comma, and comes to a
literal of that text; anything may follow. -/
def ReachesInList (ss : List String) (s : String) (t : List Char) : Prop :=
  ∃ b v u, Blanks b ∧ Begun Literal ss v ∧ Reaches s u ∧ t = b ++ '[' :: (v ++ u)

theorem exists_begun_spelled {ss : List String} {t : List Char} (h : Begun Literal ss t)
    (hp : ∀ s ∈ ss, ∃ a, parse s = .ok a) : ∃ xs, Begun Spelled xs t := by
  induction h with
  | nil => exact ⟨[], .nil⟩
  | cons hb hs hb' _ ih =>
    obtain ⟨⟨a, ha⟩, hp⟩ := List.forall_mem_cons.1 hp
    obtain ⟨xs, hxs⟩ := ih hp
    exact ⟨a :: xs, .cons hb ⟨_, hs, ha⟩ hb' hxs⟩

/-- A literal whose text does not parse is refused with what is wrong with the text. -/
theorem reader_refuses {s : String} {t : List Char} {e : ParseError} (h : Reaches s t)
    (he : parse s = .error e) : reader.run t = .error (.mismatch (.address e)) := by
  obtain ⟨b, u, rest, hb, hs, rfl⟩ := h
  exact scalar_refuses hb (.string hs) (by simp) (by simp only [he]; rfl)

theorem listReader_refuses {ss : List String} {s : String} {t : List Char} {e : ParseError}
    (h : ReachesInList ss s t) (hp : ∀ s' ∈ ss, ∃ a, parse s' = .ok a)
    (he : parse s = .error e) : listReader.run t = .error (.mismatch (.address e)) := by
  obtain ⟨b, v, u, hb, hv, hu, rfl⟩ := h
  obtain ⟨xs, hxs⟩ := exists_begun_spelled hv hp
  refine listOf_refuses reader_accepts hb hxs (reader_refuses hu he) fun r hr => ?_
  -- a literal begins with a quote, not with the closing bracket
  obtain ⟨b', w, rest, hb', ⟨x, -, rfl⟩, rfl⟩ := hu
  rw [skipBlanks_append hb'] at hr
  cases hr

/-! ## Decoding -/

/-- A list of literals decodes to what their texts parse to one by one, and a single literal to
what its text parses to. The first text that does not parse gives its own message, whatever follows
its literal. -/
theorem decode_follows_parse (text : String) :
    (∀ xs, listReader.decode text = .ok xs ↔
      ∃ ss, Padded (Enclosed '[' ']' Literal ss) text.toList ∧
        List.Forall₂ (fun s a => parse s = .ok a) ss xs) ∧
    (∀ ss s e, ReachesInList ss s text.toList → (∀ s' ∈ ss, ∃ a, parse s' = .ok a) →
      parse s = .error e →
      ∃ m, listReader.decode text = .error (.mismatch m) ∧ m.message = e.message) ∧
    (∀ a, reader.decode text = .ok a ↔ ∃ s, Padded (Literal s) text.toList ∧ parse s = .ok a) ∧
    (∀ s e, Reaches s text.toList → parse s = .error e →
      ∃ m, reader.decode text = .error (.mismatch m) ∧ m.message = e.message) := by
  refine ⟨fun xs => ?_, fun ss s e h hp he => ?_, fun a => ?_, fun s e h he => ?_⟩
  · rw [listReader_accepts.decode_iff, ← padded_exists_iff]
    exact padded_congr fun _ => enclosed_spelled_iff
  · exact ⟨_, by rw [Reader.decode, listReader_refuses h hp he], rfl⟩
  · rw [reader_accepts.decode_iff, ← padded_exists_iff]
    rfl
  · exact ⟨_, by rw [Reader.decode, reader_refuses h he], rfl⟩

/-- In a list with a second text that is no address, that text decides, and the rest is not looked
at; the first text alone is an address. -/
theorem second_text_decides :
    (∃ m, listReader.decode "[\"0x1\", \"1\" and so on" = .error (.mismatch m) ∧
      m.message = "fail to strip 0x-prefix: given value 1 does not start with 0x") ∧
    reader.decode " \"0x1\"" = .ok (ofDigits [1] (by decide)) := by
  have hone : parse "0x1" = .ok (ofDigits [1] (by decide)) := by decide
  have htwo : parse "1" = .error (.missingMark "1") := by decide
  have hfirst : Literal "0x1" _ := literal_of_plain (by decide)
  have hsecond : Literal "1" _ := literal_of_plain (by decide)
  have hblank : Blanks [' '] := fun c hc => .inl (List.mem_singleton.1 hc)
  have hreach : ReachesInList ["0x1"] "1" "[\"0x1\", \"1\" and so on".toList :=
    ⟨[], _, _, blanks_nil, .cons blanks_nil hfirst blanks_nil .nil,
      ⟨[' '], _, " and so on".toList, hblank, hsecond, rfl⟩, rfl⟩
  have hparsed : ∀ s ∈ ["0x1"], ∃ a, parse s = .ok a := fun s hs =>
    ⟨_, List.mem_singleton.1 hs ▸ hone⟩
  exact ⟨(decode_follows_parse _).2.1 _ _ _ hreach hparsed htwo,
    ((decode_follows_parse _).2.2.1 _).2 ⟨_, ⟨[' '], _, [], hblank, hfirst, blanks_nil, by simp⟩, hone⟩⟩

end Roster.Address
