/-
Settings from files. A file is a list of bytes, and those either write a text or come to a place
where no character begins. In the first case the file holds just what its text holds
(`load_of_encodes`); in the second it is unreadable, whatever stands around that place.
-/
import Roster.Settings
import Roster.Proofs.Text.Utf8

namespace Roster.Settings

open Json Utf8

variable {bytes : List UInt8} {e : LoadError} {text : String}

theorem text_file_eq_ok_iff :
    (Source.file bytes).text = .ok text ↔ Encodes text.toList bytes := by
  rw [← fromUTF8?_eq_some_iff, Source.text]
  cases String.fromUTF8? bytes.toByteArray <;> simp

theorem load_of_encodes (h : Encodes text.toList bytes) : load (.file bytes) = parse text := by
  rw [load, text_file_eq_ok_iff.2 h]

theorem load_of_not_encodes (h : ∀ text : String, ¬ Encodes text.toList bytes) :
    load (.file bytes) = .error (.unreadable .notText) := by
  have htext : (Source.file bytes).text = .error .notText := by
    have hnone : String.fromUTF8? bytes.toByteArray = none :=
      Option.eq_none_iff_forall_ne_some.2 fun text ht => h text (fromUTF8?_eq_some_iff.1 ht)
    rw [Source.text, hnone]
  rw [load, htext]

/-- A text that is at hand cannot be unreadable. -/
theorem exists_invalid_of_parse (h : parse text = .error e) : ∃ fault, e = .invalid fault := by
  unfold parse at h
  cases hd : reader.decode text with
  | ok c => rw [hd] at h; cases h
  | error fault => rw [hd] at h; cases h; exact ⟨fault, rfl⟩

theorem load_eq_unreadable_iff {cause : ReadFailure} :
    load (.file bytes) = .error (.unreadable cause) ↔
      cause = .notText ∧ ∀ text : String, ¬ Encodes text.toList bytes := by
  constructor
  · intro h
    have hno : ∀ text : String, ¬ Encodes text.toList bytes := fun text ht => by
      rw [load_of_encodes ht] at h
      obtain ⟨fault, hf⟩ := exists_invalid_of_parse h
      cases hf
    rw [load_of_not_encodes hno] at h
    cases h
    exact ⟨rfl, hno⟩
  · rintro ⟨rfl, h⟩
    exact load_of_not_encodes h

theorem load_eq_ok_iff {c : Settings} : load (.file bytes) = .ok c ↔
    ∃ text : String, Encodes text.toList bytes ∧ parse text = .ok c := by
  constructor
  · intro h
    by_cases ht : ∃ text : String, Encodes text.toList bytes
    · obtain ⟨text, ht⟩ := ht
      exact ⟨text, ht, (load_of_encodes ht).symm.trans h⟩
    · rw [load_of_not_encodes fun text h => ht ⟨text, h⟩] at h
      cases h
  · rintro ⟨text, ht, hc⟩
    exact (load_of_encodes ht).trans hc

/-- A byte-order mark is a character as any other, and no settings begin with it. -/
theorem parse_of_byteOrderMark {s : List Char} (h : text.toList = '\uFEFF' :: s) :
    parse text = .error (.invalid .malformed) := by
  have hshape : readShape text.toList = none := by
    rw [h]
    rfl
  have hrun : reader.run text.toList = .error .malformed := by
    show (recordOf record).run _ = _
    simp only [recordOf, hshape]
  rw [parse, Reader.decode, hrun]
  rfl

/-- A file holds the settings that the text written by its bytes holds, and when that text holds
none it is refused as the text is. It is unreadable exactly when its bytes write no text, which is
when they come, after some text, to a place where no character begins. -/
theorem load_file (bytes : List UInt8) :
    (∀ c, load (.file bytes) = .ok c ↔
      ∃ text : String, Encodes text.toList bytes ∧ parse text = .ok c) ∧
    (∀ (text : String) e, Encodes text.toList bytes → parse text = .error e →
      load (.file bytes) = .error e ∧ ∀ cause, e ≠ .unreadable cause) ∧
    ((∀ text : String, ¬ Encodes text.toList bytes) →
      load (.file bytes) = .error (.unreadable .notText)) ∧
    (∀ cause, load (.file bytes) = .error (.unreadable cause) ↔ cause = .notText ∧
      ∃ cs before rest, Encodes cs before ∧ Broken rest ∧ bytes = before ++ rest) ∧
    (∀ (text : String) s, Encodes text.toList bytes → text.toList = '\uFEFF' :: s →
      load (.file bytes) = .error (.invalid .malformed)) := by
  refine ⟨fun c => load_eq_ok_iff, fun text e ht he => ?_, load_of_not_encodes, fun cause => ?_,
    fun text s ht hs => ?_⟩
  · obtain ⟨fault, rfl⟩ := exists_invalid_of_parse he
    exact ⟨(load_of_encodes ht).trans he, nofun⟩
  · rw [load_eq_unreadable_iff, not_encodes_iff]
  · exact (load_of_encodes ht).trans (parse_of_byteOrderMark hs)

/-- A file that chooses nothing, one that is no JSON and one that begins with a byte-order mark are
read as their texts are. A slash in two bytes inside a member that would be passed over, and a
surrogate after the place where the JSON is wrong, make a file unreadable. -/
theorem files_read_and_not :
    load (.file [0x7B, 0x7D]) = .ok ⟨.pairwise⟩ ∧
    load (.file [0x5D]) = .error (.invalid .malformed) ∧
    load (.file [0xEF, 0xBB, 0xBF, 0x7B, 0x7D]) = .error (.invalid .malformed) ∧
    load (.file ([0x7B, 0x22, 0x78, 0x22, 0x3A, 0x22] ++ ([0xC0, 0xAF] ++ [0x22, 0x7D]))) =
      .error (.unreadable .notText) ∧
    load (.file ([0x5D] ++ ([0xED, 0xA0, 0x80] ++ []))) = .error (.unreadable .notText) := by
  have hobject : Encodes "\x7b\x7d".toList [0x7B, 0x7D] := encodes_iff.2 (by decide)
  have hparse : parse "\x7b\x7d" = .ok ⟨.pairwise⟩ := by rfl
  have hclose : Encodes "]".toList [0x5D] := encodes_iff.2 (by decide)
  have hparse' : parse "]" = .error (.invalid .malformed) := by rfl
  have hmark : Encodes "\uFEFF\x7b\x7d".toList [0xEF, 0xBB, 0xBF, 0x7B, 0x7D] :=
    encodes_iff.2 (by decide)
  have hmember : Encodes "\x7b\"x\":\"".toList [0x7B, 0x22, 0x78, 0x22, 0x3A, 0x22] :=
    encodes_iff.2 (by decide)
  have hslash : Marked [0xC0, 0xAF] (0x40 * 0 + 0x2F) := .two ⟨by decide, rfl⟩ ⟨by decide, rfl⟩
  have hsurrogate : Marked [0xED, 0xA0, 0x80] (0x40 * (0x40 * 0xD + 0x20) + 0) :=
    .three ⟨by decide, rfl⟩ ⟨by decide, rfl⟩ ⟨by decide, rfl⟩
  have hbroken : Broken ([0xC0, 0xAF] ++ [0x22, 0x7D]) :=
    (Misfit.overlong hslash (by decide)).broken _
  have hbroken' : Broken ([0xED, 0xA0, 0x80] ++ []) :=
    (Misfit.surrogate hsurrogate (by decide) (by decide)).broken _
  refine ⟨?_, ?_, ?_, ?_, ?_⟩
  · exact ((load_file _).1 _).2 ⟨_, hobject, hparse⟩
  · exact ((load_file _).2.1 _ _ hclose hparse').1
  · exact (load_file _).2.2.2.2 _ _ hmark rfl
  · exact (load_file _).2.2.1 (not_encodes_iff.2 ⟨_, _, _, hmember, hbroken, rfl⟩)
  · exact ((load_file _).2.2.2.1 _).2 ⟨rfl, _, _, _, hclose, hbroken', rfl⟩

end Roster.Settings
