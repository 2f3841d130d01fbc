/-
What a text that goes on is read as. Addresses, lists of them, answers, scans and settings are each
decided from left to right: more text makes a value malformed unless it is blank, and never changes
what was wrong (`decoders_stream`).
-/
import Roster.Proofs.Address.Json
import Roster.Proofs.Scan

namespace Roster

open Json

/-! ## Answers -/

namespace Lookup

theorem fields_stream : ∀ f ∈ record.fields, f.reader.Streams := by
  intro f hf
  rcases List.mem_pair.1 hf with rfl | rfl
  · exact scalar_streams _
  · exact scalar_streams _

end Lookup

/-! ## Scans -/

namespace Scan

variable {s t : List Char}

theorem decided_readName (hs : Settled s) : Decided readName s := by
  cases hr : readString s with
  | none => exact .malformed (by simp only [readName, hr])
  | some p =>
    obtain ⟨name, rest⟩ := p
    have hx := readString_append hr
    cases hn : ofName? name with
    | none => exact .mismatch _ fun x => by simp only [readName, hx, hn]; rfl
    | some scan => exact .value scan (hs.of_readString hr) fun x => by simp only [readName, hx, hn]

/-- Reads the closing bracket after the `null` of a scan. -/
def readClose (s : List Char) : Reading Unit :=
  match skipBlanks s with
  | '}' :: rest => .ok ((), rest)
  | _ => .error .malformed

theorem decided_readClose (hs : Settled s) : Decided readClose s := by
  refine .of_close '}' () hs (fun h => by simp only [readClose, h]) fun hclose => .malformed ?_
  unfold readClose
  split
  · rename_i h; exact absurd h (hclose _)
  · rfl

theorem readUnit_eq_bind (h : afterColon s = some t) :
    readUnit s = (null.run t).bind fun p => readClose p.2 := by
  simp only [readUnit, h]
  cases null.run t <;> rfl

theorem decided_readUnit (hs : Settled s) : Decided readUnit s := by
  cases h : afterColon s with
  | none => exact .malformed (by simp only [readUnit, h])
  | some t =>
    exact ((scalar_streams _).decided (hs.of_afterColon h)).bind
      (fun x => readUnit_eq_bind (afterColon_append h x)) fun _ _ _ hr => decided_readClose hr

/-- Reads a scan from the name in its object on. -/
def readMember (s : List Char) : Reading Scan :=
  (readName s).bind fun p => (readUnit p.2).map fun q => (p.1, q.2)

theorem decided_readMember (hs : Settled s) : Decided readMember s :=
  (decided_readName hs).bind (fun _ => rfl) fun scan _ _ hr =>
    (decided_readUnit hr).map (fun _ => scan) fun _ => rfl

theorem read_of_quote (h : skipBlanks s = '"' :: t) : read s = readName t := by
  simp only [read, h]

theorem read_of_bracket {u : List Char} (h : skipBlanks s = '{' :: t)
    (ht : skipBlanks t = '"' :: u) : read s = readMember u := by
  simp only [read, h, ht, readMember]
  cases readName u <;> rfl

theorem read_of_ne (hquote : ∀ r, skipBlanks s ≠ '"' :: r)
    (hbracket : ∀ r u, skipBlanks s = '{' :: r → skipBlanks r ≠ '"' :: u) :
    read s = .error .malformed := by
  unfold read
  split
  · rename_i h; exact absurd h (hquote _)
  · rename_i h
    split
    · rename_i ht; exact absurd ht (hbracket _ _ h)
    · rfl
  · rfl

theorem reader_streams : reader.Streams where
  decided {s} hs := by
    show Decided read s
    by_cases hquote : ∃ t, skipBlanks s = '"' :: t
    · obtain ⟨t, h⟩ := hquote
      exact (decided_readName (hs.of_skipBlanks h)).congr fun x =>
        read_of_quote (skipBlanks_append_of_cons h x)
    by_cases hbracket : ∃ t u, skipBlanks s = '{' :: t ∧ skipBlanks t = '"' :: u
    · obtain ⟨t, u, h, ht⟩ := hbracket
      exact (decided_readMember ((hs.of_skipBlanks h).of_skipBlanks ht)).congr fun x =>
        read_of_bracket (skipBlanks_append_of_cons h x) (skipBlanks_append_of_cons ht x)
    · exact .malformed (read_of_ne (not_exists.1 hquote) fun t u h ht => hbracket ⟨t, u, h, ht⟩)
  blank {s} hb := read_of_ne (by simp [skipBlanks_eq_nil_iff.2 hb])
    (by simp [skipBlanks_eq_nil_iff.2 hb])

end Scan

/-! ## Settings -/

namespace Settings

theorem fields_stream : ∀ f ∈ record.fields, f.reader.Streams := by
  intro f hf
  cases List.mem_singleton.1 hf
  exact Scan.reader_streams

end Settings

/-! ## All of them -/

/-- A text that holds a value holds it still when blanks are added, and is malformed when anything
else is. What is wrong with the value of a text is still wrong, whatever is added, unless the text
ends in a digit. -/
theorem decoders_stream (text more : String) :
    Address.reader.GoesOn text more ∧ Address.listReader.GoesOn text more ∧
      Lookup.reader.GoesOn text more ∧ Scan.reader.GoesOn text more ∧
      Settings.reader.GoesOn text more := by
  refine ⟨?_, ?_, ?_, ?_, ?_⟩
  · refine (scalar_streams _).goesOn Address.reader_accepts ?_ text more
    rintro a t ⟨s, hs, -⟩
    exact hs.settled
  · refine (listOf_streams (scalar_streams _)).goesOn Address.listReader_accepts ?_ text more
    exact fun xs t h => h.settled rfl
  · refine (recordOf_streams Lookup.fields_stream).goesOn Lookup.reader_accepts ?_ text more
    rintro r t (h | h)
    · exact h.settled rfl
    · exact h.settled rfl
  · refine Scan.reader_streams.goesOn Scan.reader_accepts ?_ text more
    rintro scan t (h | h)
    · exact h.settled
    · exact h.settled rfl
  · refine (recordOf_streams Settings.fields_stream).goesOn Settings.reader_accepts ?_ text more
    rintro c t (h | h)
    · exact h.settled rfl
    · exact h.settled rfl

/-- An unknown name is told of before its object ends, after a member with an object inside a list;
a blank after a list of addresses changes nothing, and a comma there is one too many. -/
theorem unknown_name_and_comma :
    Settings.reader.decode ("\x7b\"note\":[\x7b\x7d],\"duplicate_scan\":\"sorted\"" ++ "[[") =
      .error (.mismatch (.unknownName "sorted" ["pairwise", "hash_set"])) ∧
    Address.listReader.decode ("[\"0x1\"]" ++ " ") = .ok [Address.ofDigits [1] (by decide)] ∧
    Address.listReader.decode ("[\"0x1\"]" ++ ",") = .error .malformed := by
  have hitems : Enclosed '[' ']' Eq [['{', '}']] "[\x7b\x7d]".toList :=
    .cons blanks_nil rfl (.nil blanks_nil)
  have hnote : IsValue "[\x7b\x7d]".toList :=
    .list hitems (List.forall_mem_singleton.2 (.object (.nil blanks_nil) nofun nofun))
  have hbegins : Settings.Begins [("note", "[\x7b\x7d]".toList)] :=
    ⟨.none, fun m hm _ => List.mem_singleton.1 hm ▸ hnote⟩
  have hmember : NamedMember ("note", "[\x7b\x7d]".toList) _ := namedMember_of_plain _ _ (by decide)
  have hreach : ReachesName [("note", "[\x7b\x7d]".toList)] "duplicate_scan" ":\"sorted\"".toList
      "\x7b\"note\":[\x7b\x7d],\"duplicate_scan\":\"sorted\"".toList :=
    ⟨[], _, [], _, blanks_nil, .cons blanks_nil hmember blanks_nil .nil, blanks_nil,
      literal_of_plain (by decide), rfl⟩
  have hsorted : Scan.Reaches "sorted" "\"sorted\"".toList :=
    Scan.reaches_of_literal (padded_of (literal_of_plain (by decide)))
  have hname : Settings.reader.decode "\x7b\"note\":[\x7b\x7d],\"duplicate_scan\":\"sorted\"" =
      .error (.mismatch (.unknownName "sorted" ["pairwise", "hash_set"])) :=
    Settings.parse_eq_invalid_iff.1
      (Scan.parse_refuses_member (b := []) hbegins (by decide) blanks_nil
        (Scan.reader_refuses rfl hsorted) hreach)
  have hone : Address.Spelled (Address.ofDigits [1] (by decide)) "\"0x1\"".toList :=
    ⟨"0x1", literal_of_plain (by decide), by decide⟩
  have hlist : Address.listReader.decode "[\"0x1\"]" = .ok [Address.ofDigits [1] (by decide)] :=
    (Address.listReader_accepts.decode_iff _ _).2
      (padded_of (.cons blanks_nil hone (.nil blanks_nil)))
  have hsettled : Settled "\x7b\"note\":[\x7b\x7d],\"duplicate_scan\":\"sorted\"".toList := by
    intro c hc
    cases hc
    rfl
  have hblank : Blanks " ".toList := fun c hc => .inl (List.mem_singleton.1 hc)
  have hcomma : ¬ Blanks ",".toList := by
    rw [← skipBlanks_eq_nil_iff]
    decide
  obtain ⟨-, -, -, -, hsettings⟩ := decoders_stream
    "\x7b\"note\":[\x7b\x7d],\"duplicate_scan\":\"sorted\"" "[["
  obtain ⟨-, hadded, -⟩ := decoders_stream "[\"0x1\"]" " "
  obtain ⟨-, hover, -⟩ := decoders_stream "[\"0x1\"]" ","
  exact ⟨hsettings.mismatch _ hname hsettled, hadded.blank _ hlist hblank,
    hover.other _ hlist hcomma⟩

end Roster
