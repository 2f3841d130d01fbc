/-
Members that come twice, and members that never come. What is read of an object up to some member
depends on the members before it alone: in whatever order they came and however their names are
written, a known name that was among them is refused as soon as it is read again, and one that was
not is told of at the closing bracket, in answers of a search, while settings do without it
(`repeated_and_missing_members`).
-/
import Roster.Proofs.Json.Refusal
import Roster.Proofs.Lookup.Json
import Roster.Proofs.Settings

namespace Roster

open Json

variable {ms : List (String × List Char)} {rest s : List Char} {text : String}

/-! ## Answers of a search -/

namespace Lookup

/-- Members that an answer may begin with: its index and its flag each come at most once, with a
value of their kind, and all others have some value. -/
structure Begins (ms : List (String × List Char)) : Prop where
  index : AtMostOne Index (valuesOf "index" ms)
  found : AtMostOne Flag (valuesOf "found" ms)
  other : ∀ m ∈ ms, m.1 ≠ "index" → m.1 ≠ "found" → IsValue m.2

/-- The draft that such members fill holds the fields whose names are among them. -/
theorem Begins.exists_fills (h : Begins ms) :
    ∃ d, Fills record.fields record.empty ms d ∧
      (d.index.isSome = true ↔ "index" ∈ ms.map (·.1)) ∧
      (d.found.isSome = true ↔ "found" ∈ ms.map (·.1)) := by
  obtain ⟨i, hi⟩ := index_accepts.exists_filled h.index
  obtain ⟨b, hb⟩ := boolean_accepts.exists_filled h.found
  obtain ⟨d, hd⟩ : ∃ d, Fills record.fields record.empty ms d := by
    refine Json.exists_fills (fun m hm hne => h.other m hm (hne indexField (.head _))
      (hne foundField (.tail _ (.head _)))) fun f hf => ?_
    rcases List.mem_pair.1 hf with rfl | rfl
    · exact ⟨_, i, indexField_shows, hi⟩
    · exact ⟨_, b, foundField_shows, hb⟩
  exact ⟨d, hd, hd.isSome_iff indexField_shows rfl, hd.isSome_iff foundField_shows rfl⟩

theorem run_repeated (h : Begins ms) {name : String} (hname : name = "index" ∨ name = "found")
    (hmem : name ∈ ms.map (·.1)) (hr : ReachesName ms name rest s) :
    reader.run s = .error (.mismatch (.duplicateField name)) := by
  obtain ⟨d, hd, -, -⟩ := h.exists_fills
  rcases hname with rfl | rfl
  · exact recordOf_repeated fields_accept indexField_shows rfl hd hmem hr
  · exact recordOf_repeated fields_accept foundField_shows rfl hd hmem hr

/-- The index is told of first when it is missing. -/
theorem run_without_index (h : Begins ms) (hi : "index" ∉ ms.map (·.1))
    (hr : ReachesClose ms rest s) :
    reader.run s = .error (.mismatch (.missingField "index")) := by
  obtain ⟨d, hd, hindex, -⟩ := h.exists_fills
  rw [reader, recordOf_closes fields_accept hd hr]
  obtain ⟨_ | i, b⟩ := d
  · rfl
  · exact absurd (hindex.1 rfl) hi

theorem run_without_found (h : Begins ms) (hi : "index" ∈ ms.map (·.1))
    (hb : "found" ∉ ms.map (·.1)) (hr : ReachesClose ms rest s) :
    reader.run s = .error (.mismatch (.missingField "found")) := by
  obtain ⟨d, hd, hindex, hfound⟩ := h.exists_fills
  rw [reader, recordOf_closes fields_accept hd hr]
  obtain ⟨_ | i, _ | b⟩ := d
  · cases hindex.2 hi
  · cases hindex.2 hi
  · rfl
  · exact absurd (hfound.1 rfl) hb

end Lookup

/-! ## Settings -/

namespace Settings

/-- Members that settings may begin with: their scan comes at most once and is one, and all others
have some value. -/
structure Begins (ms : List (String × List Char)) : Prop where
  scan : AtMostOne Scan.Written (valuesOf "duplicate_scan" ms)
  other : ∀ m ∈ ms, m.1 ≠ "duplicate_scan" → IsValue m.2

theorem Begins.exists_fills (h : Begins ms) : ∃ d, Fills record.fields record.empty ms d := by
  obtain ⟨o, ho⟩ := Scan.reader_accepts.exists_filled h.scan
  refine Json.exists_fills (fun m hm hne => h.other m hm (hne scanField (.head _))) fun f hf => ?_
  cases List.mem_singleton.1 hf
  exact ⟨id, o, scanField_shows, ho⟩

theorem run_repeated (h : Begins ms) (hmem : "duplicate_scan" ∈ ms.map (·.1))
    (hr : ReachesName ms "duplicate_scan" rest s) :
    reader.run s = .error (.mismatch (.duplicateField "duplicate_scan")) := by
  obtain ⟨d, hd⟩ := h.exists_fills
  exact recordOf_repeated fields_accept scanField_shows rfl hd hmem hr

/-- At the closing bracket the scan that was given is taken, or the default one. -/
theorem run_closes (h : Begins ms) (hr : ReachesClose ms rest s) :
    ∃ c : Settings, c.Given (valuesOf "duplicate_scan" ms) ∧ reader.run s = .ok (c, rest) := by
  obtain ⟨d, hd⟩ := h.exists_fills
  refine ⟨⟨d.getD default⟩, given_iff.2 ⟨d, hd.filled scanField_shows, rfl⟩, ?_⟩
  rw [reader, recordOf_closes fields_accept hd hr]
  rfl

theorem scan_neverMisses (name : String) : Scan.reader.NeverMisses name := by
  have hname : ∀ t, Scan.readName t ≠ .error (.mismatch (.missingField name)) := by
    intro t
    unfold Scan.readName
    split
    · simp
    · split <;> simp
  have hunit : ∀ t, Scan.readUnit t ≠ .error (.mismatch (.missingField name)) := by
    intro t
    unfold Scan.readUnit
    split
    · simp
    · split
      · rename_i hn
        intro he
        cases he
        refine scalar_neverMisses (fun v => ?_) _ hn
        split <;> simp
      · split <;> simp
  intro t
  show Scan.read t ≠ _
  unfold Scan.read
  split
  · exact hname _
  · split
    · split
      · rename_i hn
        intro he
        cases he
        exact hname _ hn
      · exact map_ne_error _ (hunit _)
    · simp
  · simp

/-- Settings have a default for what is missing. -/
theorem reader_neverMisses (name : String) : reader.NeverMisses name := by
  refine recordOf_neverMisses (fun f hf => ?_) fun d n h => ?_
  · cases List.mem_singleton.1 hf
    exact scan_neverMisses name
  · cases h

theorem parse_eq_invalid_iff {fault : Fault} :
    parse text = .error (.invalid fault) ↔ reader.decode text = .error fault := by
  unfold parse
  cases reader.decode text <;> simp [Except.mapError]

theorem parse_eq_mismatch_iff {m : Mismatch} :
    parse text = .error (.invalid (.mismatch m)) ↔
      reader.run text.toList = .error (.mismatch m) :=
  parse_eq_invalid_iff.trans Reader.decode_eq_mismatch_iff

end Settings

/-! ## Both of them -/

/-- After members that an answer, or settings, may begin with, the name of one that came before is
refused whatever follows the name. When the object closes instead, an answer lacks its index, or
else its flag, if no member had that name, whatever follows the bracket; settings take the default,
and never lack anything. -/
theorem repeated_and_missing_members (text : String) (ms : List (String × List Char))
    (rest : List Char) :
    (Lookup.Begins ms →
      (∀ name, name = "index" ∨ name = "found" → name ∈ ms.map (·.1) →
        ReachesName ms name rest text.toList →
        ∃ m, Lookup.reader.decode text = .error (.mismatch m) ∧
          m.message = "duplicate field `" ++ name ++ "`") ∧
      (ReachesClose ms rest text.toList → "index" ∉ ms.map (·.1) →
        ∃ m, Lookup.reader.decode text = .error (.mismatch m) ∧
          m.message = "missing field `index`") ∧
      (ReachesClose ms rest text.toList → "index" ∈ ms.map (·.1) → "found" ∉ ms.map (·.1) →
        ∃ m, Lookup.reader.decode text = .error (.mismatch m) ∧
          m.message = "missing field `found`")) ∧
    (Settings.Begins ms →
      ("duplicate_scan" ∈ ms.map (·.1) → ReachesName ms "duplicate_scan" rest text.toList →
        ∃ m, Settings.parse text = .error (.invalid (.mismatch m)) ∧
          m.message = "duplicate field `duplicate_scan`") ∧
      (ReachesClose ms rest text.toList →
        ∃ c : Settings, c.Given (valuesOf "duplicate_scan" ms) ∧
          (Blanks rest → Settings.parse text = .ok c) ∧
          (¬ Blanks rest → Settings.parse text = .error (.invalid .malformed)))) ∧
    (∀ name, Settings.parse text ≠ .error (.invalid (.mismatch (.missingField name)))) := by
  refine ⟨fun h => ⟨fun name hname hmem hr => ?_, fun hr hi => ?_, fun hr hi hb => ?_⟩,
    fun h => ⟨fun hmem hr => ?_, fun hr => ?_⟩, fun name he => ?_⟩
  · exact ⟨_, Reader.decode_eq_mismatch_iff.2 (Lookup.run_repeated h hname hmem hr), rfl⟩
  · exact ⟨_, Reader.decode_eq_mismatch_iff.2 (Lookup.run_without_index h hi hr), rfl⟩
  · exact ⟨_, Reader.decode_eq_mismatch_iff.2 (Lookup.run_without_found h hi hb hr), rfl⟩
  · exact ⟨_, Settings.parse_eq_mismatch_iff.2 (Settings.run_repeated h hmem hr), rfl⟩
  · obtain ⟨c, hc, hrun⟩ := Settings.run_closes h hr
    refine ⟨c, hc, fun hb => ?_, fun hb => Settings.parse_eq_invalid_iff.2 ?_⟩
    · rw [Settings.parse, Reader.decode_eq_ok_iff.2 ⟨rest, hrun, hb⟩]
      rfl
    · rw [← skipBlanks_eq_nil_iff] at hb
      simp only [Reader.decode, hrun, if_neg hb]
  · exact Settings.reader_neverMisses name _ (Settings.parse_eq_mismatch_iff.1 he)

/-- After a list under an unknown name and a flag, a second flag is refused before its colon. When
the object closes instead, an answer lacks its index, and settings are the default ones. A second
scan is refused where the text ends after its name. -/
theorem second_flag_and_no_index :
    (∃ m, Lookup.reader.decode "\x7b\"x\":[],\"found\":true,\"found\" and so on" =
      .error (.mismatch m) ∧ m.message = "duplicate field `found`") ∧
    (∃ m, Lookup.reader.decode "\x7b\"x\":[],\"found\":true\x7d" = .error (.mismatch m) ∧
      m.message = "missing field `index`") ∧
    Settings.parse "\x7b\"x\":[],\"found\":true\x7d" = .ok ⟨.pairwise⟩ ∧
    (∃ m, Settings.parse "\x7b\"duplicate_scan\":\"hash_set\",\"duplicate_scan\"" =
      .error (.invalid (.mismatch m)) ∧ m.message = "duplicate field `duplicate_scan`") := by
  let ms : List (String × List Char) := [("x", "[]".toList), ("found", "true".toList)]
  let ms' : List (String × List Char) := [("duplicate_scan", "\"hash_set\"".toList)]
  have hvalue : IsValue "[]".toList := .list (.nil blanks_nil) (fun _ h => by cases h)
  have hlist : NamedMember ("x", "[]".toList) _ := namedMember_of_plain _ _ (by decide)
  have hflag : NamedMember ("found", "true".toList) _ := namedMember_of_plain _ _ (by decide)
  have hscan : NamedMember ("duplicate_scan", "\"hash_set\"".toList) _ :=
    namedMember_of_plain _ _ (by decide)
  have hanswer : Lookup.Begins ms := by
    refine ⟨.none, .one (a := true) rfl, fun m hm _ hne => ?_⟩
    rcases List.mem_pair.1 hm with rfl | rfl
    · exact hvalue
    · exact absurd rfl hne
  have hsettings : Settings.Begins ms := by
    refine ⟨.none, fun m hm _ => ?_⟩
    rcases List.mem_pair.1 hm with rfl | rfl
    · exact hvalue
    · exact .flag (b := true) rfl
  have hsettings' : Settings.Begins ms' := by
    refine ⟨.one (a := .hashSet) (.name (literal_of_plain (by decide))), fun m hm hne => ?_⟩
    cases List.mem_singleton.1 hm
    exact absurd rfl hne
  have hname : ReachesName ms "found" " and so on".toList
      "\x7b\"x\":[],\"found\":true,\"found\" and so on".toList :=
    ⟨[], _, [], _, blanks_nil,
      .cons blanks_nil hlist blanks_nil (.cons blanks_nil hflag blanks_nil .nil), blanks_nil,
      literal_of_plain (by decide), rfl⟩
  have hclose : ReachesClose ms [] "\x7b\"x\":[],\"found\":true\x7d".toList :=
    ⟨[], _, blanks_nil,
      .cons blanks_nil hlist (.cons blanks_nil blanks_nil hflag (.nil blanks_nil)), rfl⟩
  have hname' : ReachesName ms' "duplicate_scan" []
      "\x7b\"duplicate_scan\":\"hash_set\",\"duplicate_scan\"".toList :=
    ⟨[], _, [], _, blanks_nil, .cons blanks_nil hscan blanks_nil .nil, blanks_nil,
      literal_of_plain (by decide), rfl⟩
  obtain ⟨hrepeated, -⟩ := repeated_and_missing_members _ ms _
  obtain ⟨hmissing, hdefault, -⟩ := repeated_and_missing_members _ ms []
  obtain ⟨-, hrepeated', -⟩ := repeated_and_missing_members _ ms' []
  obtain ⟨c, hc, hparse, -⟩ := (hdefault hsettings).2 hclose
  refine ⟨(hrepeated hanswer).1 _ (.inr rfl) (by decide) hname,
    (hmissing hanswer).2.1 hclose (by decide), ?_, (hrepeated' hsettings').1 (by decide) hname'⟩
  cases hc with
  | absent hpairwise => rw [hparse blanks_nil, ← hpairwise]

end Roster
