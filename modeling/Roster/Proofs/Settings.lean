/-
The format of settings. A scan is its name or an object that gives the name the value `null`
(`Scan.Written`); settings give one scan or none, in an object with any other members or in a list
(`Settings.Written`). What a text gives depends on its members or items alone
(`written_iff_of_members`, `written_iff_of_items`), so that no text with two scans holds settings.
Every text in the format is read as what it says, and every other text is refused with one message
(`Settings.parse_spec`).
-/
import Roster.Settings
import Roster.Proofs.Json.Record
import Roster.Proofs.Json.Unambiguous

namespace Roster

open Json

/-! ## Scans -/

namespace Scan

/-- How a scan is written: its name, or an object whose only member gives that name `null`. -/
inductive Written (scan : Scan) (t : List Char) : Prop where
  | name : Literal scan.name t → Written scan t
  | object : Enclosed '{' '}' NamedMember [(scan.name, ['n', 'u', 'l', 'l'])] t → Written scan t

theorem ofName?_eq_some_iff {name : String} {scan : Scan} :
    ofName? name = some scan ↔ name = scan.name := by
  constructor
  · intro h
    unfold ofName? at h
    split at h
    · cases h; assumption
    · split at h
      · cases h; assumption
      · cases h
  · rintro rfl
    exact ofName?_name scan

/-- The name that is read is the literal of a scan. -/
theorem exists_literal_of_readName {s rest : List Char} {scan : Scan}
    (h : readName s = .ok (scan, rest)) : ∃ t, Literal scan.name t ∧ '"' :: s = t ++ rest := by
  unfold readName at h
  split at h
  · cases h
  · rename_i name r hs
    split at h
    · cases h
    · rename_i hn
      cases h
      obtain rfl := ofName?_eq_some_iff.1 hn
      exact exists_literal_of_readString hs

theorem readName_append {scan : Scan} {t : List Char} (h : Literal scan.name t) :
    ∃ u, t = '"' :: u ∧ ∀ rest, readName (u ++ rest) = .ok (scan, rest) := by
  obtain ⟨u, rfl, hread⟩ := h.read
  refine ⟨u, rfl, fun rest => ?_⟩
  simp only [readName, hread, ofName?_name]

/-- What is read after a name is a colon, `null` and the closing bracket. -/
theorem readUnit_eq_ok_iff {s rest : List Char} :
    readUnit s = .ok ((), rest) ↔ ∃ b b' b'', Blanks b ∧ Blanks b' ∧ Blanks b'' ∧
      s = b ++ ':' :: (b' ++ (['n', 'u', 'l', 'l'] ++ (b'' ++ '}' :: rest))) := by
  constructor
  · intro h
    unfold readUnit at h
    split at h
    · cases h
    · rename_i t hc
      obtain ⟨b, hb, rfl⟩ := afterColon_eq_some_iff.1 hc
      split at h
      · cases h
      · rename_i u hn
        obtain ⟨b', _, hb', rfl, rfl⟩ := null_accepts.sound hn
        split at h
        · rename_i hu
          cases h
          obtain ⟨-, b'', hb'', rfl⟩ := skipBlanks_eq_cons_iff.1 hu
          exact ⟨b, b', b'', hb, hb', hb'', rfl⟩
        · cases h
  · rintro ⟨b, b', b'', hb, hb', hb'', rfl⟩
    have hend : Numeral.Ends (b'' ++ '}' :: rest) :=
      ends_of_blanks hb'' (ends_cons (.inr (.inr rfl)) rest)
    have hclose : skipBlanks (b'' ++ '}' :: rest) = '}' :: rest := hb''.skip rfl _
    have hnull := null_accepts.complete (a := ()) hb' rfl hend
    simp only [readUnit, afterColon_eq_some_iff.2 ⟨b, hb, rfl⟩, hnull, hclose]

theorem reader_accepts : reader.Accepts Written where
  isValue h := by
    cases h with
    | name h => exact .literal h.isLiteral
    | object h =>
      refine isValue_of_members h fun m hm => ?_
      cases List.mem_singleton.1 hm
      exact .null
  sound {s rest scan} h := by
    replace h : read s = .ok (scan, rest) := h
    obtain ⟨b, hb, hbs⟩ := exists_blanks s
    unfold read at h
    split at h
    · rename_i hs
      obtain ⟨t, ht, htr⟩ := exists_literal_of_readName h
      exact ⟨b, t, hb, .name ht, by rw [hbs, hs, htr]⟩
    · rename_i t hs
      split at h
      · rename_i u ht
        split at h
        · cases h
        · rename_i scan' v hn
          cases hu : readUnit v with
          | error e => rw [hu] at h; cases h
          | ok p =>
            rw [hu] at h
            cases h
            obtain ⟨key, hk, hkv⟩ := exists_literal_of_readName hn
            obtain ⟨b₁, b₂, b₃, hb₁, hb₂, hb₃, rfl⟩ := readUnit_eq_ok_iff.1 hu
            obtain ⟨-, b₀, hb₀, rfl⟩ := skipBlanks_eq_cons_iff.1 ht
            exact ⟨b, _, hb, .object (.cons hb₀ ⟨key, hk, b₁, b₂, hb₁, hb₂, rfl⟩ (.nil hb₃)),
              by rw [hbs, hs, hkv]; simp⟩
      · cases h
    · cases h
  complete {b t rest scan} hb h _ := by
    show read (b ++ (t ++ rest)) = _
    cases h with
    | name h =>
      obtain ⟨u, rfl, hread⟩ := readName_append h
      have hs : skipBlanks (b ++ ('"' :: u ++ rest)) = '"' :: (u ++ rest) := hb.skip rfl _
      simp only [read, hs, hread]
    | object h =>
      -- the object has one member, and blanks at four places
      obtain - | ⟨hb₀, ⟨key, hk, b₁, b₂, hb₁, hb₂, rfl⟩, ⟨hb₃⟩⟩ := h
      rename_i b₀ b₃
      obtain ⟨u, rfl, hread⟩ := readName_append hk
      have hs : ∀ r, skipBlanks (b ++ '{' :: r) = '{' :: r := fun r => hb.skip rfl r
      have hk : ∀ r, skipBlanks (b₀ ++ '"' :: r) = '"' :: r := fun r => hb₀.skip rfl r
      have hunit : readUnit _ = .ok ((), rest) :=
        readUnit_eq_ok_iff.2 ⟨b₁, b₂, b₃, hb₁, hb₂, hb₃, rfl⟩
      simp only [List.cons_append, List.append_assoc, List.nil_append] at hunit ⊢
      simp only [read, hs, hk, hread, hunit]
      rfl

end Scan

/-! ## Settings -/

namespace Settings

/-- The values that settings give for their scan: none for the default, or one. -/
inductive Given (c : Settings) : List (List Char) → Prop where
  | absent : c.duplicateScan = .pairwise → Given c []
  | present {v : List Char} : c.duplicateScan.Written v → Given c [v]

/-- How settings are written: as an object that may have other members, or as a list. -/
inductive Written (c : Settings) (t : List Char) : Prop where
  | object {ms : List (String × List Char)} : Enclosed '{' '}' NamedMember ms t →
      (∀ m ∈ ms, m.1 ≠ "duplicate_scan" → IsValue m.2) →
      c.Given (valuesOf "duplicate_scan" ms) → Written c t
  | list {vs : List (List Char)} : Enclosed '[' ']' Eq vs t → c.Given vs → Written c t

theorem scanField_shows : scanField.Shows record.fields id where
  find := by simp [record]
  isSet _ := rfl
  set _ _ := rfl
  other g hg hne := by cases List.mem_singleton.1 hg; exact absurd rfl hne

theorem fields_accept : ∀ f ∈ record.fields, f.reader.Accepts f.reader.Takes := by
  intro f hf
  cases List.mem_singleton.1 hf
  exact Scan.reader_accepts.takes

/-- The values that fill the draft of settings are those that settings give. -/
theorem given_iff {c : Settings} {vs : List (List Char)} :
    c.Given vs ↔ ∃ d, Filled Scan.reader.Takes none vs d ∧ record.build d = .ok c := by
  constructor
  · rintro (hc | hv)
    · have hd : (⟨default⟩ : Settings) = c := congrArg Settings.mk hc.symm
      exact ⟨none, .kept, congrArg Except.ok hd⟩
    · exact ⟨some c.duplicateScan, .set (Scan.reader_accepts.takes_iff.2 hv), rfl⟩
  · rintro ⟨d, hd, hc⟩
    cases hc
    cases hd with
    | kept => exact .absent rfl
    | set hv => exact .present (Scan.reader_accepts.takes_iff.1 hv)

theorem written_iff (c : Settings) (t : List Char) : record.Written c t ↔ c.Written t := by
  constructor
  · rintro (⟨ht, hd, hc⟩ | ⟨ht, hd, hc⟩)
    · exact .object ht (fun m hm _ => hd.isValue m hm)
        (given_iff.2 ⟨_, hd.filled scanField_shows, hc⟩)
    · refine .list ht (given_iff.2 ⟨_, ?_, hc⟩)
      cases hd with
      | nil => exact .kept
      | cons hv hd => cases hd; exact .set hv
  · rintro (⟨ht, hother, hg⟩ | ⟨ht, hg⟩)
    · obtain ⟨o, ho, hc⟩ := given_iff.1 hg
      obtain ⟨d, hd⟩ : ∃ d, Fills record.fields none _ d := by
        refine exists_fills (fun m hm h => hother m hm (h scanField (.head _))) fun f hf => ?_
        cases List.mem_singleton.1 hf
        exact ⟨id, o, scanField_shows, ho⟩
      obtain rfl : d = o := (hd.filled scanField_shows).eq ho
      exact .object ht hd hc
    · obtain ⟨o, ho, hc⟩ := given_iff.1 hg
      cases ho with
      | kept => exact .list ht .nil hc
      | set hv => exact .list ht (.cons hv .nil) hc

theorem reader_accepts : reader.Accepts Written :=
  (recordOf_accepts fields_accept).congr written_iff

/-! ## What a text gives -/

variable {c : Settings} {t v w : List Char} {vs : List (List Char)}
  {ms : List (String × List Char)}

theorem Given.isValue (h : c.Given vs) : ∀ v ∈ vs, IsValue v := by
  cases h with
  | absent => exact List.forall_mem_nil _
  | present hv => exact List.forall_mem_singleton.2 (Scan.reader_accepts.isValue hv)

/-- An object of values holds the settings that its scans give. -/
theorem written_iff_of_members (ht : Enclosed '{' '}' NamedMember ms t)
    (hv : ∀ m ∈ ms, IsValue m.2) : c.Written t ↔ c.Given (valuesOf "duplicate_scan" ms) := by
  constructor
  · intro h
    cases h with
    | @object ms' ht' hother hg =>
      have hv' : ∀ m ∈ ms', IsValue m.2 := fun m hm => by
        by_cases hname : m.1 = "duplicate_scan"
        · exact hg.isValue _ (hname ▸ mem_valuesOf hm)
        · exact hother m hm hname
      obtain rfl := ht.eq distinct_members (.inr rfl) ht' rfl hv hv'
      exact hg
    | list ht' => exact absurd (ht.opening_eq ht') (by decide)
  · exact fun hg => .object ht (fun m hm _ => hv m hm) hg

/-- A list of values holds the settings that its items give. -/
theorem written_iff_of_items (ht : Enclosed '[' ']' Eq vs t) (hv : ∀ v ∈ vs, IsValue v) :
    c.Written t ↔ c.Given vs := by
  constructor
  · intro h
    cases h with
    | object ht' => exact absurd (ht.opening_eq ht') (by decide)
    | list ht' hg =>
      obtain rfl := ht.eq distinct_values (.inl rfl) ht' rfl hv hg.isValue
      exact hg
  · exact .list ht

/-- No list of values with two items holds settings. -/
theorem not_padded_of_items (hv : ∀ u ∈ v :: w :: vs, IsValue u)
    (h : Padded (Enclosed '[' ']' Eq (v :: w :: vs)) t) : ¬ Padded c.Written t := by
  obtain ⟨b, u, b', hb, hu, hb', rfl⟩ := h
  rw [padded_iff (fun _ => reader_accepts.isValue) hb hb' (.list hu hv),
    written_iff_of_items hu hv]
  nofun

/-- No object of values with two scans holds settings. -/
theorem not_padded_of_members (hv : ∀ m ∈ ms, IsValue m.2)
    (hscans : valuesOf "duplicate_scan" ms = v :: w :: vs)
    (h : Padded (Enclosed '{' '}' NamedMember ms) t) : ¬ Padded c.Written t := by
  obtain ⟨b, u, b', hb, hu, hb', rfl⟩ := h
  rw [padded_iff (fun _ => reader_accepts.isValue) hb hb' (isValue_of_members hu hv),
    written_iff_of_members hu hv, hscans]
  nofun

/-! ## Reading settings -/

/-- A text holds settings when it is written as they are, with blanks around it; any other text is
refused, always with the same message. -/
theorem parse_spec (text : String) :
    (∀ c, parse text = .ok c ↔ Padded c.Written text.toList) ∧
    ((∀ c : Settings, ¬ Padded c.Written text.toList) →
      ∃ e, parse text = .error e ∧
        ∀ path, e.message path = "fail to parse array utils config") := by
  have hok : ∀ c, parse text = .ok c ↔ Padded c.Written text.toList := fun c => by
    rw [← reader_accepts.decode_iff, parse]
    cases reader.decode text <;> simp [Except.mapError]
  refine ⟨hok, fun h => ?_⟩
  cases hp : parse text with
  | ok c => exact absurd ((hok c).1 hp) (h c)
  | error e =>
    refine ⟨e, rfl, fun path => ?_⟩
    -- a text that is at hand cannot be unreadable
    unfold parse at hp
    cases hd : reader.decode text with
    | ok c => rw [hd] at hp; cases hp
    | error fault => rw [hd] at hp; cases hp; rfl

/-- A list with a scan is read. The empty text is refused, and so is one with a second scan, in a
list or in an object, or with more after the list. -/
theorem list_and_second_scan :
    parse "[\"hash_set\"]" = .ok ⟨.hashSet⟩ ∧
    ∀ text ∈ ["", "[\"hash_set\",\"hash_set\"]",
        "\x7b\"duplicate_scan\":\"hash_set\",\"duplicate_scan\":\"hash_set\"\x7d",
        "[\"hash_set\"],"],
      ∃ e, parse text = .error e ∧
        ∀ path, e.message path = "fail to parse array utils config" := by
  let scan := "\"hash_set\"".toList
  have hscan : Scan.Written .hashSet scan := .name (literal_of_plain (by decide))
  have hvalue : IsValue scan := Scan.reader_accepts.isValue hscan
  have hvalues : ∀ v ∈ [scan, scan], IsValue v :=
    List.forall_mem_cons.2 ⟨hvalue, List.forall_mem_singleton.2 hvalue⟩
  have hitem : Enclosed '[' ']' Eq [scan] "[\"hash_set\"]".toList :=
    .cons blanks_nil rfl (.nil blanks_nil)
  have hitems : Enclosed '[' ']' Eq [scan, scan] "[\"hash_set\",\"hash_set\"]".toList :=
    .cons blanks_nil rfl (.cons blanks_nil blanks_nil rfl (.nil blanks_nil))
  have hmember : NamedMember ("duplicate_scan", scan) _ := namedMember_of_plain _ _ (by decide)
  have hmembers : Enclosed '{' '}' NamedMember [("duplicate_scan", scan), ("duplicate_scan", scan)]
      "\x7b\"duplicate_scan\":\"hash_set\",\"duplicate_scan\":\"hash_set\"\x7d".toList :=
    .cons blanks_nil hmember (.cons blanks_nil blanks_nil hmember (.nil blanks_nil))
  have hcomma : ¬ Blanks [','] := by
    rw [← skipBlanks_eq_nil_iff]
    decide
  refine ⟨((parse_spec _).1 _).2 (padded_of (.list hitem (.present hscan))),
    fun text hmem => (parse_spec text).2 fun c hc => ?_⟩
  simp only [List.mem_cons, List.not_mem_nil, or_false] at hmem
  rcases hmem with rfl | rfl | rfl | rfl
  · obtain ⟨b, u, b', -, hu, -, ht⟩ := hc
    obtain ⟨d, w, rfl, -⟩ := (reader_accepts.isValue hu).head
    simp at ht
  · exact not_padded_of_items hvalues (padded_of hitems) hc
  · refine not_padded_of_members (fun m hm => ?_) rfl (padded_of hmembers) hc
    rcases List.mem_pair.1 hm with rfl | rfl
    · exact hvalue
    · exact hvalue
  · exact not_padded_of_rest (fun _ => reader_accepts.isValue)
      (.list hitem (List.forall_mem_singleton.2 hvalue)) (ends_cons (.inl rfl) []) hcomma hc

end Settings

end Roster
