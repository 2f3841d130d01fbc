/-
Names of scans in JSON. A name may be written as a literal or as the only key of an object, its
value `null`; both are decided by the name as soon as it has been read. So they always come to the
same, and a name that is not known is told of whatever follows it, in settings as well
(`names_in_both_forms`). What is no string cannot be a key, and nothing is told of it
(`keys_are_strings`).
-/
import Roster.Proofs.Members

namespace Roster.Scan

open Json

variable {name : String} {ms : List (String × List Char)} {b s t u w : List Char} {text : String}
  {e : Fault}

/-! ## Forms of a name -/

/-- The object that gives this name the value `null`. -/
abbrev NameObject (name : String) : List Char → Prop :=
  Enclosed '{' '}' NamedMember [(name, ['n', 'u', 'l', 'l'])]

/-- A text that comes, after blanks, to a literal of this name, which stands alone or as the first
key of an object; anything may follow. -/
inductive Reaches (name : String) (t : List Char) : Prop where
  | literal {b w rest : List Char} : Blanks b → Literal name w → t = b ++ (w ++ rest) →
      Reaches name t
  | key {b b' w rest : List Char} : Blanks b → Blanks b' → Literal name w →
      t = b ++ '{' :: (b' ++ (w ++ rest)) → Reaches name t

theorem reaches_of_literal (h : Padded (Literal name) t) : Reaches name t := by
  obtain ⟨b, w, b', hb, hw, -, rfl⟩ := h
  exact .literal hb hw rfl

theorem reaches_of_object (h : Padded (NameObject name) t) : Reaches name t := by
  obtain ⟨b, w, b', hb, hw, -, rfl⟩ := h
  cases hw with
  | @cons b₀ _ u _ _ hb₀ hm _ =>
    obtain ⟨key, hk, b₁, b₂, -, -, rfl⟩ := hm
    have hrest :
        b ++ ('{' :: (b₀ ++ (key ++ (b₁ ++ ':' :: (b₂ ++ ['n', 'u', 'l', 'l'])) ++ u)) ++ b') =
        b ++ '{' :: (b₀ ++ (key ++ (b₁ ++ ':' :: (b₂ ++ ['n', 'u', 'l', 'l']) ++ (u ++ b')))) := by
      simp
    exact .key hb hb₀ hk hrest

/-- Neither form begins as the end of a list does. -/
theorem Reaches.skipBlanks_ne (h : Reaches name t) : ∀ r, skipBlanks t ≠ ']' :: r := by
  intro r hr
  rcases h with ⟨hb, hw, rfl⟩ | ⟨hb, -, -, rfl⟩
  · obtain ⟨v, rfl, -⟩ := hw.read
    rw [skipBlanks_append hb] at hr
    cases hr
  · rw [skipBlanks_append hb] at hr
    cases hr

/-! ## Names that are known -/

theorem decode_of_literal {scan : Scan} (h : Padded (Literal scan.name) text.toList) :
    reader.decode text = .ok scan := by
  obtain ⟨b, w, b', hb, hw, hb', ht⟩ := h
  exact (reader_accepts.decode_iff text scan).2 ⟨b, w, b', hb, .name hw, hb', ht⟩

theorem decode_of_object {scan : Scan} (h : Padded (NameObject scan.name) text.toList) :
    reader.decode text = .ok scan := by
  obtain ⟨b, w, b', hb, hw, hb', ht⟩ := h
  exact (reader_accepts.decode_iff text scan).2 ⟨b, w, b', hb, .object hw, hb', ht⟩

/-! ## Names that are not known -/

/-- What is told of a name that is not known. -/
def unknown (name : String) : Mismatch := .unknownName name [pairwise.name, hashSet.name]

theorem message_unknown (name : String) : (unknown name).message =
    "unknown variant `" ++ name ++ "`, expected `pairwise` or `hash_set`" := by
  have hnames : String.intercalate " or "
      ([pairwise.name, hashSet.name].map fun k => "`" ++ k ++ "`") =
        "`pairwise` or `hash_set`" := by simp [Scan.name]
  calc (unknown name).message
    _ = "unknown variant `" ++ name ++ "`, expected " ++ String.intercalate " or "
          ([pairwise.name, hashSet.name].map fun k => "`" ++ k ++ "`") := rfl
    _ = "unknown variant `" ++ name ++ ("`, expected " ++ "`pairwise` or `hash_set`") := by
      rw [hnames, String.append_assoc]
    _ = "unknown variant `" ++ name ++ "`, expected `pairwise` or `hash_set`" := by congr 1

theorem ofName?_eq_none_iff : ofName? name = none ↔ name ≠ "pairwise" ∧ name ≠ "hash_set" := by
  unfold ofName?
  split
  · rename_i h; simp [h]
  · split
    · rename_i h; simp [h]
    · rename_i hp hh; simp [hp, hh]

theorem readName_refuses (hn : ofName? name = none) (hw : Literal name w) :
    ∃ u, w = '"' :: u ∧ ∀ rest, readName (u ++ rest) = .error (.mismatch (unknown name)) := by
  obtain ⟨u, rfl, hread⟩ := hw.read
  refine ⟨u, rfl, fun rest => ?_⟩
  simp only [readName, hread, hn]
  rfl

/-- A name that is not known is told of in either form, whatever follows it. -/
theorem reader_refuses (hn : ofName? name = none) (h : Reaches name t) :
    reader.run t = .error (.mismatch (unknown name)) := by
  show read t = _
  rcases h with ⟨hb, hw, rfl⟩ | ⟨hb, hb', hw, rfl⟩
  · obtain ⟨u, rfl, hread⟩ := readName_refuses hn hw
    have hquote := hb.skip (c := '"') rfl
    simp only [read, List.cons_append, hquote, hread]
  · obtain ⟨u, rfl, hread⟩ := readName_refuses hn hw
    have hbracket := hb.skip (c := '{') rfl
    have hquote := hb'.skip (c := '"') rfl
    simp only [read, List.cons_append, hbracket, hquote, hread]

/-! ## Scans in settings -/

/-- What is wrong with a scan is wrong with settings that give it, in an object after any members
that settings may begin with. -/
theorem parse_refuses_member (hms : Settings.Begins ms) (hmem : "duplicate_scan" ∉ ms.map (·.1))
    (hb : Blanks b) (he : reader.run u = .error e)
    (h : ReachesName ms "duplicate_scan" (b ++ ':' :: u) text.toList) :
    Settings.parse text = .error (.invalid e) := by
  obtain ⟨d, hd⟩ := hms.exists_fills
  have hrun : Settings.reader.run text.toList = .error e :=
    recordOf_refuses_value Settings.fields_accept Settings.scanField_shows rfl hd hmem hb he h
  rw [Settings.parse_eq_invalid_iff, Reader.decode, hrun]

/-- So it is in a list. -/
theorem parse_refuses_item (hb : Blanks b) (hopen : ∀ r, skipBlanks u ≠ ']' :: r)
    (he : reader.run u = .error e) (h : text.toList = b ++ '[' :: u) :
    Settings.parse text = .error (.invalid e) := by
  have hrun : Settings.reader.run text.toList = .error e :=
    h ▸ recordOf_refuses_first rfl hb hopen he
  rw [Settings.parse_eq_invalid_iff, Reader.decode, hrun]

/-! ## Keys that are no strings -/

/-- A key that is no string is not JSON, whatever it is and whatever follows it. -/
theorem reader_refuses_key (hb : Blanks b) (hkey : ∀ u, skipBlanks s ≠ '"' :: u) :
    reader.run (b ++ '{' :: s) = .error .malformed := by
  have hbracket := hb.skip (c := '{') rfl s
  show read _ = _
  simp only [read, hbracket]

/-- The object of a scan is malformed as soon as its key turns out not to be a string, and so are
settings that give it in an object or a list. -/
theorem keys_are_strings (hb : Blanks b) (hkey : ∀ u, skipBlanks s ≠ '"' :: u) :
    (∀ text, text.toList = b ++ '{' :: s → reader.decode text = .error .malformed) ∧
    (∀ text ms b', Settings.Begins ms → "duplicate_scan" ∉ ms.map (·.1) → Blanks b' →
      ReachesName ms "duplicate_scan" (b' ++ ':' :: (b ++ '{' :: s)) text.toList →
      Settings.parse text = .error (.invalid .malformed)) ∧
    (∀ text b', Blanks b' → text.toList = b' ++ '[' :: (b ++ '{' :: s) →
      Settings.parse text = .error (.invalid .malformed)) := by
  have hrun := reader_refuses_key hb hkey
  refine ⟨fun text h => by rw [Reader.decode, h, hrun],
    fun text ms b' hms hmem hb' h => parse_refuses_member hms hmem hb' hrun h,
    fun text b' hb' h => parse_refuses_item hb' (fun r hr => ?_) hrun h⟩
  rw [hb.skip rfl] at hr
  cases hr

example : reader.decode "\x7b1:null\x7d" = .error .malformed := rfl

/-! ## Both forms -/

/-- Whether a name is written as a literal or as the only key of an object, the outcome is one: the
scan with that name, or that the name is not known. A name that is not known is told of as soon as
it comes, whatever follows, and so it is in settings, where it may come in an object or a list. -/
theorem names_in_both_forms (name : String) :
    (∀ text text', Padded (Literal name) text.toList → Padded (NameObject name) text'.toList →
      reader.decode text = reader.decode text' ∧
      (name = "pairwise" → reader.decode text = .ok .pairwise) ∧
      (name = "hash_set" → reader.decode text = .ok .hashSet)) ∧
    (name ≠ "pairwise" → name ≠ "hash_set" → ∃ m : Mismatch,
      m.message = "unknown variant `" ++ name ++ "`, expected `pairwise` or `hash_set`" ∧
      (∀ text, Padded (Literal name) text.toList ∨ Padded (NameObject name) text.toList ∨
        Reaches name text.toList → reader.decode text = .error (.mismatch m)) ∧
      (∀ text ms b u, Settings.Begins ms → "duplicate_scan" ∉ ms.map (·.1) → Blanks b →
        Reaches name u → ReachesName ms "duplicate_scan" (b ++ ':' :: u) text.toList →
        Settings.parse text = .error (.invalid (.mismatch m))) ∧
      (∀ text b u, Blanks b → Reaches name u → text.toList = b ++ '[' :: u →
        Settings.parse text = .error (.invalid (.mismatch m)))) := by
  refine ⟨fun text text' ht ht' => ⟨?_, ?_, ?_⟩, fun hp hh => ?_⟩
  · cases hn : ofName? name with
    | some scan =>
      obtain rfl := ofName?_eq_some_iff.1 hn
      rw [decode_of_literal ht, decode_of_object ht']
    | none =>
      rw [Reader.decode_eq_mismatch_iff.2 (reader_refuses hn (reaches_of_literal ht)),
        Reader.decode_eq_mismatch_iff.2 (reader_refuses hn (reaches_of_object ht'))]
  · rintro rfl
    exact decode_of_literal ht
  · rintro rfl
    exact decode_of_literal ht
  · have hn : ofName? name = none := ofName?_eq_none_iff.2 ⟨hp, hh⟩
    refine ⟨unknown name, message_unknown name, fun text h => ?_,
      fun text ms b u hms hmem hb hu h =>
        parse_refuses_member hms hmem hb (reader_refuses hn hu) h,
      fun text b u hb hu h =>
        parse_refuses_item hb hu.skipBlanks_ne (reader_refuses hn hu) h⟩
    have hreach : Reaches name text.toList := by
      rcases h with h | h | h
      · exact reaches_of_literal h
      · exact reaches_of_object h
      · exact h
    exact Reader.decode_eq_mismatch_iff.2 (reader_refuses hn hreach)

/-- Both forms of a known name are read. An unknown one is told of where a bracket of another kind
follows it, and in settings where the text is not JSON after it or ends there. -/
theorem hash_set_and_sorted :
    reader.decode "\"hash_set\"" = .ok .hashSet ∧
    reader.decode "\"hash_set\"" = reader.decode "\x7b \"hash_set\" : null\x7d" ∧
    ∃ m : Mismatch, m.message = "unknown variant `sorted`, expected `pairwise` or `hash_set`" ∧
      reader.decode "\x7b\"sorted\"]" = .error (.mismatch m) ∧
      Settings.parse "\x7b\"a\":null,\"duplicate_scan\":\"sorted\" x" =
        .error (.invalid (.mismatch m)) ∧
      Settings.parse "[\x7b\"sorted\"" = .error (.invalid (.mismatch m)) := by
  have hblank : Blanks [' '] := fun c hc => by cases List.mem_singleton.1 hc; decide
  have hknown : Literal "hash_set" "\"hash_set\"".toList := literal_of_plain (by decide)
  have hunknown : Literal "sorted" "\"sorted\"".toList := literal_of_plain (by decide)
  have hmember : NamedMember ("hash_set", ['n', 'u', 'l', 'l']) "\"hash_set\" : null".toList :=
    ⟨_, hknown, _, _, hblank, hblank, rfl⟩
  have hobject : NameObject "hash_set" "\x7b \"hash_set\" : null\x7d".toList :=
    .cons hblank hmember (.nil blanks_nil)
  have hbegins : Settings.Begins [("a", "null".toList)] := by
    refine ⟨.none, fun m hm _ => ?_⟩
    cases List.mem_singleton.1 hm
    exact .null
  have hother : NamedMember ("a", "null".toList) _ := namedMember_of_plain _ _ (by decide)
  have hname : ReachesName [("a", "null".toList)] "duplicate_scan" ":\"sorted\" x".toList
      "\x7b\"a\":null,\"duplicate_scan\":\"sorted\" x".toList :=
    ⟨[], _, [], _, blanks_nil, .cons blanks_nil hother blanks_nil .nil, blanks_nil,
      literal_of_plain (by decide), rfl⟩
  obtain ⟨hforms, -⟩ := names_in_both_forms "hash_set"
  obtain ⟨hsame, -, hok⟩ := hforms "\"hash_set\"" "\x7b \"hash_set\" : null\x7d"
    (padded_of hknown) (padded_of hobject)
  obtain ⟨-, hrefused⟩ := names_in_both_forms "sorted"
  obtain ⟨m, hm, hvalue, hnamed, hitem⟩ := hrefused (by decide) (by decide)
  refine ⟨hok rfl, hsame, m, hm, hvalue _ (.inr (.inr (.key blanks_nil blanks_nil hunknown rfl))),
    hnamed _ _ [] _ hbegins (by decide) blanks_nil (.literal blanks_nil hunknown rfl) hname,
    hitem _ [] _ blanks_nil (.key blanks_nil blanks_nil hunknown rfl) rfl⟩

end Roster.Scan
