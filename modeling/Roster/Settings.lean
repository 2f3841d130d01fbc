/-
Settings: which scan looks for repeated addresses. They are a JSON record whose one member may be
absent, and may be kept in a file; a file must hold UTF-8 throughout before its text is looked at.
-/
import Roster.Json.Record
import Roster.Scan.Json

namespace Roster

/-- What a caller may choose. -/
structure Settings where
  duplicateScan : Scan
  deriving DecidableEq, Repr

namespace Settings

/-- The settings of a caller who chooses nothing. -/
instance : Inhabited Settings := ⟨⟨default⟩⟩

/-! ## JSON -/

/-- The member that holds the scan. -/
def scanField : Json.Field (Option Scan) where
  name := "duplicate_scan"
  isSet := Option.isSome
  Value := Scan
  reader := Scan.reader
  set scan _ := some scan

/-- Records of settings; without a scan they are those of a caller who chooses nothing. -/
def record : Json.Record (Option Scan) Settings where
  kind := "ArrayUtilsConfig"
  fields := [scanField]
  empty := none
  build draft := .ok ⟨draft.getD default⟩

/-- Reads settings. -/
def reader : Json.Reader Settings := Json.recordOf record

/-- Settings as JSON without blanks. -/
def toJson (c : Settings) : String :=
  "\x7b\"duplicate_scan\":" ++ c.duplicateScan.toJson ++ "\x7d"

/-! ## Texts and files -/

/-- Why the text of a file cannot be had. -/
inductive ReadFailure where
  /-- There is no such file. -/
  | absent
  /-- The path leads to a directory. -/
  | directory
  /-- The bytes of the file are no UTF-8 text. -/
  | notText
  deriving DecidableEq, Repr

/-- Why there are no settings. -/
inductive LoadError where
  | unreadable (cause : ReadFailure)
  | invalid (fault : Json.Fault)
  deriving DecidableEq, Repr

/-- The message for settings that cannot be had from this path. -/
def LoadError.message (path : String) : LoadError → String
  | unreadable _ => "fail to read config file " ++ path
  | invalid _ => "fail to parse array utils config"

/-- The settings that a text holds. -/
def parse (text : String) : Except LoadError Settings := (reader.decode text).mapError .invalid

/-- What a path leads to. -/
inductive Source where
  | absent
  | directory
  | file (bytes : List UInt8)
  deriving DecidableEq, Repr

/-- The text of the file that a path leads to. -/
def Source.text : Source → Except ReadFailure String
  | absent => .error .absent
  | directory => .error .directory
  | file bytes =>
    match String.fromUTF8? bytes.toByteArray with
    | none => .error .notText
    | some text => .ok text

/-- The settings in the file that a path leads to. -/
def load (source : Source) : Except LoadError Settings :=
  match source.text with
  | .error cause => .error (.unreadable cause)
  | .ok text => parse text

end Settings

end Roster
