/-
Runs of steps whose arguments come as text. A step whose text could not be read is answered with
what is wrong with it; it leaves the list as it is and reports nothing.
-/
import Roster.Run
import Roster.Settings

namespace Roster

/-- Why a step has no answer. -/
inductive Failure where
  /-- A text is no address. -/
  | address (e : Address.ParseError)
  /-- A text holds no settings. -/
  | settings (e : Settings.LoadError)
  /-- The operation on the list was refused. -/
  | list (e : ListError)
  deriving DecidableEq, Repr

/-- A step, or what is wrong with its text. -/
abbrev Request := Except Failure Step

namespace Request

/-- The step that needs an address, from the address as text. -/
def ofAddress (step : Address → Step) (text : String) : Request :=
  match Address.parse text with
  | .error e => .error (.address e)
  | .ok a => .ok (step a)

/-- The search for a repeated address with settings given as text. -/
def hasDuplicateWith (text : String) : Request :=
  match Settings.parse text with
  | .error e => .error (.settings e)
  | .ok c => .ok (.hasDuplicate c.duplicateScan)

/-- Answers a request on the list `xs`. -/
def perform (xs : List Address) : Request → Logged (Outcome Failure)
  | .error e => return ⟨.error e, xs⟩
  | .ok step => do
    let out ← step.perform xs
    return ⟨out.answer.mapError .list, out.state⟩

end Request

/-- Answers requests one after the other, each on the list that the one before it left. -/
def runScript (xs : List Address) : List Request → Logged (List (Outcome Failure))
  | [] => return []
  | request :: requests => do
    let out ← request.perform xs
    return out :: (← runScript out.state requests)

end Roster
