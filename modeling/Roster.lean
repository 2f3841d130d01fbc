import Roster.Address.Json
import Roster.Address.Random
import Roster.Lookup.Json
import Roster.Script
import Roster.Proofs.Address.Canonical
import Roster.Proofs.Address.Grammar
import Roster.Proofs.Address.Json
import Roster.Proofs.Address.Normal
import Roster.Proofs.Address.Refusal
import Roster.Proofs.Address.Text
import Roster.Proofs.Duplicates
import Roster.Proofs.Lookup.Json
import Roster.Proofs.Lookup.Shift
import Roster.Proofs.Lookup.Views
import Roster.Proofs.Lookup.Word
import Roster.Proofs.Members
import Roster.Proofs.Removal
import Roster.Proofs.Run
import Roster.Proofs.Run.Batch
import Roster.Proofs.Run.Conservation
import Roster.Proofs.Run.Exhaustion
import Roster.Proofs.Run.Order
import Roster.Proofs.Run.Places
import Roster.Proofs.Run.Refusals
import Roster.Proofs.Run.Replay
import Roster.Proofs.Scan
import Roster.Proofs.Settings
import Roster.Proofs.Settings.File
import Roster.Proofs.Streaming
import Roster.Proofs.Uniqueness
