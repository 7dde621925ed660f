import BlockScript.Main
import BlockScript.World.Edit
import BlockScript.Proofs.Script.Forest
import BlockScript.Proofs.Thread.Slicing
import BlockScript.Proofs.Actor.Control
import BlockScript.Proofs.Actor.Dispatch
import BlockScript.Proofs.World.Alone
import BlockScript.Proofs.World.Refusal
import BlockScript.Proofs.Script.Lifetime
import BlockScript.Proofs.Script.Outline
import BlockScript.Proofs.Script.Requests
import BlockScript.Proofs.Thread.Mirror
import BlockScript.Proofs.Json.Takes
import BlockScript.Proofs.Json.Text
import BlockScript.Proofs.Json.Conveys
import BlockScript.Proofs.Color
import BlockScript.Proofs.World.Snapshot
import BlockScript.Proofs.Thread.Blocked
import BlockScript.Proofs.Thread.Path
import BlockScript.Proofs.Thread.Change
import BlockScript.Proofs.Thread.Budget
import BlockScript.Proofs.Thread.Ending
import BlockScript.Proofs.Number.Finite
import BlockScript.Proofs.Options.Valid
import BlockScript.Proofs.Program.Clicks
import BlockScript.Proofs.Program.Schedule
import BlockScript.Proofs.Thread.Forever
import BlockScript.Proofs.Script.Reorder
import BlockScript.Proofs.Script.Growth
import BlockScript.Proofs.Script.Removal
import BlockScript.Proofs.World.Planting
import BlockScript.Proofs.World.Additions
import BlockScript.Proofs.World.Naming
import BlockScript.Proofs.Actor.Shuffle
import BlockScript.Proofs.Thread.Counted
import BlockScript.Proofs.Script.Rounds
import BlockScript.Proofs.Options.Click
import BlockScript.Proofs.Instruction.Amounts
