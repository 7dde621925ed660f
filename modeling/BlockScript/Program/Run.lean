import BlockScript.Options.Parse
import BlockScript.Program.Session
import BlockScript.Program.Storage
import BlockScript.World.Load
import BlockScript.World.Snapshot

namespace BlockScript

/-- What the program needs of its surroundings. -/
structure Host (m : Type → Type) where
  readText : String → m (Except AccessFault String)
  writeText : String → String → m (Except AccessFault Unit)
  pause : Float → m Unit

inductive Ending
  | done (text : String)
  | failed (failure : Failure)
  | refused (stop : Options.Stop)

def Ending.exitCode : Ending → UInt32
  | done _ => 0
  | failed _ => 1
  | refused .help => 0
  | refused .version => 0
  | refused _ => 2

def versionText : String := "coblocks 0.1.0\n"

def usageText : String := "Usage: coblocks [OPTIONS] <WORLD>\n"

def Ending.output : Ending → String
  | done text => text
  | failed _ => ""
  | refused .help => usageText
  | refused .version => versionText
  | refused _ => ""

def World.load (path : String) (text : Except AccessFault String) :
    Except Failure (Logged World) :=
  match text with
  | .error fault => .error (.access path fault)
  | .ok text => match World.parse text with
    | .error fault => .error (.malformed fault)
    | .ok loaded => .ok do
      let w ← loaded
      Logged.note (.loaded w.actors.length path)
      return w

/-- The first object to be clicked that a world does not have. -/
def unknownTarget? (options : Options) (w : World) : Option String :=
  (options.clicks.find? fun click => (w.actor? click.object).isNone).map (·.object)

def simulate (options : Options) (text : Except AccessFault String) :
    Except Failure (Logged World) := do
  let loaded ← World.load options.world text
  match unknownTarget? options loaded.value with
  | some id => throw (.unknownObject id)
  | none => return loaded >>= Session.run options

namespace Program

variable {m : Type → Type} [Monad m]

def runWith (host : Host m) (options : Options) : m Ending := do
  match simulate options (← host.readText options.world) with
  | .error failure => return .failed failure
  | .ok result =>
    if options.realtime then host.pause (options.frames.toFloat * Session.delta options)
    let text := result.value.snapshotText
    match options.output with
    | none => return .done text
    | some path =>
      match ← host.writeText path text with
      | .ok () => return .done ""
      | .error fault => return .failed (.access path fault)

def run (host : Host m) (args : List String) : m Ending :=
  match Options.parse args with
  | .ok options => runWith host options
  | .error stop => return .refused stop

end Program

/-- A host whose files are kept in memory, and for which no time passes. -/
def Storage.host : Host (StateM Storage) where
  readText path := return (← get).readText path
  writeText path text := do
    match (← get).writeText path text with
    | .ok storage =>
      set storage
      return .ok ()
    | .error fault => return .error fault
  pause _ := return

def World.sendSnapshot (w : World) (room : Nat) : Except Failure String :=
  let text := w.snapshotText
  if text.utf8ByteSize ≤ room then .ok text else .error (.snapshot "broken pipe")

end BlockScript
