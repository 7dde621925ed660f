import BlockScript.Program.Run

namespace BlockScript

/-- The fault of an error. Some calls of the machine give the negative of its number. -/
def AccessFault.ofError : IO.Error → AccessFault
  | .noFileOrDirectory .. => missing
  | .inappropriateType _ code _ => if code = 21 || code = -21 then isDirectory else notDirectory
  | error => other (toString error)

def attempt {α : Type} (action : IO α) : IO (Except AccessFault α) := do
  match ← action.toBaseIO with
  | .ok a => return .ok a
  | .error error => return .error (.ofError error)

def machine : Host IO where
  readText path := do
    match ← attempt (IO.FS.readBinFile path) with
    | .error fault => return .error fault
    | .ok bytes => match String.fromUTF8? bytes with
      | some text => return .ok text
      | none => return .error .notText
  writeText path text := attempt (IO.FS.writeFile path text)
  pause seconds := IO.sleep (seconds * 1000).toUInt32

def Ending.errorText : Ending → String
  | failed failure => failure.message ++ "\n"
  | refused (.badValue message) => "error: " ++ message ++ "\n"
  | refused .help | refused .version => ""
  | refused _ => usageText
  | done _ => ""

end BlockScript

def main (args : List String) : IO UInt32 := do
  let ending ← BlockScript.Program.run BlockScript.machine args
  (← IO.getStdout).putStr ending.output
  (← IO.getStderr).putStr ending.errorText
  return ending.exitCode
