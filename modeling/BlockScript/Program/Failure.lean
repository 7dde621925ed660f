import BlockScript.Json.Fault

namespace BlockScript

inductive AccessFault
  | missing
  | notDirectory
  | isDirectory
  | nameTooLong
  | notText
  | nullInName
  | other (reason : String)

def AccessFault.message : AccessFault → String
  | missing => "No such file or directory (os error 2)"
  | notDirectory => "Not a directory (os error 20)"
  | isDirectory => "Is a directory (os error 21)"
  | nameTooLong => "File name too long (os error 36)"
  | notText => "stream did not contain valid UTF-8"
  | nullInName => "file name contained an unexpected NUL byte"
  | other reason => reason

inductive Failure
  | access (path : String) (fault : AccessFault)
  | malformed (fault : Json.Fault)
  | snapshot (reason : String)
  | unknownObject (id : String)

def Failure.message : Failure → String
  | access path fault => "failed to access " ++ path ++ ": " ++ fault.message
  | malformed fault => "malformed world: " ++ fault.message
  | snapshot reason => "failed to write snapshot: " ++ reason
  | unknownObject id => "no object with id " ++ id

end BlockScript
