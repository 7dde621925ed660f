import BlockScript.Program.Failure

namespace BlockScript

inductive Node
  | file (bytes : ByteArray)
  | directory

/-- The nodes by the names on the way to them from the root. -/
structure Storage where
  nodes : List (List String × Node)
  home : List String

namespace Storage

def empty (home : List String) : Storage := ⟨[], home⟩

/-- The node at a place. What lies on the way to another place is a directory. -/
def node? (s : Storage) (place : List String) : Option Node :=
  match s.nodes.lookup place with
  | some node => some node
  | none =>
    if (s.home :: s.nodes.map Prod.fst).any place.isPrefixOf then some .directory else none

def enter (s : Storage) (place : List String) : Except AccessFault Unit :=
  match s.node? place with
  | none => .error .missing
  | some (.file _) => .error .notDirectory
  | some .directory => .ok ()

def step (s : Storage) (place : List String) (name : String) : Except AccessFault (List String) := do
  s.enter place
  if name = "" || name = "." then return place
  else if name = ".." then return place.dropLast
  else if 255 < name.utf8ByteSize then throw .nameTooLong
  else return place ++ [name]

def checkPath (path : String) : Except AccessFault Unit :=
  if path.toList.contains '\x00' then .error .nullInName
  else if path.isEmpty then .error .missing
  else if 4095 < path.utf8ByteSize then .error .nameTooLong
  else .ok ()

def start (s : Storage) (path : String) : List String :=
  if path.toList.head? = some '/' then [] else s.home

def bytes (s : Storage) (path : String) : Except AccessFault ByteArray := do
  checkPath path
  match s.node? (← (path.splitOn "/").foldlM s.step (s.start path)) with
  | none => .error .missing
  | some .directory => .error .isDirectory
  | some (.file bytes) => .ok bytes

def readText (s : Storage) (path : String) : Except AccessFault String := do
  match String.fromUTF8? (← s.bytes path) with
  | some text => .ok text
  | none => .error .notText

def put (s : Storage) (place : List String) (node : Node) : Storage :=
  { s with nodes := (place, node) :: s.nodes.filter (·.1 ≠ place) }

/-- The storage with a text in the file of a path. A path whose last name cannot be that of a file
leads to a directory, whether or not there is one. -/
def writeText (s : Storage) (path text : String) : Except AccessFault Storage := do
  checkPath path
  let names := (path.splitOn "/").filter (· ≠ "")
  let directory ← names.dropLast.foldlM s.step (s.start path)
  s.enter directory
  match names.getLast? with
  | none | some "." | some ".." => .error .isDirectory
  | some name =>
    if path.toList.getLast? = some '/' then .error .isDirectory
    else
      let place ← s.step directory name
      match s.node? place with
      | some .directory => .error .isDirectory
      | _ => .ok (s.put place (.file text.toUTF8))

end Storage

end BlockScript
