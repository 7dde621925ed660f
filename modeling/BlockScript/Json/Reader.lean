import BlockScript.Json.Fault

namespace BlockScript.Json

abbrev Reader := ReaderT Nat (StateT (List Char) (Except Fault))

namespace Reader

variable {α σ : Type}

def depthLimit : Nat := 127

def isSpace (c : Char) : Bool :=
  c = ' ' || c = '\n' || c = '\t' || c = '\r'

def look : Reader (Option Char) :=
  return (← get).head?

def next : Reader (Option Char) := do
  let c ← look
  modify List.tail
  return c

def advance : Reader Unit :=
  modify List.tail

def peek : Reader (Option Char) := do
  modify (List.dropWhile isSpace)
  look

def digits : Reader (List Char) := do
  let cs ← get
  set (cs.dropWhile Char.isDigit)
  return cs.takeWhile Char.isDigit

def word : List Char → Reader Unit
  | [] => return
  | c :: cs => do
    match ← next with
    | none => throw .cutValue
    | some d => if d = c then word cs else throw .expectedWord

/-- What `inner` reads, inside a list or an object that is opened here. -/
def nested (inner : Reader α) : Reader α := fun depth =>
  match depth with
  | 0 => throw .tooDeep
  | depth + 1 => inner depth

/-- Repeats a step until it gives a result. A step that does not finish takes at least one
character, so the characters in `bound` are enough rounds when they are all that is left. -/
def iterateWithin (step : σ → Reader (σ ⊕ α)) : List Char → σ → Reader α
  | [], s => do
    match ← step s with
    | .inl _ => throw .cutValue
    | .inr a => return a
  | _ :: bound, s => do
    match ← step s with
    | .inl s => iterateWithin step bound s
    | .inr a => return a

def iterate (step : σ → Reader (σ ⊕ α)) (s : σ) : Reader α := do
  iterateWithin step (← get) s

/-- Whether a list goes on. In front of every item but the first a comma is taken. -/
def moreItems (first : Bool) : Reader Bool := do
  match ← peek with
  | none => throw .cutList
  | some ']' => return false
  | some c =>
    if first then return true
    else if c = ',' then
      advance
      match ← peek with
      | none => throw .cutValue
      | some ']' => throw .trailingComma
      | some _ => return true
    else throw .expectedListEnd

def closeList : Reader Unit := do
  match ← peek with
  | none => throw .cutList
  | some ']' => advance
  | some ',' =>
    advance
    match ← peek with
    | some ']' => throw .trailingComma
    | _ => throw .trailingCharacters
  | some _ => throw .trailingCharacters

def items (item : Reader α) : Reader (List α) :=
  iterate (fun read => do
    if ← moreItems read.isEmpty then return .inl ((← item) :: read)
    else
      closeList
      return .inr read.reverse) []

def moreFields (first : Bool) : Reader Bool := do
  match ← peek with
  | none => throw .cutObject
  | some '\x7d' => return false
  | some c =>
    if first then
      if c = '"' then return true else throw .keyNotText
    else if c = ',' then
      advance
      match ← peek with
      | none => throw .cutValue
      | some '"' => return true
      | some '\x7d' => throw .trailingComma
      | some _ => throw .keyNotText
    else throw .expectedObjectEnd

def colon : Reader Unit := do
  match ← peek with
  | none => throw .cutObject
  | some ':' => advance
  | some _ => throw .expectedColon

/-- The fields of an object, behind its opening brace. `field` reads on from behind a key's opening
quote, and the first component of the state tells whether it is the first. -/
def fields (field : σ → Reader σ) (s : σ) : Reader σ :=
  iterate (fun (first, s) => do
    if ← moreFields first then
      advance
      return .inl (false, ← field s)
    else
      advance
      return .inr s) (true, s)

def run (reader : Reader α) (text : String) : Except Fault α := do
  let (a, rest) ← reader depthLimit text.toList
  if rest.all isSpace then return a else throw .trailingCharacters

end Reader

end BlockScript.Json
