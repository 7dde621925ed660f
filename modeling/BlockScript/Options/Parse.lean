import BlockScript.Options.Basic

namespace BlockScript.Options

inductive Setting
  | world
  | frames
  | frameRate
  | click
  | output
deriving DecidableEq

inductive Switch
  | preview
  | realtime
  | help
  | version

/-- What the arguments so far have set. The value of an argument is checked only when the next one is
reached, so that an argument that is not known is reported first. -/
structure Draft where
  world : Option String
  frames : Option UInt32
  frameRate : Option UInt32
  clicks : List ScheduledClick
  preview : Bool
  realtime : Bool
  output : Option String

structure Parsing where
  draft : Draft
  /-- The setting whose value is not yet checked, or still to come. -/
  pending : Option (Setting × Option String)
  /-- All further arguments are values. -/
  valuesOnly : Bool

def once {α : Type} (given : Option α) (value : Except Stop α) : Except Stop (Option α) :=
  if given.isSome then .error .repeated else value.map some

def Draft.set (d : Draft) (setting : Setting) (value : String) : Except Stop Draft :=
  match setting with
  | .world => return { d with world := ← once d.world (path value) }
  | .frames => return { d with frames := ← once d.frames (count 0 value) }
  | .frameRate => return { d with frameRate := ← once d.frameRate (count 1 value) }
  | .click => return { d with clicks := d.clicks ++ [← Options.click value] }
  | .output => return { d with output := ← once d.output (path value) }

def Draft.turnOn (d : Draft) : Switch → Except Stop Draft
  | .help => .error .help
  | .version => .error .version
  | .preview => if d.preview then .error .repeated else .ok { d with preview := true }
  | .realtime => if d.realtime then .error .repeated else .ok { d with realtime := true }

namespace Parsing

def settle (p : Parsing) : Except Stop Parsing :=
  match p.pending with
  | none => .ok p
  | some (_, none) => .error .missingValue
  | some (setting, some value) =>
    return { p with draft := ← p.draft.set setting value, pending := none }

def setting (p : Parsing) (setting : Setting) (value : Option String) : Except Stop Parsing := do
  let p ← p.settle
  match value with
  | some value => return { p with draft := ← p.draft.set setting value }
  | none => return { p with pending := some (setting, none) }

def switch (p : Parsing) (switch : Switch) : Except Stop Parsing := do
  let p ← p.settle
  return { p with draft := ← p.draft.turnOn switch }

def positional (p : Parsing) (value : String) : Except Stop Parsing := do
  if p.draft.world.isSome || p.pending.map Prod.fst = some .world then throw .unknownArgument
  let p ← p.settle
  return { p with pending := some (.world, some value) }

def settingNames : List (String × Setting) :=
  [("frames", .frames), ("frame-rate", .frameRate), ("click", .click), ("output", .output)]

def switchNames : List (String × Switch) :=
  [("preview", .preview), ("realtime", .realtime), ("help", .help), ("version", .version)]

def named (p : Parsing) (cs : List Char) : Except Stop Parsing :=
  let name := String.ofList (cs.takeWhile (· ≠ '='))
  let value := match cs.dropWhile (· ≠ '=') with
    | [] => none
    | _ :: value => some (String.ofList value)
  match settingNames.lookup name, switchNames.lookup name, value with
  | some setting, _, _ => p.setting setting value
  | none, some switch, none => p.switch switch
  | none, some _, some _ => .error .valueForSwitch
  | none, none, _ => .error .unknownArgument

def lettered (p : Parsing) : List Char → Except Stop Parsing
  | ['o'] => p.setting .output none
  | 'o' :: '=' :: value => p.setting .output (some (String.ofList value))
  | 'o' :: value => p.setting .output (some (String.ofList value))
  | 'h' :: _ => p.switch .help
  | 'V' :: _ => p.switch .version
  | _ => .error .unknownArgument

def value (p : Parsing) (text : String) : Except Stop Parsing :=
  match p.pending with
  | some (setting, none) => .ok { p with pending := some (setting, some text) }
  | _ => p.positional text

def argument (p : Parsing) (text : String) : Except Stop Parsing :=
  if p.valuesOnly then p.positional text
  else match text.toList with
    | ['-', '-'] => .ok { p with valuesOnly := true }
    | '-' :: '-' :: name => p.named name
    | '-' :: c :: cs => p.lettered (c :: cs)
    | _ => p.value text

def start : Parsing := ⟨⟨none, none, none, [], false, false, none⟩, none, false⟩

end Parsing

def Draft.finish (d : Draft) : Except Stop Options :=
  match d.world with
  | none => .error .missingWorld
  | some world => .ok
    { world
      frames := d.frames.getD 300
      frameRate := d.frameRate.getD 60
      clicks := d.clicks
      preview := d.preview
      realtime := d.realtime
      output := d.output }

def parse (args : List String) : Except Stop Options := do
  (← (← args.foldlM Parsing.argument .start).settle).draft.finish

end BlockScript.Options
