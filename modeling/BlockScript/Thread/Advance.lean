import BlockScript.Log
import BlockScript.Thread.Basic

namespace BlockScript

structure Advance where
  thread : Thread
  appearance : Appearance
  steps : Nat
  /-- The blocks that have had their turn, in this order. -/
  dispatched : List Handle

namespace Thread

def budget : Nat := 20

/-- The frame with which a loop starts over when all its children have had their turn. -/
def nextRound? (s : Script) (frame : Frame) : Option Frame :=
  match s.instruction? frame.block with
  | some .forever => some ⟨frame.block, 0, none⟩
  | some (.loop times) =>
    let completed := frame.completed.getD 0 + 1
    if completed < times then some ⟨frame.block, 0, some completed⟩ else none
  | _ => none

/-- What a block changes of an object, and over what time. -/
def tween? (instruction : Instruction) (t : Transform) : Option (Tween × Float) :=
  match instruction with
  | .move axis distance duration =>
    some (.move t.position (t.position + t.localOffset (axis.unit * distance)), duration)
  | .rotate axis angle duration =>
    some (.rotate t.rotation (t.rotation + axis.unit * radians angle), duration)
  | .scale factor duration => some (.scale t.scale.x factor, duration)
  | _ => none

/-- The effect of a block, and whether it suspends the thread. -/
def dispatch (t : Thread) (h : Handle) (instruction : Instruction) (a : Appearance) (now : Float) :
    Thread × Appearance × Bool :=
  match instruction with
  | .wait duration => ({ t with wakeTime := now + duration }, a, true)
  | .forever => ({ t with stack := ⟨h, 0, none⟩ :: t.stack }, a, false)
  | .loop _ => ({ t with stack := ⟨h, 0, some 0⟩ :: t.stack }, a, false)
  | .paint color => (t, { a with color }, false)
  | instruction =>
    match tween? instruction a.transform with
    | some (tween, duration) =>
      if 0 < duration then ({ t with action := some ⟨tween, now, duration⟩ }, a, true)
      else (t, tween.finish a, false)
    | none => (t, a, false)

/-- Dispatches blocks with what is left of the budget. A loop that starts over spends all of it, so
that it cannot take a tick for itself. -/
def run (s : Script) (now : Float) : Nat → Thread → Appearance → Advance
  | 0, t, a => ⟨t, a, 0, []⟩
  | left + 1, t, a =>
    match t.stack with
    | [] => ⟨t, a, 0, []⟩
    | frame :: outer =>
      match (s.children frame.block)[frame.next]? with
      | none =>
        match nextRound? s frame with
        | some frame => ⟨{ t with stack := frame :: outer }, a, left + 1, []⟩
        | none =>
          let rest := run s now left { t with stack := outer } a
          { rest with steps := rest.steps + 1 }
      | some child =>
        let t := { t with stack := { frame with next := frame.next + 1 } :: outer }
        match s.instruction? child with
        | none =>
          let rest := run s now left t a
          { rest with steps := rest.steps + 1 }
        | some instruction =>
          match t.dispatch child instruction a now with
          | (t, a, true) => ⟨t, a, 1, [child]⟩
          | (t, a, false) =>
            let rest := run s now left t a
            { rest with steps := rest.steps + 1, dispatched := child :: rest.dispatched }

def settle (advance : Advance) : Advance :=
  if advance.thread.stack.isEmpty then
    { advance with thread := { advance.thread with active := false } }
  else advance

def wake (s : Script) (t : Thread) (a : Appearance) (now : Float) : Advance :=
  if now < t.wakeTime then ⟨t, a, 0, []⟩ else settle (run s now budget t a)

def advance (s : Script) (t : Thread) (a : Appearance) (now : Float) : Advance :=
  if t.active then
    match t.action with
    | none => wake s t a now
    | some action =>
      match action.resume a now with
      | (a, false) => ⟨t, a, 0, []⟩
      | (a, true) => wake s { t with action := none } a now
  else ⟨t, a, 0, []⟩

/-- The notices of a tick: one for each block, and one for a thread that came to its end. -/
def notices (s : Script) (before : Thread) (advance : Advance) : List Notice :=
  advance.dispatched.filterMap (fun h =>
      (s.instruction? h).map fun instruction => .dispatched s.id instruction.typeName) ++
    if before.active && !advance.thread.active then [.completed s.id] else []

def tick (s : Script) (t : Thread) (a : Appearance) (now : Float) : Logged Advance :=
  let advance := t.advance s a now
  ⟨advance, t.notices s advance⟩

end Thread

end BlockScript
