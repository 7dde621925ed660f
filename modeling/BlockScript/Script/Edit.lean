import BlockScript.Instruction.Configure
import BlockScript.Script.Basic

namespace BlockScript.Script

def modifyBlock (s : Script) (h : Handle) (f : Block → Block) : Script :=
  { s with slots := s.slots.modify h.index fun slot =>
      if slot.generation = h.generation then { slot with block := slot.block.map f } else slot }

def modifySiblings (s : Script) (parent : Option Handle) (f : List Handle → List Handle) :
    Script :=
  match parent with
  | some h => s.modifyBlock h fun block => { block with children := f block.children }
  | none => { s with roots := f s.roots }

def hasPlace (s : Script) (parent : Option Handle) : Bool :=
  parent.all fun h => (s.block? h).isSome

def parent? (s : Script) (key : Option String) : Option (Option Handle) :=
  match key with
  | some key => (s.find? key).map some
  | none => some none

/-- Puts a block into the slot that was vacated last, or into a new one. -/
def occupy (s : Script) (block : Block) : Script × Handle :=
  match s.vacant with
  | index :: vacant =>
    let generation := (s.slots[index]?.map (·.generation)).getD 0
    let slots := s.slots.modify index fun slot => { slot with block := some block }
    let handle := ⟨index, generation⟩
    ({ s with slots, vacant, keys := s.keys.insert block.key handle }, handle)
  | [] =>
    let handle := ⟨s.slots.size, 0⟩
    ({ s with slots := s.slots.push ⟨0, some block⟩, keys := s.keys.insert block.key handle },
      handle)

/-- Adds a block at the end of a parent's children, or of the roots, and gives its handle. Its key
has to be new. -/
def insert (s : Script) (key : String) (instruction : Instruction) (parent : Option Handle) :
    Script × Option Handle :=
  if s.keys.contains key || !s.hasPlace parent then (s, none)
  else
    let (s, handle) := s.occupy ⟨key, instruction, parent, []⟩
    if s.hasPlace parent then (s.modifySiblings parent (· ++ [handle]), some handle)
    else (s, none)

def configure (s : Script) (key : String) (ps : Params) : Logged (Script × Bool) :=
  match s.find? key with
  | none => return (s, false)
  | some h => match s.block? h with
    | none => return (s, false)
    | some block => do
      let instruction ← block.instruction.configure ps
      return (s.modifyBlock h ({ · with instruction }), true)

/-- The block in a slot, whatever the generation of the slot. -/
def blockAt? (s : Script) (index : Nat) : Option Block :=
  s.slots[index]?.bind (·.block)

def occupied (s : Script) : Nat := s.slots.countP (·.block.isSome)

def vacate (s : Script) (index : Nat) (key : String) : Script :=
  { s with
    slots := s.slots.modify index fun slot => ⟨slot.generation + 1, none⟩
    vacant := index :: s.vacant
    keys := s.keys.erase key }

theorem countP_modify_lt {α : Type} {p : α → Bool} {f : α → α} {as : List α} {i : Nat} {a : α}
    (ha : as[i]? = some a) (hp : p a = true) (hf : p (f a) = false) :
    (as.modify i f).countP p < as.countP p := by
  induction as generalizing i with
  | nil => simp at ha
  | cons b as ih =>
    cases i with
    | zero =>
      simp only [List.getElem?_cons_zero, Option.some.injEq] at ha
      subst b
      simp [hp, hf]
    | succ i =>
      simp only [List.getElem?_cons_succ] at ha
      simpa [List.countP_cons] using ih ha

theorem occupied_vacate_lt {s : Script} {index : Nat} {block : Block}
    (h : s.blockAt? index = some block) (key : String) :
    (s.vacate index key).occupied < s.occupied := by
  obtain ⟨slot, hs, hb⟩ := Option.bind_eq_some_iff.1 h
  simp only [occupied, vacate, ← Array.countP_toList, Array.toList_modify]
  exact countP_modify_lt (by simpa using hs) (by simp [hb]) rfl

/-- Vacates the slots of pending blocks, the next one in front, with all below them. Of the children
of a block the last comes next. -/
def release (s : Script) : List Handle → Script
  | [] => s
  | h :: pending => match _ : s.blockAt? h.index with
    | some block =>
      (s.vacate h.index block.key).release (block.children.reverse ++ pending)
    | none => s.release pending
termination_by pending => (s.occupied, pending.length)
decreasing_by
  · exact .left _ _ (occupied_vacate_lt ‹_› _)
  · exact .right _ (Nat.lt_succ_self _)

def remove (s : Script) (key : String) : Script × Bool :=
  match s.find? key with
  | none => (s, false)
  | some h => match s.block? h with
    | none => (s, false)
    | some block => ((s.modifySiblings block.parent (·.filter (· ≠ h))).release [h], true)

def ancestorsWithin (s : Script) : Nat → Handle → List Handle
  | 0, _ => []
  | count + 1, h => match (s.block? h).bind (·.parent) with
    | some parent => parent :: s.ancestorsWithin count parent
    | none => []

/-- The blocks above a block. There are fewer of them than slots. -/
def ancestors (s : Script) (h : Handle) : List Handle :=
  s.ancestorsWithin s.slots.size h

def insertBefore (source target : Handle) (hs : List Handle) : List Handle :=
  hs.takeWhile (· ≠ target) ++ source :: hs.dropWhile (· ≠ target)

/-- Takes a block out of the list of one parent, and puts it right before `target` into that of
another one. -/
def move (s : Script) (source target : Handle) (oldParent newParent : Option Handle) :
    Script × Bool :=
  let s := s.modifySiblings oldParent (·.filter (· ≠ source))
  if s.hasPlace newParent then
    let s := s.modifyBlock source ({ · with parent := newParent })
    (s.modifySiblings newParent (insertBefore source target), true)
  else (s, false)

/-- Moves the block of one key, with all below it, right before that of another. A block is never
moved into what is below it. -/
def reorder (s : Script) (sourceKey targetKey : String) : Script × Bool :=
  match s.find? sourceKey, s.find? targetKey with
  | some source, some target =>
    if source = target || (s.ancestors target).contains source then (s, false)
    else match s.block? source, s.block? target with
      | some moved, some block => s.move source target moved.parent block.parent
      | _, _ => (s, false)
  | _, _ => (s, false)

end BlockScript.Script
