import BlockScript.Proofs.Script.Edits
import BlockScript.World.Edit
import BlockScript.World.Load

namespace BlockScript

mutual

theorem Script.Sound.plant {s : Script} (hs : s.WellFormed) (parent : Option Handle)
    (block : Authored.Block) : (Script.plant parent s block).value.WellFormed := by
  obtain ⟨id, type, params, children⟩ := block
  rw [Script.plant, Logged.value_bind]
  split
  · next t h hinsert =>
    have ht := hs.insert id (s.authoredInstruction ⟨id, type, params, children⟩).value parent
    rw [hinsert] at ht
    exact ht.plantAll (some h) children
  · next t hinsert =>
    have ht := hs.insert id (s.authoredInstruction ⟨id, type, params, children⟩).value parent
    rw [hinsert] at ht
    exact ht

theorem Script.Sound.plantAll {s : Script} (hs : s.WellFormed) (parent : Option Handle)
    (blocks : List Authored.Block) : (Script.plantAll parent s blocks).value.WellFormed := by
  cases blocks with
  | nil => exact hs
  | cons block rest => exact (hs.plant parent block).plantAll parent rest

end

theorem Script.wellFormed_ofAuthored (script : Authored.Script) :
    (Script.ofAuthored script).value.WellFormed :=
  (Script.Sound.empty _ _).plantAll none script.blocks

namespace World

/-- What a host can have a world do. -/
inductive Operation where
  | setPlaying (playing : Bool)
  | tick (now delta : Float)
  | click (id : String)
  | addObject (shape : Shape)
  | updateObject (id : String) (update : ObjectUpdate)
  | removeObject (id : String)
  | addScript (id : String)
  | addBlock (id scriptId : String) (opcode : Opcode) (parentKey : Option String)
  | updateBlock (id scriptId key : String) (ps : Params)
  | removeBlock (id scriptId key : String)
  | reorderBlock (id scriptId source target : String)

def perform (w : World) : Operation → World
  | .setPlaying playing => (w.setPlaying playing).value
  | .tick now delta => (w.tick now delta).value
  | .click id => (w.click id).value.1
  | .addObject shape => (w.addObject shape).value.1
  | .updateObject id update => (w.updateObject id update).value.1
  | .removeObject id => (w.removeObject id).1
  | .addScript id => (w.addScript id).value.1
  | .addBlock id scriptId opcode parentKey => (w.addBlock id scriptId opcode parentKey).value.1
  | .updateBlock id scriptId key ps => (w.updateBlock id scriptId key ps).value.1
  | .removeBlock id scriptId key => (w.removeBlock id scriptId key).value.1
  | .reorderBlock id scriptId source target =>
    (w.reorderBlock id scriptId source target).value.1

def after (w : World) (operations : List Operation) : World := operations.foldl perform w

/-- The worlds that come of a fresh or a loaded one by operations. -/
inductive Reachable : World → Prop
  | fresh : Reachable fresh
  | parse {text : String} {loaded : Logged World} (hparse : parse text = .ok loaded) :
      Reachable loaded.value
  | perform {w : World} (hw : Reachable w) (operation : Operation) :
      Reachable (w.perform operation)

theorem Reachable.after {w : World} (hw : w.Reachable) (operations : List Operation) :
    (w.after operations).Reachable := by
  induction operations generalizing w with
  | nil => exact hw
  | cons operation operations ih => exact ih (hw.perform operation)

def turning : World :=
  fresh.after [.addObject .cube, .addScript "object-1",
    .addBlock "object-1" "script-2" .forever (some "block-3"), .setPlaying true, .tick 0 0]

end World

end BlockScript
