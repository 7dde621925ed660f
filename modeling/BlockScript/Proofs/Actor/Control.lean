import BlockScript.Proofs.Actor.Turns
import BlockScript.Proofs.Thread.Control
import BlockScript.Proofs.Thread.Remaining

namespace BlockScript

def Script.sliding : Script :=
  (empty "script-2" "Sliding").after [.insert "start" .onStart none,
    .insert "slide" (.move .x 1 2) (some ⟨0, 0⟩)]

namespace Actor

variable {actor : Actor} {s : Script} {id : String} {t u : Thread}

def play (actor : Actor) (ticks : List (Float × Float)) : Actor :=
  ticks.foldl (fun actor (now, delta) => (actor.tick now delta true).value) actor

theorem tick_of_unlocked (hlocked : actor.locked = false) (now delta : Float) :
    actor.tick now delta true = actor.runThreads now := by
  rw [tick, hlocked]
  rfl

/-- The thread of a script has the same control after some ticks as one that has been run alone, on
whatever object. -/
theorem control_play (hlocked : actor.locked = false) (hs : actor.script? id = some s)
    (ht : actor.threads[id]? = some t) (h : t.control = u.control) (a : Appearance)
    (ticks : List (Float × Float)) :
    (actor.play ticks).script? id = some s ∧ ∃ v, (actor.play ticks).threads[id]? = some v ∧
      v.control = (u.advances s a (ticks.map (·.1))).thread.control := by
  induction ticks generalizing actor t u a with
  | nil => exact ⟨hs, t, ht, h⟩
  | cons tick ticks ih =>
    obtain ⟨now, delta⟩ := tick
    obtain ⟨hscripts, hlocked'⟩ := runThreads_fixed actor now
    obtain ⟨b, _, ht'⟩ := exists_turn ht hs now
    have hs' : (actor.runThreads now).value.script? id = some s := by
      rw [script?, hscripts]
      exact hs
    have h' := (Thread.advance_agrees (s := s) h b a now).control
    have htick : actor.play ((now, delta) :: ticks) = (actor.runThreads now).value.play ticks := by
      rw [← tick_of_unlocked hlocked now delta]
      rfl
    rw [htick]
    exact ih (hlocked'.trans hlocked) hs' ht' h' _

/-- However an object is placed, turned, sized and painted, and whatever the other scripts of the
actor make of it, after any ticks the thread of a script stands where it would stand had it been run
alone, and in the next tick it has one turn, of as many steps. -/
theorem control_of_alone (hlocked : actor.locked = false) (hids : (actor.scripts.map (·.id)).Nodup)
    (hs : s ∈ actor.scripts) (ht : actor.threads[s.id]? = some t) (a : Appearance)
    (ticks : List (Float × Float)) :
    let alone := t.advances s a (ticks.map (·.1))
    ∃ u, (actor.play ticks).threads[s.id]? = some u ∧ u.control = alone.thread.control ∧
      ∀ now, ∃ b, ((actor.play ticks).turns now).filter (·.script.id = s.id) = [⟨s, u, b⟩] ∧
        (u.advance s b now).steps = (alone.thread.advance s alone.appearance now).steps ∧
        (u.advance s b now).dispatched =
          (alone.thread.advance s alone.appearance now).dispatched := by
  intro alone
  obtain ⟨hs', u, hu, hcontrol⟩ := control_play hlocked (script?_of_mem hids hs) ht rfl a ticks
  refine ⟨u, hu, hcontrol, ?_⟩
  intro now
  obtain ⟨b, hturns, _⟩ := exists_turn hu hs' now
  have hagrees := Thread.advance_agrees (s := s) hcontrol b alone.appearance now
  exact ⟨b, hturns, hagrees.steps, hagrees.dispatched⟩

def dancing : Actor :=
  let resting : Actor :=
    { id := "dancer"
      name := "Dancer"
      shape := .cube
      behaviors := []
      scripts := [.flashing, .sliding]
      locked := false
      createdBy := "me"
      appearance := .default
      threads := ∅ }
  resting.start.value

theorem control_of_alone_dancing :
    ∃ t, dancing.threads["script-1"]? = some t ∧ t.stack = [⟨⟨0, 0⟩, 0, none⟩] ∧ ∀ a,
      let alone := t.advances .flashing a [0, 1]
      ∃ u, (dancing.play [(0, 0), (1, 1)]).threads["script-1"]? = some u ∧
        u.control = alone.thread.control ∧
        ∀ now, ∃ b, ((dancing.play [(0, 0), (1, 1)]).turns now).filter (·.script.id = "script-1") =
            [⟨.flashing, u, b⟩] ∧
          (u.advance .flashing b now).steps =
            (alone.thread.advance .flashing alone.appearance now).steps ∧
          (u.advance .flashing b now).dispatched =
            (alone.thread.advance .flashing alone.appearance now).dispatched := by
  have hstack : dancing.threads["script-1"]?.map Thread.stack = some [⟨⟨0, 0⟩, 0, none⟩] := by
    decide +kernel
  obtain ⟨t, ht, hstart⟩ := Option.map_eq_some_iff.1 hstack
  refine ⟨t, ht, hstart, ?_⟩
  intro a
  exact control_of_alone (s := .flashing) (by decide) (by decide) (List.mem_cons_self ..) ht a
    [(0, 0), (1, 1)]

end Actor

end BlockScript
