import BlockScript.Proofs.Actor.Events
import BlockScript.Proofs.Actor.Turns

namespace BlockScript

theorem Script.Sound.revise {s : Script} (hs : s.WellFormed) (r : Revision) :
    (s.revise r).1.WellFormed := by
  cases r with
  | addBlock key opcode parentKey =>
    rw [Script.revise]
    split
    · exact hs
    · exact hs.insert _ _ _
  | updateBlock key ps => exact hs.configure key ps
  | removeBlock key => exact hs.remove key
  | reorderBlock source target => exact hs.reorder source target

theorem Script.Sound.revise_refused {s : Script} (hs : s.WellFormed) (r : Revision)
    (hrefused : (s.revise r).2 = false) : (s.revise r).1 = s := by
  cases r with
  | addBlock key opcode parentKey =>
    rw [Script.revise] at hrefused ⊢
    split
    · rfl
    · next parent hparent =>
      rw [hparent] at hrefused
      exact hs.insert_refused _ (by simpa using hrefused)
  | updateBlock key ps => exact hs.configure_refused hrefused
  | removeBlock key => exact hs.remove_refused hrefused
  | reorderBlock source target => exact hs.reorder_refused hrefused

theorem Revision.MadeBy.careful {α : Type} {r : Revision}
    {edit : Script → Logged (Script × Option α)} (h : r.MadeBy edit) : Script.Careful edit where
  wellFormed := by
    intro s hs
    rw [(h s).1]
    exact hs.revise r
  refused := by
    intro s hs hn
    rw [(h s).1]
    apply hs.revise_refused r
    rw [← (h s).2, hn]
    rfl

theorem World.wellFormed_newScript (number : Nat) : (newScript number).WellFormed :=
  (Script.Sound.empty _ _).insert _ _ _

namespace Actor

variable {actor : Actor}

theorem scripts_tick (actor : Actor) (now delta : Float) (playing : Bool) :
    (actor.tick now delta playing).value.scripts = actor.scripts := by
  rw [tick]
  split
  · rfl
  · split
    · exact (runThreads_fixed actor now).1
    · rfl

theorem scripts_startIf (playing : Bool) (actor : Actor) :
    (startIf playing actor).scripts = actor.scripts := by
  cases playing <;> rfl

theorem wellFormed_handle (hscripts : ∀ s ∈ actor.scripts, s.WellFormed) (event : Event) :
    ∀ s ∈ (actor.handle event).scripts, s.WellFormed := by
  cases event with
  | start | stop | click | update => exact hscripts
  | tick now delta playing =>
    rw [handle, scripts_tick]
    exact hscripts
  | addScript number playing =>
    rw [handle, scripts_startIf, List.forall_mem_append]
    exact ⟨hscripts, List.forall_mem_singleton.2 (World.wellFormed_newScript number)⟩
  | revise scriptId r playing =>
    have hmade := madeBy_of_value (r := r) fun s => (rfl : (Logged.mk (s.revise r) []).value = _)
    simp only [handle, scripts_startIf]
    exact actor.wellFormed_editScript scriptId hmade.careful hscripts

theorem wellFormed_handleAll (hscripts : ∀ s ∈ actor.scripts, s.WellFormed)
    (events : List Event) : ∀ s ∈ (actor.handleAll events).scripts, s.WellFormed := by
  induction events generalizing actor with
  | nil => exact hscripts
  | cons event events ih => exact ih (wellFormed_handle hscripts event)

end Actor

end BlockScript
