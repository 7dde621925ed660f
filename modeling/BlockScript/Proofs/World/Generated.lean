import BlockScript.Proofs.Script.Growth
import BlockScript.Proofs.Script.Removal
import BlockScript.Proofs.World.Refusal

namespace BlockScript

/-- Whether an id is one of those that are generated until a counter comes to a number. -/
def Generated (kind : String) (counter : Nat) (id : String) : Prop :=
  ∃ number ≤ counter, id = World.generatedId kind number

theorem Generated.mono {kind id : String} {counter later : Nat} (h : Generated kind counter id)
    (hle : counter ≤ later) : Generated kind later id := by
  obtain ⟨number, hnumber, hid⟩ := h
  exact ⟨number, hnumber.trans hle, hid⟩

theorem Generated.ne_next {kind id : String} {counter : Nat} (h : Generated kind counter id) :
    id ≠ World.generatedId kind (counter + 1) := by
  obtain ⟨number, hnumber, rfl⟩ := h
  intro hid
  have heq := World.generatedId_injective kind hid
  omega

def Revision.added? : Revision → Option String
  | .addBlock key .. => some key
  | _ => none

namespace Script

variable {s t : Script} {h : Handle} {key : String} {block : Block} {added : Option String}
  {loaded : List Script} {counter later : Nat}

def Has (s : Script) (key : String) : Prop := ∃ h, s.find? key = some h

/-- Whether a script has the id of another one, and no keys but those of that and an added one. -/
structure Inherits (s t : Script) (added : Option String) : Prop where
  id : t.id = s.id
  has : ∀ key, t.Has key → s.Has key ∨ added = some key

theorem Inherits.refl (s : Script) (added : Option String) : s.Inherits s added where
  id := rfl
  has := fun _ => .inl

theorem Gains.inherits (hst : s.Gains t h block) : s.Inherits t (some block.key) where
  id := hst.toExtends.id
  has := by
    intro key hkey
    obtain ⟨x, hx⟩ := hkey
    rw [hst.find?] at hx
    split at hx
    · next hsame => exact .inr (congrArg some hsame)
    · exact .inl ⟨x, hx⟩

theorem Sound.revise_inherits (hs : s.WellFormed) (r : Revision) :
    s.Inherits (s.revise r).1 r.added? := by
  cases r with
  | addBlock key opcode parentKey =>
    rw [Script.revise, Revision.added?]
    split
    · exact .refl s _
    · next parent _ =>
      rcases hs.insert_cases key (.authoringDefault opcode) parent with hsame | ⟨hk, hp, _⟩
      · rw [hsame]
        exact .refl s _
      · obtain ⟨t, h, hinsert, hgains⟩ := hs.insert_gains hk hp (.authoringDefault opcode)
        rw [hinsert]
        exact hgains.inherits
  | updateBlock key ps =>
    rcases hs.find?_cases key with hmissing | ⟨h, block, hb, rfl⟩
    · rw [Script.revise, configure_eq_refused hmissing]
      exact .refl s _
    · rw [Script.revise, hs.configure_eq hb]
      exact ⟨rfl, fun _ => .inl⟩
  | removeBlock key =>
    rcases hs.find?_cases key with hmissing | ⟨h, block, hb, rfl⟩
    · rw [Script.revise, remove_eq_refused hmissing]
      exact .refl s _
    · have hcut := hs.cutAt (parentOf?_of_block? hb)
      rw [Script.revise, hs.remove_eq hb]
      refine ⟨hcut.id, ?_⟩
      intro key hkey
      obtain ⟨x, hx⟩ := hkey
      exact .inl ⟨x, ((hcut.find?_iff key x).1 hx).1⟩
  | reorderBlock source target =>
    rcases hs.reorder_cases source target with hsame | ⟨x, _, moved, other, _, _, hmoved⟩
    · rw [Script.revise, hsame]
      exact .refl s _
    · rw [Script.revise, hmoved]
      constructor
      · rw [id_modifySiblings]
        exact id_modifySiblings
      · intro key hkey
        rw [Has, find?_modifySiblings, find?_modifyBlock, find?_modifySiblings] at hkey
        exact .inl hkey

/-- Whether a script has its id and its keys from loaded ones of the same id, but for those that
have been generated. -/
structure Stems (s : Script) (loaded : List Script) (counter : Nat) : Prop where
  id : (∃ origin ∈ loaded, origin.id = s.id) ∨ Generated "script" counter s.id
  has : ∀ key, s.Has key →
    (∃ origin ∈ loaded, origin.id = s.id ∧ origin.Has key) ∨ Generated "block" counter key

theorem stems_of_mem (hs : s ∈ loaded) (counter : Nat) : s.Stems loaded counter where
  id := .inl ⟨s, hs, rfl⟩
  has := fun _ hkey => .inl ⟨s, hs, rfl, hkey⟩

theorem Stems.mono (h : s.Stems loaded counter) (hle : counter ≤ later) : s.Stems loaded later where
  id := h.id.imp_right fun hid => hid.mono hle
  has := fun key hkey => (h.has key hkey).imp_right fun hid => hid.mono hle

theorem Stems.inherit (h : s.Stems loaded counter) (hst : s.Inherits t added)
    (hadded : ∀ key, added = some key → Generated "block" counter key) :
    t.Stems loaded counter where
  id := hst.id ▸ h.id
  has := by
    intro key hkey
    rw [hst.id]
    rcases hst.has key hkey with hkey | hkey
    · exact h.has key hkey
    · exact .inr (hadded key hkey)

end Script

theorem World.gains_newScript (number : Nat) :
    ∃ h, (Script.empty (generatedId "script" number) "New Script").Gains (newScript number) h
      ⟨generatedId "block" (number + 1), .onStart, none, []⟩ := by
  have hempty := Script.Sound.empty (generatedId "script" number) "New Script"
  have hmissing : (Script.empty (generatedId "script" number) "New Script").find?
      (generatedId "block" (number + 1)) = none := by
    simp [Script.find?, Script.empty]
  have hplace : (Script.empty (generatedId "script" number) "New Script").hasPlace none = true :=
    rfl
  obtain ⟨t, h, hinsert, hgains⟩ := hempty.insert_gains hmissing hplace .onStart
  refine ⟨h, ?_⟩
  rw [newScript, hinsert]
  exact hgains

theorem World.stems_newScript (loaded : List Script) {number counter : Nat}
    (hlt : number < counter) : (newScript number).Stems loaded counter := by
  obtain ⟨h, hgains⟩ := gains_newScript number
  refine ⟨.inr ⟨number, hlt.le, hgains.toExtends.id⟩, ?_⟩
  intro key hkey
  rcases hgains.inherits.has key hkey with ⟨x, hx⟩ | hkey
  · simp [Script.find?, Script.empty] at hx
  · exact .inr ⟨number + 1, hlt, (Option.some.inj hkey).symm⟩

namespace Actor

variable {actor : Actor} {loaded : List Script} {counter : Nat}

def Event.Within (counter : Nat) : Event → Prop
  | .addScript number _ => number < counter
  | .revise _ r _ => ∀ key, r.added? = some key → Generated "block" counter key
  | _ => True

theorem stems_handle {event : Event} (hwellFormed : ∀ s ∈ actor.scripts, s.WellFormed)
    (hstems : ∀ s ∈ actor.scripts, s.Stems loaded counter) (hevent : event.Within counter) :
    ∀ s ∈ (actor.handle event).scripts, s.Stems loaded counter := by
  cases event with
  | start | stop | click | update => exact hstems
  | tick now delta playing =>
    rw [handle, scripts_tick]
    exact hstems
  | addScript number playing =>
    rw [handle, scripts_startIf, List.forall_mem_append]
    exact ⟨hstems, List.forall_mem_singleton.2 (World.stems_newScript loaded hevent)⟩
  | revise scriptId r playing =>
    intro s hs
    simp only [handle, scripts_startIf] at hs
    rcases mem_scripts_editScript hs with hs | ⟨old, hold, rfl⟩
    · exact hstems s hs
    · exact (hstems old hold).inherit ((hwellFormed old hold).revise_inherits r) hevent

theorem stems_handleAll {events : List Event} (hwellFormed : ∀ s ∈ actor.scripts, s.WellFormed)
    (hstems : ∀ s ∈ actor.scripts, s.Stems loaded counter)
    (hevents : ∀ event ∈ events, event.Within counter) :
    ∀ s ∈ (actor.handleAll events).scripts, s.Stems loaded counter := by
  induction events generalizing actor with
  | nil => exact hstems
  | cons event events ih =>
    obtain ⟨hfirst, hrest⟩ := List.forall_mem_cons.1 hevents
    exact ih (wellFormed_handle hwellFormed event) (stems_handle hwellFormed hstems hfirst) hrest

end Actor

namespace World

variable {w origin : World} {operation : Operation} {actor : Actor}

theorem counter_editActor {α : Type} (w : World) (id : String)
    (edit : Actor → Logged (Actor × Option α)) :
    (w.editActor id edit).value.1.counter = w.counter := by
  rw [editActor]
  split
  · rfl
  · split <;> rfl

theorem le_freeNumber (w : World) (rounds number : Nat) : number ≤ w.freeNumber rounds number := by
  induction rounds generalizing number with
  | zero => exact le_rfl
  | succ rounds ih =>
    rw [freeNumber]
    split
    · exact (Nat.le_succ number).trans (ih (number + 1))
    · exact le_rfl

theorem counter_addScript {id : String} (hhas : w.has id = true) :
    (w.perform (.addScript id)).counter = w.counter + 2 := by
  rw [perform, addScript, if_pos hhas, counter_editActor]

theorem counter_addBlock (w : World) (id scriptId : String) (opcode : Opcode)
    (parentKey : Option String) :
    (w.perform (.addBlock id scriptId opcode parentKey)).counter = w.counter + 1 :=
  counter_editActor { w with counter := w.counter + 1 } id _

theorem counter_le_perform (w : World) (operation : Operation) :
    w.counter ≤ (w.perform operation).counter := by
  cases operation with
  | tick now delta => exact le_rfl
  | setPlaying playing =>
    rw [perform, setPlaying]
    split <;> exact le_rfl
  | click id =>
    rw [perform, click]
    split
    · exact (counter_editActor w id _).ge
    · exact le_rfl
  | addObject shape =>
    rw [perform, addObject_eq]
    exact (Nat.le_succ w.counter).trans (le_freeNumber w _ _)
  | removeObject id =>
    rw [perform, removeObject]
    split <;> exact le_rfl
  | addScript id =>
    by_cases hhas : w.has id = true
    · rw [counter_addScript hhas]
      exact Nat.le_add_right _ _
    · rw [perform, addScript, if_neg hhas]
      exact le_rfl
  | addBlock id scriptId opcode parentKey =>
    rw [counter_addBlock]
    exact Nat.le_succ w.counter
  | updateObject id | updateBlock id | removeBlock id | reorderBlock id =>
    exact (counter_editActor w id _).ge

theorem Indexed.within_eventsFor (hw : w.Indexed) (operation : Operation)
    (hactor : actor ∈ w.actors) :
    ∀ event ∈ operation.eventsFor actor.id w.playing w.counter,
      event.Within (w.perform operation).counter := by
  intro event hevent
  rw [Operation.eventsFor] at hevent
  split at hevent
  · next haddressed =>
    cases operation with
    | addScript id =>
      obtain rfl : id = actor.id := by simpa [Operation.addressee?] using haddressed
      obtain rfl := List.mem_singleton.1 hevent
      have hhas : w.has actor.id = true := hw.has_iff.2 (List.mem_map_of_mem hactor)
      rw [counter_addScript hhas]
      exact Nat.lt_succ_self _
    | addBlock id scriptId opcode parentKey =>
      obtain rfl := List.mem_singleton.1 hevent
      intro key hkey
      obtain rfl := Option.some.inj hkey
      exact ⟨w.counter + 1, (counter_addBlock ..).ge, rfl⟩
    | setPlaying playing =>
      rw [Operation.events] at hevent
      split at hevent
      · exact absurd hevent List.not_mem_nil
      · split at hevent
        · obtain rfl := List.mem_singleton.1 hevent
          trivial
        · obtain rfl := List.mem_singleton.1 hevent
          trivial
    | click id =>
      rw [Operation.events] at hevent
      split at hevent
      · obtain rfl := List.mem_singleton.1 hevent
        trivial
      · exact absurd hevent List.not_mem_nil
    | addObject | removeObject => exact absurd hevent List.not_mem_nil
    | tick | updateObject =>
      obtain rfl := List.mem_singleton.1 hevent
      trivial
    | updateBlock | removeBlock | reorderBlock =>
      obtain rfl := List.mem_singleton.1 hevent
      exact fun key hkey => absurd hkey (Option.some_ne_none key).symm
  · exact absurd hevent List.not_mem_nil

/-- The scripts of the object with an id, if there is one. -/
def scriptsOf (w : World) (id : String) : List Script := (w.actor? id).elim [] (·.scripts)

/-- Whether all scripts in a world have their ids and their keys from those in another one, but for
what has been generated. -/
def StemsFrom (w origin : World) : Prop :=
  ∀ actor ∈ w.actors, ∀ s ∈ actor.scripts, s.Stems (origin.scriptsOf actor.id) w.counter

theorem Indexed.scriptsOf (hw : w.Indexed) (hactor : actor ∈ w.actors) :
    w.scriptsOf actor.id = actor.scripts := by
  rw [World.scriptsOf, hw.actor?_eq_some_iff.2 ⟨hactor, rfl⟩]
  rfl

theorem Indexed.stemsFrom_self (hw : w.Indexed) : w.StemsFrom w := by
  intro actor hactor s hs
  rw [hw.scriptsOf hactor]
  exact Script.stems_of_mem hs w.counter

theorem StemsFrom.perform (h : w.StemsFrom origin) (hw : w.Indexed) (hscripts : w.WellScripted)
    (operation : Operation) : (w.perform operation).StemsFrom origin := by
  have hle := counter_le_perform w operation
  by_cases hadded : ∃ shape, operation = .addObject shape
  · obtain ⟨shape, rfl⟩ := hadded
    rw [World.perform, addObject_eq, restart_eq] at hle ⊢
    refine List.forall_mem_append.2 ⟨?_, List.forall_mem_singleton.2 ?_⟩
    · exact fun actor hactor s hs => (h actor hactor s hs).mono hle
    · rw [Actor.scripts_startIf]
      exact fun s hs => absurd hs List.not_mem_nil
  · cases hremoved : operation.removed? with
    | none =>
      rw [StemsFrom, (hw.perform_of_kept (not_exists.1 hadded) hremoved).1]
      intro actor hactor
      obtain ⟨before, hbefore, rfl⟩ := List.mem_map.1 hactor
      rw [Actor.id_handleAll]
      exact Actor.stems_handleAll (hscripts before hbefore)
        (fun s hs => (h before hbefore s hs).mono hle) (hw.within_eventsFor operation hbefore)
    | some removed =>
      obtain rfl := Operation.eq_of_removed? hremoved
      intro actor hactor s hs
      rw [World.perform, hw.actors_removeObject] at hactor
      exact (h actor (List.mem_filter.1 hactor).1 s hs).mono hle

/-- The worlds with which a host begins. -/
inductive Begins : World → Prop
  | fresh : Begins fresh
  | parse {text : String} {loaded : Logged World} (hparse : parse text = .ok loaded) :
      Begins loaded.value

theorem Begins.hosted (hb : origin.Begins) : origin.Hosted := by
  cases hb with
  | fresh => exact .fresh
  | parse hparse => exact .parse hparse

theorem scriptsOf_fresh (id : String) : fresh.scriptsOf id = [] := by
  have hw : fresh.Indexed := Begins.fresh.hosted.assembled.indexed
  cases hactor : fresh.actor? id with
  | none => rw [scriptsOf, hactor]; rfl
  | some actor =>
    obtain ⟨hmem, rfl⟩ := hw.actor?_eq_some_iff.1 hactor
    obtain rfl := List.mem_singleton.1 hmem
    exact hw.scriptsOf hmem

theorem Begins.stemsFrom (hb : origin.Begins) (operations : List Operation) :
    (origin.after operations).StemsFrom origin := by
  -- The origin stays the same along the run, and the world that stems from it goes on.
  suffices hrun : ∀ w : World, w.Hosted → w.StemsFrom origin → (w.after operations).StemsFrom origin
    from hrun origin hb.hosted hb.hosted.assembled.indexed.stemsFrom_self
  induction operations with
  | nil => exact fun w _ h => h
  | cons operation operations ih =>
    intro w hw h
    exact ih _ (hw.perform operation)
      (h.perform hw.assembled.indexed hw.wellScripted operation)

end World

end BlockScript
