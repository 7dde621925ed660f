import BlockScript.Proofs.Actor.Control
import BlockScript.Proofs.Actor.Dispatch
import BlockScript.Proofs.Actor.Revision
import BlockScript.Proofs.Script.Removal

namespace BlockScript

namespace Script

theorem id_insert (s : Script) (key : String) (instruction : Instruction)
    (parent : Option Handle) : (s.insert key instruction parent).1.id = s.id := by
  rw [insert]
  split
  · rfl
  · dsimp only
    split
    · exact id_modifySiblings.trans id_occupy
    · exact id_occupy

theorem id_configure (s : Script) (key : String) (ps : Params) :
    (s.configure key ps).value.1.id = s.id := by
  rw [configure]
  split
  · rfl
  · split <;> rfl

theorem id_remove (s : Script) (key : String) : (s.remove key).1.id = s.id := by
  rw [remove]
  split
  · rfl
  · split
    · rfl
    · exact (id_release _ _).trans id_modifySiblings

theorem id_move (s : Script) (source target : Handle) (oldParent newParent : Option Handle) :
    (s.move source target oldParent newParent).1.id = s.id := by
  rw [move]
  dsimp only
  split
  · exact id_modifySiblings.trans id_modifySiblings
  · exact id_modifySiblings

theorem id_reorder (s : Script) (source target : String) :
    (s.reorder source target).1.id = s.id := by
  rw [reorder]
  split
  · split
    · rfl
    · split
      · exact id_move ..
      · rfl
  · rfl

theorem id_perform (s : Script) (edit : Edit) : (s.perform edit).id = s.id := by
  cases edit with
  | insert key instruction parent => exact s.id_insert key instruction parent
  | configure key ps => exact s.id_configure key ps
  | remove key => exact s.id_remove key
  | reorder source target => exact s.id_reorder source target

theorem id_revise (s : Script) (r : Revision) : (s.revise r).1.id = s.id := by
  cases r with
  | addBlock key opcode parentKey =>
    rw [revise]
    split
    · rfl
    · exact s.id_insert key _ _
  | updateBlock key ps => exact s.id_configure key ps
  | removeBlock key => exact s.id_remove key
  | reorderBlock source target => exact s.id_reorder source target

end Script

namespace Actor

variable {actor other : Actor} {id : String} {s : Script}

/-- Whether two actors differ in nothing but the order of their scripts, which have distinct ids. -/
inductive Shuffled : Actor → Actor → Prop
  | scripts {actor : Actor} {scripts : List Script} (hperm : actor.scripts.Perm scripts)
      (hids : (actor.scripts.map (·.id)).Nodup) : Shuffled actor { actor with scripts }

theorem script?_eq_some_iff (hids : (actor.scripts.map (·.id)).Nodup) :
    actor.script? id = some s ↔ s ∈ actor.scripts ∧ s.id = id := by
  constructor
  · exact fun hs => ⟨mem_scripts_of_script? hs, id_of_script? hs⟩
  · rintro ⟨hs, rfl⟩
    exact script?_of_mem hids hs

theorem startAll_of_perm {entries entries' : List (String × Handle)}
    (hperm : entries.Perm entries') (hids : (entries.map (·.1)).Nodup)
    (threads : Std.ExtTreeMap String Thread) :
    startAll threads entries = startAll threads entries' := by
  apply hperm.foldl_eq'
  intro x hx y hy threads
  by_cases hid : x.1 = y.1
  · rw [List.inj_on_of_nodup_map hids hx hy hid]
  · apply Std.ExtTreeMap.ext_getElem?
    intro id
    simp only [Std.ExtTreeMap.getElem?_insert, Std.LawfulEqOrd.compare_eq_iff_eq]
    split
    · next hy => rw [if_neg fun hx => hid (hx.trans hy.symm)]
    · rfl

/-- With distinct ids, an edit is one of each script that has the id. -/
theorem scripts_editScript {α : Type} (hids : (actor.scripts.map (·.id)).Nodup)
    (edit : Script → Logged (Script × Option α)) :
    (actor.editScript id edit).value.1 = { actor with
      scripts := actor.scripts.map fun s => if s.id = id then (edit s).value.1 else s } := by
  cases hs : actor.script? id with
  | none =>
    have hothers : ∀ s ∈ actor.scripts, (if s.id = id then (edit s).value.1 else s) = s := by
      intro s hmem
      exact if_neg fun hid => absurd hs (by rw [← hid, script?_of_mem hids hmem]; nofun)
    rw [editScript, hs, List.map_congr_left hothers, List.map_id']
    rfl
  | some s =>
    obtain rfl := id_of_script? hs
    obtain ⟨before, after, hscripts⟩ := List.append_of_mem (mem_scripts_of_script? hs)
    have hsplit := hids
    rw [hscripts, List.map_append, List.map_cons, List.nodup_append, List.nodup_cons] at hsplit
    obtain ⟨_, ⟨hafter, _⟩, hbefore⟩ := hsplit
    have hne : ∀ o ∈ before, o.id ≠ s.id := fun o ho =>
      hbefore _ (List.mem_map_of_mem ho) _ (List.mem_cons_self ..)
    have hmap : ∀ scripts : List Script, (∀ o ∈ scripts, o.id ≠ s.id) →
        (scripts.map fun o => if o.id = s.id then (edit o).value.1 else o) = scripts := by
      intro scripts h
      rw [List.map_congr_left fun o ho => if_neg (h o ho), List.map_id']
    have hafter : ∀ o ∈ after, o.id ≠ s.id := fun o ho hid =>
      hafter (List.mem_map.2 ⟨o, ho, hid⟩)
    have htake : actor.scripts.takeWhile (·.id ≠ s.id) = before := by
      rw [hscripts, List.takeWhile_append_of_pos (by simpa using hne),
        List.takeWhile_cons_of_neg (by simp), List.append_nil]
    have hdrop : actor.scripts.dropWhile (·.id ≠ s.id) = s :: after := by
      rw [hscripts, List.dropWhile_append_of_pos (by simpa using hne),
        List.dropWhile_cons_of_neg (by simp)]
    rw [editScript, hs, hscripts, List.map_append, List.map_cons, hmap before hne,
      hmap after hafter, if_pos rfl, ← hscripts]
    dsimp only [Logged.value_bind, Logged.value_pure]
    rw [htake, hdrop, List.tail_cons]

namespace Shuffled

theorem script? (h : actor.Shuffled other) (id : String) : other.script? id = actor.script? id := by
  obtain ⟨hperm, hids⟩ := h
  apply Option.ext
  intro s
  rw [script?_eq_some_iff hids, script?_eq_some_iff ((hperm.map _).nodup_iff.1 hids),
    hperm.mem_iff]

theorem entries (h : actor.Shuffled other) (trigger : Trigger) :
    (actor.entries trigger).Perm (other.entries trigger) ∧
      ((actor.entries trigger).map (·.1)).Nodup := by
  obtain ⟨hperm, hids⟩ := h
  refine ⟨hperm.filterMap _, ?_⟩
  rw [ids_entries]
  exact hids.sublist (List.filter_sublist.map _)

theorem startThreads (h : actor.Shuffled other) (trigger : Trigger) :
    (actor.startThreads trigger).Shuffled (other.startThreads trigger) := by
  obtain ⟨hentries, hdistinct⟩ := h.entries trigger
  obtain ⟨hperm, hids⟩ := h
  have hstarted := startAll_of_perm hentries hdistinct actor.threads
  change Shuffled { actor with threads := startAll actor.threads (actor.entries trigger) } _
  rw [hstarted]
  exact .scripts hperm hids

theorem stop (h : actor.Shuffled other) : actor.stop.Shuffled other.stop := by
  obtain ⟨hperm, hids⟩ := h
  exact .scripts hperm hids

theorem start (h : actor.Shuffled other) : actor.start.value.Shuffled other.start.value :=
  h.stop.startThreads .start

theorem startIf (h : actor.Shuffled other) (playing : Bool) :
    (Actor.startIf playing actor).Shuffled (Actor.startIf playing other) := by
  cases playing with
  | true => exact h.start
  | false => exact h

theorem click (h : actor.Shuffled other) :
    actor.click.value.1.Shuffled other.click.value.1 ∧
      other.click.value.2 = actor.click.value.2 :=
  ⟨h.startThreads .click, (h.entries .click).1.length_eq.symm⟩

theorem runThread (h : actor.Shuffled other) (now : Float) (entry : String × Thread) :
    (actor.runThread now entry).value.Shuffled (other.runThread now entry).value := by
  have hscript := h.script? entry.1
  obtain ⟨hperm, hids⟩ := h
  rw [Actor.runThread, Actor.runThread, hscript]
  split
  · exact .scripts hperm hids
  · exact .scripts hperm hids

theorem runThreads (h : actor.Shuffled other) (now : Float) :
    (actor.runThreads now).value.Shuffled (other.runThreads now).value := by
  have hthreads : other.threads = actor.threads := by
    obtain ⟨hperm, hids⟩ := h
    rfl
  rw [Actor.runThreads, Actor.runThreads, Logged.value_foldlM, Logged.value_foldlM, hthreads]
  clear hthreads
  generalize actor.threads.toList = entries
  induction entries generalizing actor other with
  | nil => exact h
  | cons entry rest ih =>
    rw [List.foldl_cons, List.foldl_cons]
    exact ih (h.runThread now entry)

theorem tick (h : actor.Shuffled other) (now delta : Float) (playing : Bool) :
    (actor.tick now delta playing).value.Shuffled (other.tick now delta playing).value := by
  have hrun := h.runThreads now
  obtain ⟨hperm, hids⟩ := h
  rw [Actor.tick, Actor.tick]
  split
  · exact .scripts hperm hids
  · split
    · exact hrun
    · exact .scripts hperm hids

theorem editScript {α : Type} {edit : Script → Logged (Script × Option α)}
    (h : actor.Shuffled other) (hedit : ∀ s, (edit s).value.1.id = s.id) (id : String) :
    (actor.editScript id edit).value.1.Shuffled (other.editScript id edit).value.1 ∧
      (other.editScript id edit).value.2 = (actor.editScript id edit).value.2 := by
  have hscript := h.script? id
  constructor
  · obtain ⟨hperm, hids⟩ := h
    rw [scripts_editScript hids, scripts_editScript ((hperm.map _).nodup_iff.1 hids)]
    refine .scripts (hperm.map _) ?_
    rw [List.map_map]
    convert hids using 2
    funext s
    rw [Function.comp_apply]
    split
    · exact hedit s
    · rfl
  · rw [Actor.editScript, Actor.editScript, hscript]
    cases actor.script? id <;> rfl

end Shuffled

/-- What a host has an actor do. A script is edited by its id: either by itself, or as in a world,
which starts the actor over after an edit while it plays. -/
inductive Command where
  | start
  | stop
  | click
  | tick (now delta : Float) (playing : Bool)
  | edit (scriptId : String) (edit : Script.Edit)
  | revise (scriptId : String) (r : Revision) (playing : Bool)

/-- The actor after a command, and how many scripts it says to have started over on a click. -/
def obey (actor : Actor) : Command → Actor × Option Nat
  | .start => (actor.start.value, none)
  | .stop => (actor.stop, none)
  | .click => (actor.click.value.1, some actor.click.value.2)
  | .tick now delta playing => ((actor.tick now delta playing).value, none)
  | .edit scriptId edit =>
    ((actor.editScript scriptId fun s => return (s.perform edit, some ())).value.1, none)
  | .revise scriptId r playing => (actor.handle (.revise scriptId r playing), none)

def obeyAll (actor : Actor) : List Command → Actor × List (Option Nat)
  | [] => (actor, [])
  | command :: commands =>
    let (actor, answer) := actor.obey command
    let (actor, answers) := actor.obeyAll commands
    (actor, answer :: answers)

theorem Shuffled.obey (h : actor.Shuffled other) (command : Command) :
    (actor.obey command).1.Shuffled (other.obey command).1 ∧
      (other.obey command).2 = (actor.obey command).2 := by
  cases command with
  | start => exact ⟨h.start, rfl⟩
  | stop => exact ⟨h.stop, rfl⟩
  | click =>
    obtain ⟨hclick, hcount⟩ := h.click
    exact ⟨hclick, congrArg some hcount⟩
  | tick now delta playing => exact ⟨h.tick now delta playing, rfl⟩
  | edit scriptId edit =>
    let performed (s : Script) : Logged (Script × Option Unit) := return (s.perform edit, some ())
    have hid : ∀ s, (performed s).value.1.id = s.id := fun s => s.id_perform edit
    exact ⟨(h.editScript hid scriptId).1, rfl⟩
  | revise scriptId r playing =>
    let revised (s : Script) : Logged (Script × Option Unit) :=
      return ((s.revise r).1, if (s.revise r).2 then some () else none)
    have hid : ∀ s, (revised s).value.1.id = s.id := fun s => s.id_revise r
    obtain ⟨hedited, hdone⟩ := h.editScript hid scriptId
    refine ⟨?_, rfl⟩
    change (Actor.startIf
        (playing && (actor.editScript scriptId revised).value.2.isSome) _).Shuffled
      (Actor.startIf (playing && (other.editScript scriptId revised).value.2.isSome) _)
    rw [hdone]
    exact hedited.startIf _

theorem Shuffled.obeyAll (h : actor.Shuffled other) (commands : List Command) :
    (actor.obeyAll commands).1.Shuffled (other.obeyAll commands).1 ∧
      (other.obeyAll commands).2 = (actor.obeyAll commands).2 := by
  induction commands generalizing actor other with
  | nil => exact ⟨h, rfl⟩
  | cons command commands ih =>
    obtain ⟨hfirst, hanswer⟩ := h.obey command
    obtain ⟨hrest, hanswers⟩ := ih hfirst
    exact ⟨hrest, congrArg₂ List.cons hanswer hanswers⟩

/-- However the scripts of an object are arranged, as long as their ids are distinct: whatever it is
told, it comes to look the same, with the same threads, it gives the same answers, and it still has
the same scripts in some order. -/
theorem arrangement_immaterial {scripts : List Script} (hperm : actor.scripts.Perm scripts)
    (hids : (actor.scripts.map (·.id)).Nodup) (commands : List Command) :
    let one := actor.obeyAll commands
    let other := ({ actor with scripts } : Actor).obeyAll commands
    one.1.appearance = other.1.appearance ∧ one.1.threads = other.1.threads ∧
      one.2 = other.2 ∧ one.1.scripts.Perm other.1.scripts := by
  intro one other
  obtain ⟨hshuffled, hanswers⟩ := (Shuffled.scripts hperm hids).obeyAll commands
  change one.1.Shuffled other.1 at hshuffled
  generalize hone : one.1 = x at hshuffled
  generalize hother : other.1 = y at hshuffled
  obtain ⟨hperm', hids'⟩ := hshuffled
  exact ⟨rfl, rfl, hanswers.symm, hperm'⟩

theorem arrangement_immaterial_dancing :
    let commands : List Command := [.tick 0 0 true, .click, .revise "script-2"
      (.addBlock "block-9" .paint (some "start")) true, .edit "script-1" (.remove "twice"),
      .tick 1 1 true]
    let one := dancing.obeyAll commands
    let other := ({ dancing with scripts := [.sliding, .flashing] } : Actor).obeyAll commands
    one.1.appearance = other.1.appearance ∧ one.1.threads = other.1.threads ∧
      one.2 = [none, some 0, none, none, none] ∧ one.2 = other.2 ∧
      one.1.scripts.Perm other.1.scripts := by
  intro commands one other
  have hperm : dancing.scripts.Perm [.sliding, .flashing] := .swap _ _ []
  obtain ⟨happearance, hthreads, hanswers, hscripts⟩ :=
    arrangement_immaterial hperm (by decide) commands
  exact ⟨happearance, hthreads, by decide +kernel, hanswers, hscripts⟩

end Actor

end BlockScript
