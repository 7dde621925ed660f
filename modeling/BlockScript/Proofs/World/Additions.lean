import BlockScript.Proofs.World.Generated

namespace BlockScript

namespace Script

variable {s : Script} {key : String} {parentKey : Option String} {parent : Option Handle}

/-- Whether there is nothing in a script but a root that runs from the start. -/
def OnlyStarts (s : Script) : Prop :=
  s.size = 1 ∧ ∃ root key, s.roots = [root] ∧ s.block? root = some ⟨key, .onStart, none, []⟩

theorem exists_parent_iff :
    (∃ parent, s.parent? parentKey = some parent) ↔ ∀ key ∈ parentKey, s.Has key := by
  cases parentKey with
  | none => simp [parent?]
  | some key => simp [parent?, Has]

theorem Sound.hasPlace_of_parent? (hs : s.WellFormed) (hp : s.parent? parentKey = some parent) :
    s.hasPlace parent = true := by
  cases parentKey with
  | none =>
    obtain rfl := Option.some.inj hp
    rfl
  | some key =>
    obtain ⟨h, hfind, rfl⟩ := Option.map_eq_some_iff.1 hp
    obtain ⟨block, hb, _⟩ := Option.map_eq_some_iff.1 (hs.find?_iff.1 hfind)
    rw [hasPlace, Option.all_some, hb, Option.isSome_some]

end Script

namespace Actor

variable {before after : Actor} {s : Script}

/-- Whether an object comes about from another one by a script that is put behind those that are
there, which are found by their ids as before. -/
structure Attaches (before after : Actor) (s : Script) : Prop where
  scripts : after.scripts = before.scripts ++ [s]
  kept : ∀ id other, before.script? id = some other → after.script? id = some other

/-- Whether such a script has an id of its own, by which it is found. -/
structure Adopts (before after : Actor) (s : Script) : Prop extends Attaches before after s where
  fresh : ∀ other ∈ before.scripts, other.id ≠ s.id
  found : after.script? s.id = some s

theorem attaches_of_scripts (h : after.scripts = before.scripts ++ [s]) :
    before.Attaches after s where
  scripts := h
  kept := by
    intro id other hother
    rw [script?] at hother
    rw [script?, h, List.find?_append, hother, Option.some_or]

theorem Attaches.adopts (h : before.Attaches after s)
    (hfresh : ∀ other ∈ before.scripts, other.id ≠ s.id) : before.Adopts after s where
  toAttaches := h
  fresh := hfresh
  found := by
    have hbefore : before.scripts.find? (·.id = s.id) = none :=
      List.find?_eq_none.2 fun other hother => by simpa using hfresh other hother
    rw [script?, h.scripts, List.find?_append, hbefore, Option.none_or,
      List.find?_cons_of_pos (by simp)]

theorem answer_editScript {α : Type} (actor : Actor) (id : String)
    (edit : Script → Logged (Script × Option α)) :
    (actor.editScript id edit).value.2 = (actor.script? id).bind fun s => (edit s).value.2 := by
  rw [editScript]
  cases actor.script? id <;> rfl

end Actor

namespace World

variable {w origin : World} {id scriptId : String} {before : Actor} {s : Script}

/-- Whether a script is added to an object, if there is such an object, and the answer is the id of
that script and of no other one. -/
structure AddsScript (w : World) (id : String) : Prop where
  answered : (∃ scriptId, (w.addScript id).value.2 = some scriptId) ↔
    ∃ actor, w.actor? id = some actor
  added : ∀ scriptId, (w.addScript id).value.2 = some scriptId → ∃ before after s,
    w.actor? id = some before ∧ (w.addScript id).value.1.actor? id = some after ∧
      s.id = scriptId ∧ s.OnlyStarts ∧ before.Adopts after s

theorem id_newScript (number : Nat) : (newScript number).id = generatedId "script" number := by
  obtain ⟨h, hgains⟩ := gains_newScript number
  exact hgains.toExtends.id

theorem onlyStarts_newScript (number : Nat) : (newScript number).OnlyStarts := by
  obtain ⟨h, hgains⟩ := gains_newScript number
  exact ⟨hgains.size, h, _, hgains.toExtends.roots, hgains.stored⟩

namespace Indexed

theorem answered_addScript (hw : w.Indexed) :
    (∃ scriptId, (w.addScript id).value.2 = some scriptId) ↔ ∃ actor, w.actor? id = some actor := by
  have hanswer := (hw.told_addScript id).answer
  rw [← Option.isSome_iff_exists, ← Option.isSome_iff_exists, hanswer]
  cases w.actor? id <;> simp [Actor.accepts]

theorem addScript_eq (hw : w.Indexed) (hactor : w.actor? id = some before) :
    ∃ told after, (w.addScript id).value = (told, some (newScript (w.counter + 1)).id) ∧
      told.actor? id = some after ∧ before.Attaches after (newScript (w.counter + 1)) := by
  have hanswer : (w.addScript id).value.2 = some (newScript (w.counter + 1)).id := by
    obtain ⟨hmem, rfl⟩ := hw.actor?_eq_some_iff.1 hactor
    have hhas : w.has before.id = true := hw.has_iff.2 (List.mem_map_of_mem hmem)
    rw [addScript, if_pos hhas, (hw.count _).editActor_eq]
    change (w.actor? before.id).bind _ = _
    rw [hactor]
    rfl
  have hafter : (w.addScript id).value.1.actor? id =
      some (before.handle (.addScript (w.counter + 1) w.playing)) := by
    have hkept : (Operation.addScript id).removed? ≠ some id := (Option.some_ne_none id).symm
    have hperform := hw.actor?_perform hactor hkept
    rwa [Operation.eventsFor, if_pos (by simp [Operation.addressee?])] at hperform
  refine ⟨_, _, Prod.ext rfl hanswer, hafter, Actor.attaches_of_scripts ?_⟩
  rw [Actor.handle, Actor.scripts_startIf]

theorem addsScript (hw : w.Indexed) (hfresh : ∀ actor, w.actor? id = some actor →
    ∀ s ∈ actor.scripts, s.id ≠ (newScript (w.counter + 1)).id) : w.AddsScript id where
  answered := hw.answered_addScript
  added := by
    intro scriptId hanswer
    obtain ⟨before, hbefore⟩ := hw.answered_addScript.1 ⟨scriptId, hanswer⟩
    obtain ⟨told, after, hadd, hafter, hattaches⟩ := hw.addScript_eq hbefore
    rw [hadd] at hanswer ⊢
    exact ⟨before, after, newScript (w.counter + 1), hbefore, hafter, Option.some.inj hanswer,
      onlyStarts_newScript _, hattaches.adopts (hfresh before hbefore)⟩

theorem fresh_of_addsScript (hw : w.Indexed) (hadds : w.AddsScript id)
    (hactor : w.actor? id = some before) :
    ∀ s ∈ before.scripts, s.id ≠ (newScript (w.counter + 1)).id := by
  obtain ⟨told, after, hadd, _⟩ := hw.addScript_eq hactor
  obtain ⟨found, _, added, hfound, _, hid, _, hadopts⟩ :=
    hadds.added (newScript (w.counter + 1)).id (congrArg Prod.snd hadd)
  obtain rfl := Option.some.inj (hactor.symm.trans hfound)
  rw [← hid]
  exact hadopts.fresh

end Indexed

theorem Begins.loaded_of_id {operations : List Operation} (hb : origin.Begins)
    (hactor : (origin.after operations).actor? id = some before) (hs : s ∈ before.scripts)
    (hid : s.id = generatedId "script" ((origin.after operations).counter + 1)) :
    ∃ loaded ∈ origin.scriptsOf id, loaded.id = s.id := by
  have hw := (hb.hosted.after operations).assembled.indexed
  obtain ⟨hmem, rfl⟩ := hw.actor?_eq_some_iff.1 hactor
  rcases (hb.stemsFrom operations before hmem s hs).id with hloaded | hgenerated
  · exact hloaded
  · exact absurd hid hgenerated.ne_next

/-- A script is added as it should be unless the object has one with the id that is generated. That
script has been loaded with the object, and is the one that the answer then leads to. -/
theorem addsScript_iff (hb : origin.Begins) (operations : List Operation) (id : String) :
    let w := origin.after operations
    let new := newScript (w.counter + 1)
    (w.AddsScript id ↔
        ∀ actor, w.actor? id = some actor → ∀ s ∈ actor.scripts, s.id ≠ new.id) ∧
      ∀ before, w.actor? id = some before →
        (∃ told after, (w.addScript id).value = (told, some new.id) ∧
          told.actor? id = some after ∧ before.Attaches after new ∧ new.OnlyStarts) ∧
        ∀ s ∈ before.scripts, s.id = new.id →
          ∃ loaded ∈ origin.scriptsOf id, loaded.id = new.id := by
  intro w new
  have hw : w.Indexed := (hb.hosted.after operations).assembled.indexed
  refine ⟨⟨fun hadds _ => hw.fresh_of_addsScript hadds, hw.addsScript⟩, ?_⟩
  intro before hbefore
  constructor
  · obtain ⟨told, after, hadd, hafter, hattaches⟩ := hw.addScript_eq hbefore
    exact ⟨told, after, hadd, hafter, hattaches, onlyStarts_newScript _⟩
  · intro s hs hid
    rw [← hid]
    exact hb.loaded_of_id hbefore hs (hid.trans (id_newScript _))

theorem addsScript_iff_turning : turning.AddsScript "object-1" ∧
    ∃ told, (turning.addScript "object-1").value = (told, some "script-5") := by
  obtain ⟨hiff, hadd⟩ := addsScript_iff .fresh [.addObject .cube, .addScript "object-1",
    .addBlock "object-1" "script-2" .forever (some "block-3"), .setPlaying true, .tick 0 0]
    "object-1"
  have hpresent : (turning.actor? "object-1").isSome = true := by decide +kernel
  obtain ⟨actor, hactor⟩ := Option.isSome_iff_exists.1 hpresent
  refine ⟨hiff.2 ?_, ?_⟩
  · intro before hbefore s hs hid
    obtain ⟨loaded, hloaded, _⟩ := (hadd before hbefore).2 s hs hid
    rw [scriptsOf_fresh] at hloaded
    exact List.not_mem_nil hloaded
  · obtain ⟨told, _, hvalue, _⟩ := (hadd actor hactor).1
    have hcounter : turning.counter = 4 := by decide +kernel
    have hid : (newScript (turning.counter + 1)).id = "script-5" := by
      rw [hcounter, id_newScript]
      rfl
    exact ⟨told, hid ▸ hvalue⟩

/-- A world in which an object has the id and the key that are generated first. -/
def takenText : String :=
  "\x7b\"objects\": [\x7b\"id\": \"o\", \"scripts\": [\x7b\"id\": \"script-1\", \"blocks\": [" ++
    "\x7b\"id\": \"block-1\", \"type\": \"EVENT_START\"\x7d]\x7d]\x7d]\x7d"

theorem exists_loaded (text : String) (check : World → Bool)
    (h : (World.parse text).toOption.any (check ·.value) = true) :
    ∃ loaded, World.parse text = .ok loaded ∧ check loaded.value = true := by
  cases hparse : World.parse text with
  | error fault =>
    rw [hparse] at h
    contradiction
  | ok loaded =>
    rw [hparse] at h
    exact ⟨loaded, rfl, h⟩

/-- The id given to the new script is that of the one that was loaded. -/
theorem not_addsScript_taken :
    ∃ loaded, World.parse takenText = .ok loaded ∧ ¬ loaded.value.AddsScript "o" := by
  obtain ⟨loaded, hparse, hchecked⟩ := exists_loaded takenText
    (fun w => (w.actor? "o").any (·.scripts.any (·.id = "script-1")) &&
      (w.addScript "o").value.2 = some "script-1") (by decide +kernel)
  refine ⟨loaded, hparse, ?_⟩
  intro hadds
  obtain ⟨hids, hanswer⟩ := (Bool.and_eq_true _ _).mp hchecked
  obtain ⟨before, _, s, hbefore, _, hid, _, hadopts⟩ :=
    hadds.added "script-1" (of_decide_eq_true hanswer)
  rw [hbefore, Option.any_some] at hids
  obtain ⟨other, hother, hsame⟩ := List.any_eq_true.1 hids
  exact hadopts.fresh other hother ((of_decide_eq_true hsame).trans hid.symm)

/-- The script with an id in the object with an id. -/
def script? (w : World) (id scriptId : String) : Option Script :=
  (w.actor? id).bind (·.script? scriptId)

/-- Whether a block is added to a script, as the last one under a parent, if there are such a script
and such a parent, and the answer is the key of that block. -/
structure AddsBlock (w : World) (id scriptId : String) (opcode : Opcode)
    (parentKey : Option String) : Prop where
  answered : (∃ key, (w.addBlock id scriptId opcode parentKey).value.2 = some key) ↔
    ∃ s, w.script? id scriptId = some s ∧ ∀ key ∈ parentKey, s.Has key
  added : ∀ key, (w.addBlock id scriptId opcode parentKey).value.2 = some key →
    ∃ s t parent h, w.script? id scriptId = some s ∧
      (w.addBlock id scriptId opcode parentKey).value.1.script? id scriptId = some t ∧
      s.parent? parentKey = some parent ∧ s.Gains t h ⟨key, .authoringDefault opcode, parent, []⟩

theorem WellScripted.of_script? (hscripts : w.WellScripted) (hw : w.Indexed)
    (hs : w.script? id scriptId = some s) : s.WellFormed := by
  obtain ⟨actor, hactor, hs⟩ := Option.bind_eq_some_iff.1 hs
  exact hscripts actor (hw.actor?_eq_some_iff.1 hactor).1 s (Actor.mem_scripts_of_script? hs)

namespace Indexed

theorem answer_editScript {α : Type} (hw : w.Indexed) (id scriptId : String)
    (edit : Script → Logged (Script × Option α)) :
    (w.editScript id scriptId edit).value.2 =
      (w.script? id scriptId).bind fun s => (edit s).value.2 := by
  rw [editScript, hw.editActor_eq, World.script?]
  cases w.actor? id with
  | none => rfl
  | some actor =>
    refine Eq.trans ?_ (actor.answer_editScript scriptId edit)
    dsimp only [Option.bind_some]
    rw [Logged.value_bind]
    split
    · next heq => rw [heq]; rfl
    · next heq => rw [heq]; rfl

theorem answer_addBlock (hw : w.Indexed) (id scriptId : String) (opcode : Opcode)
    (parentKey : Option String) :
    let key := generatedId "block" (w.counter + 1)
    (w.addBlock id scriptId opcode parentKey).value.2 =
      (w.script? id scriptId).bind fun s => (s.parent? parentKey).bind fun parent =>
        (s.insert key (.authoringDefault opcode) parent).2.map fun _ => key := by
  intro key
  refine ((hw.count (w.counter + 1)).answer_editScript id scriptId _).trans ?_
  congr 1
  funext s
  cases s.parent? parentKey <;> rfl

theorem script?_addBlock (hw : w.Indexed) (hscripts : w.WellScripted)
    (hs : w.script? id scriptId = some s) (opcode : Opcode) (parentKey : Option String) :
    let key := generatedId "block" (w.counter + 1)
    (w.addBlock id scriptId opcode parentKey).value.1.script? id scriptId =
      some (s.revise (.addBlock key opcode parentKey)).1 := by
  intro key
  have hkept := ((hscripts.of_script? hw hs).revise_inherits (.addBlock key opcode parentKey)).id
  obtain ⟨actor, hactor, hs⟩ := Option.bind_eq_some_iff.1 hs
  have hpresent : (Operation.addBlock id scriptId opcode parentKey).removed? ≠ some id :=
    (Option.some_ne_none id).symm
  have hafter := hw.actor?_perform hactor hpresent
  rw [Operation.eventsFor, if_pos (by simp [Operation.addressee?])] at hafter
  refine Option.bind_eq_some_iff.2 ⟨_, hafter, ?_⟩
  change (actor.handle (.revise scriptId _ w.playing)).script? scriptId = _
  rw [Actor.handle, Actor.script?, Actor.scripts_startIf]
  exact Actor.script?_editScript hs (hkept.trans (Actor.id_of_script? hs))

theorem answer_addBlock_of_has (hw : w.Indexed) (hs : w.script? id scriptId = some s)
    (hhas : s.Has (generatedId "block" (w.counter + 1))) (opcode : Opcode)
    (parentKey : Option String) : (w.addBlock id scriptId opcode parentKey).value.2 = none := by
  obtain ⟨h, hfind⟩ := hhas
  have hknown : s.find? (generatedId "block" (w.counter + 1)) ≠ none := by
    rw [hfind]
    exact Option.some_ne_none h
  rw [hw.answer_addBlock, hs, Option.bind_some]
  cases s.parent? parentKey with
  | none => rfl
  | some parent =>
    rw [Option.bind_some, Script.insert_eq_refused _ (.inl hknown)]
    rfl

theorem addBlock_of_has (hw : w.Indexed) (hscripts : w.WellScripted)
    (hs : w.script? id scriptId = some s) (hhas : s.Has (generatedId "block" (w.counter + 1)))
    (opcode : Opcode) (parentKey : Option String) :
    (w.addBlock id scriptId opcode parentKey).value =
      ({ w with counter := w.counter + 1 }, none) := by
  have hanswer := hw.answer_addBlock_of_has hs hhas opcode parentKey
  have hcount : ({ w with counter := w.counter + 1 } : World).WellScripted := hscripts
  have hsame := hcount.editScript_of_refused scriptId (madeBy_addBlock _ opcode parentKey).careful
    hanswer
  exact Prod.ext hsame hanswer

/-- With its key new, a block is added under every parent that is there. -/
theorem addBlock_of_not_has (hw : w.Indexed) (hscripts : w.WellScripted)
    (hs : w.script? id scriptId = some s) (opcode : Opcode) {parentKey : Option String}
    {parent : Option Handle} (hparent : s.parent? parentKey = some parent) :
    let key := generatedId "block" (w.counter + 1)
    ¬ s.Has key → ∃ told t h, (w.addBlock id scriptId opcode parentKey).value = (told, some key) ∧
      told.script? id scriptId = some t ∧
        s.Gains t h ⟨key, .authoringDefault opcode, parent, []⟩ := by
  intro key hnew
  have hwellFormed := hscripts.of_script? hw hs
  have hmissing : s.find? key = none := by
    rwa [Script.Has, ← Option.ne_none_iff_exists', not_not] at hnew
  obtain ⟨t, h, hinsert, hgains⟩ := hwellFormed.insert_gains hmissing
    (hwellFormed.hasPlace_of_parent? hparent) (.authoringDefault opcode)
  have hanswer : (w.addBlock id scriptId opcode parentKey).value.2 = some key := by
    rw [hw.answer_addBlock, hs, Option.bind_some, hparent, Option.bind_some, hinsert]
    rfl
  have hrevise : (s.revise (.addBlock key opcode parentKey)).1 = t := by
    rw [Script.revise, hparent]
    exact congrArg Prod.fst hinsert
  have hscript : (w.addBlock id scriptId opcode parentKey).value.1.script? id scriptId =
      some t := by
    rw [hw.script?_addBlock hscripts hs, hrevise]
  exact ⟨_, t, h, Prod.ext rfl hanswer, hscript, hgains⟩

theorem target_of_answer {opcode : Opcode} {parentKey : Option String} {key : String}
    (hw : w.Indexed) (hanswer : (w.addBlock id scriptId opcode parentKey).value.2 = some key) :
    ∃ s parent, w.script? id scriptId = some s ∧ s.parent? parentKey = some parent := by
  rw [hw.answer_addBlock] at hanswer
  obtain ⟨s, hs, hanswer⟩ := Option.bind_eq_some_iff.1 hanswer
  obtain ⟨parent, hparent, _⟩ := Option.bind_eq_some_iff.1 hanswer
  exact ⟨s, parent, hs, hparent⟩

theorem addsBlock {opcode : Opcode} {parentKey : Option String} (hw : w.Indexed)
    (hscripts : w.WellScripted)
    (hfresh : ∀ s, w.script? id scriptId = some s → (∀ key ∈ parentKey, s.Has key) →
      ¬ s.Has (generatedId "block" (w.counter + 1))) :
    w.AddsBlock id scriptId opcode parentKey := by
  have hadd (s : Script) (hs : w.script? id scriptId = some s) (parent : Option Handle)
      (hparent : s.parent? parentKey = some parent) :=
    hw.addBlock_of_not_has hscripts hs opcode hparent
      (hfresh s hs (Script.exists_parent_iff.1 ⟨parent, hparent⟩))
  constructor
  · constructor
    · intro hanswered
      obtain ⟨key, hanswer⟩ := hanswered
      obtain ⟨s, parent, hs, hparent⟩ := hw.target_of_answer hanswer
      exact ⟨s, hs, Script.exists_parent_iff.1 ⟨parent, hparent⟩⟩
    · intro htarget
      obtain ⟨s, hs, hparents⟩ := htarget
      obtain ⟨parent, hparent⟩ := Script.exists_parent_iff.2 hparents
      obtain ⟨told, t, h, hvalue, _⟩ := hadd s hs parent hparent
      exact ⟨_, congrArg Prod.snd hvalue⟩
  · intro key hanswer
    obtain ⟨s, parent, hs, hparent⟩ := hw.target_of_answer hanswer
    obtain ⟨told, t, h, hvalue, ht, hgains⟩ := hadd s hs parent hparent
    rw [hvalue] at hanswer ⊢
    obtain rfl := Option.some.inj hanswer
    exact ⟨s, t, parent, h, hs, ht, hparent, hgains⟩

end Indexed

theorem Begins.loaded_of_has {operations : List Operation} (hb : origin.Begins)
    (hs : (origin.after operations).script? id scriptId = some s)
    (hhas : s.Has (generatedId "block" ((origin.after operations).counter + 1))) :
    ∃ loaded ∈ origin.scriptsOf id, loaded.id = scriptId ∧
      loaded.Has (generatedId "block" ((origin.after operations).counter + 1)) := by
  have hw := (hb.hosted.after operations).assembled.indexed
  obtain ⟨actor, hactor, hfound⟩ := Option.bind_eq_some_iff.1 hs
  obtain ⟨hmem, rfl⟩ := hw.actor?_eq_some_iff.1 hactor
  have hstems := hb.stemsFrom operations actor hmem s (Actor.mem_scripts_of_script? hfound)
  rcases hstems.has _ hhas with ⟨loaded, hloaded, hid, hkey⟩ | hgenerated
  · exact ⟨loaded, hloaded, hid.trans (Actor.id_of_script? hfound), hkey⟩
  · exact absurd rfl hgenerated.ne_next

/-- A block is added as it should be unless its script has one with the key that is generated. That
key has been loaded with the script, and then nothing is added. -/
theorem addsBlock_iff (hb : origin.Begins) (operations : List Operation) (id scriptId : String)
    (opcode : Opcode) (parentKey : Option String) :
    let w := origin.after operations
    let key := generatedId "block" (w.counter + 1)
    (w.AddsBlock id scriptId opcode parentKey ↔
        ∀ s, w.script? id scriptId = some s → (∀ key ∈ parentKey, s.Has key) → ¬ s.Has key) ∧
      ∀ s, w.script? id scriptId = some s → s.Has key →
        (w.addBlock id scriptId opcode parentKey).value =
            ({ w with counter := w.counter + 1 }, none) ∧
          ∃ loaded ∈ origin.scriptsOf id, loaded.id = scriptId ∧ loaded.Has key := by
  intro w key
  have hhosted : w.Hosted := hb.hosted.after operations
  have hw := hhosted.assembled.indexed
  have hscripts := hhosted.wellScripted
  refine ⟨⟨?_, hw.addsBlock hscripts⟩, ?_⟩
  · intro hadds s hs hparents hhas
    obtain ⟨given, hgiven⟩ := hadds.answered.2 ⟨s, hs, hparents⟩
    rw [hw.answer_addBlock_of_has hs hhas] at hgiven
    contradiction
  · intro s hs hhas
    exact ⟨hw.addBlock_of_has hscripts hs hhas opcode parentKey, hb.loaded_of_has hs hhas⟩

theorem addsBlock_iff_turning :
    turning.AddsBlock "object-1" "script-2" .wait (some "block-4") ∧
      ∃ key,
        (turning.addBlock "object-1" "script-2" .wait (some "block-4")).value.2 = some key := by
  obtain ⟨hiff, hrefused⟩ := addsBlock_iff .fresh [.addObject .cube, .addScript "object-1",
    .addBlock "object-1" "script-2" .forever (some "block-3"), .setPlaying true, .tick 0 0]
    "object-1" "script-2" .wait (some "block-4")
  have hadds : turning.AddsBlock "object-1" "script-2" .wait (some "block-4") := by
    apply hiff.2
    intro s hs _ hhas
    obtain ⟨_, loaded, hloaded, _⟩ := hrefused s hs hhas
    rw [scriptsOf_fresh] at hloaded
    exact List.not_mem_nil hloaded
  have hanswered : (turning.addBlock "object-1" "script-2" .wait (some "block-4")).value.2.isSome =
      true := by
    decide +kernel
  exact ⟨hadds, Option.isSome_iff_exists.1 hanswered⟩

/-- The key for the new block is that of the root that was loaded. -/
theorem not_addsBlock_taken : ∃ loaded, World.parse takenText = .ok loaded ∧
    ¬ loaded.value.AddsBlock "o" "script-1" .wait (some "block-1") := by
  obtain ⟨loaded, hparse, hchecked⟩ := exists_loaded takenText
    (fun w => (w.script? "o" "script-1").any (fun s => (s.find? "block-1").isSome) &&
      (w.addBlock "o" "script-1" .wait (some "block-1")).value.2.isNone) (by decide +kernel)
  refine ⟨loaded, hparse, ?_⟩
  intro hadds
  obtain ⟨hroot, hanswer⟩ := (Bool.and_eq_true _ _).mp hchecked
  cases hs : loaded.value.script? "o" "script-1" with
  | none =>
    rw [hs, Option.any_none] at hroot
    exact absurd hroot Bool.false_ne_true
  | some s =>
    rw [hs, Option.any_some, Option.isSome_iff_exists] at hroot
    have hparent : ∀ key ∈ some "block-1", s.Has key := by
      intro key hkey
      obtain rfl := Option.some.inj hkey
      exact hroot
    obtain ⟨key, hkey⟩ := hadds.answered.2 ⟨s, hs, hparent⟩
    rw [hkey, Option.isNone_some] at hanswer
    exact absurd hanswer Bool.false_ne_true

end World

end BlockScript
