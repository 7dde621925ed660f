import BlockScript.Proofs.Actor.Turns
import BlockScript.World.Load
import Mathlib.Data.List.Perm.Subperm

namespace BlockScript.Actor

variable {actor : Actor} {trigger : Trigger} {s : Script} {id : String} {root : Handle}
  {entries : List (String × Handle)} {threads : Std.ExtTreeMap String Thread}

/-- The actor after a trigger. -/
def fire (actor : Actor) : Trigger → Actor
  | .start => actor.start.value
  | .click => actor.click.value.1

/-- The scripts that a trigger is to run. -/
def called (actor : Actor) (trigger : Trigger) : List Script :=
  actor.scripts.filter fun s => (s.firstRoot? trigger.opcode).isSome

/-- Whether a trigger starts a thread for each script that it is to run, at the first root there,
which is then run in that very script; and whether it starts as many threads as there are such
scripts and as it says. -/
structure RunsEach (actor : Actor) (trigger : Trigger) : Prop where
  own : ∀ s ∈ actor.scripts, ∀ root, s.firstRoot? trigger.opcode = some root →
    (actor.fire trigger).threads[s.id]? = some (.start root) ∧
      ∀ now, ∃ a, ((actor.fire trigger).turns now).filter (·.script.id = s.id) =
        [⟨s, .start root, a⟩]
  counted : ((actor.fire trigger).threads.keys.filter
      (· ∈ (actor.called trigger).map (·.id))).length = (actor.called trigger).length
  told : trigger = .click → actor.click.value.2 = (actor.called trigger).length

def startAll (threads : Std.ExtTreeMap String Thread) (entries : List (String × Handle)) :
    Std.ExtTreeMap String Thread :=
  entries.foldl (fun threads (id, root) => threads.insert id (.start root)) threads

theorem startAll_of_not_mem (hid : id ∉ entries.map (·.1)) :
    (startAll threads entries)[id]? = threads[id]? := by
  induction entries generalizing threads with
  | nil => rfl
  | cons entry rest ih =>
    obtain ⟨hne, hid⟩ := not_or.1 (mt List.mem_cons.2 hid)
    refine (ih hid).trans ?_
    rw [Std.ExtTreeMap.getElem?_insert, if_neg]
    exact fun h => hne (Std.LawfulEqOrd.eq_of_compare h).symm

/-- Of the entries of one id the last one counts. -/
theorem startAll_of_last (before : List (String × Handle)) (root : Handle)
    {after : List (String × Handle)} (hid : id ∉ after.map (·.1)) :
    (startAll threads (before ++ (id, root) :: after))[id]? = some (.start root) := by
  rw [startAll, List.foldl_append]
  refine (startAll_of_not_mem hid).trans ?_
  exact Std.ExtTreeMap.getElem?_insert_self

theorem mem_startAll (hid : id ∈ entries.map (·.1)) : id ∈ startAll threads entries := by
  induction entries generalizing threads with
  | nil => exact absurd hid List.not_mem_nil
  | cons entry rest ih =>
    by_cases hrest : id ∈ rest.map (·.1)
    · exact ih hrest
    · obtain rfl : id = entry.1 := (List.mem_cons.1 hid).resolve_right hrest
      rw [Std.ExtTreeMap.mem_iff_isSome_getElem?, ← List.nil_append (entry :: rest),
        startAll_of_last [] entry.2 hrest]
      rfl

theorem threads_fire (actor : Actor) (trigger : Trigger) :
    ∃ threads, (actor.fire trigger).threads = startAll threads (actor.entries trigger) := by
  cases trigger with
  | start => exact ⟨∅, rfl⟩
  | click => exact ⟨actor.threads, rfl⟩

theorem scripts_fire (actor : Actor) (trigger : Trigger) :
    (actor.fire trigger).scripts = actor.scripts := by
  cases trigger <;> rfl

theorem mem_called : s ∈ actor.called trigger ↔
    s ∈ actor.scripts ∧ ∃ root, s.firstRoot? trigger.opcode = some root := by
  rw [called, List.mem_filter, Option.isSome_iff_exists]

theorem ids_entries (actor : Actor) (trigger : Trigger) :
    (actor.entries trigger).map (·.1) = (actor.called trigger).map (·.id) := by
  rw [entries, called]
  induction actor.scripts with
  | nil => rfl
  | cons s scripts ih =>
    rw [List.filterMap_cons, List.filter_cons]
    cases s.firstRoot? trigger.opcode with
    | none => exact ih
    | some root => exact congrArg (s.id :: ·) ih

theorem mem_entries (hs : s ∈ actor.scripts) (hroot : s.firstRoot? trigger.opcode = some root) :
    (s.id, root) ∈ actor.entries trigger :=
  List.mem_filterMap.2 ⟨s, hs, by rw [hroot]; rfl⟩

/-- With ids that are distinct, each script that a trigger runs gets a thread at its first root. -/
theorem threads_fire_of_nodup (hids : ((actor.called trigger).map (·.id)).Nodup)
    (hs : s ∈ actor.scripts) (hroot : s.firstRoot? trigger.opcode = some root) :
    (actor.fire trigger).threads[s.id]? = some (.start root) := by
  obtain ⟨threads, hthreads⟩ := threads_fire actor trigger
  obtain ⟨before, after, hentries⟩ := List.append_of_mem (mem_entries hs hroot)
  rw [← ids_entries, hentries, List.map_append, List.map_cons, List.nodup_append] at hids
  rw [hthreads, hentries]
  exact startAll_of_last before root (List.nodup_cons.1 hids.2.1).1

theorem length_eq_iff_nodup {α : Type} {l l' : List α} (hl : l.Nodup) (h : ∀ x, x ∈ l ↔ x ∈ l') :
    l.length = l'.length ↔ l'.Nodup := by
  constructor
  · intro hlength
    have hsub : l.Subperm l' := List.subperm_of_subset hl fun x => (h x).1
    exact (hsub.perm_of_length_le hlength.ge).nodup_iff.1 hl
  · intro hl'
    exact ((List.perm_ext_iff_of_nodup hl hl').2 h).length_eq

/-- The threads that a trigger starts are as many as the scripts that it is to run only if those
have distinct ids. -/
theorem counted_iff (actor : Actor) (trigger : Trigger) :
    ((actor.fire trigger).threads.keys.filter
      (· ∈ (actor.called trigger).map (·.id))).length = (actor.called trigger).length ↔
      ((actor.called trigger).map (·.id)).Nodup := by
  obtain ⟨threads, hthreads⟩ := threads_fire actor trigger
  have hkeys : ((actor.fire trigger).threads.keys.filter
      (· ∈ (actor.called trigger).map (·.id))).Nodup :=
    Std.ExtTreeMap.nodup_keys.filter _
  have hlength : ((actor.called trigger).map (·.id)).length = (actor.called trigger).length :=
    List.length_map _
  rw [← hlength]
  apply length_eq_iff_nodup hkeys
  intro id
  rw [List.mem_filter, decide_eq_true_eq, Std.ExtTreeMap.mem_keys, hthreads]
  constructor
  · exact fun hid => hid.2
  · intro hid
    exact ⟨mem_startAll (ids_entries actor trigger ▸ hid), hid⟩

theorem nodup_called_iff : ((actor.called trigger).map (·.id)).Nodup ↔
    actor.scripts.Pairwise fun s o => (s.firstRoot? trigger.opcode).isSome →
      (o.firstRoot? trigger.opcode).isSome → s.id ≠ o.id := by
  rw [called, List.Nodup, List.pairwise_map, List.pairwise_filter]

theorem script?_of_pairwise
    (h : actor.scripts.Pairwise fun s o => s.id = o.id → o.firstRoot? trigger.opcode = none)
    (hs : s ∈ actor.called trigger) : actor.script? s.id = some s := by
  obtain ⟨hs, root, hroot⟩ := mem_called.1 hs
  obtain ⟨before, after, hscripts⟩ := List.append_of_mem hs
  rw [script?, List.find?_eq_some_iff_append]
  refine ⟨decide_eq_true rfl, before, after, hscripts, ?_⟩
  intro o ho
  rw [hscripts, List.pairwise_append] at h
  have hos := h.2.2 o ho s (List.mem_cons_self ..)
  rw [hroot] at hos
  simpa using hos

theorem pairwise_iff (actor : Actor) (trigger : Trigger) :
    (actor.scripts.Pairwise fun s o => s.id = o.id → o.firstRoot? trigger.opcode = none) ↔
      ((actor.called trigger).map (·.id)).Nodup ∧
        ∀ s ∈ actor.called trigger, actor.script? s.id = some s := by
  rw [nodup_called_iff]
  constructor
  · intro h
    refine ⟨h.imp ?_, fun s => script?_of_pairwise h⟩
    intro s o hso _ ho hid
    rw [hso hid] at ho
    contradiction
  · rintro ⟨hdistinct, hfound⟩
    rw [List.pairwise_iff_getElem] at hdistinct ⊢
    intro i j hi hj hij hid
    by_contra hroot
    obtain ⟨root, hroot⟩ := Option.ne_none_iff_exists'.1 hroot
    have hcalled : (actor.scripts[j].firstRoot? trigger.opcode).isSome := by rw [hroot]; rfl
    -- The script is found at its id at a place `k`, which is not behind the place `i`.
    have hfirst := hfound _ (mem_called.2 ⟨List.getElem_mem hj, root, hroot⟩)
    rw [script?, List.find?_eq_some_iff_getElem] at hfirst
    obtain ⟨_, k, hk, hsame, hbefore⟩ := hfirst
    have hki : k ≤ i := by
      by_contra hik
      simpa [hid] using hbefore i (Nat.lt_of_not_le hik)
    apply hdistinct k j hk hj (Nat.lt_of_le_of_lt hki hij) _ hcalled (congrArg Script.id hsame)
    rw [hsame]
    exact hcalled

/-- A trigger runs each of its scripts in a thread of its own exactly if none of them comes after a
script with the same id. -/
theorem runsEach_iff (actor : Actor) (trigger : Trigger) : actor.RunsEach trigger ↔
    actor.scripts.Pairwise fun s o => s.id = o.id → o.firstRoot? trigger.opcode = none := by
  rw [pairwise_iff]
  have hscript? : ∀ id, (actor.fire trigger).script? id = actor.script? id := by
    intro id
    rw [script?, scripts_fire, script?]
  constructor
  · intro h
    refine ⟨(counted_iff actor trigger).1 h.counted, ?_⟩
    intro s hs
    obtain ⟨hs, root, hroot⟩ := mem_called.1 hs
    obtain ⟨hthread, hturns⟩ := h.own s hs root hroot
    cases hfound : actor.script? s.id with
    | none => exact absurd (List.find?_eq_none.1 hfound s hs) (by simp)
    | some o =>
      -- The turn of the thread is in the script found by its id, and is also the one in `s`.
      obtain ⟨a, hturn, _⟩ := exists_turn hthread ((hscript? s.id).trans hfound) 0
      obtain ⟨b, hturn'⟩ := hturns 0
      have hsame : o = s := by
        have h := List.singleton_inj.1 (hturn.symm.trans hturn')
        exact congrArg Turn.script h
      rw [hsame]
  · rintro ⟨hids, hfound⟩
    refine ⟨?_, (counted_iff actor trigger).2 hids, ?_⟩
    · intro s hs root hroot
      have hthread := threads_fire_of_nodup hids hs hroot
      have hscript := (hscript? s.id).trans (hfound s (mem_called.2 ⟨hs, root, hroot⟩))
      refine ⟨hthread, ?_⟩
      intro now
      exact (exists_turn hthread hscript now).imp fun _ => And.left
    · rintro rfl
      have hlength := congrArg List.length (ids_entries actor .click)
      rwa [List.length_map, List.length_map] at hlength

/-- An object of which one script is to run on a click, and another one with the same id from the
start. -/
def twins : Authored.Object where
  id := "o"
  name := ""
  shape := .cube
  position := .zero
  rotation := .zero
  scale := .splat 1
  color := "#ffffff"
  behaviors := []
  scripts :=
    [⟨"s", "", [⟨"c", "EVENT_ON_CLICK", ∅, [paint "blue" "#0000ff"]⟩]⟩,
      ⟨"s", "", [⟨"b", "EVENT_START", ∅, [paint "red" "#ff0000"]⟩]⟩]
  locked := false
  createdBy := ""
where
  paint (id color : String) : Authored.Block :=
    ⟨id, "ACTION_COLOR", (∅ : Params).insert "color" (.text color), []⟩

/-- From the start the second script is run in the blocks of the first one. -/
theorem not_runsEach_twins : ¬ (ofAuthored twins).value.RunsEach .start := by
  intro h
  have hroots : (ofAuthored twins).value.scripts.map (·.firstRoot? .onStart) =
      [none, some ⟨0, 0⟩] := by
    decide +kernel
  have hfirst : ((ofAuthored twins).value.script? "s").map (·.firstRoot? .onStart) = some none := by
    decide +kernel
  have hids : (ofAuthored twins).value.scripts.map (·.id) = ["s", "s"] := by decide +kernel
  obtain ⟨o, ho, hnone⟩ := Option.map_eq_some_iff.1 hfirst
  obtain ⟨s, hs, hroot⟩ := List.mem_map.1
    (hroots ▸ List.mem_cons_of_mem _ (List.mem_singleton_self _) :
      some (⟨0, 0⟩ : Handle) ∈ (ofAuthored twins).value.scripts.map (·.firstRoot? .onStart))
  have hid : s.id = "s" := by
    have hmem := List.mem_map_of_mem (f := Script.id) hs
    rw [hids] at hmem
    simpa using hmem
  obtain ⟨hthread, hturns⟩ := h.own s hs _ hroot
  obtain ⟨a, hturn, _⟩ := exists_turn (s := o) hthread (by rw [hid]; exact ho) 0
  obtain ⟨b, hturn'⟩ := hturns 0
  have hsame : o = s := congrArg Turn.script (List.singleton_inj.1 (hturn.symm.trans hturn'))
  rw [hsame, hroot] at hnone
  contradiction

end BlockScript.Actor
