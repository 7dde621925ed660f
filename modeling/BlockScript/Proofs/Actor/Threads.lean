import BlockScript.Actor
import BlockScript.Proofs.Script.Refusal
import BlockScript.Proofs.Thread.Inside
import Mathlib.Data.List.TakeWhile

namespace BlockScript

namespace Actor

variable {actor other : Actor} {playing : Bool} {id : String} {t : Thread} {now : Float}

/-- Whether an actor has the script of a thread, and the thread is in the tree of a root at which
that script is started. -/
def Hosts (actor : Actor) (id : String) (t : Thread) : Prop :=
  ∃ s, actor.script? id = some s ∧ ∃ root, s.IsEntry root ∧ t.Inside s root

/-- What holds of an actor in the one mode and in the other. -/
structure Kept (playing : Bool) (actor : Actor) : Prop where
  wellFormed : ∀ s ∈ actor.scripts, s.WellFormed
  idle : playing = false → actor.threads = ∅
  hosts : (actor.scripts.map (·.id)).Nodup → ∀ id t, actor.threads[id]? = some t → actor.Hosts id t

theorem Hosts.congr (hscripts : other.scripts = actor.scripts) (h : actor.Hosts id t) :
    other.Hosts id t := by
  rwa [Hosts, script?, hscripts]

theorem mem_scripts_of_script? {s : Script} (hs : actor.script? id = some s) :
    s ∈ actor.scripts :=
  List.mem_of_find?_eq_some hs

theorem id_of_script? {s : Script} (hs : actor.script? id = some s) : s.id = id := by
  rw [script?] at hs
  simpa using List.find?_some hs

theorem script?_of_mem {s : Script} (hids : (actor.scripts.map (·.id)).Nodup)
    (hs : s ∈ actor.scripts) : actor.script? s.id = some s := by
  cases hfound : actor.script? s.id with
  | none => exact absurd (List.find?_eq_none.1 hfound s hs) (by simp)
  | some other =>
    have hid := id_of_script? hfound
    rw [List.inj_on_of_nodup_map hids (mem_scripts_of_script? hfound) hs hid]

theorem kept_of_no_threads (hscripts : ∀ s ∈ actor.scripts, s.WellFormed)
    (hthreads : actor.threads = ∅) : actor.Kept playing where
  wellFormed := hscripts
  idle := fun _ => hthreads
  hosts := by
    intro _ id t ht
    rw [hthreads, Std.ExtTreeMap.getElem?_empty] at ht
    contradiction

theorem Kept.of_same (hk : actor.Kept playing) (hscripts : other.scripts = actor.scripts)
    (hthreads : other.threads = actor.threads) : other.Kept playing where
  wellFormed := hscripts ▸ hk.wellFormed
  idle := hthreads ▸ hk.idle
  hosts := by
    rw [hscripts, hthreads]
    exact fun hids id t ht => (hk.hosts hids id t ht).congr hscripts

theorem Kept.insertThread (hk : actor.Kept true)
    (ht : (actor.scripts.map (·.id)).Nodup → actor.Hosts id t) (appearance : Appearance) :
    ({ actor with appearance, threads := actor.threads.insert id t } : Actor).Kept true where
  wellFormed := hk.wellFormed
  idle := nofun
  hosts := by
    intro hids other u hu
    rw [Std.ExtTreeMap.getElem?_insert] at hu
    split at hu
    · next hid =>
      obtain rfl := Std.LawfulEqOrd.eq_of_compare hid
      obtain rfl := Option.some.inj hu
      exact (ht hids).congr rfl
    · exact (hk.hosts hids other u hu).congr rfl

theorem Kept.startEntries (hk : actor.Kept true) {entries : List (String × Handle)}
    (hentries : (actor.scripts.map (·.id)).Nodup →
      ∀ entry ∈ entries, actor.Hosts entry.1 (.start entry.2)) :
    ({ actor with
      threads := entries.foldl (fun threads (id, root) => threads.insert id (.start root))
        actor.threads } : Actor).Kept true := by
  induction entries generalizing actor with
  | nil => exact hk
  | cons entry entries ih =>
    have hhead := fun hids => hentries hids entry (List.mem_cons_self ..)
    apply ih (hk.insertThread hhead actor.appearance)
    intro hids other hother
    exact (hentries hids other (List.mem_cons_of_mem entry hother)).congr rfl

theorem Kept.startThreads (hk : actor.Kept true) (trigger : Trigger) :
    (actor.startThreads trigger).Kept true := by
  apply hk.startEntries
  intro hids entry hentry
  obtain ⟨s, hs, hstarted⟩ := List.mem_filterMap.1 hentry
  obtain ⟨root, hroot, rfl⟩ := Option.map_eq_some_iff.1 hstarted
  have hfirst : s.IsEntry root := ⟨trigger, hroot⟩
  exact ⟨s, script?_of_mem hids hs, root, hfirst, Thread.inside_start hfirst⟩

theorem kept_stop (hscripts : ∀ s ∈ actor.scripts, s.WellFormed) : actor.stop.Kept playing :=
  kept_of_no_threads hscripts rfl

theorem kept_start (hscripts : ∀ s ∈ actor.scripts, s.WellFormed) : actor.start.value.Kept true :=
  (kept_stop hscripts).startThreads .start

theorem Kept.click (hk : actor.Kept true) : actor.click.value.1.Kept true :=
  hk.startThreads .click

theorem scripts_runThread (now : Float) (actor : Actor) (entry : String × Thread) :
    (actor.runThread now entry).value.scripts = actor.scripts := by
  rw [runThread]
  split <;> rfl

theorem Kept.runThread (hk : actor.Kept true)
    (ht : (actor.scripts.map (·.id)).Nodup → actor.Hosts id t) (now : Float) :
    (actor.runThread now (id, t)).value.Kept true := by
  rw [Actor.runThread]
  split
  · exact hk
  · next s hs =>
    apply hk.insertThread
    intro hids
    obtain ⟨found, hfound, root, hentry, hin⟩ := ht hids
    obtain rfl := Option.some.inj (hs.symm.trans hfound)
    have hwellFormed := hk.wellFormed s (mem_scripts_of_script? hs)
    exact ⟨s, hs, root, hentry, (hin.advance hwellFormed actor.appearance now).1⟩

theorem Kept.runEntries (hk : actor.Kept true) (entries : List (String × Thread))
    (hentries : (actor.scripts.map (·.id)).Nodup → ∀ entry ∈ entries, actor.Hosts entry.1 entry.2) :
    (entries.foldl (fun actor entry => (actor.runThread now entry).value) actor).Kept true := by
  induction entries generalizing actor with
  | nil => exact hk
  | cons entry entries ih =>
    have hsame := scripts_runThread now actor entry
    have hkept := hk.runThread (fun hids => hentries hids entry (List.mem_cons_self ..)) now
    apply ih hkept
    rw [hsame]
    intro hids other hother
    exact (hentries hids other (List.mem_cons_of_mem entry hother)).congr hsame

theorem Kept.tick (hk : actor.Kept playing) (now delta : Float) :
    (actor.tick now delta playing).value.Kept playing := by
  rw [Actor.tick]
  split
  · exact hk
  · split
    · next hplaying =>
      obtain rfl := hplaying
      rw [runThreads, Logged.value_foldlM]
      apply hk.runEntries
      intro hids entry hentry
      exact hk.hosts hids _ _ (Std.ExtTreeMap.mem_toList_iff_getElem?_eq_some.1 hentry)
    · exact hk.of_same rfl rfl

theorem scripts_replaced {s : Script} (hs : actor.script? id = some s) :
    actor.scripts.takeWhile (·.id ≠ id) ++ s :: (actor.scripts.dropWhile (·.id ≠ id)).tail =
      actor.scripts := by
  have hhead : (actor.scripts.dropWhile (·.id ≠ id)).head? = some s := by
    rw [script?, List.find?_eq_head?_dropWhile_not] at hs
    simpa only [ne_eq, decide_not] using hs
  rw [← List.eq_cons_of_mem_head? hhead, List.takeWhile_append_dropWhile]

theorem editScript_of_refused {α : Type} {edit : Script → Logged (Script × Option α)}
    (actor : Actor) (id : String) (hedit : Script.Careful edit)
    (hscripts : ∀ s ∈ actor.scripts, s.WellFormed)
    (hn : (actor.editScript id edit).value.2 = none) :
    (actor.editScript id edit).value.1 = actor := by
  cases hs : actor.script? id with
  | none =>
    rw [Actor.editScript, hs]
    rfl
  | some s =>
    have hw := hscripts s (mem_scripts_of_script? hs)
    rw [Actor.editScript, hs] at hn ⊢
    change (edit s).value.2 = none at hn
    change { actor with scripts := _ ++ (edit s).value.1 :: _ } = actor
    rw [hedit.refused hw hn, scripts_replaced hs]

theorem threads_editScript {α : Type} (actor : Actor) (id : String)
    (edit : Script → Logged (Script × Option α)) :
    (actor.editScript id edit).value.1.threads = actor.threads := by
  rw [Actor.editScript]
  split <;> rfl

theorem mem_scripts_editScript {α : Type} {edit : Script → Logged (Script × Option α)} {s : Script}
    (hs : s ∈ (actor.editScript id edit).value.1.scripts) :
    s ∈ actor.scripts ∨ ∃ old ∈ actor.scripts, s = (edit old).value.1 := by
  cases hold : actor.script? id with
  | none =>
    rw [Actor.editScript, hold] at hs
    exact .inl hs
  | some old =>
    rw [Actor.editScript, hold] at hs
    change s ∈ _ ++ (edit old).value.1 :: _ at hs
    rcases List.mem_append.1 hs with hs | hs
    · exact .inl (List.takeWhile_subset _ hs)
    · rcases List.mem_cons.1 hs with rfl | hs
      · exact .inr ⟨old, mem_scripts_of_script? hold, rfl⟩
      · exact .inl (List.dropWhile_subset _ (List.mem_of_mem_tail hs))

theorem wellFormed_editScript {α : Type} {edit : Script → Logged (Script × Option α)}
    (actor : Actor) (id : String) (hedit : Script.Careful edit)
    (hscripts : ∀ s ∈ actor.scripts, s.WellFormed) :
    ∀ s ∈ (actor.editScript id edit).value.1.scripts, s.WellFormed := by
  intro s hs
  rcases mem_scripts_editScript hs with hs | ⟨old, hold, rfl⟩
  · exact hscripts s hs
  · exact hedit.wellFormed (hscripts old hold)

theorem script?_editScript {α : Type} {edit : Script → Logged (Script × Option α)} {s : Script}
    (hs : actor.script? id = some s) (hid : (edit s).value.1.id = id) :
    (actor.editScript id edit).value.1.script? id = some (edit s).value.1 := by
  have hbefore : (actor.scripts.takeWhile (·.id ≠ id)).find? (·.id = id) = none := by
    rw [List.find?_eq_none]
    intro other hother
    simpa using List.mem_takeWhile_imp hother
  rw [Actor.editScript, hs]
  change List.find? _ (_ ++ (edit s).value.1 :: _) = _
  rw [List.find?_append, hbefore, Option.none_or, List.find?_cons_of_pos (by simpa using hid)]

end Actor

end BlockScript
