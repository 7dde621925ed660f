import BlockScript.Proofs.Actor.Threads

namespace BlockScript

/-- What a thread is run with when it has its turn. -/
structure Turn where
  script : Script
  thread : Thread
  appearance : Appearance

def Turn.outcome (turn : Turn) (now : Float) : Advance :=
  turn.thread.advance turn.script turn.appearance now

namespace Actor

variable {actor : Actor} {s : Script} {id : String} {t : Thread} {now : Float}
  {entries : List (String × Thread)}

/-- The actor after a turn in one of its scripts. -/
def afterTurn (now : Float) (actor : Actor) (turn : Turn) : Actor :=
  { actor with
    appearance := (turn.outcome now).appearance
    threads := actor.threads.insert turn.script.id (turn.outcome now).thread }

def turnsOf (now : Float) (actor : Actor) : List (String × Thread) → List Turn
  | [] => []
  | (id, t) :: rest =>
    match actor.script? id with
    | none => turnsOf now actor rest
    | some s =>
      let turn : Turn := ⟨s, t, actor.appearance⟩
      turn :: turnsOf now (actor.afterTurn now turn) rest

def turns (actor : Actor) (now : Float) : List Turn := actor.turnsOf now actor.threads.toList

theorem runThread_of_script? (hs : actor.script? id = some s) (t : Thread) (now : Float) :
    (actor.runThread now (id, t)).value = actor.afterTurn now ⟨s, t, actor.appearance⟩ := by
  rw [runThread, hs, afterTurn, id_of_script? hs]
  rfl

theorem runThread_of_no_script (hs : actor.script? id = none) (t : Thread) (now : Float) :
    (actor.runThread now (id, t)).value = actor := by
  rw [runThread, hs]
  rfl

/-- A tick is made up of its turns. -/
theorem runThreads_eq_foldl_turns (actor : Actor) (now : Float) :
    (actor.runThreads now).value = (actor.turns now).foldl (afterTurn now) actor := by
  suffices h : ∀ entries : List (String × Thread),
      entries.foldl (fun actor entry => (actor.runThread now entry).value) actor =
        (actor.turnsOf now entries).foldl (afterTurn now) actor by
    rw [runThreads, Logged.value_foldlM]
    exact h _
  intro entries
  induction entries generalizing actor with
  | nil => rfl
  | cons entry rest ih =>
    obtain ⟨id, t⟩ := entry
    rw [List.foldl_cons, turnsOf]
    cases hs : actor.script? id with
    | none =>
      rw [runThread_of_no_script hs]
      exact ih actor
    | some s =>
      rw [runThread_of_script? hs]
      exact ih _

theorem runThreads_fixed (actor : Actor) (now : Float) :
    (actor.runThreads now).value.scripts = actor.scripts ∧
      (actor.runThreads now).value.locked = actor.locked := by
  rw [runThreads_eq_foldl_turns]
  generalize actor.turns now = turns
  induction turns generalizing actor with
  | nil => exact ⟨rfl, rfl⟩
  | cons turn turns ih => exact ih (actor.afterTurn now turn)

theorem threads_afterTurn_of_ne {turn : Turn} (hid : turn.script.id ≠ id) :
    (actor.afterTurn now turn).threads[id]? = actor.threads[id]? := by
  rw [afterTurn, Std.ExtTreeMap.getElem?_insert, if_neg]
  exact fun h => hid (Std.LawfulEqOrd.eq_of_compare h)

theorem turnsOf_of_not_mem (now : Float) (actor : Actor) (hid : id ∉ entries.map (·.1)) :
    (actor.turnsOf now entries).filter (·.script.id = id) = [] ∧
      ((actor.turnsOf now entries).foldl (afterTurn now) actor).threads[id]? =
        actor.threads[id]? := by
  induction entries generalizing actor with
  | nil => exact ⟨rfl, rfl⟩
  | cons entry rest ih =>
    obtain ⟨other, t⟩ := entry
    obtain ⟨hne, hid⟩ := not_or.1 (mt List.mem_cons.2 hid)
    rw [turnsOf]
    cases hs : actor.script? other with
    | none => exact ih actor hid
    | some s =>
      have hother : s.id ≠ id := id_of_script? hs ▸ Ne.symm hne
      obtain ⟨hturns, hthreads⟩ := ih (actor.afterTurn now ⟨s, t, actor.appearance⟩) hid
      dsimp only
      rw [List.filter_cons_of_neg (by simpa using hother)]
      exact ⟨hturns, hthreads.trans (threads_afterTurn_of_ne hother)⟩

theorem turnsOf_of_mem (now : Float) (actor : Actor) (hids : (entries.map (·.1)).Nodup)
    (ht : (id, t) ∈ entries) (hs : actor.script? id = some s) :
    ∃ a, (actor.turnsOf now entries).filter (·.script.id = id) = [⟨s, t, a⟩] ∧
      ((actor.turnsOf now entries).foldl (afterTurn now) actor).threads[id]? =
        some (t.advance s a now).thread := by
  induction entries generalizing actor with
  | nil => exact absurd ht List.not_mem_nil
  | cons entry rest ih =>
    obtain ⟨hhead, hrest⟩ := List.nodup_cons.1 hids
    rcases List.mem_cons.1 ht with rfl | hmem
    · -- The turn is the first one, and no later one touches the thread.
      obtain ⟨hturns, hthreads⟩ :=
        turnsOf_of_not_mem now (actor.afterTurn now ⟨s, t, actor.appearance⟩) hhead
      have hid := id_of_script? hs
      refine ⟨actor.appearance, ?_, ?_⟩
      · rw [turnsOf, hs]
        dsimp only
        rw [List.filter_cons_of_pos (by simpa using hid), hturns]
      · rw [turnsOf, hs]
        refine hthreads.trans ?_
        rw [afterTurn, hid, Std.ExtTreeMap.getElem?_insert_self]
        rfl
    · obtain ⟨other, u⟩ := entry
      have hne : other ≠ id := by
        rintro rfl
        exact hhead (List.mem_map_of_mem (f := (·.1)) hmem)
      rw [turnsOf]
      cases ho : actor.script? other with
      | none => exact ih actor hrest hmem hs
      | some o =>
        have hother : o.id ≠ id := id_of_script? ho ▸ hne
        obtain ⟨a, hturns, hthreads⟩ :=
          ih (actor.afterTurn now ⟨o, u, actor.appearance⟩) hrest hmem hs
        dsimp only
        rw [List.filter_cons_of_neg (by simpa using hother)]
        exact ⟨a, hturns, hthreads⟩

/-- Each thread of a script of an actor has one turn in a tick, in that script, and is then as that
turn has left it. -/
theorem exists_turn (ht : actor.threads[id]? = some t) (hs : actor.script? id = some s)
    (now : Float) :
    ∃ a, (actor.turns now).filter (·.script.id = id) = [⟨s, t, a⟩] ∧
      (actor.runThreads now).value.threads[id]? = some (t.advance s a now).thread := by
  have hids : (actor.threads.toList.map (·.1)).Nodup := by
    rw [Std.ExtTreeMap.map_fst_toList_eq_keys]
    exact Std.ExtTreeMap.nodup_keys
  have hmem := Std.ExtTreeMap.mem_toList_iff_getElem?_eq_some.2 ht
  rw [runThreads_eq_foldl_turns]
  exact turnsOf_of_mem now actor hids hmem hs

end Actor

end BlockScript
