import BlockScript.World.Edit
import Mathlib

namespace BlockScript.World

variable {w : World} {id : String} {actor : Actor} {place number : Nat}

def ids (w : World) : List String := w.actors.map (·.id)

/-- Whether the index has the ids of all actors, each with its place, and no others. -/
def Indexed (w : World) : Prop :=
  ∀ (id : String) (place : Nat), w.places[id]? = some place ↔ w.ids[place]? = some id

theorem getElem?_ids : w.ids[place]? = some id ↔
    ∃ actor, w.actors[place]? = some actor ∧ actor.id = id := by
  rw [ids, List.getElem?_map, Option.map_eq_some_iff]

theorem has_eq_isSome (w : World) (id : String) : w.has id = w.places[id]?.isSome :=
  Std.ExtTreeMap.contains_eq_isSome_getElem?

namespace Indexed

theorem of_same {v : World} (hw : w.Indexed) (hids : v.ids = w.ids) (hplaces : v.places = w.places) :
    v.Indexed := by
  intro id place
  rw [hids, hplaces]
  exact hw id place

theorem empty (environment : Color) : (World.empty environment).Indexed := by
  intro id place
  simp [World.empty, ids]

theorem nodup (hw : w.Indexed) : w.ids.Nodup := by
  rw [List.nodup_iff_getElem?_ne_getElem?]
  intro i j hij hj he
  have hi := (hw w.ids[j] i).2 (by rw [he, List.getElem?_eq_getElem hj])
  have hj := (hw w.ids[j] j).2 (List.getElem?_eq_getElem hj)
  exact Nat.ne_of_lt hij (Option.some.inj (hi.symm.trans hj))

theorem has_iff (hw : w.Indexed) : w.has id = true ↔ id ∈ w.ids := by
  rw [has_eq_isSome, Option.isSome_iff_exists, List.mem_iff_getElem?]
  exact exists_congr fun place => hw id place

theorem has_eq_false_iff (hw : w.Indexed) : w.has id = false ↔ id ∉ w.ids := by
  rw [Bool.eq_false_iff, Ne, hw.has_iff]

theorem size_eq (hw : w.Indexed) : w.places.size = w.actors.length := by
  have hperm : w.places.keys.Perm w.ids := by
    rw [List.perm_ext_iff_of_nodup Std.ExtTreeMap.nodup_keys hw.nodup]
    intro id
    rw [Std.ExtTreeMap.mem_keys, ← hw.has_iff, has, Std.ExtTreeMap.contains_iff_mem]
  rw [← Std.ExtTreeMap.length_keys, hperm.length_eq, ids, List.length_map]

theorem places_of_actor (hw : w.Indexed) (hactor : w.actors[place]? = some actor) :
    w.places[actor.id]? = some place :=
  (hw actor.id place).2 (getElem?_ids.2 ⟨actor, hactor, rfl⟩)

theorem place_unique (hw : w.Indexed) {place' : Nat} {other : Actor}
    (hactor : w.actors[place]? = some actor) (hother : w.actors[place']? = some other)
    (hid : other.id = actor.id) : place' = place := by
  have hplace := hw.places_of_actor hother
  rw [hid, hw.places_of_actor hactor] at hplace
  exact (Option.some.inj hplace).symm

theorem find?_of_actor (hw : w.Indexed) (hactor : w.actors[place]? = some actor) :
    w.actors.find? (·.id = actor.id) = some actor := by
  obtain ⟨hplace, hget⟩ := List.getElem?_eq_some_iff.1 hactor
  rw [List.find?_eq_some_iff_getElem]
  refine ⟨decide_eq_true rfl, place, hplace, hget, ?_⟩
  intro earlier hearlier
  have hlt := Nat.lt_trans hearlier hplace
  have hne : w.actors[earlier].id ≠ actor.id := by
    intro hid
    exact Nat.ne_of_lt hearlier (hw.place_unique hactor (List.getElem?_eq_getElem hlt) hid)
  simpa using hne

theorem ne_of_no_place (hw : w.Indexed) (hn : w.places[id]? = none) :
    ∀ actor ∈ w.actors, actor.id ≠ id := by
  rintro actor hactor rfl
  obtain ⟨place, hplace⟩ := List.mem_iff_getElem?.1 hactor
  rw [hw.places_of_actor hplace] at hn
  contradiction

theorem find?_of_no_place (hw : w.Indexed) (hn : w.places[id]? = none) :
    w.actors.find? (·.id = id) = none := by
  rw [List.find?_eq_none]
  intro actor hactor
  simpa using hw.ne_of_no_place hn actor hactor

/-- An actor is found by its id as if all actors were looked through. -/
theorem actor?_eq_find? (hw : w.Indexed) (id : String) :
    w.actor? id = w.actors.find? (·.id = id) := by
  rw [actor?]
  cases hplace : w.places[id]? with
  | none => exact (hw.find?_of_no_place hplace).symm
  | some place =>
    obtain ⟨actor, hactor, rfl⟩ := getElem?_ids.1 ((hw id place).1 hplace)
    rw [hw.find?_of_actor hactor]
    exact hactor

theorem isSome_actor? (hw : w.Indexed) (id : String) :
    (w.actor? id).isSome = w.places[id]?.isSome := by
  rw [actor?]
  cases hplace : w.places[id]? with
  | none => rfl
  | some place =>
    obtain ⟨actor, hactor, _⟩ := getElem?_ids.1 ((hw id place).1 hplace)
    exact congrArg Option.isSome hactor

theorem place_of_no_actor (hw : w.Indexed) (hn : w.actor? id = none) : w.places[id]? = none := by
  rw [← Option.isNone_iff_eq_none, ← Option.not_isSome, ← hw.isSome_actor?, hn]
  rfl

theorem actor?_eq_some_iff (hw : w.Indexed) :
    w.actor? id = some actor ↔ actor ∈ w.actors ∧ actor.id = id := by
  rw [hw.actor?_eq_find?]
  constructor
  · intro h
    exact ⟨List.mem_of_find?_eq_some h, by simpa using List.find?_some h⟩
  · rintro ⟨hactor, rfl⟩
    obtain ⟨place, hplace⟩ := List.mem_iff_getElem?.1 hactor
    exact hw.find?_of_actor hplace

theorem places_append (w : World) (actor : Actor) (id : String) :
    (w.append actor).places[id]? = if actor.id = id then some w.ids.length else w.places[id]? := by
  simp only [World.append, Std.ExtTreeMap.getElem?_insert, Std.LawfulEqOrd.compare_eq_iff_eq, ids,
    List.length_map]

theorem ids_append (w : World) (actor : Actor) : (w.append actor).ids = w.ids ++ [actor.id] :=
  List.map_append

theorem append (hw : w.Indexed) (hnew : w.has actor.id = false) : (w.append actor).Indexed := by
  intro id place
  rw [hw.has_eq_false_iff] at hnew
  rw [ids_append, places_append]
  by_cases hid : actor.id = id
  · subst hid
    rw [if_pos rfl, Option.some.injEq]
    constructor
    · rintro rfl
      exact List.getElem?_concat_length
    · intro hplace
      by_contra hne
      have hlt : place < w.ids.length := by
        have hlt := (List.getElem?_eq_some_iff.1 hplace).1
        rw [List.length_append, List.length_singleton] at hlt
        omega
      rw [List.getElem?_append_left hlt] at hplace
      exact hnew (List.mem_of_getElem? hplace)
  · rw [if_neg hid, hw id place, List.getElem?_append]
    split
    · rfl
    · next hle =>
      rw [List.getElem?_eq_none (Nat.le_of_not_lt hle), List.getElem?_singleton]
      simp [hid]

theorem getElem?_movedUp {actors : List Actor} (hn : (actors.map (·.id)).Nodup)
    (places : Std.ExtTreeMap String Nat) (other : String) :
    (movedUp places actors)[other]? =
      if other ∈ actors.map (·.id) then places[other]?.map (· - 1) else places[other]? := by
  induction actors generalizing places with
  | nil => rfl
  | cons actor actors ih =>
    obtain ⟨hfresh, hn⟩ := List.nodup_cons.1 hn
    rw [movedUp, List.foldl_cons, ← movedUp, ih hn, Std.ExtTreeMap.getElem?_modify]
    simp only [Std.LawfulEqOrd.compare_eq_iff_eq, List.map_cons, List.mem_cons]
    by_cases hother : actor.id = other
    · subst hother
      rw [if_neg hfresh, if_pos rfl, if_pos (.inl rfl)]
    · rw [if_neg hother]
      simp only [Ne.symm hother, false_or]

theorem mem_drop_eraseIdx_iff (hw : w.Indexed) {other : String} {i : Nat}
    (hother : w.places[other]? = some i) :
    other ∈ ((w.actors.eraseIdx place).drop place).map (·.id) ↔ place < i := by
  rw [List.map_drop, ← List.eraseIdx_map, ← ids, List.mem_iff_getElem?]
  have hbehind : ∀ k, ((w.ids.eraseIdx place).drop place)[k]? = some other ↔
      i = place + k + 1 := by
    intro k
    rw [List.getElem?_drop, List.getElem?_eraseIdx_of_ge (Nat.le_add_right place k), ← hw,
      hother, Option.some.injEq]
  simp only [hbehind]
  constructor
  · rintro ⟨k, rfl⟩
    omega
  · intro hlt
    exact ⟨i - place - 1, by omega⟩

theorem places_removeObject (hw : w.Indexed) (hplace : w.places[id]? = some place)
    (other : String) : (w.removeObject id).1.places[other]? = if id = other then none else
      w.places[other]?.map fun i => if place < i then i - 1 else i := by
  have hn : (((w.actors.eraseIdx place).drop place).map (·.id)).Nodup :=
    hw.nodup.sublist (((List.drop_sublist _ _).trans (List.eraseIdx_sublist _ _)).map _)
  simp only [World.removeObject, hplace, getElem?_movedUp hn, Std.ExtTreeMap.getElem?_erase,
    Std.LawfulEqOrd.compare_eq_iff_eq]
  by_cases hid : id = other
  · simp only [if_pos hid, Option.map_none, ite_self]
  · simp only [if_neg hid]
    cases hother : w.places[other]? with
    | none => simp only [Option.map_none, ite_self]
    | some i => simp only [hw.mem_drop_eraseIdx_iff hother, Option.map_some, apply_ite some]

theorem ids_removeObject (hplace : w.places[id]? = some place) :
    (w.removeObject id).1.ids = w.ids.eraseIdx place := by
  rw [World.removeObject, hplace, ids, ids, List.eraseIdx_map]

theorem removeObject_of_missing (hn : w.places[id]? = none) : w.removeObject id = (w, false) := by
  rw [World.removeObject, hn]

theorem removeObject (hw : w.Indexed) (id : String) : (w.removeObject id).1.Indexed := by
  cases hplace : w.places[id]? with
  | none =>
    rw [removeObject_of_missing hplace]
    exact hw
  | some place =>
    intro other i
    rw [hw.places_removeObject hplace, ids_removeObject hplace, List.getElem?_eraseIdx]
    have hid := (hw id place).1 hplace
    by_cases hne : id = other
    · subst hne
      have hunique : ∀ j, w.ids[j]? = some id → j = place := fun j hj =>
        Option.some.inj (((hw id j).2 hj).symm.trans hplace)
      rw [if_pos rfl]
      constructor
      · nofun
      · intro h
        split at h
        · have hi := hunique _ h
          omega
        · have hi := hunique _ h
          omega
    · rw [if_neg hne, Option.map_eq_some_iff]
      constructor
      · rintro ⟨j, hj, rfl⟩
        have hids := (hw other j).1 hj
        have hjp : j ≠ place := by
          rintro rfl
          exact hne (Option.some.inj (hid.symm.trans hids))
        -- What stands behind the place has moved up by one, in the list as in the index.
        by_cases hlt : place < j
        · rw [if_pos hlt, if_neg (by omega), Nat.sub_add_cancel (by omega)]
          exact hids
        · rw [if_neg hlt, if_pos (by omega)]
          exact hids
      · intro h
        split at h
        · next hlt => exact ⟨i, (hw other i).2 h, if_neg (by omega)⟩
        · next hle => exact ⟨i + 1, (hw other (i + 1)).2 h, if_pos (by omega)⟩

end Indexed

theorem eraseIdx_eq_filter {actors : List Actor} (hn : (actors.map (·.id)).Nodup)
    (hactor : actors[place]? = some actor) :
    actors.eraseIdx place = actors.filter (·.id ≠ actor.id) := by
  induction actors generalizing place with
  | nil => contradiction
  | cons first rest ih =>
    obtain ⟨hfirst, hrest⟩ := List.nodup_cons.1 hn
    cases place with
    | zero =>
      obtain rfl := Option.some.inj hactor
      have hothers : ∀ other ∈ rest, decide (other.id ≠ first.id) = true := by
        intro other hother
        have hne : other.id ≠ first.id := fun he => hfirst (List.mem_map.2 ⟨other, hother, he⟩)
        exact decide_eq_true hne
      rw [List.eraseIdx_cons_zero, List.filter_cons_of_neg (by simp), List.filter_eq_self.2 hothers]
    | succ place =>
      rw [List.getElem?_cons_succ] at hactor
      have hmem := List.mem_of_getElem? hactor
      have hne : first.id ≠ actor.id := fun he => hfirst (List.mem_map.2 ⟨actor, hmem, he.symm⟩)
      rw [List.eraseIdx_cons_succ, ih hrest hactor, List.filter_cons_of_pos (by simpa using hne)]

namespace Indexed

/-- An actor is removed by its id, and the others stay in their order. -/
theorem actors_removeObject (hw : w.Indexed) (id : String) :
    (w.removeObject id).1.actors = w.actors.filter (·.id ≠ id) := by
  cases hplace : w.places[id]? with
  | none =>
    have hothers : ∀ other ∈ w.actors, decide (other.id ≠ id) = true := fun other hother =>
      decide_eq_true (hw.ne_of_no_place hplace other hother)
    rw [removeObject_of_missing hplace, List.filter_eq_self.2 hothers]
  | some place =>
    obtain ⟨actor, hactor, rfl⟩ := getElem?_ids.1 ((hw id place).1 hplace)
    rw [World.removeObject, hplace]
    exact eraseIdx_eq_filter hw.nodup hactor

theorem set_eq_map (hw : w.Indexed) (hactor : w.actors[place]? = some actor) (f : Actor → Actor) :
    w.actors.set place (f actor) = w.actors.map fun a => if a.id = actor.id then f a else a := by
  apply List.ext_getElem?
  intro i
  rw [List.getElem?_set, List.getElem?_map]
  by_cases hi : place = i
  · subst hi
    rw [if_pos rfl, if_pos (List.getElem?_eq_some_iff.1 hactor).1, hactor, Option.map_some,
      if_pos rfl]
  · rw [if_neg hi]
    cases hother : w.actors[i]? with
    | none => rfl
    | some other =>
      have hne : other.id ≠ actor.id := fun he => hi (hw.place_unique hactor hother he).symm
      rw [Option.map_some, if_neg hne]

theorem map_of_no_place (hw : w.Indexed) (hn : w.places[id]? = none) (f : Actor → Actor) :
    (w.actors.map fun a => if a.id = id then f a else a) = w.actors := by
  have hothers : ∀ a ∈ w.actors, (if a.id = id then f a else a) = a :=
    fun a ha => if_neg (hw.ne_of_no_place hn a ha)
  rw [List.map_congr_left hothers, List.map_id']

/-- An edit reaches the actor that has the id and no other one, or finds none. -/
theorem editActor_eq {α : Type} (hw : w.Indexed) (id : String)
    (edit : Actor → Logged (Actor × Option α)) :
    (w.editActor id edit).value =
      ({ w with actors := w.actors.map fun a => if a.id = id then (edit a).value.1 else a },
        (w.actor? id).bind fun a => (edit a).value.2) := by
  rw [hw.actor?_eq_find?, editActor]
  cases hplace : w.places[id]? with
  | none =>
    rw [hw.find?_of_no_place hplace, hw.map_of_no_place hplace fun a => (edit a).value.1]
    rfl
  | some place =>
    obtain ⟨actor, hactor, rfl⟩ := getElem?_ids.1 ((hw id place).1 hplace)
    rw [hw.find?_of_actor hactor, ← hw.set_eq_map hactor fun a => (edit a).value.1]
    simp only [hactor]
    rfl

end Indexed

/-- The actors of which none before it has the id. -/
def firstOfEach : List Actor → List Actor
  | [] => []
  | actor :: actors => actor :: (firstOfEach actors).filter (·.id ≠ actor.id)

theorem appendNew_eq (w : World) (actor : Actor) :
    (w.appendNew actor).value = if w.has actor.id then w else w.append actor := by
  rw [World.appendNew]
  split <;> rfl

theorem Indexed.appendNew (hw : w.Indexed) (actor : Actor) : (w.appendNew actor).value.Indexed := by
  rw [appendNew_eq]
  split
  · exact hw
  · next hnew => exact hw.append (Bool.eq_false_iff.2 hnew)

theorem Indexed.actors_foldl_appendNew (hw : w.Indexed) (actors : List Actor) :
    (actors.foldl (fun w actor => (w.appendNew actor).value) w).actors =
      w.actors ++ (firstOfEach actors).filter (·.id ∉ w.ids) := by
  induction actors generalizing w with
  | nil => exact (List.append_nil _).symm
  | cons actor actors ih =>
    rw [List.foldl_cons, ih (hw.appendNew actor), appendNew_eq, firstOfEach]
    by_cases hnew : w.has actor.id = true
    · have hmem := hw.has_iff.1 hnew
      have hfilter : ∀ other ∈ firstOfEach actors, decide (other.id ∉ w.ids) =
          (decide (other.id ∉ w.ids) && decide (other.id ≠ actor.id)) := by
        intro other _
        by_cases hid : other.id = actor.id
        · simp [hid, hmem]
        · simp [hid]
      rw [if_pos hnew, List.filter_cons_of_neg (by simpa using hmem), List.filter_filter,
        List.filter_congr hfilter]
    · have hmem := mt hw.has_iff.2 hnew
      have hfilter : ∀ other ∈ firstOfEach actors, decide (other.id ∉ w.ids ++ [actor.id]) =
          (decide (other.id ∉ w.ids) && decide (other.id ≠ actor.id)) := by
        intro other _
        simp
      rw [if_neg hnew, List.filter_cons_of_pos (by simpa using hmem), List.filter_filter,
        ids_append, List.filter_congr hfilter]
      exact List.append_assoc w.actors [actor] _

theorem actors_ofActors (actors : List Actor) (environment : Color) :
    (ofActors actors environment).value.actors = firstOfEach actors := by
  rw [ofActors, Logged.value_foldlM, (Indexed.empty environment).actors_foldl_appendNew]
  exact List.filter_eq_self.2 fun _ _ => rfl

theorem indexed_ofActors (actors : List Actor) (environment : Color) :
    (ofActors actors environment).value.Indexed := by
  rw [ofActors, Logged.value_foldlM]
  suffices h : ∀ w : World, w.Indexed →
      (actors.foldl (fun w actor => (w.appendNew actor).value) w).Indexed from
    h _ (Indexed.empty environment)
  induction actors with
  | nil => exact fun w hw => hw
  | cons actor actors ih => exact fun w hw => ih _ (hw.appendNew actor)

theorem generatedId_injective (kind : String) : Function.Injective (generatedId kind) := by
  intro number other h
  exact Nat.repr_inj.1 ((String.append_right_inj _).1 h)

theorem has_of_freeNumber {rounds : Nat}
    (h : w.has (generatedId "object" (w.freeNumber rounds number)) = true) :
    ∀ k ≤ rounds, w.has (generatedId "object" (number + k)) = true := by
  induction rounds generalizing number with
  | zero =>
    intro k hk
    obtain rfl := Nat.le_zero.1 hk
    exact h
  | succ rounds ih =>
    rw [freeNumber] at h
    split at h
    · next hnumber =>
      intro k hk
      cases k with
      | zero => exact hnumber
      | succ k =>
        have hlater := ih h k (Nat.le_of_succ_le_succ hk)
        rwa [Nat.add_assoc, Nat.add_comm 1 k] at hlater
    · next hnumber => exact absurd h hnumber

/-- There are more ids to try than actors, so that one of them is free. -/
theorem Indexed.has_freeNumber (hw : w.Indexed) (number : Nat) :
    w.has (generatedId "object" (w.freeNumber w.actors.length number)) = false := by
  rw [Bool.eq_false_iff]
  intro h
  let tried := (List.range (w.actors.length + 1)).map fun k => generatedId "object" (number + k)
  have hnodup : tried.Nodup :=
    List.nodup_range.map fun i j hij => Nat.add_left_cancel (generatedId_injective _ hij)
  have htaken : tried ⊆ w.ids := by
    intro id hid
    obtain ⟨k, hk, rfl⟩ := List.mem_map.1 hid
    exact hw.has_iff.1 (has_of_freeNumber h k (Nat.lt_succ_iff.1 (List.mem_range.1 hk)))
  have hlength := (List.subperm_of_subset hnodup htaken).length_le
  simp only [tried, List.length_map, List.length_range, ids] at hlength
  omega

end BlockScript.World
