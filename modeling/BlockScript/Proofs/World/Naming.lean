import BlockScript.Proofs.World.Generated

namespace BlockScript.World

variable {w : World} {operation : Operation} {shape : Shape} {number found tries rounds : Nat}
  {id : String}

/-- The search for an id from a number on: how many ids are generated in it, and the number in the
last of them. -/
inductive Seeks (w : World) : Nat → Nat → Nat → Prop
  | free {number : Nat} (hfree : w.has (generatedId "object" number) = false) :
      Seeks w number 1 number
  | taken {number tries found : Nat} (htaken : w.has (generatedId "object" number) = true)
      (hrest : Seeks w (number + 1) tries found) : Seeks w number (tries + 1) found

theorem Seeks.found_succ (h : w.Seeks number tries found) : found + 1 = number + tries := by
  induction h with
  | free => rfl
  | taken _ _ ih => omega

/-- The rounds that are allowed for do not cut the search short if it has come to a free id. -/
theorem seeks_freeNumber
    (hfree : w.has (generatedId "object" (w.freeNumber rounds number)) = false) :
    ∃ tries ≤ rounds + 1, w.Seeks number tries (w.freeNumber rounds number) := by
  induction rounds generalizing number with
  | zero => exact ⟨1, Nat.le_refl _, .free hfree⟩
  | succ rounds ih =>
    rw [freeNumber] at hfree ⊢
    split
    · next htaken =>
      rw [if_pos htaken] at hfree
      obtain ⟨tries, hle, hseeks⟩ := ih hfree
      exact ⟨tries + 1, Nat.succ_le_succ hle, .taken htaken hseeks⟩
    · next hnumber => exact ⟨1, Nat.le_add_left 1 _, .free (Bool.eq_false_iff.2 hnumber)⟩

theorem Indexed.seeks (hw : w.Indexed) :
    ∃ tries ≤ w.actors.length + 1, w.Seeks (w.counter + 1) tries (w.counter + tries) ∧
      w.freeNumber w.actors.length (w.counter + 1) = w.counter + tries := by
  obtain ⟨tries, hle, hseeks⟩ := seeks_freeNumber (hw.has_freeNumber (w.counter + 1))
  have hfound : w.freeNumber w.actors.length (w.counter + 1) = w.counter + tries := by
    have hsucc := hseeks.found_succ
    omega
  rw [hfound] at hseeks
  exact ⟨tries, hle, hseeks, hfound⟩

/-- The id that an operation gives to a new object. -/
def givenId? (w : World) : Operation → Option String
  | .addObject shape => some (w.addObject shape).value.2
  | _ => none

def givenIds (w : World) : List Operation → List String
  | [] => []
  | operation :: operations =>
    (w.givenId? operation).toList ++ (w.perform operation).givenIds operations

theorem eq_addObject_of_givenId? (h : w.givenId? operation = some id) :
    ∃ shape, operation = .addObject shape := by
  cases operation with
  | addObject shape => exact ⟨shape, rfl⟩
  | _ => contradiction

theorem eq_of_givenId? (h : w.givenId? operation = some id) :
    id = generatedId "object" (w.perform operation).counter ∧
      w.counter < (w.perform operation).counter := by
  obtain ⟨shape, rfl⟩ := eq_addObject_of_givenId? h
  obtain rfl := Option.some.inj h
  rw [perform, addObject_eq]
  exact ⟨rfl, le_freeNumber w _ _⟩

/-- All ids that are given from some moment on have numbers above the counter of that moment. -/
theorem counter_lt_of_mem_givenIds {operations : List Operation} (h : id ∈ w.givenIds operations) :
    ∃ number, w.counter < number ∧ id = generatedId "object" number := by
  induction operations generalizing w with
  | nil => exact absurd h List.not_mem_nil
  | cons operation operations ih =>
    rcases List.mem_append.1 h with hfirst | hrest
    · obtain ⟨hid, hlt⟩ := eq_of_givenId? (Option.mem_toList.1 hfirst)
      exact ⟨_, hlt, hid⟩
    · obtain ⟨number, hlt, hid⟩ := ih hrest
      exact ⟨number, (counter_le_perform w operation).trans_lt hlt, hid⟩

theorem nodup_givenIds (w : World) (operations : List Operation) :
    (w.givenIds operations).Nodup := by
  induction operations generalizing w with
  | nil => exact .nil
  | cons operation operations ih =>
    refine List.nodup_append.2 ⟨?_, ih _, ?_⟩
    · cases w.givenId? operation <;> simp
    · rintro first hfirst later hlater rfl
      obtain ⟨hid, _⟩ := eq_of_givenId? (Option.mem_toList.1 hfirst)
      obtain ⟨number, hlt, hid'⟩ := counter_lt_of_mem_givenIds hlater
      exact Nat.ne_of_lt hlt (generatedId_injective _ (hid.symm.trans hid'))

/-- The search for the id of a new object ends, whatever ids the objects have: it generates at most
one more than there are objects, each of them counted, and the last one is the first that is free.
Under that id the new object stands behind all others and is found. Whatever operations there are
in between, no id is given twice. -/
theorem given_ids_exact (hw : w.Assembled) :
    (∀ shape, ∃ told id new tries, (w.addObject shape).value = (told, id) ∧
      tries ≤ w.actors.length + 1 ∧ w.Seeks (w.counter + 1) tries (w.counter + tries) ∧
      told.counter = w.counter + tries ∧ id = generatedId "object" (w.counter + tries) ∧
      (∀ actor ∈ w.actors, actor.id ≠ id) ∧ told.actors = w.actors ++ [new] ∧
      new.id = id ∧ new.shape = shape ∧ told.actor? id = some new) ∧
    ∀ operations, (w.givenIds operations).Nodup := by
  refine ⟨fun shape => ?_, nodup_givenIds w⟩
  have hindexed := hw.indexed
  obtain ⟨tries, hle, hseeks, hfound⟩ := hindexed.seeks
  let new := (w.restart (newActor shape w.user (w.counter + tries))).value
  let told := ({ w with counter := w.counter + tries } : World).append new
  let id := generatedId "object" (w.counter + tries)
  have hadd : (w.addObject shape).value = (told, id) := by
    rw [addObject_eq, hfound]
    rfl
  have hid : new.id = id := by
    simp only [new, restart_eq, Actor.id_startIf]
    rfl
  have hshape : new.shape = shape := by
    simp only [new, restart_eq, Actor.startIf]
    split <;> rfl
  have hfresh : ∀ actor ∈ w.actors, actor.id ≠ id := by
    have hfree := hindexed.has_freeNumber (w.counter + 1)
    rw [hfound, hindexed.has_eq_false_iff] at hfree
    exact fun actor hactor heq => hfree (List.mem_map.2 ⟨actor, hactor, heq⟩)
  have hfoundAs : told.actor? id = some new := by
    have htold : told.Indexed := by
      have hperform := hindexed.perform (.addObject shape)
      rwa [perform, hadd] at hperform
    exact htold.actor?_eq_some_iff.2 ⟨List.mem_concat_self, hid⟩
  exact ⟨told, id, new, tries, hadd, hle, hseeks, rfl, rfl, hfresh, rfl, hid, hshape, hfoundAs⟩

def crowded : World :=
  (ofActors [{ ground with id := "object-2" }, ground, { ground with id := "object-1" }]
    .white).value

theorem given_ids_exact_crowded :
    crowded.Assembled ∧ crowded.Seeks 1 3 3 ∧
      (∃ told new, (crowded.addObject .cube).value = (told, "object-3") ∧
        told.actor? "object-3" = some new) ∧
      crowded.givenIds [.addObject .cube, .removeObject "object-3", .addScript "floor",
        .addObject .spawn] = ["object-3", "object-6"] ∧
      ["object-3", "object-6"].Nodup := by
  have hcrowded : crowded.Assembled := .ofActors _ _
  obtain ⟨hadd, hnodup⟩ := given_ids_exact hcrowded
  obtain ⟨told, id, new, tries, hvalue, _, hseeks, hcounter, rfl, _, _, _, _, hfound⟩ := hadd .cube
  have hstart : crowded.counter = 0 := by decide +kernel
  have hthree : (crowded.addObject .cube).value.1.counter = 3 := by decide +kernel
  rw [hvalue, hcounter, hstart, Nat.zero_add] at hthree
  subst hthree
  rw [hstart] at hseeks hvalue hfound
  have hgiven : crowded.givenIds [.addObject .cube, .removeObject "object-3", .addScript "floor",
      .addObject .spawn] = ["object-3", "object-6"] := by
    decide +kernel
  exact ⟨hcrowded, hseeks, ⟨told, new, hvalue, hfound⟩, hgiven, hgiven ▸ hnodup _⟩

end BlockScript.World
