import BlockScript.Proofs.Script.Edits

namespace BlockScript.Script

open Relation

variable {s : Script} {loose pending : List Handle} {h r x : Handle} {key : String}
  {block : Block} {i j : Nat}

/-- The blocks from which the parents lead up to a loose one. -/
inductive Falls (s : Script) (loose : List Handle) : Handle → Prop where
  | loose {h : Handle} : h ∈ loose → Falls s loose h
  | under {h p : Handle} : s.HasParent h p → Falls s loose p → Falls s loose h

theorem falls_singleton : s.Falls [r] h ↔ ReflTransGen s.HasParent h r := by
  constructor
  · intro hf
    induction hf with
    | loose hl =>
      obtain rfl := List.mem_singleton.1 hl
      exact .refl
    | under hp _ ih => exact .head hp ih
  · intro hr
    induction hr using ReflTransGen.head_induction_on with
    | refl => exact .loose (List.mem_singleton_self r)
    | head hp _ ih => exact .under hp ih

theorem exists_block_of_reflTransGen (hup : ReflTransGen s.HasParent x r)
    (hr : s.block? r = some block) : ∃ other, s.block? x = some other := by
  rcases hup.cases_head with rfl | ⟨p, hp, _⟩
  · exact ⟨block, hr⟩
  · exact (exists_block_of_parentOf? hp).imp fun _ => And.left

theorem not_falls_nil : ¬ s.Falls [] h := by
  intro hf
  induction hf with
  | loose hl => exact List.not_mem_nil hl
  | under _ _ ih => exact ih

theorem hasParent_of_vacate {p : Handle} (hp : (s.vacate i key).HasParent x p) :
    s.HasParent x p := by
  rw [HasParent, parentOf?, map_block?_vacate] at hp
  split at hp
  · contradiction
  · exact hp

section Vacate

variable (hs : s.Sound (h :: pending)) (hb : s.block? h = some block)

include hs hb

/-- When a loose block leaves its slot, what has to fall apart from it still has to fall. -/
theorem Sound.falls_vacate (hf : s.Falls (h :: pending) x) (hne : x ≠ h) :
    (s.vacate h.index block.key).Falls (block.children.reverse ++ pending) x := by
  induction hf with
  | loose hl =>
    exact .loose (List.mem_append_right _ (List.mem_of_ne_of_mem hne hl))
  | @under y p hp _ ih =>
    by_cases hy : y ∈ h :: pending
    · exact .loose (List.mem_append_right _ (List.mem_of_ne_of_mem hne hy))
    by_cases hph : p = h
    · subst hph
      have hmem := (hs.mem_children hb y).2 ⟨hy, hp⟩
      exact .loose (List.mem_append_left _ (List.mem_reverse.2 hmem))
    · exact .under (parentOf?_vacate_of_ne hb hp hne) (ih hph)

theorem Sound.falls_of_vacate
    (hf : (s.vacate h.index block.key).Falls (block.children.reverse ++ pending) x) :
    s.Falls (h :: pending) x := by
  induction hf with
  | loose hl =>
    rcases List.mem_append.1 hl with hl | hl
    · have hp := ((hs.mem_children hb _).1 (List.mem_reverse.1 hl)).2
      exact .under hp (.loose (List.mem_cons_self ..))
    · exact .loose (List.mem_cons_of_mem h hl)
  | under hp _ ih => exact .under (hasParent_of_vacate hp) ih

end Vacate

theorem release_nil : s.release [] = s := by rw [Script.release]

theorem release_of_blockAt? (hb : s.blockAt? h.index = some block) :
    s.release (h :: pending) =
      (s.vacate h.index block.key).release (block.children.reverse ++ pending) := by
  rw [Script.release]
  split
  · next other ho =>
    rw [hb] at ho
    obtain rfl := Option.some.inj ho
    rfl
  · next hn =>
    rw [hb] at hn
    contradiction

theorem Sound.block?_of_blockAt? (hs : s.Sound (h :: pending))
    (hb : s.blockAt? h.index = some block) : s.block? h = some block := by
  obtain ⟨other, ho⟩ := hs.loose_stored h (List.mem_cons_self ..)
  rwa [← blockAt?_of_block? ho, hb] at ho

theorem blockAt?_vacate :
    (s.vacate i key).blockAt? j = if j = i then none else s.blockAt? j := by
  simp only [blockAt?, vacate, Array.getElem?_modify]
  by_cases hi : j = i
  · subst hi
    cases s.slots[j]? <;> simp
  · rw [if_neg (Ne.symm hi), if_neg hi]

theorem blockAt?_release_of_none (hn : s.blockAt? i = none) :
    (s.release loose).blockAt? i = none := by
  fun_induction Script.release s loose with
  | case1 => exact hn
  | case2 s h pending block hb ih =>
    apply ih
    rw [blockAt?_vacate]
    split
    · rfl
    · exact hn
  | case3 s h pending hb ih => exact ih hn

theorem Sound.blockAt?_release_of_falls (hs : s.Sound loose) (hf : s.Falls loose x) :
    (s.release loose).blockAt? x.index = none := by
  fun_induction Script.release s loose with
  | case1 => exact absurd hf not_falls_nil
  | case2 s h pending block hb ih =>
    have hb := hs.block?_of_blockAt? hb
    by_cases hx : x = h
    · subst hx
      apply blockAt?_release_of_none
      rw [blockAt?_vacate, if_pos rfl]
    · exact ih (hs.vacate hb) (hs.falls_vacate hb hf hx)
  | case3 s h pending hb ih =>
    obtain ⟨other, ho⟩ := hs.loose_stored h (List.mem_cons_self ..)
    rw [blockAt?_of_block? ho] at hb
    contradiction

theorem Sound.block?_release (hs : s.Sound loose) (hf : ¬ s.Falls loose x) :
    (s.release loose).block? x = s.block? x := by
  fun_induction Script.release s loose with
  | case1 => rfl
  | case2 s h pending block hb ih =>
    have hb := hs.block?_of_blockAt? hb
    rw [ih (hs.vacate hb) (mt (hs.falls_of_vacate hb) hf), block?_vacate]
    split
    · next hi =>
      cases hx : s.block? x with
      | none => rfl
      | some other =>
        obtain rfl := handle_eq hb hx hi
        exact absurd (.loose (List.mem_cons_self ..)) hf
    · rfl
  | case3 s h pending hb ih =>
    obtain ⟨other, ho⟩ := hs.loose_stored h (List.mem_cons_self ..)
    rw [blockAt?_of_block? ho] at hb
    contradiction

theorem Sound.keyOf?_release (hs : s.Sound loose) (hf : ¬ s.Falls loose x) :
    (s.release loose).keyOf? x = s.keyOf? x := by
  rw [keyOf?, hs.block?_release hf, keyOf?]

/-- What stands in a list is not loose, and so falls only with its parent. -/
theorem Sound.not_falls_of_mem (hs : s.Sound loose) {parent : Option Handle} {list : List Handle}
    (hl : s.siblings? parent = some list) (hparent : ∀ p, parent = some p → ¬ s.Falls loose p)
    (hx : x ∈ list) : ¬ s.Falls loose x := by
  obtain ⟨hloose, hp⟩ := (hs.mem_iff hl x).1 hx
  intro hf
  cases hf with
  | loose hl => exact hloose hl
  | under hq hf =>
    obtain rfl := Option.some.inj (hp.symm.trans hq)
    exact hparent _ rfl hf

theorem roots_release (s : Script) (loose : List Handle) : (s.release loose).roots = s.roots := by
  fun_induction Script.release s loose with
  | case1 => rfl
  | case2 s h pending block hb ih => exact ih
  | case3 s h pending hb ih => exact ih

theorem falls_modifySiblings {parent : Option Handle} {g : List Handle → List Handle} :
    (s.modifySiblings parent g).Falls [r] x ↔ ReflTransGen s.HasParent x r := by
  have hsame : (s.modifySiblings parent g).HasParent = s.HasParent := by
    funext x p
    rw [HasParent, HasParent, parentOf?_modifySiblings]
  rw [falls_singleton, hsame]

end BlockScript.Script
