import BlockScript.Proofs.Script.Ancestors
import BlockScript.Proofs.Script.Steps

namespace BlockScript.Script

open Relation

variable {s : Script} {loose : List Handle} {h source target : Handle} {key : String}
  {block : Block} {parent oldParent newParent : Option Handle}

theorem adds_append (h : Handle) : Adds h (· ++ [h]) := by
  intro list hn hh
  refine ⟨List.nodup_append.2 ⟨hn, by simp, ?_⟩, ?_⟩
  · rintro x hx y hy rfl
    simp only [List.mem_singleton] at hy
    exact hh (hy ▸ hx)
  · intro x
    rw [List.mem_append, List.mem_singleton, or_comm]

theorem adds_insertBefore (source target : Handle) : Adds source (insertBefore source target) := by
  intro list hn hh
  have hsplit := List.takeWhile_append_dropWhile (p := (· ≠ target)) (l := list)
  have hp : (insertBefore source target list).Perm (source :: list) := by
    conv_rhs => rw [← hsplit]
    exact List.perm_middle
  exact ⟨hp.nodup_iff.2 (.cons hh hn), fun x => by rw [hp.mem_iff, List.mem_cons]⟩

theorem Sound.hasPlace_occupy (hs : s.Sound loose) (hp : s.hasPlace parent = true) :
    (s.occupy block).1.hasPlace parent = true := by
  obtain ⟨list, hl⟩ := hasPlace_iff.1 hp
  rw [hasPlace_iff, hs.siblings?_occupy]
  split
  · exact ⟨_, rfl⟩
  · exact ⟨list, hl⟩

theorem Sound.insert_eq (hs : s.Sound loose) (hk : s.find? key = none)
    (hp : s.hasPlace parent = true) (instruction : Instruction) :
    s.insert key instruction parent =
      let new := s.occupy ⟨key, instruction, parent, []⟩
      (new.1.modifySiblings parent (· ++ [new.2]), some new.2) := by
  have hc : s.keys.contains key = false := by
    rw [Std.ExtTreeMap.contains_eq_isSome_getElem?]
    exact Option.isSome_eq_false_iff.2 (Option.isNone_iff_eq_none.2 hk)
  simp only [insert, hc, hp, hs.hasPlace_occupy hp, Bool.not_true, Bool.or_self, Bool.false_eq_true,
    ↓reduceIte]

theorem insert_eq_refused (instruction : Instruction)
    (h : s.find? key ≠ none ∨ s.hasPlace parent = false) :
    s.insert key instruction parent = (s, none) := by
  have hc : (s.keys.contains key || !s.hasPlace parent) = true := by
    rw [Std.ExtTreeMap.contains_eq_isSome_getElem?, Bool.or_eq_true, Option.isSome_iff_ne_none,
      Bool.not_eq_true']
    exact h
  rw [insert, if_pos hc]

theorem Sound.insert_cases (hs : s.Sound loose) (key : String) (instruction : Instruction)
    (parent : Option Handle) :
    s.insert key instruction parent = (s, none) ∨
    s.find? key = none ∧ s.hasPlace parent = true ∧
      s.insert key instruction parent =
        let new := s.occupy ⟨key, instruction, parent, []⟩
        (new.1.modifySiblings parent (· ++ [new.2]), some new.2) := by
  by_cases hr : s.find? key ≠ none ∨ s.hasPlace parent = false
  · exact .inl (insert_eq_refused instruction hr)
  · simp only [not_or, not_not, Bool.not_eq_false] at hr
    exact .inr ⟨hr.1, hr.2, hs.insert_eq hr.1 hr.2 instruction⟩

theorem Sound.insert (hs : s.WellFormed) (key : String) (instruction : Instruction)
    (parent : Option Handle) : (s.insert key instruction parent).1.WellFormed := by
  rcases hs.insert_cases key instruction parent with hsame | ⟨hk, hp, hinserted⟩
  · rw [hsame]
    exact hs
  rw [hinserted]
  have ho : (s.occupy ⟨key, instruction, parent, []⟩).1.Sound
      ((s.occupy ⟨key, instruction, parent, []⟩).2 :: []) := hs.occupy hk rfl
  apply ho.attach (adds_append _) (by rw [hs.parentOf?_occupy, if_pos rfl])
  rintro p rfl
  obtain ⟨other, hb⟩ := Option.isSome_iff_exists.1 (by simpa [hasPlace] using hp)
  apply (hs.rooted_of_stored hb).mono (fun _ hy => absurd hy List.not_mem_nil)
  intro y place _ hy
  obtain ⟨other, hb, _⟩ := exists_block_of_parentOf? hy
  rw [hs.parentOf?_occupy, if_neg, hy]
  rintro rfl
  rw [hs.occupy_not_stored] at hb
  cases hb

theorem Sound.configure (hs : s.WellFormed) (key : String) (ps : Params) :
    (s.configure key ps).value.1.WellFormed := by
  rw [Script.configure]
  split
  · exact hs
  · split
    · exact hs
    · exact hs.setInstruction _ _

/-- The loose blocks leave their slots with all that is below them, and no block stays loose. -/
theorem Sound.release (hs : s.Sound loose) : (s.release loose).WellFormed := by
  fun_induction Script.release s loose with
  | case1 => exact hs
  | case2 s h pending block hb ih =>
    obtain ⟨other, ho⟩ := hs.loose_stored h (.head _)
    obtain rfl : block = other := by simpa [blockAt?_of_block? ho] using hb.symm
    exact ih (hs.vacate ho)
  | case3 s h pending hb ih =>
    obtain ⟨other, ho⟩ := hs.loose_stored h (.head _)
    rw [blockAt?_of_block? ho] at hb
    cases hb

theorem Sound.remove (hs : s.WellFormed) (key : String) : (s.remove key).1.WellFormed := by
  rw [Script.remove]
  split
  · exact hs
  · split
    · exact hs
    · next h _ block hb =>
      exact (hs.detach (parentOf?_of_block? hb) nofun).release

section Reorder

variable (hs : s.WellFormed) (hsource : s.parentOf? source = some oldParent)
  (htarget : s.parentOf? target = some newParent)

include hs htarget in
theorem Sound.move_eq :
    s.move source target oldParent newParent =
      (((s.modifySiblings oldParent (·.filter (· ≠ source))).modifyBlock source
        ({ · with parent := newParent })).modifySiblings newParent (insertBefore source target),
        true) := by
  have hp : (s.modifySiblings oldParent (·.filter (· ≠ source))).hasPlace newParent = true := by
    rw [hasPlace_iff, siblings?_modifySiblings]
    obtain ⟨list, hl, _⟩ := hs.exists_siblings htarget
    split
    · exact ⟨_, by rw [hl]; rfl⟩
    · exact ⟨list, hl⟩
  simp only [move, hp, ↓reduceIte]

include hs hsource htarget in
theorem Sound.move (hne : source ≠ target) (ha : ¬ TransGen s.HasParent target source) :
    (s.move source target oldParent newParent).1.WellFormed := by
  rw [hs.move_eq htarget]
  have hd := hs.detach hsource nofun
  have hm := hd.setParent (.head _) newParent
  have parents (y : Handle) : ((s.modifySiblings oldParent (·.filter (· ≠ source))).modifyBlock
      source ({ · with parent := newParent })).parentOf? y =
      if y = source then some newParent else s.parentOf? y := by
    rw [parentOf?_setParent, parentOf?_modifySiblings]
    split
    · next he => rw [he, hsource]; rfl
    · rfl
  apply hm.attach (adds_insertBefore source target) (by rw [parents, if_pos rfl])
  rintro p rfl
  -- The walk up from the new parent never meets the block that is moved.
  obtain ⟨block, hb⟩ := hs.parent_stored htarget nofun
  apply (hs.rooted_of_stored hb).carry (K := fun y => ¬ ReflTransGen s.HasParent y source)
    (fun hr => ha (.head' htarget hr)) nofun
  intro y place _ hy hp
  right
  rw [parents, if_neg (by rintro rfl; exact hy .refl)]
  refine ⟨hp, ?_⟩
  rintro q rfl hq
  exact hy (.head hp hq)

end Reorder

section Equations

variable (hs : s.WellFormed)

include hs

theorem Sound.find?_cases (key : String) :
    s.find? key = none ∨ ∃ h block, s.block? h = some block ∧ block.key = key := by
  cases hf : s.find? key with
  | none => exact .inl rfl
  | some h => exact .inr ⟨h, Option.map_eq_some_iff.1 (hs.find?_iff.1 hf)⟩

theorem Sound.configure_eq (hb : s.block? h = some block) (ps : Params) :
    s.configure block.key ps = do
      let instruction ← block.instruction.configure ps
      return (s.modifyBlock h ({ · with instruction }), true) := by
  rw [Script.configure, hs.find?_key hb]
  simp only [hb]

theorem Sound.remove_eq (hb : s.block? h = some block) :
    s.remove block.key =
      ((s.modifySiblings block.parent (·.filter (· ≠ h))).release [h], true) := by
  rw [Script.remove, hs.find?_key hb]
  simp only [hb]

theorem Sound.reorder_eq {moved : Block} (hm : s.block? source = some moved)
    (hb : s.block? target = some block) (hne : source ≠ target)
    (ha : ¬ TransGen s.HasParent target source) :
    s.reorder moved.key block.key =
      (((s.modifySiblings moved.parent (·.filter (· ≠ source))).modifyBlock source
        ({ · with parent := block.parent })).modifySiblings block.parent
        (insertBefore source target), true) := by
  have hc : (decide (source = target) || (s.ancestors target).contains source) = false := by
    simp [hne, hs.mem_ancestors_iff, ha]
  rw [Script.reorder, hs.find?_key hm, hs.find?_key hb]
  simp only [hc, hm, hb, Bool.false_eq_true, ↓reduceIte]
  exact hs.move_eq (parentOf?_of_block? hb)

theorem Sound.reorder_eq_refused {moved : Block} (hm : s.block? source = some moved)
    (hb : s.block? target = some block)
    (h : source = target ∨ TransGen s.HasParent target source) :
    s.reorder moved.key block.key = (s, false) := by
  have hc : (decide (source = target) || (s.ancestors target).contains source) = true := by
    simpa [hs.mem_ancestors_iff] using h
  rw [Script.reorder, hs.find?_key hm, hs.find?_key hb]
  simp only [hc, ↓reduceIte]

end Equations

theorem configure_eq_refused (hn : s.find? key = none) (ps : Params) :
    s.configure key ps = pure (s, false) := by
  rw [Script.configure, hn]

theorem remove_eq_refused (hn : s.find? key = none) : s.remove key = (s, false) := by
  rw [Script.remove, hn]

theorem reorder_eq_missing {sourceKey targetKey : String}
    (hn : s.find? sourceKey = none ∨ s.find? targetKey = none) :
    s.reorder sourceKey targetKey = (s, false) := by
  rw [Script.reorder]
  rcases hn with hn | hn
  · rw [hn]
  · rw [hn]
    cases s.find? sourceKey <;> rfl

theorem Sound.reorder_cases (hs : s.WellFormed) (sourceKey targetKey : String) :
    s.reorder sourceKey targetKey = (s, false) ∨
    ∃ source target moved block, s.block? source = some moved ∧ s.block? target = some block ∧
      s.reorder sourceKey targetKey =
        (((s.modifySiblings moved.parent (·.filter (· ≠ source))).modifyBlock source
          ({ · with parent := block.parent })).modifySiblings block.parent
          (insertBefore source target), true) := by
  rcases hs.find?_cases sourceKey with hn | ⟨source, moved, hm, rfl⟩
  · exact .inl (reorder_eq_missing (.inl hn))
  rcases hs.find?_cases targetKey with hn | ⟨target, block, hb, rfl⟩
  · exact .inl (reorder_eq_missing (.inr hn))
  by_cases hr : source = target ∨ TransGen s.HasParent target source
  · exact .inl (hs.reorder_eq_refused hm hb hr)
  · obtain ⟨hne, ha⟩ := not_or.1 hr
    exact .inr ⟨source, target, moved, block, hm, hb, hs.reorder_eq hm hb hne ha⟩

theorem Sound.reorder (hs : s.WellFormed) (sourceKey targetKey : String) :
    (s.reorder sourceKey targetKey).1.WellFormed := by
  rw [Script.reorder]
  split
  · next source target _ _ =>
    split
    · exact hs
    next hr =>
    simp only [Bool.or_eq_true, decide_eq_true_eq, List.contains_iff_mem, not_or] at hr
    split
    · next moved block hm hb =>
      apply hs.move (parentOf?_of_block? hm) (parentOf?_of_block? hb) hr.1
      intro ha
      exact hr.2 (hs.mem_ancestors_iff.2 ha)
    · exact hs
  · exact hs

/-- A call of the editing interface of a script, whether it will be carried out or not. -/
inductive Edit where
  | insert (key : String) (instruction : Instruction) (parent : Option Handle)
  | configure (key : String) (ps : Params)
  | remove (key : String)
  | reorder (source target : String)

def perform (s : Script) : Edit → Script
  | .insert key instruction parent => (s.insert key instruction parent).1
  | .configure key ps => (s.configure key ps).value.1
  | .remove key => (s.remove key).1
  | .reorder source target => (s.reorder source target).1

def after (s : Script) (edits : List Edit) : Script := edits.foldl perform s

theorem Sound.perform (hs : s.WellFormed) (edit : Edit) : (s.perform edit).WellFormed := by
  cases edit with
  | insert key instruction parent => exact hs.insert key instruction parent
  | configure key ps => exact hs.configure key ps
  | remove key => exact hs.remove key
  | reorder source target => exact hs.reorder source target

theorem Sound.after (hs : s.WellFormed) (edits : List Edit) : (s.after edits).WellFormed := by
  induction edits generalizing s with
  | nil => exact hs
  | cons edit edits ih => exact ih (hs.perform edit)

end BlockScript.Script
