import BlockScript.Proofs.Script.Forest
import BlockScript.Proofs.Script.Refusal
import BlockScript.Proofs.Script.Release

namespace BlockScript.Script

open Relation

variable {s : Script} {h p r : Handle} {key : String} {block : Block}
  {place parent : Option Handle} {list : List Handle}

/-- Whether a block stands in the list under another one, be that a container or not. -/
def HasChild (s : Script) (p h : Handle) : Prop :=
  ∃ block, s.block? p = some block ∧ h ∈ block.children

/-- Whether a block is another one, or is below that in the lists that are stored. -/
def Holds (s : Script) (r h : Handle) : Prop := ReflTransGen s.HasChild r h

/-- Whether a script comes about from another one by a block that is taken out of it, with all that
is below it. -/
structure CutAt (s t : Script) (r : Handle) : Prop where
  id : t.id = s.id
  name : t.name = s.name
  stored_iff : ∀ h, (∃ block, t.block? h = some block) ↔
    (∃ block, s.block? h = some block) ∧ ¬ s.Holds r h
  keyOf? : ∀ h, ¬ s.Holds r h → t.keyOf? h = s.keyOf? h
  instruction? : ∀ h, ¬ s.Holds r h → t.instruction? h = s.instruction? h
  parentOf? : ∀ h, ¬ s.Holds r h → t.parentOf? h = s.parentOf? h
  /-- The one list in which the block stood has lost it, and has the others in their order. -/
  left : ∀ place, s.parentOf? r = some place → ∃ before after,
    s.siblings? place = some (before ++ r :: after) ∧ t.siblings? place = some (before ++ after)
  siblings? : ∀ place, s.parentOf? r ≠ some place → (∀ h, place = some h → ¬ s.Holds r h) →
    t.siblings? place = s.siblings? place
  find?_iff : ∀ key h, t.find? key = some h ↔ s.find? key = some h ∧ ¬ s.Holds r h
  forgotten : ∀ h key, s.Holds r h → s.keyOf? h = some key → t.find? key = none
  finite : {h | s.Holds r h}.Finite
  size : s.size = t.size + {h | s.Holds r h}.ncard

theorem Sound.hasChild_iff (hs : s.WellFormed) : s.HasChild p h ↔ s.HasParent h p := by
  constructor
  · rintro ⟨block, hb, hmem⟩
    exact ((hs.mem_children hb h).1 hmem).2
  · intro hp
    obtain ⟨block, hb⟩ := hs.parent_stored hp List.not_mem_nil
    exact ⟨block, hb, (hs.mem_children hb h).2 ⟨List.not_mem_nil, hp⟩⟩

theorem Sound.hasChild_eq (hs : s.WellFormed) : s.HasChild = Function.swap s.HasParent := by
  funext p h
  exact propext hs.hasChild_iff

theorem Sound.holds_iff (hs : s.WellFormed) : s.Holds r h ↔ ReflTransGen s.HasParent h r := by
  rw [Holds, hs.hasChild_eq, reflTransGen_swap]

theorem id_release (s : Script) (loose : List Handle) : (s.release loose).id = s.id := by
  fun_induction Script.release s loose with
  | case1 => rfl
  | case2 s h pending block hb ih => exact ih
  | case3 s h pending hb ih => exact ih

theorem name_release (s : Script) (loose : List Handle) : (s.release loose).name = s.name := by
  fun_induction Script.release s loose with
  | case1 => rfl
  | case2 s h pending block hb ih => exact ih
  | case3 s h pending hb ih => exact ih

/-- The script without a block and all below it. -/
def cut (s : Script) (parent : Option Handle) (r : Handle) : Script :=
  (s.modifySiblings parent (·.filter (· ≠ r))).release [r]

section Cut

variable (hs : s.WellFormed) (hp : s.parentOf? r = some parent)

include hs in
theorem Sound.falls_iff_holds :
    (s.modifySiblings parent (·.filter (· ≠ r))).Falls [r] h ↔ s.Holds r h := by
  rw [falls_modifySiblings, hs.holds_iff]

include hs hp

theorem Sound.cut : (s.cut parent r).WellFormed := (hs.detach hp List.not_mem_nil).release

theorem Sound.block?_cut_of_holds (hh : s.Holds r h) : (s.cut parent r).block? h = none := by
  have hdetached := hs.detach hp List.not_mem_nil
  have hvacant : (s.cut parent r).blockAt? h.index = none :=
    hdetached.blockAt?_release_of_falls (hs.falls_iff_holds.2 hh)
  rw [Option.eq_none_iff_forall_not_mem]
  intro block hb
  rw [blockAt?_of_block? hb] at hvacant
  contradiction

theorem Sound.block?_cut (hh : ¬ s.Holds r h) :
    (s.cut parent r).block? h = (s.modifySiblings parent (·.filter (· ≠ r))).block? h :=
  (hs.detach hp List.not_mem_nil).block?_release (mt hs.falls_iff_holds.1 hh)

theorem Sound.keyOf?_cut (hh : ¬ s.Holds r h) : (s.cut parent r).keyOf? h = s.keyOf? h := by
  rw [Script.keyOf?, hs.block?_cut hp hh]
  exact keyOf?_modifySiblings

theorem Sound.siblings?_cut (hh : ∀ h, place = some h → ¬ s.Holds r h) :
    (s.cut parent r).siblings? place =
      if place = parent then (s.siblings? place).map (·.filter (· ≠ r))
      else s.siblings? place := by
  rw [← siblings?_modifySiblings]
  cases place with
  | none => exact congrArg some (roots_release _ _)
  | some p => exact congrArg (Option.map Block.children) (hs.block?_cut hp (hh p rfl))

theorem Sound.not_holds_parent (hplace : parent = some p) : ¬ s.Holds r p := by
  subst hplace
  intro hh
  exact (hs.rooted hp).not_above_self (.head' hp (hs.holds_iff.1 hh))

theorem Sound.keyOf?_cut_iff :
    (s.cut parent r).keyOf? h = some key ↔ s.keyOf? h = some key ∧ ¬ s.Holds r h := by
  by_cases hh : s.Holds r h
  · have hnone : (s.cut parent r).keyOf? h = none := by
      rw [Script.keyOf?, hs.block?_cut_of_holds hp hh]
      rfl
    simp [hnone, hh]
  · rw [hs.keyOf?_cut hp hh, and_iff_left hh]

theorem Sound.find?_cut_iff :
    (s.cut parent r).find? key = some h ↔ s.find? key = some h ∧ ¬ s.Holds r h := by
  rw [(hs.cut hp).find?_iff, hs.keyOf?_cut_iff hp, hs.find?_iff]

theorem Sound.stored_cut_iff : (∃ block, (s.cut parent r).block? h = some block) ↔
    (∃ block, s.block? h = some block) ∧ ¬ s.Holds r h := by
  rw [stored_iff_keyOf?, stored_iff_keyOf?, ← exists_and_right]
  exact exists_congr fun _ => hs.keyOf?_cut_iff hp

theorem Sound.subset_stored : {h | s.Holds r h} ⊆ {h | ∃ block, s.block? h = some block} := by
  intro h hh
  obtain ⟨block, hb, _⟩ := exists_block_of_parentOf? hp
  exact exists_block_of_reflTransGen (hs.holds_iff.1 hh) hb

theorem Sound.size_cut : s.size = (s.cut parent r).size + {h | s.Holds r h}.ncard := by
  have hkept : {h | ∃ block, (s.cut parent r).block? h = some block} =
      {h | ∃ block, s.block? h = some block} \ {h | s.Holds r h} := by
    ext h
    exact hs.stored_cut_iff hp
  rw [hs.size_eq, (hs.cut hp).size_eq, hkept,
    Set.ncard_sdiff_add_ncard_of_subset (hs.subset_stored hp) hs.finite_stored]

theorem Sound.cutAt : s.CutAt (s.cut parent r) r where
  id := (id_release _ _).trans id_modifySiblings
  name := (name_release _ _).trans name_modifySiblings
  stored_iff := fun h => hs.stored_cut_iff hp
  keyOf? := fun h => hs.keyOf?_cut hp
  instruction? := by
    intro h hh
    rw [Script.instruction?, hs.block?_cut hp hh]
    exact instruction?_modifySiblings
  parentOf? := by
    intro h hh
    rw [Script.parentOf?, hs.block?_cut hp hh]
    exact parentOf?_modifySiblings
  left := by
    intro place hplace
    obtain rfl := Option.some.inj (hp.symm.trans hplace)
    obtain ⟨list, hlist, hmem⟩ := hs.exists_siblings hp
    obtain ⟨before, after, rfl⟩ := List.append_of_mem hmem
    refine ⟨before, after, hlist, ?_⟩
    rw [hs.siblings?_cut hp fun _ => hs.not_holds_parent hp, if_pos rfl, hlist, Option.map_some,
      filter_ne_middle (hs.nodup hlist)]
  siblings? := by
    intro place hplace hh
    have hne : place ≠ parent := by
      rintro rfl
      exact hplace hp
    rw [hs.siblings?_cut hp hh, if_neg hne]
  find?_iff := fun key h => hs.find?_cut_iff hp
  forgotten := by
    intro h key hh hk
    rw [Option.eq_none_iff_forall_not_mem]
    intro x hx
    obtain ⟨hfind, hx⟩ := (hs.find?_cut_iff hp).1 hx
    rw [hs.find?_iff.2 hk] at hfind
    exact hx (Option.some.inj hfind ▸ hh)
  finite := hs.finite_stored.subset (hs.subset_stored hp)
  size := hs.size_cut hp

end Cut

/-- A block is removed if its key is there, and then it is gone with all below it and nothing else
has changed but the list in which it stood. A key that is not there changes nothing. -/
theorem Sound.remove_exact (hs : s.WellFormed) (key : String) :
    ((s.remove key).2 = true ↔ ∃ r, s.find? key = some r) ∧
    (∀ t, s.remove key = (t, true) → ∃ r, s.find? key = some r ∧ s.CutAt t r) ∧
    ∀ t, s.remove key = (t, false) → t = s := by
  rcases hs.find?_cases key with hmissing | ⟨r, block, hb, rfl⟩
  · rw [remove_eq_refused hmissing, hmissing]
    simp [eq_comm]
  · have hfind := hs.find?_key hb
    have hremove : s.remove block.key = (s.cut block.parent r, true) := hs.remove_eq hb
    rw [hremove, hfind]
    refine ⟨by simp, ?_, by simp⟩
    rintro t ⟨⟩
    exact ⟨r, rfl, hs.cutAt (parentOf?_of_block? hb)⟩

/-- A script with a block stored under one that shows none. -/
def veiled : Script :=
  (empty "script-1" "Veiled").after [.insert "start" .onStart none,
    .insert "pause" (.wait 1) (some ⟨0, 0⟩), .insert "hidden" (.paint .white) (some ⟨1, 0⟩),
    .insert "red" (.paint ⟨255, 0, 0⟩) (some ⟨0, 0⟩)]

theorem Sound.remove_exact_veiled :
    let t := (veiled.remove "pause").1
    veiled.WellFormed ∧ veiled.children ⟨1, 0⟩ = [] ∧ veiled.remove "pause" = (t, true) ∧
      t.find? "hidden" = none ∧ t.siblings? (some ⟨0, 0⟩) = some [⟨3, 0⟩] ∧
      t.keyOf? ⟨3, 0⟩ = some "red" ∧
      veiled.size = t.size + {h | veiled.Holds ⟨1, 0⟩ h}.ncard ∧
      (veiled.remove "blue").1 = veiled := by
  intro t
  have hs : veiled.WellFormed := (Sound.empty _ _).after _
  have hfound : veiled.find? "pause" = some ⟨1, 0⟩ := by decide
  have hremoved : veiled.remove "pause" = (t, true) :=
    Prod.ext rfl ((hs.remove_exact "pause").1.2 ⟨_, hfound⟩)
  obtain ⟨r, hr, hcut⟩ := (hs.remove_exact "pause").2.1 t hremoved
  obtain rfl := Option.some.inj (hr.symm.trans hfound)
  have hhidden : veiled.Holds ⟨1, 0⟩ ⟨2, 0⟩ := by
    refine .single ⟨⟨"pause", .wait 1, some ⟨0, 0⟩, [⟨2, 0⟩]⟩, by decide, ?_⟩
    exact List.mem_singleton_self _
  have hred : ¬ veiled.Holds ⟨1, 0⟩ ⟨3, 0⟩ := by
    rw [hs.holds_iff, reflTransGen_iff_eq_or_transGen, ← hs.mem_ancestors_iff]
    decide
  obtain ⟨before, after, hbefore, hafter⟩ := hcut.left (some ⟨0, 0⟩) (by decide)
  have hlist : veiled.siblings? (some ⟨0, 0⟩) = some [⟨1, 0⟩, ⟨3, 0⟩] := by decide
  have hkept : before ++ after = [⟨3, 0⟩] := by
    have hsplit := Option.some.inj (hlist.symm.trans hbefore)
    have hnodup : (before ++ (⟨1, 0⟩ : Handle) :: after).Nodup := hs.nodup hbefore
    rw [← filter_ne_middle hnodup, ← hsplit]
    decide
  have hrefused : veiled.remove "blue" = ((veiled.remove "blue").1, false) :=
    Prod.ext rfl (by decide)
  refine ⟨hs, by decide, hremoved, hcut.forgotten _ _ hhidden (by decide), hkept ▸ hafter,
    (hcut.keyOf? _ hred).trans (by decide), hcut.size,
    (hs.remove_exact "blue").2.2 _ hrefused⟩

end BlockScript.Script
