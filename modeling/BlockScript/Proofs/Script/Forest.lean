import BlockScript.Proofs.Script.Edits
import Mathlib.Data.Set.Card

namespace BlockScript.Script

open Relation

variable {s : Script} {loose : List Handle} {h : Handle} {block : Block}

/-- The ways down from the roots to a block, the block itself in front. -/
inductive Path (s : Script) : Handle → List Handle → Prop where
  | root {h : Handle} : h ∈ s.roots → Path s h [h]
  | child {h p : Handle} {block : Block} {path : List Handle} :
      Path s p path → s.block? p = some block → h ∈ block.children → Path s h (h :: path)

theorem Sound.mem_roots (hs : s.WellFormed) : h ∈ s.roots ↔ s.parentOf? h = some none := by
  have hroots : s.siblings? none = some s.roots := rfl
  rw [hs.mem_iff hroots]
  simp

theorem Sound.path (hs : s.WellFormed) (hr : s.Rooted [] h) : ∃ path, s.Path h path := by
  induction hr with
  | loose hl => cases hl
  | root hp => exact ⟨_, .root (hs.mem_roots.2 hp)⟩
  | @under h p hp _ ih =>
    obtain ⟨path, hpath⟩ := ih
    obtain ⟨block, hb⟩ := hs.parent_stored hp nofun
    exact ⟨_, .child hpath hb ((hs.mem_children hb h).2 ⟨nofun, hp⟩)⟩

theorem Sound.path_unique (hs : s.WellFormed) {path other : List Handle} (hp : s.Path h path)
    (ho : s.Path h other) : other = path := by
  induction hp generalizing other with
  | root hr =>
    have hn := hs.mem_roots.1 hr
    cases ho with
    | root => rfl
    | child _ hb hc =>
      have hq := ((hs.mem_children hb _).1 hc).2
      rw [hn] at hq
      cases hq
  | child _ hb hc ih =>
    have hp := ((hs.mem_children hb _).1 hc).2
    cases ho with
    | root hr =>
      rw [hs.mem_roots.1 hr] at hp
      cases hp
    | child hq hb' hc' =>
      have hp' := ((hs.mem_children hb' _).1 hc').2
      rw [hp] at hp'
      cases hp'
      rw [ih hq]

theorem Sound.reaches_root (hs : s.WellFormed) (hr : s.Rooted [] h) :
    ∃ root ∈ s.roots, ReflTransGen s.HasParent h root := by
  induction hr with
  | loose hl => cases hl
  | @root h hp => exact ⟨h, hs.mem_roots.2 hp, .refl⟩
  | under hp _ ih =>
    obtain ⟨root, hr, hup⟩ := ih
    exact ⟨root, hr, .head hp hup⟩

theorem Sound.siblings?_parent (hs : s.WellFormed) (hb : s.block? h = some block) :
    ∃ list, s.siblings? block.parent = some list :=
  (hs.exists_siblings (parentOf?_of_block? hb)).imp fun _ => And.left

theorem Sound.count_siblings (hs : s.WellFormed) (hb : s.block? h = some block)
    {place : Option Handle} {list : List Handle} (hl : s.siblings? place = some list) :
    list.count h = if place = block.parent then 1 else 0 := by
  have hm := hs.mem_iff hl h
  have hp := parentOf?_of_block? hb
  split
  · next he =>
    exact List.count_eq_one_of_mem (hs.nodup hl) (hm.2 ⟨nofun, he ▸ hp⟩)
  · next he =>
    apply List.count_eq_zero.2
    intro hh
    apply he
    have hq := (hm.1 hh).2
    rw [hp] at hq
    exact (Option.some.inj hq).symm

theorem Sound.count_vacant (hs : s.Sound loose) (i : Nat) :
    s.vacant.count i = if i < s.slots.size ∧ s.blockAt? i = none then 1 else 0 := by
  have hv : s.IsVacant i ↔ i < s.slots.size ∧ s.blockAt? i = none := by
    simp only [IsVacant, blockAt?]
    constructor
    · rintro ⟨generation, hi⟩
      exact ⟨(Array.getElem?_eq_some_iff.1 hi).1, by rw [hi]; rfl⟩
    · rintro ⟨hi, hn⟩
      rw [Array.getElem?_eq_getElem hi] at hn ⊢
      exact ⟨s.slots[i].generation, congrArg some (congrArg (Slot.mk _) hn)⟩
  split
  · next hi => exact List.count_eq_one_of_mem hs.vacant_nodup (hs.mem_vacant.2 (hv.2 hi))
  · next hi => exact List.count_eq_zero.2 fun hm => hi (hv.1 (hs.mem_vacant.1 hm))

theorem Sound.stored_eq (hs : s.Sound loose) : {h | ∃ block, s.block? h = some block} =
    ((s.keys.toList.map (·.2)).toFinset : Set Handle) := by
  ext h
  simp only [Set.mem_ofPred_eq, List.coe_toFinset, List.mem_map, Prod.exists, exists_eq_right,
    Std.ExtTreeMap.mem_toList_iff_getElem?_eq_some]
  constructor
  · rintro ⟨block, hb⟩
    exact ⟨block.key, hs.find?_key hb⟩
  · rintro ⟨key, hk⟩
    exact (Option.map_eq_some_iff.1 (hs.find?_iff.1 hk)).imp fun _ => And.left

theorem Sound.finite_stored (hs : s.Sound loose) : {h | ∃ block, s.block? h = some block}.Finite := by
  rw [hs.stored_eq]
  exact Finset.finite_toSet _

theorem Sound.size_eq (hs : s.Sound loose) :
    s.size = {h | ∃ block, s.block? h = some block}.ncard := by
  have hn : (s.keys.toList.map (·.2)).Nodup := by
    refine List.Nodup.map_on ?_ (s.keys.distinct_keys_toList.imp fun hk he => hk (by simp [he]))
    rintro ⟨key, h⟩ hx ⟨other, _⟩ hy rfl
    have hx := hs.find?_iff.1 (Std.ExtTreeMap.mem_toList_iff_getElem?_eq_some.1 hx)
    have hy := hs.find?_iff.1 (Std.ExtTreeMap.mem_toList_iff_getElem?_eq_some.1 hy)
    rw [hx] at hy
    cases hy
    rfl
  rw [hs.stored_eq, Set.ncard_coe_finset, List.toFinset_card_of_nodup hn, List.length_map,
    Std.ExtTreeMap.length_toList, size]

/-- Whatever edits are made, a script stays a forest, and its keys, its free slots and its lists of
handles agree with the blocks that it stores. -/
theorem forest_after_edits (id name : String) (edits : List Edit) :
    let s := (empty id name).after edits
    ((∀ key h, s.find? key = some h ↔ ∃ block, s.block? h = some block ∧ block.key = key) ∧
      s.size = {h | ∃ block, s.block? h = some block}.ncard) ∧
    (∀ i, s.vacant.count i = if i < s.slots.size ∧ s.blockAt? i = none then 1 else 0) ∧
    ((∀ h block, s.block? h = some block →
        (∃ list, s.siblings? block.parent = some list) ∧
        ∀ place list, s.siblings? place = some list →
          list.count h = if place = block.parent then 1 else 0) ∧
      ∀ place list, s.siblings? place = some list →
        ∀ h ∈ list, ∃ block, s.block? h = some block) ∧
    ∀ h block, s.block? h = some block →
      (∃ root ∈ s.roots, ReflTransGen s.HasParent h root ∧ s.parentOf? root = some none) ∧
      ∃! path, s.Path h path := by
  intro s
  have hs : s.WellFormed := (Sound.empty id name).after edits
  have hkeys : ∀ key h, s.find? key = some h ↔
      ∃ block, s.block? h = some block ∧ block.key = key := by
    intro key h
    rw [hs.find?_iff, keyOf?, Option.map_eq_some_iff]
  have hlists : ∀ place list, s.siblings? place = some list →
      ∀ h ∈ list, ∃ block, s.block? h = some block := by
    intro place list hl h hh
    have hp := ((hs.mem_iff hl h).1 hh).2
    exact (exists_block_of_parentOf? hp).imp fun _ => And.left
  refine ⟨⟨hkeys, hs.size_eq⟩, hs.count_vacant, ⟨?_, hlists⟩, ?_⟩
  · intro h block hb
    exact ⟨hs.siblings?_parent hb, fun place list => hs.count_siblings hb⟩
  · intro h block hb
    have hr := hs.rooted_of_stored hb
    obtain ⟨root, hroot, hup⟩ := hs.reaches_root hr
    obtain ⟨path, hpath⟩ := hs.path hr
    exact ⟨⟨root, hroot, hup, hs.mem_roots.1 hroot⟩, path, hpath, fun _ => hs.path_unique hpath⟩

end BlockScript.Script
