import BlockScript.Proofs.Script.Removal

namespace BlockScript.Script

open Relation

variable {s t t' : Script} {goal h : Handle} {pending popped popped' : List Handle}
  {next : Option Handle} {n n' : Nat} {found found' : Bool} {block : Block}
  {parent : Option Handle}

/-- The handle of the parent of a block, if the block is there and is no root. -/
def above? (s : Script) (h : Handle) : Option Handle := (s.block? h).bind (·.parent)

/-- The walk up to a certain block, from the handle that comes next on. It has a number of rounds,
and it has found the block or there was nothing left above. -/
inductive Climbs (s : Script) (goal : Handle) : Option Handle → Nat → Bool → Prop
  | ended : Climbs s goal none 0 false
  | met : Climbs s goal (some goal) 1 true
  | passed {h : Handle} {n : Nat} {found : Bool} (hne : h ≠ goal)
      (hrest : Climbs s goal (s.above? h) n found) : Climbs s goal (some h) (n + 1) found

/-- The release of pending blocks, with the handles that are taken from them in this order and the
script that is left. A round needs the slot of its handle to be there. -/
inductive Releases : Script → List Handle → List Handle → Script → Prop
  | ended {s : Script} : Releases s [] [] s
  | vacated {s t : Script} {h : Handle} {pending popped : List Handle} {slot : Slot}
      {block : Block} (hslot : s.slots[h.index]? = some slot) (hblock : slot.block = some block)
      (hrest : Releases (s.vacate h.index block.key) (block.children.reverse ++ pending) popped t) :
      Releases s (h :: pending) (h :: popped) t
  | skipped {s t : Script} {h : Handle} {pending popped : List Handle} {slot : Slot}
      (hslot : s.slots[h.index]? = some slot) (hblock : slot.block = none)
      (hrest : Releases s pending popped t) : Releases s (h :: pending) (h :: popped) t

theorem Climbs.unique (h : s.Climbs goal next n found) (h' : s.Climbs goal next n' found') :
    n = n' ∧ found = found' := by
  induction h generalizing n' found' with
  | ended =>
    cases h'
    exact ⟨rfl, rfl⟩
  | met =>
    cases h' with
    | met => exact ⟨rfl, rfl⟩
    | passed hne => exact absurd rfl hne
  | passed hne _ ih =>
    cases h' with
    | met => exact absurd rfl hne
    | passed _ hrest =>
      obtain ⟨hn, hfound⟩ := ih hrest
      exact ⟨congrArg (· + 1) hn, hfound⟩

theorem above?_of_parent {p : Handle} (hp : s.HasParent h p) : s.above? h = some p := by
  obtain ⟨block, hb, hq⟩ := exists_block_of_parentOf? hp
  rw [above?, hb, Option.bind_some, hq]

theorem above?_of_root (hp : s.parentOf? h = some none) : s.above? h = none := by
  obtain ⟨block, hb, hq⟩ := exists_block_of_parentOf? hp
  rw [above?, hb, Option.bind_some, hq]

theorem ancestors_of_root (hp : ∀ p, ¬ s.HasParent h p) : s.ancestors h = [] :=
  ancestorsWithin_of_root hp

theorem Sound.climbs_of_rooted (hs : s.WellFormed) (goal : Handle) (hr : s.Rooted [] h) :
    ∃ n ≤ (s.ancestors h).length,
      s.Climbs goal (s.above? h) n ((s.ancestors h).contains goal) := by
  induction hr with
  | loose hl => cases hl
  | root hp =>
    rw [above?_of_root hp, ancestors_of_root (by simp [HasParent, hp])]
    exact ⟨0, Nat.le_refl 0, .ended⟩
  | @under h p hp _ ih =>
    obtain ⟨n, hn, hclimbs⟩ := ih
    rw [above?_of_parent hp, hs.ancestors_of_parent hp, List.length_cons, List.contains_cons]
    by_cases hgoal : p = goal
    · subst hgoal
      rw [beq_self_eq_true, Bool.true_or]
      exact ⟨1, Nat.le_add_left 1 _, .met⟩
    · rw [beq_false_of_ne (Ne.symm hgoal), Bool.false_or]
      exact ⟨n + 1, Nat.succ_le_succ hn, .passed hgoal hclimbs⟩

/-- A block and all above it are different blocks. -/
theorem Sound.length_ancestors_lt (hs : s.WellFormed) (hb : s.block? h = some block) :
    (s.ancestors h).length < s.size := by
  have hnodup : (h :: s.ancestors h).Nodup := hs.nodup_ancestorsWithin hb
  have hsubset : ((h :: s.ancestors h).toFinset : Set Handle) ⊆
      {h | ∃ block, s.block? h = some block} := by
    intro x hx
    rw [List.coe_toFinset] at hx
    rcases List.mem_cons.1 hx with rfl | hx
    · exact ⟨block, hb⟩
    · exact hs.above_stored (hs.mem_ancestors_iff.1 hx)
  have hcard := Set.ncard_le_ncard hsubset hs.finite_stored
  rwa [Set.ncard_coe_finset, List.toFinset_card_of_nodup hnodup, ← hs.size_eq] at hcard

theorem Sound.climbs (hs : s.WellFormed) (goal h : Handle) :
    ∃ n ≤ s.size, s.Climbs goal (s.above? h) n ((s.ancestors h).contains goal) := by
  cases hb : s.block? h with
  | none =>
    have hnone : s.parentOf? h = none := by rw [parentOf?, hb, Option.map_none]
    rw [above?, hb, ancestors_of_root (by simp [HasParent, hnone])]
    exact ⟨0, Nat.zero_le _, .ended⟩
  | some block =>
    obtain ⟨n, hn, hclimbs⟩ := hs.climbs_of_rooted goal (hs.rooted_of_stored hb)
    exact ⟨n, Nat.le_trans hn (Nat.le_of_lt (hs.length_ancestors_lt hb)), hclimbs⟩

theorem Sound.contains_ancestors_iff (hs : s.WellFormed) :
    (s.ancestors h).contains goal = true ↔ TransGen s.HasChild goal h := by
  rw [List.contains_iff_mem, hs.mem_ancestors_iff, hs.hasChild_eq, transGen_swap]

theorem Releases.unique (h : s.Releases pending popped t) (h' : s.Releases pending popped' t') :
    popped = popped' ∧ t = t' := by
  induction h generalizing popped' t' with
  | ended =>
    cases h'
    exact ⟨rfl, rfl⟩
  | vacated hslot hblock _ ih =>
    cases h' with
    | vacated hslot' hblock' hrest =>
      obtain rfl := Option.some.inj (hslot.symm.trans hslot')
      obtain rfl := Option.some.inj (hblock.symm.trans hblock')
      obtain ⟨hpopped, ht⟩ := ih hrest
      exact ⟨congrArg _ hpopped, ht⟩
    | skipped hslot' hblock' =>
      obtain rfl := Option.some.inj (hslot.symm.trans hslot')
      rw [hblock] at hblock'
      contradiction
  | skipped hslot hblock _ ih =>
    cases h' with
    | vacated hslot' hblock' =>
      obtain rfl := Option.some.inj (hslot.symm.trans hslot')
      rw [hblock] at hblock'
      contradiction
    | skipped _ _ hrest =>
      obtain ⟨hpopped, ht⟩ := ih hrest
      exact ⟨congrArg _ hpopped, ht⟩

theorem Sound.stored_of_falls (hs : s.Sound pending) (hf : s.Falls pending h) :
    ∃ block, s.block? h = some block := by
  cases hf with
  | loose hl => exact hs.loose_stored h hl
  | under hp => exact (exists_block_of_parentOf? hp).imp fun _ => And.left

/-- Every block that falls is taken from the pending ones once, and nothing else is. -/
theorem Sound.releases (hs : s.Sound pending) :
    ∃ popped, s.Releases pending popped (s.release pending) ∧ popped.Nodup ∧
      ∀ h, h ∈ popped ↔ s.Falls pending h := by
  fun_induction Script.release s pending with
  | case1 s =>
    refine ⟨[], .ended, .nil, ?_⟩
    intro h
    exact iff_of_false List.not_mem_nil not_falls_nil
  | case2 s h pending block hb ih =>
    obtain ⟨slot, hslot, hblock⟩ := Option.bind_eq_some_iff.1 hb
    have hb := hs.block?_of_blockAt? hb
    have hs' := hs.vacate hb
    obtain ⟨popped, hreleases, hnodup, hmem⟩ := ih hs'
    refine ⟨h :: popped, .vacated hslot hblock hreleases, .cons ?_ hnodup, ?_⟩
    · -- The slot is vacant from now on.
      intro hh
      obtain ⟨other, ho⟩ := hs'.stored_of_falls ((hmem h).1 hh)
      rw [block?_vacate, if_pos rfl] at ho
      contradiction
    · intro x
      rw [List.mem_cons, hmem]
      constructor
      · rintro (rfl | hx)
        · exact .loose (List.mem_cons_self ..)
        · exact hs.falls_of_vacate hb hx
      · intro hx
        by_cases heq : x = h
        · exact .inl heq
        · exact .inr (hs.falls_vacate hb hx heq)
  | case3 s h pending hb ih =>
    obtain ⟨other, ho⟩ := hs.loose_stored h (List.mem_cons_self ..)
    rw [blockAt?_of_block? ho] at hb
    contradiction

theorem Sound.releases_cut (hs : s.WellFormed) {r : Handle} (hp : s.parentOf? r = some parent) :
    ∃ popped, (s.modifySiblings parent (·.filter (· ≠ r))).Releases [r] popped (s.cut parent r) ∧
      popped.Nodup ∧ (∀ h, h ∈ popped ↔ s.Holds r h) ∧
      popped.length = {h | s.Holds r h}.ncard := by
  obtain ⟨popped, hreleases, hnodup, hfalls⟩ := (hs.detach hp List.not_mem_nil).releases
  have hmem : ∀ h, h ∈ popped ↔ s.Holds r h := fun h => (hfalls h).trans hs.falls_iff_holds
  refine ⟨popped, hreleases, hnodup, hmem, ?_⟩
  have hset : {h | s.Holds r h} = (popped.toFinset : Set Handle) := by
    ext h
    rw [List.coe_toFinset]
    exact (hmem h).symm
  rw [hset, Set.ncard_coe_finset, List.toFinset_card_of_nodup hnodup]

/-- Whatever edits have been made, the walk up from any handle comes to an end within as many rounds
as there are blocks, and finds a block exactly if it starts below that. A removal takes each block
that goes from the pending ones once, and nothing else, and every slot it looks at is there. -/
theorem loops_end (id name : String) (edits : List Edit) :
    let s := (empty id name).after edits
    (∀ goal h, (∃! run : Nat × Bool, s.Climbs goal (s.above? h) run.1 run.2) ∧
      ∀ n found, s.Climbs goal (s.above? h) n found →
        n ≤ s.size ∧ (found = true ↔ TransGen s.HasChild goal h) ∧
          found = (s.ancestors h).contains goal) ∧
    ∀ key r, s.find? key = some r → ∃ parent, s.parentOf? r = some parent ∧
      let detached := s.modifySiblings parent (·.filter (· ≠ r))
      (∃! run : List Handle × Script, detached.Releases [r] run.1 run.2) ∧
      ∀ popped t, detached.Releases [r] popped t →
        s.remove key = (t, true) ∧ popped.Nodup ∧ (∀ h, h ∈ popped ↔ s.Holds r h) ∧
          popped.length = {h | s.Holds r h}.ncard := by
  intro s
  have hs : s.WellFormed := (Sound.empty id name).after edits
  constructor
  · intro goal h
    obtain ⟨n, hn, hclimbs⟩ := hs.climbs goal h
    constructor
    · refine ⟨(n, _), hclimbs, ?_⟩
      intro run hrun
      exact Prod.ext (hrun.unique hclimbs).1 (hrun.unique hclimbs).2
    · intro n' found hrun
      obtain ⟨rfl, rfl⟩ := hrun.unique hclimbs
      exact ⟨hn, hs.contains_ancestors_iff, rfl⟩
  · intro key r hkey
    rcases hs.find?_cases key with hmissing | ⟨r', block, hb, rfl⟩
    · rw [hmissing] at hkey
      contradiction
    · obtain rfl := Option.some.inj ((hs.find?_key hb).symm.trans hkey)
      have hp := parentOf?_of_block? hb
      obtain ⟨popped, hreleases, hnodup, hmem, hlength⟩ := hs.releases_cut hp
      refine ⟨block.parent, hp, ⟨(popped, _), hreleases, ?_⟩, ?_⟩
      · intro run hrun
        exact Prod.ext (hrun.unique hreleases).1 (hrun.unique hreleases).2
      · intro popped' t hrun
        obtain ⟨rfl, rfl⟩ := hrun.unique hreleases
        exact ⟨hs.remove_eq hb, hnodup, hmem, hlength⟩

end BlockScript.Script
