import BlockScript.Proofs.Script.Sound
import Mathlib.Logic.Relation

namespace BlockScript.Script

open Relation

variable {s : Script} {h p a : Handle} {n : Nat} {block : Block}

def HasParent (s : Script) (h p : Handle) : Prop := s.parentOf? h = some (some p)

theorem HasParent.unique {q : Handle} (hp : s.HasParent h p) (hq : s.HasParent h q) : p = q := by
  rw [HasParent, hp] at hq
  simpa using hq

theorem above_iff (hp : s.HasParent h p) :
    TransGen s.HasParent h a ↔ a = p ∨ TransGen s.HasParent p a := by
  constructor
  · intro ha
    obtain ⟨q, hq, hqa⟩ := TransGen.head'_iff.1 ha
    obtain rfl := hp.unique hq
    exact (reflTransGen_iff_eq_or_transGen.1 hqa)
  · rintro (rfl | ha)
    · exact .single hp
    · exact .head hp ha

theorem not_above_of_root (hp : s.parentOf? h = some none) : ¬ TransGen s.HasParent h a := by
  intro ha
  obtain ⟨q, hq, _⟩ := TransGen.head'_iff.1 ha
  rw [HasParent, hp] at hq
  cases hq

theorem Rooted.not_above_self (hr : s.Rooted [] h) : ¬ TransGen s.HasParent h h := by
  induction hr with
  | loose hl => cases hl
  | root hp => exact not_above_of_root hp
  | @under h p hp _ ih =>
    intro hh
    rcases (above_iff hp).1 hh with rfl | hph
    · exact ih (.single hp)
    · exact ih (.tail hph hp)

theorem ancestorsWithin_of_parent (hp : s.HasParent h p) :
    s.ancestorsWithin (n + 1) h = p :: s.ancestorsWithin n p := by
  obtain ⟨block, hb, hq⟩ := exists_block_of_parentOf? hp
  simp [ancestorsWithin, hb, hq]

theorem ancestorsWithin_of_root (hp : ∀ p, ¬ s.HasParent h p) : s.ancestorsWithin n h = [] := by
  cases n with
  | zero => rfl
  | succ n =>
    rw [ancestorsWithin]
    split
    · next p hb =>
      obtain ⟨block, hb, hq⟩ := Option.bind_eq_some_iff.1 hb
      exact absurd (by rw [HasParent, parentOf?, hb, Option.map_some, hq]) (hp p)
    · rfl

theorem above_of_mem_ancestorsWithin (ha : a ∈ s.ancestorsWithin n h) :
    TransGen s.HasParent h a := by
  induction n generalizing h with
  | zero => cases ha
  | succ n ih =>
    by_cases hp : ∃ p, s.HasParent h p
    · obtain ⟨p, hp⟩ := hp
      rw [ancestorsWithin_of_parent hp, List.mem_cons] at ha
      exact (above_iff hp).2 (ha.imp_right ih)
    · rw [ancestorsWithin_of_root (not_exists.1 hp)] at ha
      cases ha

theorem mem_ancestorsWithin (hn : (s.ancestorsWithin n h).length < n)
    (ha : TransGen s.HasParent h a) : a ∈ s.ancestorsWithin n h := by
  induction n generalizing h with
  | zero => cases hn
  | succ n ih =>
    obtain ⟨p, hp, _⟩ := TransGen.head'_iff.1 ha
    rw [ancestorsWithin_of_parent hp] at hn ⊢
    rw [List.mem_cons]
    exact ((above_iff hp).1 ha).imp_right (ih (Nat.lt_of_succ_lt_succ hn))

theorem ancestorsWithin_succ (hn : (s.ancestorsWithin n h).length < n) :
    s.ancestorsWithin (n + 1) h = s.ancestorsWithin n h := by
  induction n generalizing h with
  | zero => cases hn
  | succ n ih =>
    by_cases hp : ∃ p, s.HasParent h p
    · obtain ⟨p, hp⟩ := hp
      rw [ancestorsWithin_of_parent hp] at hn
      rw [ancestorsWithin_of_parent hp, ancestorsWithin_of_parent hp,
        ih (Nat.lt_of_succ_lt_succ hn)]
    · rw [ancestorsWithin_of_root (not_exists.1 hp), ancestorsWithin_of_root (not_exists.1 hp)]

theorem Sound.above_stored (hs : s.WellFormed) (ha : TransGen s.HasParent h a) :
    ∃ block, s.block? a = some block := by
  induction ha with
  | single hp => exact hs.parent_stored hp nofun
  | tail _ hp => exact hs.parent_stored hp nofun

theorem Sound.rooted_of_stored (hs : s.WellFormed) (hb : s.block? h = some block) :
    s.Rooted [] h :=
  hs.rooted (parentOf?_of_block? hb)

theorem Sound.nodup_ancestorsWithin (hs : s.WellFormed) (hb : s.block? h = some block) :
    (h :: s.ancestorsWithin n h).Nodup := by
  induction n generalizing h block with
  | zero => simp [ancestorsWithin]
  | succ n ih =>
    refine .cons (fun hh => ?_) ?_
    · exact (hs.rooted_of_stored hb).not_above_self (above_of_mem_ancestorsWithin hh)
    · by_cases hp : ∃ p, s.HasParent h p
      · obtain ⟨p, hp⟩ := hp
        obtain ⟨_, hb⟩ := hs.parent_stored hp nofun
        rw [ancestorsWithin_of_parent hp]
        exact ih hb
      · rw [ancestorsWithin_of_root (not_exists.1 hp)]
        exact .nil

/-- Blocks that differ stand in slots that differ. -/
theorem length_le_of_stored {list : List Handle} (hn : list.Nodup)
    (hb : ∀ h ∈ list, ∃ block, s.block? h = some block) : list.length ≤ s.slots.size := by
  have hinj : (list.map (·.index)).Nodup := by
    apply List.Nodup.map_on _ hn
    intro x hx y hy hi
    obtain ⟨_, hbx⟩ := hb x hx
    obtain ⟨_, hby⟩ := hb y hy
    exact handle_eq hby hbx hi
  have hsub : list.map (·.index) ⊆ List.range s.slots.size := by
    intro i hi
    obtain ⟨x, hx, rfl⟩ := List.mem_map.1 hi
    obtain ⟨_, hbx⟩ := hb x hx
    exact List.mem_range.2 (index_lt hbx)
  simpa using hinj.length_le_of_subset hsub

theorem Sound.length_ancestorsWithin_lt (hs : s.WellFormed) (hb : s.block? h = some block) :
    (s.ancestorsWithin n h).length < s.slots.size := by
  apply length_le_of_stored (hs.nodup_ancestorsWithin hb)
  intro x hx
  rcases List.mem_cons.1 hx with rfl | hx
  · exact ⟨block, hb⟩
  · exact hs.above_stored (above_of_mem_ancestorsWithin hx)

theorem Sound.mem_ancestors_iff (hs : s.WellFormed) :
    a ∈ s.ancestors h ↔ TransGen s.HasParent h a := by
  refine ⟨above_of_mem_ancestorsWithin, fun ha => ?_⟩
  obtain ⟨p, hp, _⟩ := TransGen.head'_iff.1 ha
  obtain ⟨block, hb, _⟩ := exists_block_of_parentOf? hp
  exact mem_ancestorsWithin (hs.length_ancestorsWithin_lt hb) ha

theorem Sound.ancestors_of_parent (hs : s.WellFormed) (hp : s.HasParent h p) :
    s.ancestors h = p :: s.ancestors p := by
  obtain ⟨block, hb, _⟩ := exists_block_of_parentOf? hp
  have hn := hs.length_ancestorsWithin_lt (n := s.slots.size) hb
  rw [ancestors, ← ancestorsWithin_succ hn, ancestorsWithin_of_parent hp]
  rfl

end BlockScript.Script
