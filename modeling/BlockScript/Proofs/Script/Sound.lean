import BlockScript.Proofs.Script.Blocks

namespace BlockScript.Script

variable {s t : Script} {loose loose' : List Handle} {h p x : Handle} {key : String}
  {block : Block} {parent place : Option Handle} {list : List Handle}

/-- The blocks from which the parents lead up to a root or to a loose block. -/
inductive Rooted (s : Script) (loose : List Handle) : Handle → Prop where
  | loose {h : Handle} : h ∈ loose → Rooted s loose h
  | root {h : Handle} : s.parentOf? h = some none → Rooted s loose h
  | under {h p : Handle} : s.parentOf? h = some (some p) → Rooted s loose p → Rooted s loose h

/-- A script all of whose blocks stand in one list each, except for the loose ones. These are stored,
but stand in no list yet, or in none any more. -/
structure Sound (s : Script) (loose : List Handle) : Prop where
  find?_iff : ∀ {key h}, s.find? key = some h ↔ s.keyOf? h = some key
  vacant_nodup : s.vacant.Nodup
  mem_vacant : ∀ {i}, i ∈ s.vacant ↔ s.IsVacant i
  nodup : ∀ {parent list}, s.siblings? parent = some list → list.Nodup
  mem_iff : ∀ {parent list}, s.siblings? parent = some list →
    ∀ h, h ∈ list ↔ h ∉ loose ∧ s.parentOf? h = some parent
  rooted : ∀ {h parent}, s.parentOf? h = some parent → s.Rooted loose h
  loose_nodup : loose.Nodup
  loose_stored : ∀ h ∈ loose, ∃ block, s.block? h = some block

abbrev WellFormed (s : Script) : Prop := s.Sound []

theorem Rooted.stored (hs : s.Sound loose) (h : s.Rooted loose x) :
    ∃ block, s.block? x = some block := by
  cases h with
  | loose hl => exact hs.loose_stored x hl
  | root hp => exact (exists_block_of_parentOf? hp).imp fun _ => And.left
  | under hp => exact (exists_block_of_parentOf? hp).imp fun _ => And.left

theorem Sound.parent_stored (hs : s.Sound loose) (hp : s.parentOf? x = some (some p))
    (hx : x ∉ loose) : ∃ block, s.block? p = some block := by
  cases hs.rooted hp with
  | loose hl => exact absurd hl hx
  | root hn => rw [hp] at hn; cases hn
  | under hq hr =>
    rw [hp] at hq
    cases hq
    exact hr.stored hs

/-- Parents lead up as before, as far as they lead through blocks that keep theirs. -/
theorem Rooted.carry {K : Handle → Prop} (h : s.Rooted loose x) (hx : K x)
    (hl : ∀ y ∈ loose, K y → t.Rooted loose' y)
    (hk : ∀ y parent, y ∉ loose → K y → s.parentOf? y = some parent →
      t.Rooted loose' y ∨ t.parentOf? y = some parent ∧ ∀ p, parent = some p → K p) :
    t.Rooted loose' x := by
  induction h with
  | loose hy => exact hl _ hy hx
  | @root y hp =>
    by_cases hy : y ∈ loose
    · exact hl _ hy hx
    · rcases hk y _ hy hx hp with ht | ⟨ht, _⟩
      · exact ht
      · exact .root ht
  | @under y p hp _ ih =>
    by_cases hy : y ∈ loose
    · exact hl _ hy hx
    · rcases hk y _ hy hx hp with ht | ⟨ht, hkept⟩
      · exact ht
      · exact .under ht (ih (hkept p rfl))

theorem Rooted.mono (h : s.Rooted loose x) (hl : ∀ y ∈ loose, t.Rooted loose' y)
    (hk : ∀ y parent, y ∉ loose → s.parentOf? y = some parent → t.parentOf? y = some parent) :
    t.Rooted loose' x :=
  h.carry (K := fun _ => True) trivial (fun y hy _ => hl y hy)
    fun y parent hy _ hp => .inr ⟨hk y parent hy hp, fun _ _ => trivial⟩

theorem Sound.empty (id name : String) : (Script.empty id name).WellFormed where
  find?_iff := by simp [find?, keyOf?, block?, Script.empty]
  vacant_nodup := .nil
  mem_vacant := by simp [IsVacant, Script.empty]
  nodup := by
    intro parent list hp
    cases parent with
    | none => simp_all [siblings?, Script.empty]
    | some p => simp [siblings?, block?, Script.empty] at hp
  mem_iff := by
    intro parent list hp
    cases parent with
    | none => simp_all [siblings?, Script.empty, parentOf?, block?]
    | some p => simp [siblings?, block?, Script.empty] at hp
  rooted := by simp [parentOf?, block?, Script.empty]
  loose_nodup := .nil
  loose_stored := by simp

theorem Sound.of_same (hs : s.Sound loose) (hk : ∀ x, t.keyOf? x = s.keyOf? x)
    (hp : ∀ x, t.parentOf? x = s.parentOf? x) (hl : ∀ place, t.siblings? place = s.siblings? place)
    (hf : ∀ key, t.find? key = s.find? key) (hi : ∀ i, t.IsVacant i ↔ s.IsVacant i)
    (hv : t.vacant = s.vacant) : t.Sound loose where
  find?_iff := by
    intro key h
    rw [hk, hf, hs.find?_iff]
  vacant_nodup := hv ▸ hs.vacant_nodup
  mem_vacant := by
    intro i
    rw [hi, hv, hs.mem_vacant]
  nodup := by
    intro parent list h'
    exact hs.nodup (hl parent ▸ h')
  mem_iff := by
    intro parent list h' x
    rw [hp, hs.mem_iff (hl parent ▸ h')]
  rooted := by
    intro x parent hx
    rw [hp] at hx
    exact (hs.rooted hx).mono (fun _ => .loose) fun y _ _ hy => (hp y).trans hy
  loose_nodup := hs.loose_nodup
  loose_stored := by
    intro x hx
    obtain ⟨block, hb⟩ := hs.loose_stored x hx
    have hsome : t.keyOf? x = some block.key := by rw [hk, keyOf?, hb]; rfl
    exact (Option.map_eq_some_iff.1 hsome).imp fun _ => And.left

theorem Sound.setInstruction (hs : s.Sound loose) (h : Handle) (instruction : Instruction) :
    (s.modifyBlock h ({ · with instruction })).Sound loose :=
  hs.of_same (fun _ => map_block?_modifyBlock fun _ => rfl)
    (fun _ => map_block?_modifyBlock fun _ => rfl) (fun _ => siblings?_modifyBlock fun _ => rfl)
    (fun _ => rfl) (fun _ => isVacant_modifyBlock) rfl

theorem Sound.mem_children (hs : s.Sound loose) (hb : s.block? h = some block) (x : Handle) :
    x ∈ block.children ↔ x ∉ loose ∧ s.parentOf? x = some (some h) :=
  hs.mem_iff (siblings?_of_block? hb) x

theorem Sound.exists_siblings (hs : s.WellFormed) (hp : s.parentOf? h = some parent) :
    ∃ list, s.siblings? parent = some list ∧ h ∈ list := by
  have hlist : ∃ list, s.siblings? parent = some list := by
    cases parent with
    | none => exact ⟨s.roots, rfl⟩
    | some p =>
      obtain ⟨block, hb⟩ := hs.parent_stored hp List.not_mem_nil
      exact ⟨block.children, siblings?_of_block? hb⟩
  obtain ⟨list, hlist⟩ := hlist
  exact ⟨list, hlist, (hs.mem_iff hlist h).2 ⟨List.not_mem_nil, hp⟩⟩

theorem Sound.parentOf?_of_mem_children (hs : s.Sound loose) {c : Handle} (hc : c ∈ s.children h) :
    s.parentOf? c = some (some h) := by
  rw [Script.children] at hc
  split at hc
  · next block hb =>
    split at hc
    · exact ((hs.mem_children hb c).1 hc).2
    · exact absurd hc List.not_mem_nil
  · exact absurd hc List.not_mem_nil

theorem Sound.find?_key (hs : s.Sound loose) (hb : s.block? h = some block) :
    s.find? block.key = some h :=
  hs.find?_iff.2 (keyOf?_of_block? hb)

end BlockScript.Script
