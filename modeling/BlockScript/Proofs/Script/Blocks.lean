import BlockScript.Script.Edit
import Mathlib.Data.List.Nodup

namespace BlockScript.Script

variable {s : Script} {h x : Handle} {i j : Nat} {key : String} {block other : Block}
  {f f' : Block → Block} {g g' : List Handle → List Handle} {parent place : Option Handle}

def keyOf? (s : Script) (h : Handle) : Option String := (s.block? h).map (·.key)

/-- The parent of a block, if there is such a block. A root has none. -/
def parentOf? (s : Script) (h : Handle) : Option (Option Handle) := (s.block? h).map (·.parent)

/-- The list in which the blocks under a parent stand, if there is such a parent. -/
def siblings? (s : Script) (parent : Option Handle) : Option (List Handle) :=
  match parent with
  | some h => (s.block? h).map (·.children)
  | none => some s.roots

/-- Whether there is a slot of a number and no block in it. -/
def IsVacant (s : Script) (i : Nat) : Prop :=
  ∃ generation, s.slots[i]? = some ⟨generation, none⟩

theorem block?_eq_some_iff :
    s.block? h = some block ↔ s.slots[h.index]? = some ⟨h.generation, some block⟩ := by
  unfold block?
  cases s.slots[h.index]? with
  | none => simp
  | some slot =>
    cases slot with
    | mk generation b => by_cases hg : generation = h.generation <;> simp [hg]

theorem blockAt?_of_block? (hb : s.block? h = some block) : s.blockAt? h.index = some block := by
  rw [blockAt?, block?_eq_some_iff.1 hb]
  rfl

theorem index_lt (hb : s.block? h = some block) : h.index < s.slots.size :=
  (Array.getElem?_eq_some_iff.1 (block?_eq_some_iff.1 hb)).1

theorem handle_eq (hb : s.block? h = some block) (hx : s.block? x = some other)
    (hi : x.index = h.index) : x = h := by
  have hb := block?_eq_some_iff.1 hb
  have hx := block?_eq_some_iff.1 hx
  rw [hi, hb] at hx
  cases h
  cases x
  simp_all

theorem keyOf?_of_block? (hb : s.block? h = some block) : s.keyOf? h = some block.key :=
  congrArg (Option.map _) hb

theorem parentOf?_of_block? (hb : s.block? h = some block) : s.parentOf? h = some block.parent :=
  congrArg (Option.map _) hb

theorem siblings?_of_block? (hb : s.block? h = some block) :
    s.siblings? (some h) = some block.children :=
  congrArg (Option.map _) hb

theorem exists_block_of_parentOf? (hp : s.parentOf? h = some parent) :
    ∃ block, s.block? h = some block ∧ block.parent = parent :=
  Option.map_eq_some_iff.1 hp

theorem stored_iff_keyOf? : (∃ block, s.block? h = some block) ↔ ∃ key, s.keyOf? h = some key := by
  rw [← Option.isSome_iff_exists, ← Option.isSome_iff_exists, keyOf?, Option.isSome_map]

theorem not_isVacant (hb : s.block? h = some block) : ¬ s.IsVacant h.index := by
  rintro ⟨generation, hs⟩
  rw [block?_eq_some_iff.1 hb] at hs
  cases hs

theorem hasPlace_iff : s.hasPlace parent = true ↔ ∃ hs, s.siblings? parent = some hs := by
  cases parent with
  | none => simp [hasPlace, siblings?]
  | some p => simp [hasPlace, siblings?, Option.isSome_iff_exists]

theorem block?_modifyBlock :
    (s.modifyBlock h f).block? x = if x = h then (s.block? x).map f else s.block? x := by
  simp only [block?, modifyBlock, Array.getElem?_modify]
  cases s.slots[x.index]? with
  | none => simp
  | some slot => cases h; cases x; grind

theorem isVacant_modifyBlock : (s.modifyBlock h f).IsVacant i ↔ s.IsVacant i := by
  simp only [IsVacant, modifyBlock, Array.getElem?_modify]
  cases s.slots[i]? with
  | none => simp
  | some slot =>
    cases slot with
    | mk generation b =>
      by_cases hi : h.index = i
      · by_cases hg : generation = h.generation <;> simp [hi, hg]
      · simp [hi]

@[simp] theorem find?_modifyBlock : (s.modifyBlock h f).find? key = s.find? key := rfl

@[simp] theorem vacant_modifyBlock : (s.modifyBlock h f).vacant = s.vacant := rfl

theorem map_block?_modifyBlock {α : Type} {a : Block → α} (hf : ∀ b, a (f b) = a b) :
    ((s.modifyBlock h f).block? x).map a = (s.block? x).map a := by
  rw [block?_modifyBlock]
  split
  · cases s.block? x <;> simp [hf]
  · rfl

theorem siblings?_modifyBlock (hf : ∀ b, (f b).children = b.children) :
    (s.modifyBlock h f).siblings? place = s.siblings? place := by
  cases place with
  | none => rfl
  | some p => exact map_block?_modifyBlock hf

theorem block?_modifySiblings :
    (s.modifySiblings parent g).block? x =
      if parent = some x then (s.block? x).map fun b => { b with children := g b.children }
      else s.block? x := by
  cases parent with
  | none => simp [modifySiblings, block?]
  | some p => simp [modifySiblings, block?_modifyBlock, eq_comm]

@[simp] theorem keyOf?_modifySiblings : (s.modifySiblings parent g).keyOf? x = s.keyOf? x := by
  cases parent with
  | none => rfl
  | some p => exact map_block?_modifyBlock fun _ => rfl

@[simp] theorem instruction?_modifySiblings :
    (s.modifySiblings parent g).instruction? x = s.instruction? x := by
  cases parent with
  | none => rfl
  | some p => exact map_block?_modifyBlock fun _ => rfl

@[simp] theorem parentOf?_modifySiblings :
    (s.modifySiblings parent g).parentOf? x = s.parentOf? x := by
  cases parent with
  | none => rfl
  | some p => exact map_block?_modifyBlock fun _ => rfl

theorem siblings?_modifySiblings :
    (s.modifySiblings parent g).siblings? place =
      if place = parent then (s.siblings? place).map g else s.siblings? place := by
  cases place with
  | none => cases parent <;> rfl
  | some q =>
    simp only [siblings?, block?_modifySiblings, eq_comm (a := some q)]
    split
    · simp [Function.comp_def]
    · rfl

theorem modifyBlock_eq_self (hf : ∀ block, s.block? h = some block → f block = block) :
    s.modifyBlock h f = s := by
  have hslots : (s.modifyBlock h f).slots = s.slots := by
    apply Array.ext_getElem?
    intro i
    rw [modifyBlock, Array.getElem?_modify]
    split
    · next hi =>
      subst hi
      cases hslot : s.slots[h.index]? with
      | none => rfl
      | some slot =>
        obtain ⟨generation, block⟩ := slot
        rw [Option.map_some]
        split
        · next hgeneration =>
          subst hgeneration
          cases block with
          | none => rfl
          | some block => rw [Option.map_some, hf block (block?_eq_some_iff.2 hslot)]
        · rfl
    · rfl
  calc
    s.modifyBlock h f = { s with slots := (s.modifyBlock h f).slots } := rfl
    _ = s := by rw [hslots]

theorem modifyBlock_modifyBlock :
    (s.modifyBlock h f).modifyBlock h f' = s.modifyBlock h (f' ∘ f) := by
  have hslots :
      ((s.modifyBlock h f).modifyBlock h f').slots = (s.modifyBlock h (f' ∘ f)).slots := by
    apply Array.ext_getElem?
    intro i
    simp only [modifyBlock, Array.getElem?_modify]
    split
    · cases s.slots[i]? with
      | none => rfl
      | some slot =>
        simp only [Option.map_some]
        split
        · simp
        · rfl
    · rfl
  calc
    (s.modifyBlock h f).modifyBlock h f' =
        { s with slots := ((s.modifyBlock h f).modifyBlock h f').slots } := rfl
    _ = s.modifyBlock h (f' ∘ f) := by rw [hslots]; rfl

theorem modifySiblings_eq_self (hg : ∀ list, s.siblings? parent = some list → g list = list) :
    s.modifySiblings parent g = s := by
  cases parent with
  | none => rw [modifySiblings, hg s.roots rfl]
  | some p =>
    apply modifyBlock_eq_self
    intro block hb
    rw [hg block.children (siblings?_of_block? hb)]

theorem modifySiblings_modifySiblings :
    (s.modifySiblings parent g).modifySiblings parent g' = s.modifySiblings parent (g' ∘ g) := by
  cases parent with
  | none => rfl
  | some p => exact modifyBlock_modifyBlock

theorem isVacant_modifySiblings : (s.modifySiblings parent g).IsVacant i ↔ s.IsVacant i := by
  cases parent with
  | none => rfl
  | some p => exact isVacant_modifyBlock

@[simp] theorem find?_modifySiblings :
    (s.modifySiblings parent g).find? key = s.find? key := by
  cases parent <;> rfl

theorem id_modifySiblings : (s.modifySiblings parent g).id = s.id := by
  cases parent <;> rfl

theorem name_modifySiblings : (s.modifySiblings parent g).name = s.name := by
  cases parent <;> rfl

theorem roots_modifySiblings :
    (s.modifySiblings parent g).roots = if parent = none then g s.roots else s.roots := by
  cases parent <;> rfl

theorem size_modifySiblings : (s.modifySiblings parent g).size = s.size := by
  cases parent <;> rfl

@[simp] theorem vacant_modifySiblings : (s.modifySiblings parent g).vacant = s.vacant := by
  cases parent <;> rfl

theorem block?_vacate :
    (s.vacate i key).block? x = if x.index = i then none else s.block? x := by
  simp only [block?, vacate, Array.getElem?_modify]
  by_cases hi : x.index = i
  · rw [if_pos hi.symm, if_pos hi]
    cases s.slots[x.index]? <;> simp
  · rw [if_neg (Ne.symm hi), if_neg hi]

theorem map_block?_vacate {α : Type} {a : Block → α} :
    ((s.vacate i key).block? x).map a = if x.index = i then none else (s.block? x).map a := by
  rw [block?_vacate]
  split <;> rfl

theorem find?_vacate {other : String} :
    (s.vacate i key).find? other = if key = other then none else s.find? other := by
  simp [find?, vacate, Std.ExtTreeMap.getElem?_erase]

theorem isVacant_vacate :
    (s.vacate i key).IsVacant j ↔ s.IsVacant j ∨ j = i ∧ i < s.slots.size := by
  simp only [IsVacant, vacate, Array.getElem?_modify]
  by_cases hi : i = j
  · subst hi
    cases hs : s.slots[i]? with
    | none =>
      have hle := Array.getElem?_eq_none_iff.1 hs
      simp [hle]
    | some slot => simp [(Array.getElem?_eq_some_iff.1 hs).1]
  · simp [hi, Ne.symm hi]

section Occupy

variable (hv : ∀ i ∈ s.vacant, s.IsVacant i)

include hv in
theorem block?_occupy_handle : s.block? (s.occupy block).2 = none := by
  cases he : s.vacant with
  | nil => simp [occupy, he, block?]
  | cons index vacant =>
    obtain ⟨generation, hs⟩ := hv index (by simp [he])
    simp [occupy, he, block?, hs]

include hv in
theorem block?_occupy :
    (s.occupy block).1.block? x =
      if x = (s.occupy block).2 then some block else s.block? x := by
  cases he : s.vacant with
  | nil =>
    simp only [occupy, he, block?, Array.getElem?_push]
    by_cases hx : x.index = s.slots.size
    · cases x
      simp_all [eq_comm]
    · have hne : x ≠ ⟨s.slots.size, 0⟩ := by rintro rfl; exact hx rfl
      simp only [hx, hne, ↓reduceIte]
  | cons index vacant =>
    obtain ⟨generation, hs⟩ := hv index (by simp [he])
    simp only [occupy, he, block?, Array.getElem?_modify, hs, Option.map_some, Option.getD_some]
    by_cases hx : index = x.index
    · subst hx
      cases x
      simp only [↓reduceIte, hs, Handle.mk.injEq, true_and, eq_comm, Option.map_some]
      split <;> simp_all
    · have hne : x ≠ ⟨index, generation⟩ := by rintro rfl; exact hx rfl
      simp only [hx, hne, ↓reduceIte]

include hv in
theorem map_block?_occupy {α : Type} {a : Block → α} :
    ((s.occupy block).1.block? x).map a =
      if x = (s.occupy block).2 then some (a block) else (s.block? x).map a := by
  rw [block?_occupy hv]
  split <;> rfl

include hv in
theorem isVacant_occupy :
    (s.occupy block).1.IsVacant i ↔ s.IsVacant i ∧ i ≠ (s.occupy block).2.index := by
  cases he : s.vacant with
  | nil =>
    simp only [occupy, he, IsVacant, Array.getElem?_push]
    by_cases hx : i = s.slots.size
    · simp [hx]
    · simp [hx]
  | cons index vacant =>
    obtain ⟨generation, hs⟩ := hv index (by simp [he])
    simp only [occupy, he, IsVacant, Array.getElem?_modify]
    by_cases hx : index = i
    · subst hx
      simp [hs]
    · simp [hx, Ne.symm hx]

theorem vacant_occupy (s : Script) (block : Block) :
    s.vacant = (s.occupy block).2.index :: (s.occupy block).1.vacant ∨
      s.vacant = [] ∧ (s.occupy block).1.vacant = [] ∧
        (s.occupy block).2.index = s.slots.size := by
  cases he : s.vacant with
  | nil => exact .inr (by simp [occupy, he])
  | cons index vacant => exact .inl (by simp [occupy, he])

theorem find?_occupy :
    (s.occupy block).1.find? key =
      if block.key = key then some (s.occupy block).2 else s.find? key := by
  cases he : s.vacant <;> simp [find?, occupy, he, Std.ExtTreeMap.getElem?_insert]

theorem id_occupy : (s.occupy block).1.id = s.id := by
  cases he : s.vacant <;> simp [occupy, he]

theorem name_occupy : (s.occupy block).1.name = s.name := by
  cases he : s.vacant <;> simp [occupy, he]

theorem roots_occupy : (s.occupy block).1.roots = s.roots := by
  cases he : s.vacant <;> simp [occupy, he]

theorem size_occupy (hk : s.find? block.key = none) : (s.occupy block).1.size = s.size + 1 := by
  have hnew : block.key ∉ s.keys := by
    rw [Std.ExtTreeMap.mem_iff_isSome_getElem?, ← Script.find?, hk]
    exact Bool.false_ne_true
  cases he : s.vacant <;> simp [occupy, he, size, Std.ExtTreeMap.size_insert, hnew]

end Occupy

end BlockScript.Script
