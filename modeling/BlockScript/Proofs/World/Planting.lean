import BlockScript.Proofs.Script.Growth
import BlockScript.Proofs.Script.Removal
import BlockScript.Proofs.World.Reach

namespace BlockScript

namespace Authored

mutual

/-- The ids of a block and of all below it, in the order of the document. -/
def Block.ids : Block → List String
  | ⟨id, _, _, children⟩ => id :: idsAll children

def idsAll : List Block → List String
  | [] => []
  | block :: rest => block.ids ++ idsAll rest

end

mutual

/-- What is left of a block if some ids are taken. A block that is left takes its own id, and one
that is not takes none, nor do those below it. -/
def Block.kept (taken : List String) : Block → List Block
  | ⟨id, type, params, children⟩ =>
    if id ∈ taken then [] else [⟨id, type, params, keptAll (id :: taken) children⟩]

def keptAll (taken : List String) : List Block → List Block
  | [] => []
  | block :: rest =>
    block.kept taken ++ keptAll (idsAll (block.kept taken) ++ taken) rest

end

/-- What a block of a type does with some parameters. One of an unknown type does nothing. -/
def instruction (type : String) (params : Params) : Instruction :=
  match Opcode.ofName? type with
  | some opcode => (Instruction.ofParams opcode params).value
  | none => .unsupported type

theorem idsAll_append (blocks rest : List Block) :
    idsAll (blocks ++ rest) = idsAll blocks ++ idsAll rest := by
  induction blocks with
  | nil => rfl
  | cons block blocks ih => rw [List.cons_append, idsAll, idsAll, ih, List.append_assoc]

mutual

theorem Block.notMem_of_mem_kept {taken : List String} {block : Block} {id : String}
    (hid : id ∈ idsAll (block.kept taken)) : id ∉ taken := by
  obtain ⟨own, type, params, children⟩ := block
  rw [Block.kept] at hid
  split at hid
  · exact absurd hid List.not_mem_nil
  · next hown =>
    rw [idsAll, idsAll, Block.ids, List.append_nil, List.mem_cons] at hid
    rcases hid with rfl | hid
    · exact hown
    · exact (List.ne_and_not_mem_of_not_mem_cons (notMem_of_mem_keptAll hid)).2

theorem notMem_of_mem_keptAll {taken : List String} {blocks : List Block} {id : String}
    (hid : id ∈ idsAll (keptAll taken blocks)) : id ∉ taken := by
  cases blocks with
  | nil => exact absurd hid List.not_mem_nil
  | cons block rest =>
    rw [keptAll, idsAll_append, List.mem_append] at hid
    rcases hid with hid | hid
    · exact Block.notMem_of_mem_kept hid
    · exact fun hmem => notMem_of_mem_keptAll hid (List.mem_append_right _ hmem)

end

mutual

theorem Block.nodup_kept (taken : List String) (block : Block) :
    (idsAll (block.kept taken)).Nodup := by
  obtain ⟨id, type, params, children⟩ := block
  rw [Block.kept]
  split
  · exact .nil
  · rw [idsAll, idsAll, Block.ids, List.append_nil]
    refine .cons ?_ (nodup_keptAll (id :: taken) children)
    intro hid
    exact notMem_of_mem_keptAll hid (List.mem_cons_self ..)

theorem nodup_keptAll (taken : List String) (blocks : List Block) :
    (idsAll (keptAll taken blocks)).Nodup := by
  cases blocks with
  | nil => exact .nil
  | cons block rest =>
    rw [keptAll, idsAll_append]
    refine (block.nodup_kept taken).append (nodup_keptAll _ rest) ?_
    intro id hfirst hrest
    exact notMem_of_mem_keptAll hrest (List.mem_append_left _ hfirst)

end

/-- The ids below a block that is left out are free for the blocks behind it. -/
example :
    let leaf (id : String) : Block := ⟨id, "", ∅, []⟩
    idsAll (keptAll [] [⟨"a", "", ∅, [leaf "b", leaf "a"]⟩, ⟨"b", "", ∅, [leaf "c"]⟩, leaf "c"]) =
      ["a", "b", "c"] := by
  decide

end Authored

namespace Script

mutual

/-- Whether an authored block stands under a parent at a handle, with all below it. -/
inductive Bears (s : Script) : Option Handle → Handle → Authored.Block → Prop where
  | block {id type : String} {params : Params} {parent : Option Handle} {h : Handle}
      {handles : List Handle} {children : List Authored.Block} :
      s.block? h = some ⟨id, Authored.instruction type params, parent, handles⟩ →
      BearsAll s (some h) handles children → Bears s parent h ⟨id, type, params, children⟩

inductive BearsAll (s : Script) : Option Handle → List Handle → List Authored.Block → Prop where
  | nil {parent : Option Handle} : BearsAll s parent [] []
  | cons {parent : Option Handle} {h : Handle} {handles : List Handle} {block : Authored.Block}
      {rest : List Authored.Block} :
      Bears s parent h block → BearsAll s parent handles rest →
      BearsAll s parent (h :: handles) (block :: rest)

end

variable {s t u : Script} {h : Handle} {parent : Option Handle} {handles more : List Handle}
  {blocks rest : List Authored.Block}

theorem value_authoredInstruction (s : Script) (block : Authored.Block) :
    (s.authoredInstruction block).value = Authored.instruction block.type block.params := by
  rw [authoredInstruction, Authored.instruction]
  cases Opcode.ofName? block.type <;> rfl

theorem Bears.parentOf? {block : Authored.Block} (hb : s.Bears parent h block) :
    s.parentOf? h = some parent := by
  cases hb with
  | block hstored _ => exact parentOf?_of_block? hstored

theorem BearsAll.parentOf? (hb : s.BearsAll parent handles blocks) :
    ∀ h ∈ handles, s.parentOf? h = some parent := by
  induction blocks generalizing handles with
  | nil =>
    cases hb
    exact fun h hh => absurd hh List.not_mem_nil
  | cons block blocks ih =>
    cases hb with
    | cons hfirst hrest => exact List.forall_mem_cons.2 ⟨hfirst.parentOf?, ih hrest⟩

theorem BearsAll.append (hb : s.BearsAll parent handles blocks)
    (hr : s.BearsAll parent more rest) : s.BearsAll parent (handles ++ more) (blocks ++ rest) := by
  induction blocks generalizing handles with
  | nil =>
    cases hb
    exact hr
  | cons block blocks ih =>
    cases hb with
    | cons hfirst hrest => exact .cons hfirst (ih hrest)

mutual

/-- What stands apart from the list that has grown stands there as before. -/
theorem Extends.bears (hst : s.Extends t parent more) {place : Option Handle} {h : Handle}
    {block : Authored.Block} (hb : s.Bears place h block)
    (hapart : ∀ p, parent = some p → ¬ s.Holds h p) : t.Bears place h block := by
  cases hb with
  | @block id type params _ _ handles children hstored hbelow =>
    have hne : parent ≠ some h := by
      intro hparent
      exact hapart h hparent .refl
    have hkept := hst.kept h _ hstored
    rw [if_neg hne] at hkept
    refine .block hkept (hst.bearsAll hbelow ?_)
    intro c hc p hparent hholds
    exact hapart p hparent (.head ⟨_, hstored, hc⟩ hholds)

theorem Extends.bearsAll (hst : s.Extends t parent more) {place : Option Handle}
    {handles : List Handle} {blocks : List Authored.Block} (hb : s.BearsAll place handles blocks)
    (hapart : ∀ h ∈ handles, ∀ p, parent = some p → ¬ s.Holds h p) :
    t.BearsAll place handles blocks := by
  cases hb with
  | nil => exact .nil
  | cons hfirst hrest =>
    obtain ⟨hhead, htail⟩ := List.forall_mem_cons.1 hapart
    exact .cons (hst.bears hfirst hhead) (hst.bearsAll hrest htail)

end

/-- Whether a script comes about from another one by authored blocks that are put at the end of the
list under a parent, with all below them. -/
structure Grows (s t : Script) (parent : Option Handle) (handles : List Handle)
    (blocks : List Authored.Block) : Prop where
  toExtends : s.Extends t parent handles
  bears : t.BearsAll parent handles blocks
  find?_iff : ∀ key, t.find? key = none ↔ s.find? key = none ∧ key ∉ Authored.idsAll blocks
  size : t.size = s.size + (Authored.idsAll blocks).length

theorem Grows.refl (s : Script) (parent : Option Handle) : s.Grows s parent [] [] where
  toExtends := .refl s parent
  bears := .nil
  find?_iff := by simp [Authored.idsAll]
  size := rfl

theorem Grows.trans (hst : s.Grows t parent handles blocks) (htu : t.Grows u parent more rest)
    (ht : t.WellFormed) : s.Grows u parent (handles ++ more) (blocks ++ rest) where
  toExtends := hst.toExtends.trans htu.toExtends
  bears := by
    -- A parent is not below its own children, so that its longer list is in none of their trees.
    have hapart : ∀ h ∈ handles, ∀ p, parent = some p → ¬ t.Holds h p := fun h hh _ =>
      ht.not_holds_parent (hst.bears.parentOf? h hh)
    exact (htu.toExtends.bearsAll hst.bears hapart).append htu.bears
  find?_iff := by
    intro key
    rw [htu.find?_iff, hst.find?_iff, Authored.idsAll_append, List.mem_append, not_or, and_assoc]
  size := by
    rw [htu.size, hst.size, Authored.idsAll_append, List.length_append, Nat.add_assoc]

theorem Gains.grows {id type : String} {params : Params}
    (hst : s.Gains t h ⟨id, Authored.instruction type params, parent, []⟩)
    (htu : t.Grows u (some h) handles blocks) :
    s.Grows u parent [h] [⟨id, type, params, blocks⟩] where
  toExtends := hst.toExtends.under htu.toExtends hst.free
  bears := by
    have hstored := htu.toExtends.kept h _ hst.stored
    rw [if_pos rfl] at hstored
    exact .cons (.block hstored htu.bears) .nil
  find?_iff := by
    intro key
    rw [htu.find?_iff, hst.find?]
    by_cases hkey : id = key
    · simp [hkey, Authored.idsAll, Authored.Block.ids]
    · simp [hkey, Ne.symm hkey, Authored.idsAll, Authored.Block.ids]
  size := by
    rw [htu.size, hst.size]
    simp only [Authored.idsAll, Authored.Block.ids, List.append_nil, List.length_cons]
    omega

mutual

/-- A block is planted with what is left of those below it, or not at all. -/
theorem Sound.plant_grows {s : Script} {parent : Option Handle} {taken : List String}
    (hs : s.WellFormed) (hp : s.hasPlace parent = true)
    (htaken : ∀ key, s.find? key = none ↔ key ∉ taken) (block : Authored.Block) :
    ∃ handles, s.Grows (Script.plant parent s block).value parent handles (block.kept taken) := by
  obtain ⟨id, type, params, children⟩ := block
  rw [Script.plant, Logged.value_bind, value_authoredInstruction, Authored.Block.kept]
  by_cases hid : id ∈ taken
  · have hrefused : s.insert id (Authored.instruction type params) parent = (s, none) :=
      insert_eq_refused _ (.inl (mt (htaken id).1 (not_not_intro hid)))
    rw [if_pos hid, hrefused]
    exact ⟨[], .refl s parent⟩
  · obtain ⟨t, h, hinsert, hgains⟩ :=
      hs.insert_gains ((htaken id).2 hid) hp (Authored.instruction type params)
    have ht : t.WellFormed := by
      have hafter := hs.insert id (Authored.instruction type params) parent
      rwa [hinsert] at hafter
    have hplace : t.hasPlace (some h) = true := by
      rw [hasPlace, Option.all_some, hgains.stored, Option.isSome_some]
    have hknown : ∀ key, t.find? key = none ↔ key ∉ id :: taken := by
      intro key
      rw [hgains.find?, List.mem_cons, not_or, ← htaken key]
      by_cases hkey : id = key
      · simp [hkey]
      · simp [hkey, Ne.symm hkey]
    obtain ⟨handles, hgrows⟩ := ht.plantAll_grows hplace hknown children
    rw [if_neg hid, hinsert]
    exact ⟨[h], hgains.grows hgrows⟩

theorem Sound.plantAll_grows {s : Script} {parent : Option Handle} {taken : List String}
    (hs : s.WellFormed) (hp : s.hasPlace parent = true)
    (htaken : ∀ key, s.find? key = none ↔ key ∉ taken) (blocks : List Authored.Block) :
    ∃ handles, s.Grows (Script.plantAll parent s blocks).value parent handles
      (Authored.keptAll taken blocks) := by
  cases blocks with
  | nil => exact ⟨[], .refl s parent⟩
  | cons block rest =>
    obtain ⟨handles, hfirst⟩ := hs.plant_grows hp htaken block
    have ht := hs.plant parent block
    have hknown : ∀ key, (Script.plant parent s block).value.find? key = none ↔
        key ∉ Authored.idsAll (block.kept taken) ++ taken := by
      intro key
      rw [hfirst.find?_iff, htaken, List.mem_append, not_or, and_comm]
    obtain ⟨more, hrest⟩ := ht.plantAll_grows (hfirst.toExtends.hasPlace hp) hknown rest
    exact ⟨handles ++ more, hfirst.trans hrest ht⟩

end

end Script

end BlockScript
