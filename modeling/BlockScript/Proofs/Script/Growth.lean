import BlockScript.Proofs.Script.Edits

namespace BlockScript.Script

variable {s t u : Script} {h : Handle} {key : String} {block : Block} {parent : Option Handle}
  {handles more : List Handle}

/-- Whether a script comes about from another one by what is put at the end of the list under a
parent. -/
structure Extends (s t : Script) (parent : Option Handle) (handles : List Handle) : Prop where
  id : t.id = s.id
  name : t.name = s.name
  roots : t.roots = if parent = none then s.roots ++ handles else s.roots
  kept : ∀ h block, s.block? h = some block → t.block? h = some
    (if parent = some h then { block with children := block.children ++ handles } else block)

theorem Extends.refl (s : Script) (parent : Option Handle) : s.Extends s parent [] where
  id := rfl
  name := rfl
  roots := by simp
  kept := by
    intro h block hb
    simpa using hb

theorem Extends.trans (hst : s.Extends t parent handles) (htu : t.Extends u parent more) :
    s.Extends u parent (handles ++ more) where
  id := htu.id.trans hst.id
  name := htu.name.trans hst.name
  roots := by
    rw [htu.roots, hst.roots]
    split <;> simp
  kept := by
    intro h block hb
    rw [htu.kept h _ (hst.kept h block hb)]
    split <;> simp

theorem Extends.under (hst : s.Extends t parent handles) (htu : t.Extends u (some h) more)
    (hnew : s.block? h = none) : s.Extends u parent handles where
  id := htu.id.trans hst.id
  name := htu.name.trans hst.name
  roots := by
    rw [htu.roots, if_neg (Option.some_ne_none h), hst.roots]
  kept := by
    intro x block hb
    have hne : some h ≠ some x := by
      intro heq
      rw [Option.some.inj heq, hb] at hnew
      contradiction
    rw [htu.kept x _ (hst.kept x block hb), if_neg hne]

/-- Whether a script comes about from another one by a block without children that is put at the
end of the list under its parent. -/
structure Gains (s t : Script) (h : Handle) (block : Block) : Prop where
  toExtends : s.Extends t block.parent [h]
  free : s.block? h = none
  stored : t.block? h = some block
  others : ∀ x, x ≠ h → s.block? x = none → t.block? x = none
  unknown : s.find? block.key = none
  find? : ∀ key, t.find? key = if block.key = key then some h else s.find? key
  size : t.size = s.size + 1

theorem Extends.hasPlace (hst : s.Extends t parent handles) (hp : s.hasPlace parent = true) :
    t.hasPlace parent = true := by
  cases parent with
  | none => rfl
  | some p =>
    obtain ⟨block, hb⟩ := Option.isSome_iff_exists.1 hp
    exact Option.isSome_iff_exists.2 ⟨_, hst.kept p block hb⟩

theorem Sound.insert_gains (hs : s.WellFormed) (hk : s.find? key = none)
    (hp : s.hasPlace parent = true) (instruction : Instruction) :
    ∃ t h, s.insert key instruction parent = (t, some h) ∧
      s.Gains t h ⟨key, instruction, parent, []⟩ := by
  let new := s.occupy ⟨key, instruction, parent, []⟩
  have hfree : s.block? new.2 = none := hs.occupy_not_stored
  have hne : parent ≠ some new.2 := by
    intro hparent
    rw [hparent, Script.hasPlace, Option.all_some, hfree] at hp
    contradiction
  have hblock (x : Handle) : (new.1.modifySiblings parent (· ++ [new.2])).block? x =
      if x = new.2 then some ⟨key, instruction, parent, []⟩
      else (s.block? x).map fun b =>
        if parent = some x then { b with children := b.children ++ [new.2] } else b := by
    rw [block?_modifySiblings, block?_occupy (fun _ => hs.mem_vacant.1)]
    by_cases hx : x = new.2
    · subst hx
      rw [if_neg hne, if_pos rfl, if_pos rfl]
    · rw [if_neg hx, if_neg hx]
      split <;> simp
  refine ⟨_, new.2, hs.insert_eq hk hp instruction, ?_, hfree, ?_, ?_, hk, ?_, ?_⟩
  · refine ⟨id_modifySiblings.trans id_occupy, name_modifySiblings.trans name_occupy, ?_, ?_⟩
    · rw [roots_modifySiblings, roots_occupy]
    · intro x b hb
      have hx : x ≠ new.2 := by
        intro heq
        rw [← heq, hb] at hfree
        contradiction
      rw [hblock, if_neg hx, hb, Option.map_some]
  · rw [hblock, if_pos rfl]
  · intro x hx hn
    rw [hblock, if_neg hx, hn, Option.map_none]
  · intro other
    rw [find?_modifySiblings, find?_occupy]
  · rw [size_modifySiblings, size_occupy hk]

end BlockScript.Script
