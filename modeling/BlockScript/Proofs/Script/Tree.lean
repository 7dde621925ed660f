import BlockScript.Proofs.Script.Ancestors

namespace BlockScript

/-- A block with all that is stored below it. -/
inductive Tree where
  | node (handle : Handle) (instruction : Instruction) (children : List Tree)

namespace Script

variable {s : Script} {h : Handle} {n : Nat} {block : Block}

def treeWithin (s : Script) : Nat → Handle → Option Tree
  | 0, _ => none
  | levels + 1, h => (s.block? h).map fun block =>
    .node h block.instruction (block.children.filterMap (s.treeWithin levels))

/-- The tree of a block, if there is one. There are no more levels than slots. -/
def tree? (s : Script) (h : Handle) : Option Tree := s.treeWithin s.slots.size h

def trees (s : Script) (list : List Handle) : List Tree := list.filterMap s.tree?

theorem tree?_of_not_stored (hb : s.block? h = none) : s.tree? h = none := by
  rw [tree?]
  cases s.slots.size with
  | zero => rfl
  | succ n => rw [treeWithin, hb]; rfl

theorem Sound.treeWithin_succ (hs : s.WellFormed) (hb : s.block? h = some block)
    (hn : s.slots.size ≤ n + (s.ancestors h).length) :
    s.treeWithin (n + 1) h = s.treeWithin n h := by
  induction n generalizing h block with
  | zero =>
    have hlt : (s.ancestors h).length < s.slots.size := hs.length_ancestorsWithin_lt hb
    omega
  | succ n ih =>
    have hc : block.children.filterMap (s.treeWithin (n + 1)) =
        block.children.filterMap (s.treeWithin n) := by
      apply List.filterMap_congr
      intro c hc
      have hp := ((hs.mem_children hb c).1 hc).2
      obtain ⟨child, hchild, _⟩ := exists_block_of_parentOf? hp
      apply ih hchild
      rw [hs.ancestors_of_parent hp, List.length_cons]
      omega
    rw [treeWithin, treeWithin, hb, Option.map_some, Option.map_some, hc]

theorem Sound.tree?_eq (hs : s.WellFormed) (hb : s.block? h = some block) :
    s.tree? h = some (.node h block.instruction (s.trees block.children)) := by
  rw [tree?, ← hs.treeWithin_succ hb (Nat.le_add_right _ _), treeWithin, hb]
  rfl

/-- Induction from the leaves of the trees upwards. -/
theorem Sound.upwards (hs : s.WellFormed) {P : Handle → Prop}
    (step : ∀ h block, s.block? h = some block → (∀ c ∈ block.children, P c) → P h)
    (hb : s.block? h = some block) : P h := by
  induction hn : s.slots.size - (s.ancestors h).length using Nat.strongRecOn
    generalizing h block with
  | ind n ih =>
    apply step h block hb
    intro c hc
    have hp := ((hs.mem_children hb c).1 hc).2
    obtain ⟨child, hchild, _⟩ := exists_block_of_parentOf? hp
    have hlevels := hs.ancestors_of_parent hp
    have hlt : (s.ancestors c).length < s.slots.size := hs.length_ancestorsWithin_lt hchild
    have hless : s.slots.size - (s.ancestors c).length < n := by
      rw [hlevels, List.length_cons] at hlt ⊢
      omega
    exact ih _ hless hchild rfl

theorem trees_nil : s.trees [] = [] := rfl

theorem trees_append (xs ys : List Handle) : s.trees (xs ++ ys) = s.trees xs ++ s.trees ys :=
  List.filterMap_append

theorem trees_cons_of_tree {tree : Tree} {list : List Handle} (ht : s.tree? h = some tree) :
    s.trees (h :: list) = tree :: s.trees list :=
  List.filterMap_cons_some ht

theorem trees_cons_of_not_stored {list : List Handle} (hb : s.block? h = none) :
    s.trees (h :: list) = s.trees list :=
  List.filterMap_cons_none (tree?_of_not_stored hb)

end Script

end BlockScript
