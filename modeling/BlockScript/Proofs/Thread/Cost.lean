import BlockScript.Proofs.Thread.Remaining

namespace BlockScript

mutual

/-- The number of steps for a block with what is run below it. Of a loop that has no end this is
only the step that begins it. -/
def Tree.cost : Tree → Nat
  | .node _ (.loop times) children => 1 + max 1 times.toNat * (Tree.costAll children + 1)
  | .node _ _ _ => 1

def Tree.costAll : List Tree → Nat
  | [] => 0
  | tree :: rest => tree.cost + Tree.costAll rest

end

theorem Tree.costAll_append (xs ys : List Tree) :
    Tree.costAll (xs ++ ys) = Tree.costAll xs + Tree.costAll ys := by
  induction xs with
  | nil => exact (Nat.zero_add _).symm
  | cons tree xs ih => rw [List.cons_append, Tree.costAll, ih, Tree.costAll, Nat.add_assoc]

namespace Thread

variable {s : Script} {now : Float} {t t' : Thread} {a a' : Appearance} {ds xs : List Handle}
  {frame next : Frame} {h : Handle} {i : Instruction} {stack : List Frame}

/-- The number of rounds of a counted loop after the one under way. -/
def roundsLeft (s : Script) (frame : Frame) : Nat :=
  match s.instruction? frame.block with
  | some (.loop times) => times.toNat - ((frame.completed.getD 0).toNat + 1)
  | _ => 0

/-- The number of steps until a container is left. -/
def cost (s : Script) (frame : Frame) : Nat :=
  Tree.costAll (s.trees ((s.children frame.block).drop frame.next)) + 1 +
    roundsLeft s frame * (Tree.costAll (s.trees (s.children frame.block)) + 1)

/-- The number of steps until a thread is at its end. -/
def costs (s : Script) : List Frame → Nat
  | [] => 0
  | frame :: outer => cost s frame + costs s outer

theorem costs_append (s : Script) (inner outer : List Frame) :
    costs s (inner ++ outer) = costs s inner + costs s outer := by
  induction inner with
  | nil => exact (Nat.zero_add _).symm
  | cons frame inner ih => rw [List.cons_append, costs, ih, costs, Nat.add_assoc]

theorem cost_pos (s : Script) (frame : Frame) : 0 < cost s frame :=
  Nat.add_pos_left (Nat.succ_pos _) _

theorem stack_nil_of_costs (hcosts : costs s stack = 0) : stack = [] := by
  cases stack with
  | nil => rfl
  | cons frame outer =>
    have hpos := cost_pos s frame
    rw [costs] at hcosts
    omega

theorem cost_of_end (hend : (s.children frame.block)[frame.next]? = none) :
    cost s frame =
      1 + roundsLeft s frame * (Tree.costAll (s.trees (s.children frame.block)) + 1) := by
  rw [cost, List.drop_eq_nil_of_le (List.getElem?_eq_none_iff.1 hend), Script.trees_nil,
    Tree.costAll, Nat.zero_add]

theorem cost_of_child (hchild : (s.children frame.block)[frame.next]? = some h) :
    cost s frame =
      Tree.costAll (s.trees [h]) + cost s { frame with next := frame.next + 1 } := by
  obtain ⟨hlt, rfl⟩ := List.getElem?_eq_some_iff.1 hchild
  have hdrop : s.trees ((s.children frame.block).drop frame.next) =
      s.trees [(s.children frame.block)[frame.next]] ++
        s.trees ((s.children frame.block).drop (frame.next + 1)) := by
    rw [← Script.trees_append, List.singleton_append, List.getElem_cons_drop]
  rw [cost, cost, hdrop, Tree.costAll_append, Nat.add_assoc, Nat.add_assoc, Nat.add_assoc]
  rfl

theorem cost_of_nextRound (hrange : frame.InRange) (hforever : ¬ s.IsForever next.block)
    (hend : (s.children frame.block)[frame.next]? = none)
    (hnext : nextRound? s frame = some next) : cost s frame = cost s next + 1 := by
  rw [cost_of_end hend]
  unfold nextRound? at hnext
  split at hnext
  · next hi =>
    obtain rfl := Option.some.inj hnext
    contradiction
  · next times hloop =>
    dsimp only at hnext
    split at hnext
    · next hlt =>
      obtain rfl := Option.some.inj hnext
      have hlt : (frame.completed.getD 0).toNat + 1 < times.toNat := by
        rw [← hrange.succ]
        exact UInt32.lt_iff_toNat_lt.1 hlt
      rw [cost, List.drop_zero, roundsLeft, roundsLeft, hloop]
      simp only [Option.getD_some, hrange.succ]
      obtain ⟨left, hleft⟩ := Nat.exists_eq_add_of_lt hlt
      rw [show times.toNat - ((frame.completed.getD 0).toNat + 1) = left + 1 by omega,
        show times.toNat - ((frame.completed.getD 0).toNat + 1 + 1) = left by omega,
        Nat.add_one_mul]
      omega
    · contradiction
  · contradiction

theorem cost_eq_costs_entered (hs : s.WellFormed) (hi : s.instruction? h = some i)
    (hforever : ¬ s.IsForever h) :
    Tree.costAll (s.trees [h]) = 1 + costs s (entered? h i).toList := by
  obtain ⟨block, hb, rfl⟩ := Option.map_eq_some_iff.1 hi
  rw [Script.trees_cons_of_tree (hs.tree?_eq hb), Script.trees_nil, Tree.costAll, Tree.costAll,
    Nat.add_zero]
  cases hinstr : block.instruction with
  | forever =>
    rw [hinstr] at hi
    contradiction
  | loop times =>
    have hchildren : s.children h = block.children := by
      rw [Script.children, hb]
      exact if_pos (by rw [hinstr]; rfl)
    rw [hinstr] at hi
    have hcosts : costs s (entered? h (.loop times)).toList = cost s ⟨h, 0, some 0⟩ :=
      Nat.add_zero _
    rw [hcosts, cost, List.drop_zero, roundsLeft, hi, hchildren, Tree.cost]
    have hmax : max 1 times.toNat = times.toNat - 1 + 1 := by omega
    rw [hmax, Nat.add_one_mul, Nat.add_comm (_ * _)]
    rfl
  | _ => rfl

theorem not_isForever_of_remaining (hfinite : remaining s stack = .finite xs) :
    ∀ frame ∈ stack, ¬ s.IsForever frame.block := by
  induction stack generalizing xs with
  | nil => exact fun _ hframe => absurd hframe List.not_mem_nil
  | cons frame outer ih =>
    obtain ⟨ys, zs, hrest, houter⟩ := Unrolling.finite_of_append hfinite
    have hframe : ¬ s.IsForever frame.block := by
      intro hforever
      obtain ⟨_, zs, _, hrounds⟩ := Unrolling.finite_of_append hrest
      rw [rounds, hforever] at hrounds
      exact Unrolling.forever_ne_finite hrounds
    exact List.forall_mem_cons.2 ⟨hframe, ih houter⟩

/-- A step that does not leave the thread in a loop without an end brings it nearer to its end. -/
theorem Step.costs_lt_of_not_isForever (hs : s.WellFormed) (hstep : Step s now t a ds t' a')
    (hrange : ∀ frame ∈ t.stack, frame.InRange)
    (hforever : ∀ frame ∈ t'.stack, ¬ s.IsForever frame.block) :
    costs s t'.stack < costs s t.stack := by
  cases hstep with
  | leave hstack hend hnext =>
    rw [hstack, costs]
    exact Nat.lt_add_of_pos_left (cost_pos s _)
  | again hstack hend hnext =>
    rw [hstack] at hrange
    have hcost := cost_of_nextRound (hrange _ (List.mem_cons_self ..))
      (hforever _ (List.mem_cons_self ..)) hend hnext
    rw [hstack, costs, costs, hcost]
    omega
  | skip hstack hchild hnone =>
    -- No list of a well-formed script holds a stale handle, so that there is nothing to skip.
    have hparent := hs.parentOf?_of_mem_children (List.mem_of_getElem? hchild)
    obtain ⟨block, hb, _⟩ := Script.exists_block_of_parentOf? hparent
    rw [Script.instruction?, hb] at hnone
    contradiction
  | @turn _ _ _ _ _ child _ _ hstack hchild hi hturn =>
    have hstack' := congrArg (fun result => result.1.stack) hturn
    rw [dispatch_stack] at hstack'
    simp only at hstack'
    rw [← hstack'] at hforever ⊢
    have hchildForever : ¬ s.IsForever child := by
      intro hf
      obtain rfl := Option.some.inj (hi.symm.trans hf)
      exact hforever _ (List.mem_cons_self ..) hf
    rw [hstack, costs_append, costs, costs, cost_of_child hchild,
      cost_eq_costs_entered hs hi hchildForever]
    omega

theorem Step.costs_lt (hs : s.WellFormed) (hstep : Step s now t a ds t' a')
    (hrange : ∀ frame ∈ t.stack, frame.InRange) (hfinite : remaining s t'.stack = .finite xs) :
    costs s t'.stack < costs s t.stack :=
  hstep.costs_lt_of_not_isForever hs hrange (not_isForever_of_remaining hfinite)

end Thread

end BlockScript
