import BlockScript.Proofs.Thread.Inside
import BlockScript.Proofs.Thread.Remaining
import BlockScript.Proofs.Thread.Ticks

namespace BlockScript

mutual

def Tree.levels : Tree → Nat
  | .node _ _ children => Tree.levelsAll children + 1

def Tree.levelsAll : List Tree → Nat
  | [] => 0
  | tree :: rest => max tree.levels (Tree.levelsAll rest)

end

theorem Tree.levels_le_of_mem {tree : Tree} {trees : List Tree} (h : tree ∈ trees) :
    tree.levels ≤ Tree.levelsAll trees := by
  induction trees with
  | nil => exact absurd h List.not_mem_nil
  | cons first trees ih =>
    rw [Tree.levelsAll]
    rcases List.mem_cons.1 h with rfl | h
    · exact Nat.le_max_left _ _
    · exact Nat.le_trans (ih h) (Nat.le_max_right _ _)

namespace Script

variable {s : Script} {h c : Handle} {block : Block}

/-- How deeply blocks are nested from a block on. -/
def levels (s : Script) (h : Handle) : Nat := ((s.tree? h).map Tree.levels).getD 0

theorem Sound.levels_eq (hs : s.WellFormed) (hb : s.block? h = some block) :
    s.levels h = Tree.levelsAll (s.trees block.children) + 1 := by
  rw [levels, hs.tree?_eq hb]
  rfl

theorem Sound.levels_pos (hs : s.WellFormed) (hb : s.block? h = some block) : 0 < s.levels h := by
  rw [hs.levels_eq hb]
  exact Nat.succ_pos _

theorem Sound.levels_lt (hs : s.WellFormed) (hc : c ∈ s.children h) : s.levels c < s.levels h := by
  have hparent := hs.parentOf?_of_mem_children hc
  obtain ⟨child, hchild, _⟩ := exists_block_of_parentOf? hparent
  obtain ⟨block, hb⟩ := hs.parent_stored hparent List.not_mem_nil
  have hmem : c ∈ block.children := (hs.mem_children hb c).2 ⟨List.not_mem_nil, hparent⟩
  have htree := hs.tree?_eq hchild
  have hbelow : _ ∈ s.trees block.children := List.mem_filterMap.2 ⟨c, hmem, htree⟩
  rw [hs.levels_eq hb, levels, htree]
  exact Nat.lt_succ_of_le (Tree.levels_le_of_mem hbelow)

end Script

namespace Thread

open Relation Script

variable {s : Script} {now : Float} {t t' : Thread} {a a' : Appearance} {ds : List Handle}
  {frame next outer : Frame} {rest stack : List Frame} {root h c : Handle}

/-- Whether a frame is one of a loop, and has the count of rounds that such a loop can have. -/
inductive CountsRounds (s : Script) (frame : Frame) : Prop
  | forever (hi : s.instruction? frame.block = some .forever) (hcompleted : frame.completed = none)
  | loop {times completed : UInt32} (hi : s.instruction? frame.block = some (.loop times))
      (hcompleted : frame.completed = some completed) (hlt : completed.toNat < max 1 times.toNat)

/-- A path from the root down, given from its end upwards. -/
inductive Path (s : Script) (root : Handle) : List Frame → Prop
  | nil : Path s root []
  | root {frame : Frame} (hblock : frame.block = root) (hcompleted : frame.completed = none)
      (hnext : frame.next ≤ (s.children frame.block).length) : Path s root [frame]
  | inner {frame outer : Frame} {rest : List Frame} (hcounts : CountsRounds s frame)
      (hnext : frame.next ≤ (s.children frame.block).length) (hbegun : 1 ≤ outer.next)
      (hchild : (s.children outer.block)[outer.next - 1]? = some frame.block)
      (hpath : Path s root (outer :: rest)) : Path s root (frame :: outer :: rest)

theorem Path.tail (hpath : Path s root (frame :: rest)) : Path s root rest := by
  cases hpath with
  | root => exact .nil
  | inner _ _ _ _ hpath => exact hpath

theorem Path.next_le (hpath : Path s root (frame :: rest)) :
    frame.next ≤ (s.children frame.block).length := by
  cases hpath with
  | root _ _ hnext => exact hnext
  | inner _ hnext => exact hnext

/-- The innermost container may be at any of its children. -/
theorem Path.move (hpath : Path s root (frame :: rest)) {next : Nat}
    (hnext : next ≤ (s.children frame.block).length) :
    Path s root ({ frame with next } :: rest) := by
  cases hpath with
  | root hblock hcompleted => exact .root hblock hcompleted hnext
  | inner hcounts _ hbegun hchild hpath =>
    refine .inner ?_ hnext hbegun hchild hpath
    cases hcounts with
    | forever hi hcompleted => exact .forever hi hcompleted
    | loop hi hcompleted hlt => exact .loop hi hcompleted hlt

theorem countsRounds_of_nextRound (hnext : nextRound? s frame = some next) :
    CountsRounds s next ∧ next.next = 0 := by
  unfold nextRound? at hnext
  split at hnext
  · next hi =>
    obtain rfl := Option.some.inj hnext
    exact ⟨.forever hi rfl, rfl⟩
  · next times hi =>
    dsimp only at hnext
    split at hnext
    · next hlt =>
      obtain rfl := Option.some.inj hnext
      have hlt := UInt32.lt_iff_toNat_lt.1 hlt
      exact ⟨.loop hi rfl (by omega), rfl⟩
    · contradiction
  · contradiction

theorem countsRounds_of_entered {i : Instruction} (hi : s.instruction? h = some i)
    (hentered : entered? h i = some frame) : CountsRounds s frame ∧ frame.next = 0 := by
  unfold entered? at hentered
  split at hentered
  · obtain rfl := Option.some.inj hentered
    exact ⟨.forever hi rfl, rfl⟩
  · obtain rfl := Option.some.inj hentered
    have hzero : (0 : UInt32).toNat = 0 := rfl
    exact ⟨.loop hi rfl (by omega), rfl⟩
  · contradiction

theorem nextRound?_of_trigger
    (hr : s.instruction? root = some .onStart ∨ s.instruction? root = some .onClick)
    (hblock : frame.block = root) : nextRound? s frame = none := by
  subst hblock
  rcases hr with hi | hi <;> rw [nextRound?, hi]

theorem Step.path
    (hr : s.instruction? root = some .onStart ∨ s.instruction? root = some .onClick)
    (hstep : Step s now t a ds t' a') (hpath : Path s root t.stack) : Path s root t'.stack := by
  cases hstep with
  | leave hstack hend hnext =>
    rw [hstack] at hpath
    exact hpath.tail
  | again hstack hend hnext =>
    rw [hstack] at hpath
    cases hpath with
    | root hblock =>
      rw [nextRound?_of_trigger hr hblock] at hnext
      contradiction
    | inner _ _ hbegun hchild hpath =>
      obtain ⟨hcounts, hzero⟩ := countsRounds_of_nextRound hnext
      rw [← nextRound?_block hnext] at hchild
      exact .inner hcounts (by rw [hzero]; exact Nat.zero_le _) hbegun hchild hpath
  | skip hstack hchild hnone =>
    rw [hstack] at hpath
    exact hpath.move (List.getElem?_eq_some_iff.1 hchild).1
  | @turn _ _ _ frame outer child i _ hstack hchild hi hturn =>
    rw [hstack] at hpath
    have hmoved := hpath.move (List.getElem?_eq_some_iff.1 hchild).1
    have hstack' := congrArg (fun result => result.1.stack) hturn
    rw [dispatch_stack] at hstack'
    rw [← hstack']
    cases hentered : entered? child i with
    | none => exact hmoved
    | some entered =>
      obtain ⟨hcounts, hzero⟩ := countsRounds_of_entered hi hentered
      have hblock := entered?_block hentered
      refine .inner hcounts (by rw [hzero]; exact Nat.zero_le _) (Nat.succ_pos _) ?_ hmoved
      rw [hblock]
      exact hchild

theorem Steps.path
    (hr : s.instruction? root = some .onStart ∨ s.instruction? root = some .onClick)
    (hsteps : Steps s now t a ds t' a') (hpath : Path s root t.stack) : Path s root t'.stack := by
  induction hsteps with
  | refl => exact hpath
  | head first _ ih => exact ih (first.path hr hpath)

theorem path_after
    (hr : s.instruction? root = some .onStart ∨ s.instruction? root = some .onClick)
    (ticks : List (Float × Appearance)) : Path s root ((start root).after s ticks).stack := by
  apply after_of_advance (P := fun t => Path s root t.stack)
  · exact .root rfl rfl (Nat.zero_le _)
  · intro t a now hpath
    obtain ⟨t₀, a₀, t₁, hsteps, hstart, hend⟩ := advance_steps s t a now
    rw [← hend]
    rw [← hstart] at hpath
    exact hsteps.path hr hpath

theorem Path.bottom (hpath : Path s root stack) (hlast : stack.getLast? = some frame) :
    frame.block = root := by
  induction hpath with
  | nil => contradiction
  | root hblock =>
    obtain rfl := Option.some.inj hlast
    exact hblock
  | inner _ _ _ _ _ ih => exact ih hlast

theorem Path.next_le_of_mem (hpath : Path s root stack) (hframe : frame ∈ stack) :
    frame.next ≤ (s.children frame.block).length := by
  induction stack with
  | nil => exact absurd hframe List.not_mem_nil
  | cons first rest ih =>
    rcases List.mem_cons.1 hframe with rfl | hframe
    · exact hpath.next_le
    · exact ih hpath.tail hframe

theorem Path.link (hpath : Path s root stack) {i : Nat} (hframe : stack[i]? = some frame)
    (houter : stack[i + 1]? = some outer) :
    1 ≤ outer.next ∧ (s.children outer.block)[outer.next - 1]? = some frame.block ∧
      CountsRounds s frame := by
  induction i generalizing stack with
  | zero =>
    cases hpath with
    | nil => contradiction
    | root => contradiction
    | inner hcounts _ hbegun hchild =>
      obtain rfl := Option.some.inj hframe
      obtain rfl := Option.some.inj houter
      exact ⟨hbegun, hchild, hcounts⟩
  | succ i ih =>
    cases stack with
    | nil => contradiction
    | cons first rest => exact ih hpath.tail hframe houter

theorem Path.pairwise (hs : s.WellFormed) (hpath : Path s root stack) :
    stack.Pairwise fun frame outer => TransGen s.HasParent frame.block outer.block := by
  induction hpath with
  | nil => exact .nil
  | root => exact List.pairwise_singleton _ _
  | inner _ _ _ hchild _ ih =>
    have hparent : s.HasParent _ _ := hs.parentOf?_of_mem_children (List.mem_of_getElem? hchild)
    refine List.pairwise_cons.2 ⟨List.forall_mem_cons.2 ⟨.single hparent, ?_⟩, ih⟩
    exact fun x hx => .head hparent ((List.pairwise_cons.1 ih).1 x hx)

theorem CountsRounds.inRange (h : CountsRounds s frame) : frame.InRange := by
  cases h with
  | forever _ hcompleted => exact Frame.inRange_of_zero (by rw [hcompleted, Option.getD_none])
  | @loop times completed _ hcompleted hlt =>
    have htimes := times.toNat_lt_size
    have hone : 1 < UInt32.size := by decide
    rw [Frame.InRange, hcompleted, Option.getD_some]
    omega

theorem Path.inRange (hpath : Path s root stack) : ∀ frame ∈ stack, frame.InRange := by
  induction hpath with
  | nil => exact fun _ hframe => absurd hframe List.not_mem_nil
  | root _ hcompleted =>
    intro frame hframe
    obtain rfl := List.mem_singleton.1 hframe
    exact Frame.inRange_of_zero (by rw [hcompleted, Option.getD_none])
  | inner hcounts _ _ _ _ ih => exact List.forall_mem_cons.2 ⟨hcounts.inRange, ih⟩

theorem Path.length_add_levels_le (hs : s.WellFormed) (hpath : Path s root (frame :: rest)) :
    rest.length + s.levels frame.block ≤ s.levels root := by
  induction rest generalizing frame with
  | nil =>
    cases hpath with
    | root hblock =>
      subst hblock
      exact Nat.le_of_eq (Nat.zero_add _)
  | cons outer rest ih =>
    cases hpath with
    | inner _ _ _ hchild hpath =>
      have hlevels := hs.levels_lt (List.mem_of_getElem? hchild)
      have houter := ih hpath
      rw [List.length_cons]
      omega

theorem Path.stored (hs : s.WellFormed) (hroot : ∃ block, s.block? root = some block)
    (hpath : Path s root (frame :: rest)) : ∃ block, s.block? frame.block = some block := by
  cases hpath with
  | root hblock =>
    rw [hblock]
    exact hroot
  | inner _ _ _ hchild =>
    have hparent := hs.parentOf?_of_mem_children (List.mem_of_getElem? hchild)
    obtain ⟨block, hb, _⟩ := exists_block_of_parentOf? hparent
    exact ⟨block, hb⟩

theorem Path.length_le_levels (hs : s.WellFormed) (hroot : ∃ block, s.block? root = some block)
    (hpath : Path s root stack) : stack.length ≤ s.levels root := by
  cases stack with
  | nil => exact Nat.zero_le _
  | cons frame rest =>
    have hlevels := hpath.length_add_levels_le hs
    obtain ⟨block, hb⟩ := hpath.stored hs hroot
    have hpos := hs.levels_pos hb
    rw [List.length_cons]
    omega

/-- However many ticks there have been, and whatever the object was like in them, a thread that was
started at a root stands on a path down from that root: each container has come to the next one on
the way, all but the root are loops with a count that one more round does not make overflow, and
there are not more of them than the tree has levels. The thread is active as long as there are
any. -/
theorem stack_after (hs : s.WellFormed)
    (hr : s.instruction? root = some .onStart ∨ s.instruction? root = some .onClick)
    (ticks : List (Float × Appearance)) :
    let t := (start root).after s ticks
    (∀ frame, t.stack.getLast? = some frame → frame.block = root) ∧
      (∀ frame ∈ t.stack, frame.next ≤ (s.children frame.block).length) ∧
      (∀ (i : Nat) frame outer, t.stack[i]? = some frame → t.stack[i + 1]? = some outer →
        1 ≤ outer.next ∧ (s.children outer.block)[outer.next - 1]? = some frame.block ∧
          CountsRounds s frame) ∧
      t.depth ≤ s.levels root ∧
      (∀ frame ∈ t.stack, frame.InRange) ∧ (t.active = true ↔ t.stack ≠ []) := by
  intro t
  have hpath : Path s root t.stack := path_after hr ticks
  have hactive : t.active = !t.stack.isEmpty := active_after root ticks
  have hroot : ∃ block, s.block? root = some block := by
    rcases hr with hi | hi
    · exact (Option.map_eq_some_iff.1 hi).imp fun _ => And.left
    · exact (Option.map_eq_some_iff.1 hi).imp fun _ => And.left
  refine ⟨fun _ => hpath.bottom, fun _ => hpath.next_le_of_mem, fun _ _ _ => hpath.link,
    hpath.length_le_levels hs hroot, hpath.inRange, ?_⟩
  rw [hactive]
  simp

theorem stack_after_flashing :
    let t := (start ⟨0, 0⟩).after Script.flashing [(0, .default)]
    t.stack = [⟨⟨1, 0⟩, 0, some 1⟩, ⟨⟨0, 0⟩, 1, none⟩] ∧ t.depth ≤ 3 ∧
      CountsRounds Script.flashing ⟨⟨1, 0⟩, 0, some 1⟩ ∧ (t.active = true ↔ t.stack ≠ []) := by
  intro t
  have hstack : t.stack = [⟨⟨1, 0⟩, 0, some 1⟩, ⟨⟨0, 0⟩, 1, none⟩] := by decide +kernel
  obtain ⟨_, _, hlink, hdepth, _, hactive⟩ :=
    stack_after Script.flashing_wellFormed Script.flashing_isTrigger.2 [(0, .default)]
  obtain ⟨_, _, hcounts⟩ := hlink 0 _ _ (congrArg (·[0]?) hstack) (congrArg (·[1]?) hstack)
  have hlevels : Script.flashing.levels ⟨0, 0⟩ = 3 := rfl
  rw [hlevels] at hdepth
  exact ⟨hstack, hdepth, hcounts, hactive⟩

end Thread

end BlockScript
