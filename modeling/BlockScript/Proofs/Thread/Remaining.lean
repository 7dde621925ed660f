import BlockScript.Proofs.Script.Edits
import BlockScript.Proofs.Thread.Step
import BlockScript.Proofs.Thread.Unrolling

namespace BlockScript

def Script.IsTrigger (s : Script) (root : Handle) : Prop :=
  root ∈ s.roots ∧ (s.instruction? root = some .onStart ∨ s.instruction? root = some .onClick)

/-- A script that changes the color of an object back and forth twice. -/
def Script.flashing : Script :=
  (empty "script-1" "Flashing").after [.insert "start" .onStart none,
    .insert "twice" (.loop 2) (some ⟨0, 0⟩), .insert "red" (.paint ⟨255, 0, 0⟩) (some ⟨1, 0⟩),
    .insert "white" (.paint .white) (some ⟨1, 0⟩)]

theorem Script.flashing_wellFormed : Script.flashing.WellFormed :=
  (Sound.empty _ _).after _

theorem Script.flashing_isTrigger : Script.flashing.IsTrigger ⟨0, 0⟩ := by
  unfold IsTrigger
  decide

/-- The count of rounds is so low that one more does not make it overflow. -/
def Frame.InRange (frame : Frame) : Prop := (frame.completed.getD 0).toNat + 1 < UInt32.size

theorem Frame.inRange_of_zero {frame : Frame} (hzero : frame.completed.getD 0 = 0) :
    frame.InRange := by
  rw [Frame.InRange, hzero]
  decide

theorem Frame.InRange.succ {frame : Frame} (hrange : frame.InRange) :
    (frame.completed.getD 0 + 1).toNat = (frame.completed.getD 0).toNat + 1 := by
  rw [UInt32.toNat_add]
  exact Nat.mod_eq_of_lt hrange

namespace Thread

variable {s : Script} {now : Float} {t t' : Thread} {a a' : Appearance} {ds : List Handle}
  {frame next : Frame} {root h : Handle} {i : Instruction}

/-- The rounds of a loop after the one under way. -/
def rounds (s : Script) (frame : Frame) : Unrolling :=
  match s.instruction? frame.block with
  | some .forever => (s.unrolling frame.block).forever
  | some (.loop times) =>
    (s.unrolling frame.block).times (times.toNat - ((frame.completed.getD 0).toNat + 1))
  | _ => .finite []

/-- What a container still has to do: the rest of the round under way and all further rounds. -/
def rest (s : Script) (frame : Frame) : Unrolling :=
  (Tree.unrollAll (s.trees ((s.children frame.block).drop frame.next))).append (rounds s frame)

/-- What a stack of containers still has to do, from the innermost outwards. -/
def remaining (s : Script) : List Frame → Unrolling
  | [] => .finite []
  | frame :: outer => (rest s frame).append (remaining s outer)

theorem remaining_append (s : Script) (inner outer : List Frame) :
    remaining s (inner ++ outer) = (remaining s inner).append (remaining s outer) := by
  induction inner with
  | nil => exact (Unrolling.nil_append _).symm
  | cons frame inner ih =>
    rw [List.cons_append, remaining, ih, remaining, Unrolling.append_assoc]

theorem remaining_singleton (s : Script) (frame : Frame) : remaining s [frame] = rest s frame :=
  Unrolling.append_nil _

theorem rest_zero (s : Script) (h : Handle) (completed : Option UInt32) :
    rest s ⟨h, 0, completed⟩ = (s.unrolling h).append (rounds s ⟨h, 0, completed⟩) := rfl

theorem rest_of_end (hend : (s.children frame.block)[frame.next]? = none) :
    rest s frame = rounds s frame := by
  rw [rest, List.drop_eq_nil_of_le (List.getElem?_eq_none_iff.1 hend), Script.trees_nil,
    Tree.unrollAll, Unrolling.nil_append]

theorem rounds_of_nextRound (hrange : frame.InRange) (hnext : nextRound? s frame = some next) :
    rounds s frame = rest s next ∧ next.InRange := by
  unfold nextRound? at hnext
  split at hnext
  · next hforever =>
    obtain rfl := Option.some.inj hnext
    rw [rest_zero, rounds, rounds, hforever]
    exact ⟨(Unrolling.append_forever _).symm, Frame.inRange_of_zero rfl⟩
  · next times hloop =>
    dsimp only at hnext
    split at hnext
    · next hlt =>
      obtain rfl := Option.some.inj hnext
      have hlt : (frame.completed.getD 0).toNat + 1 < times.toNat := by
        rw [← hrange.succ]
        exact UInt32.lt_iff_toNat_lt.1 hlt
      constructor
      · obtain ⟨left, hleft⟩ := Nat.exists_eq_add_of_lt hlt
        rw [rest_zero, rounds, rounds, hloop]
        simp only [Option.getD_some, hrange.succ]
        rw [show times.toNat - ((frame.completed.getD 0).toNat + 1) = left + 1 by omega,
          show times.toNat - ((frame.completed.getD 0).toNat + 1 + 1) = left by omega,
          Unrolling.times]
      · have htimes := times.toNat_lt_size
        simp only [Frame.InRange, Option.getD_some, hrange.succ]
        omega
    · contradiction
  · contradiction

theorem rounds_of_not_nextRound (hrange : frame.InRange) (hnext : nextRound? s frame = none) :
    rounds s frame = .finite [] := by
  unfold nextRound? at hnext
  split at hnext
  · contradiction
  · next times hloop =>
    dsimp only at hnext
    split at hnext
    · contradiction
    · next hle =>
      have hle : times.toNat ≤ (frame.completed.getD 0).toNat + 1 := by
        rw [← hrange.succ]
        exact UInt32.le_iff_toNat_le.1 (UInt32.not_lt.1 hle)
      rw [rounds, hloop]
      simp only [Nat.sub_eq_zero_of_le hle, Unrolling.times]
  · next hforever hloop =>
    unfold rounds
    split
    · next hi => exact absurd hi hforever
    · next times hi => exact absurd hi (hloop times)
    · rfl

theorem inRange_of_entered (hentered : entered? h i = some frame) : frame.InRange := by
  unfold entered? at hentered
  split at hentered
  · obtain rfl := Option.some.inj hentered
    exact Frame.inRange_of_zero rfl
  · obtain rfl := Option.some.inj hentered
    exact Frame.inRange_of_zero rfl
  · contradiction

theorem unroll_eq_remaining (hs : s.WellFormed) (hi : s.instruction? h = some i) :
    ∃ tree, s.tree? h = some tree ∧
      tree.unroll = (Unrolling.finite [h]).append (remaining s (entered? h i).toList) := by
  obtain ⟨block, hb, rfl⟩ := Option.map_eq_some_iff.1 hi
  refine ⟨_, hs.tree?_eq hb, ?_⟩
  have hchildren (hc : block.instruction.isContainer = true) :
      s.unrolling h = Tree.unrollAll (s.trees block.children) := by
    rw [Script.unrolling, Script.children, hb]
    exact congrArg (fun list => Tree.unrollAll (s.trees list)) (if_pos hc)
  cases hinstr : block.instruction with
  | forever =>
    rw [hinstr] at hchildren hi
    rw [Tree.unroll, entered?, Option.toList, remaining_singleton, rest_zero, rounds, hi,
      hchildren rfl, Unrolling.append_forever]
  | loop times =>
    rw [hinstr] at hchildren hi
    rw [Tree.unroll, entered?, Option.toList, remaining_singleton, rest_zero, rounds, hi,
      hchildren rfl]
    have hmax : max 1 times.toNat = times.toNat - 1 + 1 := by omega
    rw [hmax, Unrolling.times]
    rfl
  | _ => rfl

theorem rest_of_child {child : Handle}
    (hchild : (s.children frame.block)[frame.next]? = some child) :
    rest s frame = (Tree.unrollAll (s.trees [child])).append
      (rest s { frame with next := frame.next + 1 }) := by
  obtain ⟨hlt, rfl⟩ := List.getElem?_eq_some_iff.1 hchild
  rw [rest, rest, ← Unrolling.append_assoc, ← Tree.unrollAll_append, ← Script.trees_append,
    List.singleton_append, List.getElem_cons_drop]
  rfl

/-- A step dispatches what comes first in what remains, and nothing gets lost. -/
theorem Step.remaining_eq (hs : s.WellFormed) (hstep : Step s now t a ds t' a')
    (hrange : ∀ frame ∈ t.stack, frame.InRange) :
    remaining s t.stack = (Unrolling.finite ds).append (remaining s t'.stack) ∧
      ∀ frame ∈ t'.stack, frame.InRange := by
  cases hstep with
  | leave hstack hend hnext =>
    rw [hstack] at hrange ⊢
    obtain ⟨hframe, houter⟩ := List.forall_mem_cons.1 hrange
    refine ⟨?_, houter⟩
    rw [remaining, rest_of_end hend, rounds_of_not_nextRound hframe hnext]
  | again hstack hend hnext =>
    -- The count in the new frame takes exactly one round off those that are still to come.
    rw [hstack] at hrange ⊢
    obtain ⟨hframe, houter⟩ := List.forall_mem_cons.1 hrange
    obtain ⟨hrounds, hnextrange⟩ := rounds_of_nextRound hframe hnext
    refine ⟨?_, List.forall_mem_cons.2 ⟨hnextrange, houter⟩⟩
    rw [Unrolling.nil_append, remaining, rest_of_end hend, hrounds, remaining]
  | skip hstack hchild hnone =>
    rw [hstack] at hrange ⊢
    obtain ⟨hframe, houter⟩ := List.forall_mem_cons.1 hrange
    refine ⟨?_, List.forall_mem_cons.2 ⟨hframe, houter⟩⟩
    have hb := Option.map_eq_none_iff.1 hnone
    rw [Unrolling.nil_append, remaining, rest_of_child hchild, Script.trees_cons_of_not_stored hb,
      Script.trees_nil, Tree.unrollAll, Unrolling.nil_append, remaining]
  | turn hstack hchild hi hturn =>
    have hstack' := congrArg (fun result => result.1.stack) hturn
    rw [dispatch_stack] at hstack'
    rw [hstack] at hrange ⊢
    obtain ⟨hframe, houter⟩ := List.forall_mem_cons.1 hrange
    obtain ⟨tree, htree, hunroll⟩ := unroll_eq_remaining hs hi
    simp only at hstack'
    rw [← hstack']
    constructor
    · rw [remaining, rest_of_child hchild, Script.trees_cons_of_tree htree, Script.trees_nil,
        Tree.unrollAll_singleton, hunroll, remaining_append, remaining, Unrolling.append_assoc,
        Unrolling.append_assoc]
    · intro entered hentered
      rcases List.mem_append.1 hentered with hentered | hentered
      · exact inRange_of_entered (Option.mem_toList.1 hentered)
      · rcases List.mem_cons.1 hentered with rfl | hentered
        · exact hframe
        · exact houter entered hentered

theorem Steps.remaining_eq (hs : s.WellFormed) (hsteps : Steps s now t a ds t' a')
    (hrange : ∀ frame ∈ t.stack, frame.InRange) :
    remaining s t.stack = (Unrolling.finite ds).append (remaining s t'.stack) ∧
      ∀ frame ∈ t'.stack, frame.InRange := by
  induction hsteps with
  | refl => exact ⟨(Unrolling.nil_append _).symm, hrange⟩
  | head first rest ih =>
    obtain ⟨hfirst, hrange'⟩ := first.remaining_eq hs hrange
    obtain ⟨hrest, hrange''⟩ := ih hrange'
    refine ⟨?_, hrange''⟩
    rw [hfirst, hrest, ← Unrolling.append_assoc]
    rfl

theorem remaining_advance (hs : s.WellFormed) (hrange : ∀ frame ∈ t.stack, frame.InRange)
    (a : Appearance) (now : Float) :
    remaining s t.stack = (Unrolling.finite (t.advance s a now).dispatched).append
        (remaining s (t.advance s a now).thread.stack) ∧
      ∀ frame ∈ (t.advance s a now).thread.stack, frame.InRange := by
  obtain ⟨t₀, a₀, t₁, hsteps, hstart, hend⟩ := advance_steps s t a now
  rw [← hstart] at hrange ⊢
  rw [← hend]
  exact hsteps.remaining_eq hs hrange

theorem remaining_of_advances (hs : s.WellFormed) (times : List Float)
    (hrange : ∀ frame ∈ t.stack, frame.InRange) :
    remaining s t.stack = (Unrolling.finite (t.advances s a times).dispatched).append
      (remaining s (t.advances s a times).thread.stack) := by
  induction times generalizing t a with
  | nil => exact (Unrolling.nil_append _).symm
  | cons now times ih =>
    obtain ⟨hfirst, hrange'⟩ := remaining_advance hs hrange a now
    rw [hfirst, ih hrange', ← Unrolling.append_assoc]
    rfl

theorem stack_nil_of_advances (times : List Float) (hdone : t.active = false → t.stack = [])
    (h : (t.advances s a times).thread.active = false) :
    (t.advances s a times).thread.stack = [] := by
  induction times generalizing t a with
  | nil => exact hdone h
  | cons now times ih => exact ih (stack_nil_of_advance hdone) h

theorem inRange_start (root : Handle) : ∀ frame ∈ (start root).stack, frame.InRange := by
  intro frame hframe
  obtain rfl := List.mem_singleton.1 hframe
  exact Frame.inRange_of_zero rfl

theorem remaining_start (hr : s.IsTrigger root) :
    remaining s (start root).stack = s.unrolling root := by
  have hrounds : rounds s ⟨root, 0, none⟩ = .finite [] := by
    rcases hr.2 with hi | hi
    · rw [rounds, hi]
    · rw [rounds, hi]
  rw [start, remaining_singleton, rest_zero, hrounds, Unrolling.append_nil]

/-- What has been dispatched from the start of a root on, and what remains, is the unrolling. -/
theorem unrolling_eq_dispatched_append (hs : s.WellFormed) (hr : s.IsTrigger root)
    (a : Appearance) (times : List Float) :
    s.unrolling root = (Unrolling.finite ((start root).advances s a times).dispatched).append
      (remaining s ((start root).advances s a times).thread.stack) := by
  rw [← remaining_start hr]
  exact remaining_of_advances hs times (inRange_start root)

/-- Wherever the budget, a loop that starts over or a suspension cuts the run of a thread, the
blocks it has dispatched are the first ones of the unrolling, and a thread that has ended has
dispatched all of it. -/
theorem dispatched_of_unrolling (hs : s.WellFormed) (hr : s.IsTrigger root) (a : Appearance)
    (times : List Float) :
    (s.unrolling root).StartsWith ((start root).advances s a times).dispatched ∧
      (((start root).advances s a times).thread.active = false →
        s.unrolling root = .finite ((start root).advances s a times).dispatched) := by
  have hunrolling := unrolling_eq_dispatched_append hs hr a times
  constructor
  · rw [hunrolling]
    exact Unrolling.startsWith_append _ _
  · intro hinactive
    have hnil := stack_nil_of_advances times (by simp [start]) hinactive
    rw [hnil, remaining, Unrolling.append_nil] at hunrolling
    exact hunrolling

theorem dispatched_of_unrolling_flashing :
    Script.flashing.WellFormed ∧ Script.flashing.IsTrigger ⟨0, 0⟩ ∧
      Script.flashing.unrolling ⟨0, 0⟩ = .finite [⟨1, 0⟩, ⟨2, 0⟩, ⟨3, 0⟩, ⟨2, 0⟩, ⟨3, 0⟩] := by
  refine ⟨Script.flashing_wellFormed, Script.flashing_isTrigger, ?_⟩
  have hdispatched := (dispatched_of_unrolling Script.flashing_wellFormed Script.flashing_isTrigger
    ⟨.identity, .white⟩ [0, 1, 2]).2 (by decide +kernel)
  rw [hdispatched]
  exact congrArg Unrolling.finite (by decide +kernel)

end Thread

end BlockScript
