import BlockScript.Proofs.Script.Ancestors
import BlockScript.Proofs.Thread.Step

namespace BlockScript

open Relation

/-- Whether a root is the one at which a trigger starts a script. -/
def Script.IsEntry (s : Script) (root : Handle) : Prop :=
  ∃ trigger : Trigger, s.firstRoot? trigger.opcode = some root

namespace Thread

variable {s : Script} {now : Float} {t t' : Thread} {a a' : Appearance} {ds hs : List Handle}
  {root h c : Handle}

/-- Containers that are stored, each in the tree of a root, which is the outermost of them. -/
structure Nested (s : Script) (root : Handle) (hs : List Handle) : Prop where
  outermost : ∀ h, hs.getLast? = some h → h = root
  stored : ∀ h ∈ hs, ∃ block, s.block? h = some block
  below : ∀ h ∈ hs, ReflTransGen s.HasParent h root

/-- A thread that is in the tree of a root. -/
def Inside (s : Script) (root : Handle) (t : Thread) : Prop :=
  Nested s root (t.stack.map (·.block))

theorem Nested.tail (hn : Nested s root (h :: hs)) : Nested s root hs where
  outermost last hlast := by
    apply hn.outermost
    rw [List.getLast?_cons, hlast]
    rfl
  stored := fun x hx => hn.stored x (List.mem_cons_of_mem h hx)
  below := fun x hx => hn.below x (List.mem_cons_of_mem h hx)

theorem Nested.child (hw : s.WellFormed) (hn : Nested s root (h :: hs)) (hc : c ∈ s.children h) :
    Nested s root (c :: h :: hs) := by
  have hparent : s.HasParent c h := hw.parentOf?_of_mem_children hc
  obtain ⟨block, hb, _⟩ := Script.exists_block_of_parentOf? hparent
  have hbelow : ReflTransGen s.HasParent c root :=
    .head hparent (hn.below h (List.mem_cons_self ..))
  constructor
  case outermost =>
    intro last hlast
    rw [List.getLast?_cons_cons] at hlast
    exact hn.outermost last hlast
  case stored => exact List.forall_mem_cons.2 ⟨⟨block, hb⟩, hn.stored⟩
  case below => exact List.forall_mem_cons.2 ⟨hbelow, hn.below⟩

theorem nextRound?_block {frame next : Frame} (hnext : nextRound? s frame = some next) :
    next.block = frame.block := by
  unfold nextRound? at hnext
  split at hnext
  · obtain rfl := Option.some.inj hnext
    rfl
  · dsimp only at hnext
    split at hnext
    · obtain rfl := Option.some.inj hnext
      rfl
    · contradiction
  · contradiction

theorem entered?_block {i : Instruction} {frame : Frame} (hentered : entered? h i = some frame) :
    frame.block = h := by
  unfold entered? at hentered
  split at hentered
  · obtain rfl := Option.some.inj hentered
    rfl
  · obtain rfl := Option.some.inj hentered
    rfl
  · contradiction

theorem Step.inside (hw : s.WellFormed) (hstep : Step s now t a ds t' a') (hin : t.Inside s root) :
    t'.Inside s root ∧ ∀ h ∈ ds, TransGen s.HasParent h root := by
  unfold Inside at hin
  cases hstep with
  | leave hstack hend hnext =>
    rw [hstack] at hin
    exact ⟨hin.tail, fun _ hh => absurd hh List.not_mem_nil⟩
  | again hstack hend hnext =>
    rw [hstack, List.map_cons, ← nextRound?_block hnext] at hin
    exact ⟨hin, fun _ hh => absurd hh List.not_mem_nil⟩
  | skip hstack hchild hnone =>
    rw [hstack] at hin
    exact ⟨hin, fun _ hh => absurd hh List.not_mem_nil⟩
  | @turn _ _ _ frame outer child instruction _ hstack hchild hi hturn =>
    rw [hstack, List.map_cons] at hin
    have hmem := List.mem_of_getElem? hchild
    have hstack' := congrArg (fun result => result.1.stack) hturn
    rw [dispatch_stack] at hstack'
    constructor
    · rw [Inside, ← hstack']
      cases hentered : entered? child instruction with
      | none => exact hin
      | some entered =>
        obtain rfl := entered?_block hentered
        exact hin.child hw hmem
    · intro h hh
      obtain rfl := List.mem_singleton.1 hh
      exact .head' (hw.parentOf?_of_mem_children hmem) (hin.below _ (List.mem_cons_self ..))

theorem Steps.inside (hw : s.WellFormed) (hsteps : Steps s now t a ds t' a')
    (hin : t.Inside s root) : t'.Inside s root ∧ ∀ h ∈ ds, TransGen s.HasParent h root := by
  induction hsteps with
  | refl => exact ⟨hin, fun _ hh => absurd hh List.not_mem_nil⟩
  | head first rest ih =>
    obtain ⟨hin', hfirst⟩ := first.inside hw hin
    obtain ⟨hin'', hrest⟩ := ih hin'
    exact ⟨hin'', fun h hh => (List.mem_append.1 hh).elim (hfirst h) (hrest h)⟩

theorem Inside.advance (hw : s.WellFormed) (hin : t.Inside s root) (a : Appearance) (now : Float) :
    (t.advance s a now).thread.Inside s root ∧
      ∀ h ∈ (t.advance s a now).dispatched, TransGen s.HasParent h root := by
  obtain ⟨t₀, a₀, t₁, hsteps, hstart, hend⟩ := advance_steps s t a now
  have hin₀ : t₀.Inside s root := by rwa [Inside, hstart]
  obtain ⟨hin₁, hdispatched⟩ := hsteps.inside hw hin₀
  rw [Inside, hend] at hin₁
  exact ⟨hin₁, hdispatched⟩

theorem inside_start (hentry : s.IsEntry root) : (start root).Inside s root := by
  obtain ⟨trigger, hroot⟩ := hentry
  have hopcode := List.find?_some hroot
  obtain ⟨i, hi, _⟩ := Option.bind_eq_some_iff.1 (of_decide_eq_true hopcode)
  obtain ⟨block, hb, _⟩ := Option.map_eq_some_iff.1 hi
  constructor
  case outermost =>
    intro h hh
    exact (Option.some.inj hh).symm
  case stored =>
    intro h hh
    obtain rfl := List.mem_singleton.1 hh
    exact ⟨block, hb⟩
  case below =>
    intro h hh
    obtain rfl := List.mem_singleton.1 hh
    exact .refl

end Thread

end BlockScript
