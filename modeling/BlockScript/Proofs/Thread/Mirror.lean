import BlockScript.Proofs.Script.Requests
import BlockScript.Proofs.Thread.Step

namespace BlockScript

/-- Whether two handles find blocks of the same key. -/
def Script.Matches (s t : Script) (h h' : Handle) : Prop :=
  ∃ key, s.keyOf? h = some key ∧ t.keyOf? h' = some key

structure Frame.Matches (s t : Script) (frame frame' : Frame) : Prop where
  block : s.Matches t frame.block frame'.block
  next : frame.next = frame'.next
  completed : frame.completed = frame'.completed

structure Thread.Matches (s t : Script) (u v : Thread) : Prop where
  stack : List.Forall₂ (Frame.Matches s t) u.stack v.stack
  wakeTime : u.wakeTime = v.wakeTime
  action : u.action = v.action
  active : u.active = v.active

structure Advance.Matches (s t : Script) (x y : Advance) : Prop where
  thread : x.thread.Matches s t y.thread
  appearance : x.appearance = y.appearance
  steps : x.steps = y.steps
  dispatched : List.Forall₂ (s.Matches t) x.dispatched y.dispatched

theorem Advance.Matches.step {s t : Script} {x y : Advance} (h : x.Matches s t y)
    {ds ds' : List Handle} (hd : List.Forall₂ (s.Matches t) ds ds') :
    ({ x with steps := x.steps + 1, dispatched := ds ++ x.dispatched } : Advance).Matches s t
      { y with steps := y.steps + 1, dispatched := ds' ++ y.dispatched } where
  thread := h.thread
  appearance := h.appearance
  steps := congrArg (· + 1) h.steps
  dispatched := List.rel_append hd h.dispatched

/-- Two scripts that show the same forest, in whatever slots. -/
structure Script.Alike (s t : Script) : Prop where
  left : s.WellFormed
  right : t.WellFormed
  outline : s.outline = t.outline

namespace Script

variable {s t : Script} {h h' : Handle}

theorem forall₂_of_keysOf {list list' : List Handle}
    (hl : ∀ x ∈ list, ∃ key, s.keyOf? x = some key) (hl' : ∀ x ∈ list', ∃ key, t.keyOf? x = some key)
    (hkeys : s.keysOf list = t.keysOf list') : List.Forall₂ (s.Matches t) list list' := by
  induction list generalizing list' with
  | nil =>
    cases list' with
    | nil => exact .nil
    | cons x' list' =>
      obtain ⟨key, hkey⟩ := hl' x' (List.mem_cons_self ..)
      rw [keysOf_cons hkey] at hkeys
      contradiction
  | cons x list ih =>
    obtain ⟨key, hkey⟩ := hl x (List.mem_cons_self ..)
    rw [keysOf_cons hkey] at hkeys
    cases list' with
    | nil => contradiction
    | cons x' list' =>
      obtain ⟨key', hkey'⟩ := hl' x' (List.mem_cons_self ..)
      rw [keysOf_cons hkey', List.cons.injEq] at hkeys
      obtain ⟨rfl, hkeys⟩ := hkeys
      refine .cons ⟨key, hkey, hkey'⟩ (ih ?_ ?_ hkeys)
      · exact fun y hy => hl y (List.mem_cons_of_mem x hy)
      · exact fun y hy => hl' y (List.mem_cons_of_mem x' hy)

theorem Sound.keyOf?_of_mem_children (hs : s.WellFormed) {c : Handle} (hc : c ∈ s.children h) :
    ∃ key, s.keyOf? c = some key := by
  obtain ⟨block, hb, _⟩ := exists_block_of_parentOf? (hs.parentOf?_of_mem_children hc)
  exact ⟨block.key, keyOf?_of_block? hb⟩

namespace Alike

variable (ha : s.Alike t)

include ha

theorem entry (hm : s.Matches t h h') : ∃ block block', s.block? h = some block ∧
    t.block? h' = some block' ∧ block.instruction = block'.instruction ∧
    s.keysOf block.children = t.keysOf block'.children := by
  obtain ⟨key, hk, hk'⟩ := hm
  obtain ⟨block, hb, rfl⟩ := Option.map_eq_some_iff.1 hk
  obtain ⟨block', hb', hkey⟩ := Option.map_eq_some_iff.1 hk'
  have he := ha.left.lookup?_of_block? hb
  rw [ha.outline, ← hkey, ha.right.lookup?_of_block? hb', Option.some.injEq] at he
  refine ⟨block, block', hb, hb', ?_, ?_⟩
  · exact (congrArg Entry.instruction he).symm
  · exact (congrArg Entry.children he).symm

theorem instruction? (hm : s.Matches t h h') : s.instruction? h = t.instruction? h' := by
  obtain ⟨block, block', hb, hb', hi, _⟩ := ha.entry hm
  rw [Script.instruction?, Script.instruction?, hb, hb', Option.map_some, Option.map_some, hi]

theorem children (hm : s.Matches t h h') :
    List.Forall₂ (s.Matches t) (s.children h) (t.children h') := by
  apply forall₂_of_keysOf
  · exact fun x => ha.left.keyOf?_of_mem_children
  · exact fun x => ha.right.keyOf?_of_mem_children
  · obtain ⟨block, block', hb, hb', hi, hkeys⟩ := ha.entry hm
    rw [Script.children, Script.children, hb, hb']
    dsimp only
    rw [hi]
    split
    · exact hkeys
    · rfl

end Alike

end Script

namespace Thread

variable {s t : Script} {u v : Thread} {frame frame' : Frame} {h h' : Handle}

theorem getElem?_of_matches {list list' : List Handle}
    (hl : List.Forall₂ (s.Matches t) list list') (n : Nat) :
    list[n]? = none ∧ list'[n]? = none ∨
      ∃ x x', list[n]? = some x ∧ list'[n]? = some x' ∧ s.Matches t x x' := by
  induction hl generalizing n with
  | nil => exact .inl ⟨rfl, rfl⟩
  | @cons x x' _ _ hx _ ih =>
    cases n with
    | zero => exact .inr ⟨x, x', rfl, rfl, hx⟩
    | succ n => exact ih n

namespace Matches

theorem withStack (hm : u.Matches s t v) {stack stack' : List Frame}
    (hstack : List.Forall₂ (Frame.Matches s t) stack stack') :
    ({ u with stack } : Thread).Matches s t { v with stack := stack' } where
  stack := hstack
  wakeTime := hm.wakeTime
  action := hm.action
  active := hm.active

theorem withAction (hm : u.Matches s t v) (action : Option Action) :
    ({ u with action } : Thread).Matches s t { v with action } where
  stack := hm.stack
  wakeTime := hm.wakeTime
  action := rfl
  active := hm.active

theorem withWakeTime (hm : u.Matches s t v) (wakeTime : Float) :
    ({ u with wakeTime } : Thread).Matches s t { v with wakeTime } where
  stack := hm.stack
  wakeTime := rfl
  action := hm.action
  active := hm.active

theorem dispatch (hm : u.Matches s t v) (hh : s.Matches t h h') (i : Instruction)
    (a : Appearance) (now : Float) :
    (u.dispatch h i a now).1.Matches s t (v.dispatch h' i a now).1 ∧
      (u.dispatch h i a now).2 = (v.dispatch h' i a now).2 := by
  cases i with
  | wait duration => exact ⟨hm.withWakeTime _, rfl⟩
  | forever => exact ⟨hm.withStack (.cons ⟨hh, rfl, rfl⟩ hm.stack), rfl⟩
  | loop times => exact ⟨hm.withStack (.cons ⟨hh, rfl, rfl⟩ hm.stack), rfl⟩
  | move _ _ duration | rotate _ _ duration | scale _ duration =>
    simp only [Thread.dispatch, tween?]
    split
    · exact ⟨hm.withAction _, rfl⟩
    · exact ⟨hm, rfl⟩
  | _ => exact ⟨hm, rfl⟩

end Matches

section Alike

variable (ha : s.Alike t)

include ha

theorem nextRound?_of_matches (hf : frame.Matches s t frame') :
    nextRound? s frame = none ∧ nextRound? t frame' = none ∨
      ∃ next next', nextRound? s frame = some next ∧ nextRound? t frame' = some next' ∧
        next.Matches s t next' := by
  rw [nextRound?, nextRound?, ha.instruction? hf.block, hf.completed]
  split
  · exact .inr ⟨_, _, rfl, rfl, hf.block, rfl, rfl⟩
  · dsimp only
    split
    · exact .inr ⟨_, _, rfl, rfl, hf.block, rfl, rfl⟩
    · exact .inl ⟨rfl, rfl⟩
  · exact .inl ⟨rfl, rfl⟩

theorem run_of_matches (hm : u.Matches s t v) (a : Appearance) (now : Float) (n : Nat) :
    (run s now n u a).Matches s t (run t now n v a) := by
  induction n generalizing u v a with
  | zero => exact ⟨hm, rfl, rfl, .nil⟩
  | succ n ih =>
    rw [run, run]
    have hstack := hm.stack
    generalize u.stack = stack at hstack ⊢
    generalize v.stack = stack' at hstack ⊢
    cases hstack with
    | nil => exact ⟨hm, rfl, rfl, .nil⟩
    | @cons frame frame' outer outer' hf houter =>
      dsimp only
      rw [hf.next]
      rcases getElem?_of_matches (ha.children hf.block) frame'.next with
        ⟨hend, hend'⟩ | ⟨child, child', hchild, hchild', hc⟩
      · rw [hend, hend']
        rcases nextRound?_of_matches ha hf with ⟨hn, hn'⟩ | ⟨next, next', hn, hn', hnext⟩
        · rw [hn, hn']
          exact (ih (hm.withStack houter) a).step .nil
        · rw [hn, hn']
          exact ⟨hm.withStack (.cons hnext houter), rfl, rfl, .nil⟩
      · rw [hchild, hchild']
        have hturned : Frame.Matches s t { frame with next := frame'.next + 1 }
            { frame' with next := frame'.next + 1 } := ⟨hf.block, rfl, hf.completed⟩
        have hleft := hm.withStack (.cons hturned houter)
        dsimp only
        rw [ha.instruction? hc]
        split
        · exact (ih hleft a).step .nil
        next i _ =>
        obtain ⟨hthread, heffect⟩ := hleft.dispatch hc i a now
        revert hthread heffect
        generalize Thread.dispatch _ child i a now = x
        generalize Thread.dispatch _ child' i a now = y
        obtain ⟨u', effect⟩ := x
        obtain ⟨v', a', suspended⟩ := y
        rintro hthread rfl
        cases suspended with
        | true => exact ⟨hthread, rfl, rfl, .cons hc .nil⟩
        | false => exact (ih hthread a').step (.cons hc .nil)

omit ha in
theorem settle_of_matches {x y : Advance} (h : x.Matches s t y) :
    (settle x).Matches s t (settle y) := by
  have hempty : x.thread.stack.isEmpty = y.thread.stack.isEmpty := by
    have hstack := h.thread.stack
    generalize x.thread.stack = stack at hstack ⊢
    generalize y.thread.stack = stack' at hstack ⊢
    cases hstack <;> rfl
  rw [settle, settle, hempty]
  split
  · exact ⟨⟨h.thread.stack, h.thread.wakeTime, h.thread.action, rfl⟩, h.appearance, h.steps,
      h.dispatched⟩
  · exact h

theorem wake_of_matches (hm : u.Matches s t v) (a : Appearance) (now : Float) :
    (wake s u a now).Matches s t (wake t v a now) := by
  rw [wake, wake, hm.wakeTime]
  split
  · exact ⟨hm, rfl, rfl, .nil⟩
  · exact settle_of_matches (run_of_matches ha hm a now budget)

theorem advance_of_matches (hm : u.Matches s t v) (a : Appearance) (now : Float) :
    (u.advance s a now).Matches s t (v.advance t a now) := by
  by_cases hv : v.active = true
  · rw [advance, advance, if_pos (hm.active.trans hv), if_pos hv, hm.action]
    split
    · exact wake_of_matches ha hm a now
    · split
      · exact ⟨hm, rfl, rfl, .nil⟩
      · exact wake_of_matches ha (hm.withAction none) _ now
  · have hv := Bool.eq_false_iff.2 hv
    rw [advance_of_inactive s a now (hm.active.trans hv), advance_of_inactive t a now hv]
    exact ⟨hm, rfl, rfl, .nil⟩

theorem filterMap_typeName_of_matches {ds ds' : List Handle}
    (hd : List.Forall₂ (s.Matches t) ds ds') {α : Type} (f : String → α) :
    ds.filterMap (fun h => (s.instruction? h).map fun i => f i.typeName) =
      ds'.filterMap fun h => (t.instruction? h).map fun i => f i.typeName := by
  induction hd with
  | nil => rfl
  | cons hx _ ih => rw [List.filterMap_cons, List.filterMap_cons, ha.instruction? hx, ih]

theorem notices_of_matches (hid : s.id = t.id) (hm : u.Matches s t v) {x y : Advance}
    (h : x.Matches s t y) : u.notices s x = v.notices t y := by
  have hturns := filterMap_typeName_of_matches ha h.dispatched (Notice.dispatched s.id)
  rw [notices, notices, hturns, hid, hm.active, h.thread.active]

end Alike

def ticks (s : Script) (t : Thread) (a : Appearance) : List Float → List (Logged Advance)
  | [] => []
  | now :: times =>
    let first := t.tick s a now
    first :: ticks s first.value.thread first.value.appearance times

end Thread

/-- Scripts that show the same forest cannot be told apart: not by edits, and not by threads that
have come equally far in them. -/
theorem Script.indistinguishable_of_outline (s t : Script) (hs : s.WellFormed) (ht : t.WellFormed)
    (hid : s.id = t.id) (ho : s.outline = t.outline) :
    (∀ rs : List Request, (s.serveAll rs).2 = (t.serveAll rs).2 ∧
      (s.serveAll rs).1.outline = (t.serveAll rs).1.outline) ∧
    ∀ u v : Thread, u.Matches s t v → ∀ (a : Appearance) (times : List Float),
      List.Forall₂ (fun x y => x.value.Matches s t y.value ∧ x.notices = y.notices)
        (u.ticks s a times) (v.ticks t a times) := by
  have ha : s.Alike t := ⟨hs, ht, ho⟩
  refine ⟨hs.serveAll_of_outline ht ho, ?_⟩
  intro u v hm a times
  induction times generalizing u v a with
  | nil => exact .nil
  | cons now times ih =>
    have hfirst := Thread.advance_of_matches ha hm a now
    refine .cons ⟨hfirst, Thread.notices_of_matches ha hid hm hfirst⟩ ?_
    have hrest := ih _ _ hfirst.thread (v.advance t a now).appearance
    have hsame : (u.tick s a now).value.appearance = (v.advance t a now).appearance :=
      hfirst.appearance
    rw [hsame]
    exact hrest

/-- An empty script in which a slot has been used before. -/
def Script.worn : Script :=
  (empty "script-1" "").after [.insert "click" .onClick none, .remove "click"]

theorem Script.worn_eq :
    worn = (((empty "script-1" "").perform (.insert "click" .onClick none)).modifySiblings none
      (·.filter (· ≠ ⟨0, 0⟩))).vacate 0 "click" := by
  let s := (empty "script-1" "").perform (.insert "click" .onClick none)
  have hs : s.WellFormed := (Sound.empty "script-1" "").perform _
  have hb : s.block? ⟨0, 0⟩ = some ⟨"click", .onClick, none, []⟩ := by decide +kernel
  have hloose : (s.modifySiblings none (·.filter (· ≠ ⟨0, 0⟩))).blockAt? 0 =
      some ⟨"click", .onClick, none, []⟩ := by decide +kernel
  have hremove := congrArg Prod.fst (hs.remove_eq hb)
  exact hremove.trans ((release_of_blockAt? hloose).trans release_nil)

theorem Script.find?_worn (key : String) : worn.find? key = none := by
  rw [worn_eq, find?_vacate]
  split
  · rfl
  · next hne =>
    simp [find?, perform, insert, occupy, hasPlace, modifySiblings, empty, hne]

theorem Script.outline_worn : worn.outline = (empty "script-1" "").outline := by
  apply Outline.ext
  · rw [worn_eq]
    rfl
  · funext key
    rw [lookup?_of_missing (find?_worn key), lookup?_of_missing rfl]

theorem Script.indistinguishable_of_outline_worn :
    let requests : List Request :=
      [.insert "start" .onStart none, .insert "wait" (.wait 1) (some "start")]
    let s := ((empty "script-1" "").serveAll requests).1
    let t := (worn.serveAll requests).1
    s.find? "start" = some ⟨0, 0⟩ ∧ t.find? "start" = some ⟨0, 1⟩ ∧
      (s.serveAll [.remove "wait", .reorder "start" "wait"]).2 =
        (t.serveAll [.remove "wait", .reorder "start" "wait"]).2 ∧
      List.Forall₂ (fun x y => x.value.Matches s t y.value ∧ x.notices = y.notices)
        ((Thread.start ⟨0, 0⟩).ticks s .default [0, 2])
        ((Thread.start ⟨0, 1⟩).ticks t .default [0, 2]) := by
  intro requests s t
  have hempty : (empty "script-1" "").WellFormed := Sound.empty ..
  have hworn : worn.WellFormed := hempty.after _
  have hs : s.WellFormed := hempty.serveAll requests
  have ht : t.WellFormed := hworn.serveAll requests
  have hid : s.id = t.id := by
    change s.id = (worn.serveAll requests).1.id
    rw [worn_eq]
    decide +kernel
  have ho : s.outline = t.outline := (hempty.serveAll_of_outline hworn outline_worn.symm requests).2
  have hstart : s.find? "start" = some ⟨0, 0⟩ := by decide +kernel
  have hstart' : t.find? "start" = some ⟨0, 1⟩ := by
    change (worn.serveAll requests).1.find? "start" = _
    rw [worn_eq]
    decide +kernel
  have hroot : s.Matches t ⟨0, 0⟩ ⟨0, 1⟩ :=
    ⟨"start", hs.find?_iff.1 hstart, ht.find?_iff.1 hstart'⟩
  have hthreads : Thread.Matches s t (.start ⟨0, 0⟩) (.start ⟨0, 1⟩) :=
    ⟨.cons ⟨hroot, rfl, rfl⟩ .nil, rfl, rfl, rfl⟩
  have hsame := indistinguishable_of_outline s t hs ht hid ho
  exact ⟨hstart, hstart', (hsame.1 _).1, hsame.2 _ _ hthreads _ _⟩

end BlockScript
