import BlockScript.Proofs.Script.Refusal
import BlockScript.Proofs.Script.Tree

namespace BlockScript.Script

open Relation

variable {s : Script} {h source target : Handle} {place oldParent newParent : Option Handle}
  {list before after : List Handle} {sourceKey targetKey : String}

theorem insertBefore_append (source : Handle) (hbefore : target ∉ before) :
    insertBefore source target (before ++ target :: after) =
      before ++ source :: target :: after := by
  have hne : ∀ x ∈ before, decide (x ≠ target) = true := by
    intro x hx
    exact decide_eq_true fun heq => hbefore (heq ▸ hx)
  rw [insertBefore, List.takeWhile_append_of_pos hne, List.dropWhile_append_of_pos hne]
  simp

/-- Whether a script comes about from another one by a block that is moved, with all below it, right
before another block. -/
structure MovedBefore (s t : Script) (source target : Handle) : Prop where
  /-- Nothing can change but the roots and the slots. -/
  others : { t with roots := s.roots, slots := s.slots } = s
  keyOf? : ∀ h, t.keyOf? h = s.keyOf? h
  instruction? : ∀ h, t.instruction? h = s.instruction? h
  parentOf?_source : t.parentOf? source = s.parentOf? target
  parentOf? : ∀ h, h ≠ source → t.parentOf? h = s.parentOf? h
  /-- The list of the target has the source right before it, and the others as they were. -/
  entered : ∀ place, s.parentOf? target = some place → ∃ list before after,
    s.siblings? place = some list ∧ list.filter (· ≠ source) = before ++ target :: after ∧
      t.siblings? place = some (before ++ source :: target :: after)
  /-- Another list that the source was in has lost it. -/
  left : ∀ place, s.parentOf? source = some place → s.parentOf? target ≠ some place →
    ∃ list, s.siblings? place = some list ∧
      t.siblings? place = some (list.filter (· ≠ source))
  siblings? : ∀ place, s.parentOf? source ≠ some place → s.parentOf? target ≠ some place →
    t.siblings? place = s.siblings? place
  /-- A tree around neither of the two is as it was, among them that of the source. -/
  tree? : ∀ h, ¬ TransGen s.HasParent source h → ¬ TransGen s.HasParent target h →
    t.tree? h = s.tree? h

section Move

variable (hs : s.WellFormed) (hsource : s.parentOf? source = some oldParent)
  (htarget : s.parentOf? target = some newParent)

include hs in
theorem Sound.filter_siblings (hp : s.parentOf? h ≠ some place)
    (hlist : s.siblings? place = some list) : list.filter (· ≠ h) = list :=
  filter_ne_eq_self fun hmem => hp ((hs.mem_iff hlist h).1 hmem).2

include hs htarget in
theorem Sound.parentOf?_move (h : Handle) :
    (s.move source target oldParent newParent).1.parentOf? h =
      if h = source then (s.parentOf? h).map fun _ => newParent else s.parentOf? h := by
  rw [hs.move_eq htarget, parentOf?_modifySiblings, parentOf?_setParent, parentOf?_modifySiblings]

include hs hsource htarget in
theorem Sound.siblings?_move (place : Option Handle) :
    (s.move source target oldParent newParent).1.siblings? place =
      if place = newParent then
        (s.siblings? place).map fun list => insertBefore source target (list.filter (· ≠ source))
      else (s.siblings? place).map (·.filter (· ≠ source)) := by
  have hfilter : (s.modifySiblings oldParent (·.filter (· ≠ source))).siblings? place =
      (s.siblings? place).map (·.filter (· ≠ source)) := by
    rw [siblings?_modifySiblings]
    split
    · rfl
    · next hplace =>
      cases hlist : s.siblings? place with
      | none => rfl
      | some list =>
        have hnot : s.parentOf? source ≠ some place := by
          rw [hsource]
          exact fun heq => hplace (Option.some.inj heq).symm
        rw [Option.map_some, hs.filter_siblings hnot hlist]
  have hmoved : ((s.modifySiblings oldParent (·.filter (· ≠ source))).modifyBlock source
      ({ · with parent := newParent })).siblings? place =
      (s.siblings? place).map (·.filter (· ≠ source)) := by
    rw [siblings?_modifyBlock, hfilter]
    exact fun _ => rfl
  rw [hs.move_eq htarget, siblings?_modifySiblings, hmoved]
  split
  · exact Option.map_map _ _ _
  · rfl

include hs hsource htarget in
theorem Sound.siblings?_move_of_ne (hold : s.parentOf? source ≠ some place)
    (hnew : s.parentOf? target ≠ some place) :
    (s.move source target oldParent newParent).1.siblings? place = s.siblings? place := by
  have hplace : place ≠ newParent := by
    rintro rfl
    exact hnew htarget
  rw [hs.siblings?_move hsource htarget, if_neg hplace]
  cases hlist : s.siblings? place with
  | none => rfl
  | some list => rw [Option.map_some, hs.filter_siblings hold hlist]

include hs htarget in
theorem Sound.instruction?_move (h : Handle) :
    (s.move source target oldParent newParent).1.instruction? h = s.instruction? h := by
  rw [hs.move_eq htarget, instruction?_modifySiblings, Script.instruction?, map_block?_modifyBlock]
  · exact instruction?_modifySiblings
  · exact fun _ => rfl

include hs htarget in
theorem Sound.keyOf?_move (h : Handle) :
    (s.move source target oldParent newParent).1.keyOf? h = s.keyOf? h := by
  rw [hs.move_eq htarget, keyOf?_modifySiblings, Script.keyOf?, map_block?_modifyBlock]
  · exact keyOf?_modifySiblings
  · exact fun _ => rfl

variable (hne : source ≠ target) (ha : ¬ TransGen s.HasParent target source)

include hs hsource htarget hne ha

theorem Sound.tree?_move (hout : ¬ TransGen s.HasParent source h)
    (hout' : ¬ TransGen s.HasParent target h) :
    (s.move source target oldParent newParent).1.tree? h = s.tree? h := by
  have ht : (s.move source target oldParent newParent).1.WellFormed :=
    hs.move hsource htarget hne ha
  cases hb : s.block? h with
  | none =>
    have hkey : (s.move source target oldParent newParent).1.keyOf? h = s.keyOf? h :=
      hs.keyOf?_move htarget h
    rw [Script.keyOf?, Script.keyOf?, hb] at hkey
    rw [tree?_of_not_stored hb, tree?_of_not_stored (Option.map_eq_none_iff.1 hkey)]
  | some block =>
    revert hout hout'
    refine hs.upwards (P := fun h => ¬ TransGen s.HasParent source h →
      ¬ TransGen s.HasParent target h →
        (s.move source target oldParent newParent).1.tree? h = s.tree? h) ?_ hb
    intro h block hb ih hout hout'
    have hinstruction : (s.move source target oldParent newParent).1.instruction? h =
        some block.instruction := by
      rw [hs.instruction?_move htarget, Script.instruction?, hb]
      rfl
    obtain ⟨other, hother, hsame⟩ := Option.map_eq_some_iff.1 hinstruction
    have hlist : (s.move source target oldParent newParent).1.siblings? (some h) =
        s.siblings? (some h) :=
      hs.siblings?_move_of_ne hsource htarget (fun hp => hout (.single hp))
        fun hp => hout' (.single hp)
    rw [siblings?_of_block? hother, siblings?_of_block? hb] at hlist
    have htrees : (s.move source target oldParent newParent).1.trees block.children =
        s.trees block.children := by
      apply List.filterMap_congr
      intro c hc
      have hp : s.HasParent c h := ((hs.mem_children hb c).1 hc).2
      exact ih c hc (fun habove => hout (habove.tail hp)) fun habove => hout' (habove.tail hp)
    rw [ht.tree?_eq hother, hs.tree?_eq hb, hsame, Option.some.inj hlist, htrees]

theorem Sound.movedBefore :
    s.MovedBefore (s.move source target oldParent newParent).1 source target where
  others := by
    rw [hs.move_eq htarget]
    cases oldParent <;> cases newParent <;> rfl
  keyOf? := hs.keyOf?_move htarget
  instruction? := hs.instruction?_move htarget
  parentOf?_source := by
    rw [hs.parentOf?_move htarget, if_pos rfl, hsource, htarget]
    rfl
  parentOf? := by
    intro h hh
    rw [hs.parentOf?_move htarget, if_neg hh]
  entered := by
    intro place hplace
    obtain rfl := Option.some.inj (htarget.symm.trans hplace)
    obtain ⟨list, hlist, hmem⟩ := hs.exists_siblings htarget
    have hkept : target ∈ list.filter (· ≠ source) :=
      List.mem_filter.2 ⟨hmem, decide_eq_true hne.symm⟩
    obtain ⟨before, after, hsplit, hbefore⟩ := List.eq_append_cons_of_mem hkept
    refine ⟨list, before, after, hlist, hsplit, ?_⟩
    rw [hs.siblings?_move hsource htarget, if_pos rfl, hlist, Option.map_some, hsplit,
      insertBefore_append source hbefore]
  left := by
    intro place hold hnew
    obtain ⟨list, hlist, _⟩ := hs.exists_siblings hold
    have hplace : place ≠ newParent := by
      rintro rfl
      exact hnew htarget
    refine ⟨list, hlist, ?_⟩
    rw [hs.siblings?_move hsource htarget, if_neg hplace, hlist]
    rfl
  siblings? := fun place => hs.siblings?_move_of_ne hsource htarget
  tree? := fun h => hs.tree?_move hsource htarget hne ha

end Move

theorem Sound.move_eq_self (hs : s.WellFormed) (hsource : s.parentOf? source = some place)
    (htarget : s.parentOf? target = some place)
    (hlist : s.siblings? place = some (before ++ source :: target :: after)) :
    s.move source target place place = (s, true) := by
  have hparent : (s.modifySiblings place (·.filter (· ≠ source))).modifyBlock source
      ({ · with parent := place }) = s.modifySiblings place (·.filter (· ≠ source)) := by
    apply modifyBlock_eq_self
    intro block hb
    have hp := parentOf?_of_block? hb
    rw [parentOf?_modifySiblings, hsource] at hp
    rw [Option.some.inj hp]
  have hnodup := hs.nodup hlist
  rw [hs.move_eq htarget, hparent, modifySiblings_modifySiblings, modifySiblings_eq_self]
  intro list hother
  obtain rfl := Option.some.inj (hlist.symm.trans hother)
  have htargetBefore : target ∉ before := fun hmem =>
    (List.nodup_append.1 hnodup).2.2 target hmem target
      (List.mem_cons_of_mem _ (List.mem_cons_self ..)) rfl
  rw [Function.comp_apply, filter_ne_middle hnodup, insertBefore_append source htargetBefore]

section Reorder

variable (hs : s.WellFormed)

include hs

theorem Sound.reorder_eq_move (hsource : s.find? sourceKey = some source)
    (htarget : s.find? targetKey = some target) (hne : source ≠ target)
    (ha : ¬ TransGen s.HasParent target source) :
    ∃ oldParent newParent, s.parentOf? source = some oldParent ∧
      s.parentOf? target = some newParent ∧
        s.reorder sourceKey targetKey = s.move source target oldParent newParent := by
  obtain ⟨moved, hm, rfl⟩ := Option.map_eq_some_iff.1 (hs.find?_iff.1 hsource)
  obtain ⟨block, hb, rfl⟩ := Option.map_eq_some_iff.1 (hs.find?_iff.1 htarget)
  have hnew := parentOf?_of_block? hb
  refine ⟨moved.parent, block.parent, parentOf?_of_block? hm, hnew, ?_⟩
  rw [hs.reorder_eq hm hb hne ha, hs.move_eq hnew]

theorem Sound.find?_ne (hsource : s.find? sourceKey = some source)
    (htarget : s.find? targetKey = some target) : source ≠ target ↔ sourceKey ≠ targetKey := by
  have hsourceKey := hs.find?_iff.1 hsource
  have htargetKey := hs.find?_iff.1 htarget
  apply not_congr
  constructor
  · rintro rfl
    exact Option.some.inj (hsourceKey.symm.trans htargetKey)
  · rintro rfl
    exact Option.some.inj (hsource.symm.trans htarget)

/-- Which blocks can be moved where. -/
theorem Sound.reorder_accepted_iff :
    (s.reorder sourceKey targetKey).2 = true ↔ sourceKey ≠ targetKey ∧
      ∃ source target, s.find? sourceKey = some source ∧ s.find? targetKey = some target ∧
        ¬ TransGen s.HasParent target source := by
  constructor
  · intro haccepted
    rcases hs.find?_cases sourceKey with hn | ⟨source, moved, hm, rfl⟩
    · rw [reorder_eq_missing (.inl hn)] at haccepted
      contradiction
    rcases hs.find?_cases targetKey with hn | ⟨target, block, hb, rfl⟩
    · rw [reorder_eq_missing (.inr hn)] at haccepted
      contradiction
    have hsource := hs.find?_key hm
    have htarget := hs.find?_key hb
    have hallowed : ¬ (source = target ∨ TransGen s.HasParent target source) := by
      intro hrefused
      rw [hs.reorder_eq_refused hm hb hrefused] at haccepted
      contradiction
    obtain ⟨hne, ha⟩ := not_or.1 hallowed
    exact ⟨(hs.find?_ne hsource htarget).1 hne, source, target, hsource, htarget, ha⟩
  · rintro ⟨hne, source, target, hsource, htarget, ha⟩
    have hne := (hs.find?_ne hsource htarget).2 hne
    obtain ⟨oldParent, newParent, _, hnew, heq⟩ := hs.reorder_eq_move hsource htarget hne ha
    rw [heq, hs.move_eq hnew]

end Reorder

theorem Sound.not_above_of_sibling (hs : s.WellFormed) (hsource : s.parentOf? source = some place)
    (htarget : s.parentOf? target = some place) : ¬ TransGen s.HasParent target source := by
  intro habove
  cases place with
  | none => exact not_above_of_root htarget habove
  | some p =>
    have hself : TransGen s.HasParent source source := by
      rcases (above_iff htarget).1 habove with rfl | hp
      · exact .single hsource
      · exact .head hsource hp
    exact (hs.rooted hsource).not_above_self hself

/-- A block is moved if both keys are there and differ and the target is not below the source. Then
it stands right before the target, the list that it has left is without it, and nothing else has
changed, so that the same move changes nothing more. A move that is refused changes nothing. -/
theorem Sound.reorder_exact (hs : s.WellFormed) (sourceKey targetKey : String) :
    ((s.reorder sourceKey targetKey).2 = true ↔ sourceKey ≠ targetKey ∧
      ∃ source target, s.find? sourceKey = some source ∧ s.find? targetKey = some target ∧
        ¬ TransGen s.HasParent target source) ∧
    (∀ t, s.reorder sourceKey targetKey = (t, true) →
      (∃ source target, s.find? sourceKey = some source ∧ s.find? targetKey = some target ∧
        s.MovedBefore t source target ∧ t.tree? source = s.tree? source) ∧
      t.reorder sourceKey targetKey = (t, true)) ∧
    ∀ t, s.reorder sourceKey targetKey = (t, false) → t = s := by
  refine ⟨hs.reorder_accepted_iff, ?_, ?_⟩
  · intro t hmoved
    have haccepted : (s.reorder sourceKey targetKey).2 = true := by rw [hmoved]
    obtain ⟨hkeys, source, target, hsource, htarget, ha⟩ := hs.reorder_accepted_iff.1 haccepted
    have hne := (hs.find?_ne hsource htarget).2 hkeys
    obtain ⟨oldParent, newParent, hold, hnew, heq⟩ := hs.reorder_eq_move hsource htarget hne ha
    have ht : t = (s.move source target oldParent newParent).1 := by rw [← heq, hmoved]
    have hmove : s.MovedBefore t source target := ht ▸ hs.movedBefore hold hnew hne ha
    have hwell : t.WellFormed := ht ▸ hs.move hold hnew hne ha
    have hstored := hs.rooted hold
    refine ⟨⟨source, target, hsource, htarget, hmove, hmove.tree? source hstored.not_above_self ha⟩,
      ?_⟩
    -- Now the source stands right before the target, which is where the same move would put it.
    have hsource' : t.parentOf? source = some newParent := hmove.parentOf?_source.trans hnew
    have htarget' : t.parentOf? target = some newParent :=
      (hmove.parentOf? target hne.symm).trans hnew
    obtain ⟨_, before, after, _, _, hlist⟩ := hmove.entered newParent hnew
    have hfind (key : String) : t.find? key = s.find? key := by
      have hsame := congrArg Script.keys hmove.others
      exact congrArg (·[key]?) hsame
    obtain ⟨oldParent', newParent', hold', hnew', heq'⟩ :=
      hwell.reorder_eq_move ((hfind _).trans hsource) ((hfind _).trans htarget) hne
        (hwell.not_above_of_sibling hsource' htarget')
    obtain rfl := Option.some.inj (hsource'.symm.trans hold')
    obtain rfl := Option.some.inj (htarget'.symm.trans hnew')
    rw [heq']
    exact hwell.move_eq_self hsource' htarget' hlist
  · intro t hrefused
    have hsame : (s.reorder sourceKey targetKey).1 = s := hs.reorder_refused (by rw [hrefused])
    rw [← hsame, hrefused]

def colored : Script :=
  (empty "script-1" "Colored").after [.insert "start" .onStart none,
    .insert "twice" (.loop 2) (some ⟨0, 0⟩), .insert "red" (.paint ⟨255, 0, 0⟩) (some ⟨1, 0⟩),
    .insert "white" (.paint .white) (some ⟨1, 0⟩)]

/-- One of the blocks leaves the loop, but the loop cannot be moved into itself. -/
theorem Sound.reorder_exact_colored :
    let t := (colored.reorder "white" "twice").1
    t.siblings? (some ⟨0, 0⟩) = some [⟨3, 0⟩, ⟨1, 0⟩] ∧ t.siblings? (some ⟨1, 0⟩) = some [⟨2, 0⟩] ∧
      t.tree? ⟨3, 0⟩ = colored.tree? ⟨3, 0⟩ ∧ t.reorder "white" "twice" = (t, true) ∧
      (colored.reorder "twice" "red").1 = colored := by
  intro t
  have hs : colored.WellFormed := (Sound.empty _ _).after _
  have hmoved : colored.reorder "white" "twice" = (t, true) := Prod.ext rfl (by decide)
  obtain ⟨⟨source, _, hsource, _, _, htree⟩, hagain⟩ :=
    (hs.reorder_exact "white" "twice").2.1 t hmoved
  have hfound : colored.find? "white" = some ⟨3, 0⟩ := by decide
  obtain rfl := Option.some.inj (hsource.symm.trans hfound)
  have hrefused : colored.reorder "twice" "red" = ((colored.reorder "twice" "red").1, false) :=
    Prod.ext rfl (by decide)
  exact ⟨by decide, by decide, htree, hagain,
    (hs.reorder_exact "twice" "red").2.2 _ hrefused⟩

end BlockScript.Script
