import BlockScript.Proofs.Script.Release

namespace BlockScript.Script

open Relation

variable {s t u : Script} {loose : List Handle} {h : Handle} {key : String} {block : Block}
  {i j : Nat} {f : Block → Block} {g : List Handle → List Handle} {parent : Option Handle}
  {edit : Edit} {edits : List Edit}

/-- Whether an edit takes a block out of a script, by itself or with one above it. -/
def Removes (s : Script) (h : Handle) : Edit → Prop
  | .remove key => ∃ r, s.find? key = some r ∧ ReflTransGen s.HasParent h r
  | _ => False

/-- Whether one of some edits takes a block out of a script. -/
def RemovedBy (s : Script) (h : Handle) : List Edit → Prop
  | [] => False
  | edit :: edits => s.Removes h edit ∨ (s.perform edit).RemovedBy h edits

/-- Whether there was a block in a slot and is none any more. -/
def vacated (s t : Script) (i : Nat) : Bool := (s.blockAt? i).isSome && (t.blockAt? i).isNone

def vacations (s : Script) (i : Nat) : List Edit → Nat
  | [] => 0
  | edit :: edits =>
    (s.vacated (s.perform edit) i).toNat + (s.perform edit).vacations i edits

section Kept

theorem Sound.keyOf?_insert (hs : s.WellFormed) (instruction : Instruction)
    (hk : s.keyOf? h = some key) {other : String} :
    (s.insert other instruction parent).1.keyOf? h = some key := by
  rcases hs.insert_cases other instruction parent with hsame | ⟨_, _, hinserted⟩
  · rw [hsame, hk]
  · rw [hinserted, keyOf?_modifySiblings]
    exact hs.keyOf?_occupy hk

theorem Sound.keyOf?_configure (hs : s.WellFormed) (ps : Params) {other : String} :
    (s.configure other ps).value.1.keyOf? h = s.keyOf? h := by
  rcases hs.find?_cases other with hn | ⟨x, block, hb, rfl⟩
  · rw [configure_eq_refused hn]
    rfl
  · rw [hs.configure_eq hb]
    exact map_block?_modifyBlock fun _ => rfl

theorem Sound.keyOf?_remove (hs : s.WellFormed) {other : String}
    (hr : ¬ s.Removes h (.remove other)) : (s.remove other).1.keyOf? h = s.keyOf? h := by
  rcases hs.find?_cases other with hn | ⟨r, block, hb, rfl⟩
  · rw [remove_eq_refused hn]
  · have hdetached := hs.detach (parentOf?_of_block? hb) List.not_mem_nil
    have hkept := hdetached.keyOf?_release
      (mt falls_modifySiblings.1 fun hup => hr ⟨r, hs.find?_key hb, hup⟩)
    rw [hs.remove_eq hb, hkept]
    exact keyOf?_modifySiblings

theorem Sound.keyOf?_reorder (hs : s.WellFormed) {source target : String} :
    (s.reorder source target).1.keyOf? h = s.keyOf? h := by
  rcases hs.reorder_cases source target with hsame | ⟨x, _, moved, _, _, _, hmoved⟩
  · rw [hsame]
  · have hdetached : (s.modifySiblings moved.parent (·.filter (· ≠ x))).keyOf? h = s.keyOf? h :=
      keyOf?_modifySiblings
    rw [hmoved, keyOf?_modifySiblings, ← hdetached]
    exact map_block?_modifyBlock fun _ => rfl

theorem Sound.keyOf?_perform (hs : s.WellFormed) (hk : s.keyOf? h = some key)
    (hr : ¬ s.Removes h edit) : (s.perform edit).keyOf? h = some key := by
  cases edit with
  | insert other instruction parent => exact hs.keyOf?_insert instruction hk
  | configure other ps => exact (hs.keyOf?_configure ps).trans hk
  | remove other => exact (hs.keyOf?_remove hr).trans hk
  | reorder source target => exact hs.keyOf?_reorder.trans hk

theorem Sound.keyOf?_after (hs : s.WellFormed) (hk : s.keyOf? h = some key)
    (hr : ¬ s.RemovedBy h edits) : (s.after edits).keyOf? h = some key := by
  induction edits generalizing s with
  | nil => exact hk
  | cons edit edits ih =>
    obtain ⟨hnow, hlater⟩ := not_or.1 hr
    exact ih (hs.perform edit) (hs.keyOf?_perform hk hnow) hlater

end Kept

section Generations

def generation? (s : Script) (i : Nat) : Option UInt32 := s.slots[i]?.map (·.generation)

/-- The generation of a slot moves on exactly when the slot is vacated. -/
def Ages (s t : Script) (i : Nat) : Prop :=
  ∀ generation, s.generation? i = some generation →
    t.generation? i = some (generation + .ofNat (s.vacated t i).toNat)

def tenure? (s : Script) (i : Nat) : Option (UInt32 × Bool) :=
  s.slots[i]?.map fun slot => (slot.generation, slot.block.isSome)

theorem generation?_of_block? (hb : s.block? h = some block) :
    s.generation? h.index = some h.generation := by
  rw [generation?, block?_eq_some_iff.1 hb]
  rfl

theorem generation?_eq : s.generation? i = (s.tenure? i).map (·.1) := by
  rw [generation?, tenure?, Option.map_map]
  rfl

theorem isSome_blockAt? : (s.blockAt? i).isSome = (s.tenure? i).any (·.2) := by
  rw [blockAt?, tenure?]
  cases s.slots[i]? <;> rfl

theorem vacated_eq :
    s.vacated t i = ((s.tenure? i).any (·.2) && !(t.tenure? i).any (·.2)) := by
  rw [vacated, isSome_blockAt?, ← Option.not_isSome, isSome_blockAt?]

theorem ages_of_tenure (h : t.tenure? i = s.tenure? i) : s.Ages t i := by
  intro generation hg
  rw [generation?_eq, h, ← generation?_eq, hg, vacated_eq, h]
  simp

theorem Ages.congr (h : s.Ages t i) (hs : u.tenure? i = s.tenure? i) : u.Ages t i := by
  intro generation hg
  rw [generation?_eq, hs, ← generation?_eq] at hg
  rw [h generation hg, vacated_eq, vacated_eq, hs]

theorem Ages.congr_after (h : s.Ages t i) (ht : u.tenure? i = t.tenure? i) : s.Ages u i := by
  intro generation hg
  rw [generation?_eq, ht, ← generation?_eq, h generation hg, vacated_eq, vacated_eq, ht]

theorem tenure?_modifyBlock : (s.modifyBlock h f).tenure? i = s.tenure? i := by
  simp only [tenure?, modifyBlock, Array.getElem?_modify]
  cases s.slots[i]? with
  | none => simp
  | some slot =>
    by_cases hi : h.index = i
    · by_cases hg : slot.generation = h.generation <;> simp [hi, hg]
    · simp [hi]

theorem tenure?_modifySiblings : (s.modifySiblings parent g).tenure? i = s.tenure? i := by
  cases parent with
  | none => rfl
  | some p => exact tenure?_modifyBlock

theorem tenure?_vacate : (s.vacate i key).tenure? j =
    if j = i then (s.tenure? j).map fun (generation, _) => (generation + 1, false)
    else s.tenure? j := by
  simp only [tenure?, vacate, Array.getElem?_modify]
  by_cases hi : j = i
  · subst hi
    cases s.slots[j]? <;> simp
  · rw [if_neg (Ne.symm hi), if_neg hi]

theorem tenure?_occupy {slot : Slot} (block : Block) (hslot : s.slots[i]? = some slot) :
    (s.occupy block).1.tenure? i = s.tenure? i ∨
      (s.occupy block).1.tenure? i = some (slot.generation, true) := by
  cases hv : s.vacant with
  | nil =>
    have hlt := (Array.getElem?_eq_some_iff.1 hslot).1
    left
    simp [occupy, hv, tenure?, Array.getElem?_push, Nat.ne_of_lt hlt]
  | cons index vacant =>
    by_cases hi : index = i
    · right
      simp [occupy, hv, tenure?, Array.getElem?_modify, hslot, hi]
    · left
      simp [occupy, hv, tenure?, Array.getElem?_modify, hi]

theorem ages_occupy : s.Ages (s.occupy block).1 i := by
  intro generation hg
  obtain ⟨slot, hslot, rfl⟩ := Option.map_eq_some_iff.1 hg
  rcases tenure?_occupy block hslot with hsame | hfilled
  · exact ages_of_tenure hsame _ hg
  · rw [generation?_eq, vacated_eq, hfilled]
    simp

theorem ages_release (s : Script) (loose : List Handle) (i : Nat) :
    s.Ages (s.release loose) i := by
  fun_induction Script.release s loose with
  | case1 => exact ages_of_tenure rfl
  | case2 s h pending block hb ih =>
    by_cases hi : i = h.index
    · subst hi
      intro generation hg
      obtain ⟨slot, hslot, rfl⟩ := Option.map_eq_some_iff.1 hg
      have hvacant : (s.vacate h.index block.key).blockAt? h.index = none := by
        rw [blockAt?_vacate, if_pos rfl]
      have hmoved : (s.vacate h.index block.key).generation? h.index =
          some (slot.generation + 1) := by
        rw [generation?_eq, tenure?_vacate, if_pos rfl, tenure?, hslot]
        rfl
      rw [ih _ hmoved, vacated, vacated, hvacant, blockAt?_release_of_none hvacant, hb]
      simp
    · exact ih.congr (by rw [tenure?_vacate, if_neg hi])
  | case3 s h pending hb ih => exact ih

theorem Sound.ages_perform (hs : s.WellFormed) (edit : Edit) (i : Nat) :
    s.Ages (s.perform edit) i := by
  cases edit with
  | insert key instruction parent =>
    rcases hs.insert_cases key instruction parent with hsame | ⟨_, _, hinserted⟩
    · rw [Script.perform, hsame]
      exact ages_of_tenure rfl
    · rw [Script.perform, hinserted]
      exact ages_occupy.congr_after tenure?_modifySiblings
  | configure key ps =>
    apply ages_of_tenure
    rw [Script.perform]
    rcases hs.find?_cases key with hn | ⟨h, block, hb, rfl⟩
    · rw [configure_eq_refused hn]
      rfl
    · rw [hs.configure_eq hb]
      exact tenure?_modifyBlock
  | remove key =>
    rw [Script.perform]
    rcases hs.find?_cases key with hn | ⟨h, block, hb, rfl⟩
    · rw [remove_eq_refused hn]
      exact ages_of_tenure rfl
    · rw [hs.remove_eq hb]
      exact (ages_release _ _ i).congr tenure?_modifySiblings.symm
  | reorder source target =>
    apply ages_of_tenure
    rw [Script.perform]
    rcases hs.reorder_cases source target with hsame | ⟨_, _, _, _, _, _, hmoved⟩
    · rw [hsame]
    · rw [hmoved, tenure?_modifySiblings, tenure?_modifyBlock, tenure?_modifySiblings]

/-- The generation of a slot counts how often the slot has been vacated. -/
theorem Sound.generation?_after (hs : s.WellFormed) {generation : UInt32}
    (hg : s.generation? i = some generation) (edits : List Edit) :
    (s.after edits).generation? i = some (generation + .ofNat (s.vacations i edits)) := by
  induction edits generalizing s generation with
  | nil => simpa [vacations, Script.after] using hg
  | cons edit edits ih =>
    rw [vacations, UInt32.ofNat_add, ← UInt32.add_assoc]
    exact ih (hs.perform edit) (hs.ages_perform edit i generation hg)

end Generations

theorem Sound.vacated_of_removes (hs : s.WellFormed) (hr : s.Removes h edit) :
    s.vacated (s.perform edit) h.index = true := by
  cases edit with
  | remove key =>
    obtain ⟨r, hfind, hup⟩ := hr
    obtain ⟨block, hb, rfl⟩ := Option.map_eq_some_iff.1 (hs.find?_iff.1 hfind)
    have hdetached := hs.detach (parentOf?_of_block? hb) List.not_mem_nil
    have hafter := hdetached.blockAt?_release_of_falls (falls_modifySiblings.2 hup)
    obtain ⟨other, ho⟩ := exists_block_of_reflTransGen hup hb
    rw [vacated, Script.perform, hs.remove_eq hb, hafter, blockAt?_of_block? ho]
    rfl
  | _ => contradiction

theorem Sound.vacations_of_removedBy (hs : s.WellFormed) (hr : s.RemovedBy h edits) :
    0 < s.vacations h.index edits := by
  induction edits generalizing s with
  | nil => contradiction
  | cons edit edits ih =>
    rw [vacations]
    rcases hr with hnow | hlater
    · rw [hs.vacated_of_removes hnow]
      exact Nat.add_pos_left Nat.zero_lt_one _
    · exact Nat.add_pos_right _ (ih (hs.perform edit) hlater)

theorem vacations_le (s : Script) (i : Nat) (edits : List Edit) :
    s.vacations i edits ≤ edits.length := by
  induction edits generalizing s with
  | nil => exact Nat.le_refl 0
  | cons edit edits ih =>
    rw [vacations, List.length_cons, Nat.add_comm]
    exact Nat.add_le_add (ih _) (Bool.toNat_le _)

theorem Sound.block?_after_of_removedBy (hs : s.WellFormed) (hb : s.block? h = some block)
    (hr : s.RemovedBy h edits) (hfew : s.vacations h.index edits < UInt32.size) :
    (s.after edits).block? h = none := by
  have hpos := hs.vacations_of_removedBy hr
  have hg := hs.generation?_after (generation?_of_block? hb) edits
  rw [Option.eq_none_iff_forall_not_mem]
  intro other ho
  rw [generation?_of_block? ho, Option.some.injEq] at hg
  have hzero : UInt32.ofNat (s.vacations h.index edits) = 0 := by
    simpa using hg.symm
  have hmod : s.vacations h.index edits % UInt32.size = 0 := congrArg UInt32.toNat hzero
  rw [Nat.mod_eq_of_lt hfew] at hmod
  omega

theorem Sound.keyOf?_inserted (hs : s.WellFormed) {instruction : Instruction}
    (hinsert : (s.insert key instruction parent).2 = some h) :
    (s.insert key instruction parent).1.keyOf? h = some key := by
  rcases hs.insert_cases key instruction parent with hsame | ⟨_, _, hinserted⟩
  · rw [hsame] at hinsert
    contradiction
  · rw [hinserted] at hinsert ⊢
    obtain rfl := Option.some.inj hinsert
    exact keyOf?_modifySiblings.trans hs.keyOf?_occupy_handle

/-- The handle of a new block finds the block until this is removed, and then nothing. -/
theorem handle_after_edits (id name : String) (edits more : List Edit) (key : String)
    (instruction : Instruction) (parent : Option Handle) (h : Handle)
    (hinsert : (((empty id name).after edits).insert key instruction parent).2 = some h) :
    let s := (((empty id name).after edits).insert key instruction parent).1
    let t := s.after more
    (¬ s.RemovedBy h more → ∃ block, t.block? h = some block ∧ block.key = key) ∧
    (s.RemovedBy h more → s.vacations h.index more < UInt32.size →
      t.block? h = none ∧ t.instruction? h = none ∧ t.children h = []) := by
  intro s t
  have hbefore : ((empty id name).after edits).WellFormed := (Sound.empty id name).after edits
  have hs : s.WellFormed := hbefore.insert key instruction parent
  have hkey : s.keyOf? h = some key := hbefore.keyOf?_inserted hinsert
  constructor
  · intro hkept
    exact Option.map_eq_some_iff.1 (hs.keyOf?_after hkey hkept)
  · intro hremoved hfew
    obtain ⟨block, hb, _⟩ := Option.map_eq_some_iff.1 hkey
    have hnone : t.block? h = none := hs.block?_after_of_removedBy hb hremoved hfew
    rw [instruction?, children, hnone]
    exact ⟨rfl, rfl, rfl⟩

theorem handle_after_edits_again :
    let start : Edit := .insert "start" .onStart none
    let s := (((empty "script-1" "").after [start]).insert "wait" (.wait 1) (some ⟨0, 0⟩)).1
    let again : List Edit := [.remove "start", .insert "wait" (.wait 1) none]
    let elsewhere : List Edit := [.reorder "wait" "start", .remove "start"]
    s.RemovedBy ⟨1, 0⟩ again ∧ s.vacations 1 again < UInt32.size ∧
      (s.after again).block? ⟨1, 0⟩ = none ∧ (s.after again).find? "wait" = some ⟨1, 1⟩ ∧
      ¬ s.RemovedBy ⟨1, 0⟩ elsewhere ∧
      ∃ block, (s.after elsewhere).block? ⟨1, 0⟩ = some block ∧ block.key = "wait" := by
  intro start s again elsewhere
  have hinsert : (((empty "script-1" "").after [start]).insert "wait" (.wait 1)
      (some ⟨0, 0⟩)).2 = some ⟨1, 0⟩ := by decide +kernel
  have hhandle (more : List Edit) :=
    handle_after_edits "script-1" "" [start] more "wait" (.wait 1) (some ⟨0, 0⟩) ⟨1, 0⟩ hinsert
  have hremoved : s.RemovedBy ⟨1, 0⟩ again := by
    left
    have hfind : s.find? "start" = some ⟨0, 0⟩ := by decide +kernel
    have hparent : s.HasParent ⟨1, 0⟩ ⟨0, 0⟩ := by
      rw [HasParent]
      decide +kernel
    exact ⟨⟨0, 0⟩, hfind, .single hparent⟩
  have hnew : (s.after again).find? "wait" = some ⟨1, 1⟩ := by
    let detached := s.modifySiblings none (·.filter (· ≠ ⟨0, 0⟩))
    have hstart : detached.blockAt? 0 = some ⟨"start", .onStart, none, [⟨1, 0⟩]⟩ := by
      decide +kernel
    have hwait : (detached.vacate 0 "start").blockAt? 1 =
        some ⟨"wait", .wait 1, some ⟨0, 0⟩, []⟩ := by
      decide +kernel
    have hrelease : detached.release [⟨0, 0⟩] =
        (detached.vacate 0 "start").vacate 1 "wait" :=
      (release_of_blockAt? hstart).trans ((release_of_blockAt? hwait).trans release_nil)
    have hs : s.WellFormed := ((Sound.empty "script-1" "").perform start).insert ..
    have hb : s.block? ⟨0, 0⟩ = some ⟨"start", .onStart, none, [⟨1, 0⟩]⟩ := by decide +kernel
    have hremove : s.perform (.remove "start") = detached.release [⟨0, 0⟩] :=
      congrArg Prod.fst (hs.remove_eq hb)
    have hafter : s.after again = (s.perform (.remove "start")).perform
        (.insert "wait" (.wait 1) none) := rfl
    rw [hafter, hremove, hrelease]
    decide +kernel
  have hfew : s.vacations 1 again < UInt32.size :=
    Nat.lt_of_le_of_lt (vacations_le s 1 again) (by decide)
  have hkept : ¬ s.RemovedBy ⟨1, 0⟩ elsewhere := by
    rintro (hnow | ⟨r, hfind, hup⟩ | hlater)
    · exact hnow
    · have hstart : (s.perform (.reorder "wait" "start")).find? "start" = some ⟨0, 0⟩ := by
        decide +kernel
      have hroot : (s.perform (.reorder "wait" "start")).parentOf? ⟨1, 0⟩ = some none := by
        decide +kernel
      obtain rfl := Option.some.inj (hfind.symm.trans hstart)
      rcases reflTransGen_iff_eq_or_transGen.1 hup with heq | habove
      · exact absurd heq (by decide)
      · exact not_above_of_root hroot habove
    · exact hlater
  refine ⟨hremoved, hfew, ?_, hnew, hkept, ?_⟩
  · exact ((hhandle again).2 hremoved hfew).1
  · exact (hhandle elsewhere).1 hkept

end BlockScript.Script
