import BlockScript.Proofs.Script.Sound

namespace BlockScript.Script

variable {s : Script} {loose loose' : List Handle} {h x : Handle} {key : String}
  {block : Block} {parent place : Option Handle} {list : List Handle}

theorem filter_ne_eq_self (hx : x ∉ list) : list.filter (· ≠ x) = list :=
  List.filter_eq_self.2 fun _ hy => decide_eq_true fun heq => hx (heq ▸ hy)

theorem filter_ne_middle {before after : List Handle} (hn : (before ++ x :: after).Nodup) :
    (before ++ x :: after).filter (· ≠ x) = before ++ after := by
  obtain ⟨_, hbehind, hapart⟩ := List.nodup_append.1 hn
  have hbefore : x ∉ before := fun hmem => hapart x hmem x (List.mem_cons_self ..) rfl
  have hafter : x ∉ after := (List.nodup_cons.1 hbehind).1
  rw [List.filter_append, List.filter_cons_of_neg (by simp), filter_ne_eq_self hbefore,
    filter_ne_eq_self hafter]

theorem parentOf?_setParent (h x : Handle) (parent : Option Handle) :
    (s.modifyBlock h ({ · with parent })).parentOf? x =
      if x = h then (s.parentOf? x).map fun _ => parent else s.parentOf? x := by
  rw [parentOf?, block?_modifyBlock]
  split
  · simp [parentOf?, Function.comp_def]
  · rfl

theorem Sound.setParent (hs : s.Sound loose) (hh : h ∈ loose) (parent : Option Handle) :
    (s.modifyBlock h ({ · with parent })).Sound loose where
  find?_iff := by
    intro key x
    rw [find?_modifyBlock, hs.find?_iff, keyOf?, keyOf?, map_block?_modifyBlock]
    exact fun _ => rfl
  vacant_nodup := hs.vacant_nodup
  mem_vacant := by
    intro i
    rw [vacant_modifyBlock, isVacant_modifyBlock, hs.mem_vacant]
  nodup := by
    intro place list hp
    rw [siblings?_modifyBlock] at hp
    · exact hs.nodup hp
    · exact fun _ => rfl
  mem_iff := by
    intro place list hp x
    replace hp : s.siblings? place = some list := by
      rwa [siblings?_modifyBlock] at hp
      exact fun _ => rfl
    rw [hs.mem_iff hp, parentOf?_setParent]
    apply and_congr_right
    intro hx
    rw [if_neg (by rintro rfl; exact hx hh)]
  rooted := by
    intro x place hx
    have hstored : ∃ place, s.parentOf? x = some place := by
      rw [parentOf?_setParent] at hx
      split at hx
      · exact (Option.map_eq_some_iff.1 hx).imp fun _ => And.left
      · exact ⟨place, hx⟩
    obtain ⟨place, hx⟩ := hstored
    apply (hs.rooted hx).mono (fun _ => .loose)
    intro y place hy hp
    rw [parentOf?_setParent, if_neg (by rintro rfl; exact hy hh), hp]
  loose_nodup := hs.loose_nodup
  loose_stored := by
    intro x hx
    obtain ⟨block, hb⟩ := hs.loose_stored x hx
    rw [block?_modifyBlock, hb]
    split <;> exact ⟨_, rfl⟩

theorem Sound.modifySiblings {g : List Handle → List Handle} (hs : s.Sound loose)
    (hlist : ∀ old, s.siblings? parent = some old → (g old).Nodup ∧
      ∀ x, x ∈ g old ↔ x ∉ loose' ∧ s.parentOf? x = some parent)
    (hothers : ∀ x, s.parentOf? x ≠ some parent → (x ∈ loose' ↔ x ∈ loose))
    (hrooted : ∀ x ∈ loose, (s.modifySiblings parent g).Rooted loose' x)
    (hnodup : loose'.Nodup) (hstored : ∀ x ∈ loose', ∃ block, s.block? x = some block) :
    (s.modifySiblings parent g).Sound loose' where
  find?_iff := by
    intro key x
    rw [find?_modifySiblings, keyOf?_modifySiblings, hs.find?_iff]
  vacant_nodup := by simpa using hs.vacant_nodup
  mem_vacant := by
    intro i
    rw [vacant_modifySiblings, isVacant_modifySiblings, hs.mem_vacant]
  nodup := by
    intro place list hl
    rw [siblings?_modifySiblings] at hl
    split at hl
    · obtain ⟨old, ho, rfl⟩ := Option.map_eq_some_iff.1 hl
      next hplace =>
      exact (hlist old (hplace ▸ ho)).1
    · exact hs.nodup hl
  mem_iff := by
    intro place list hl x
    rw [parentOf?_modifySiblings]
    rw [siblings?_modifySiblings] at hl
    split at hl
    · next hplace =>
      obtain ⟨old, ho, rfl⟩ := Option.map_eq_some_iff.1 hl
      rw [hplace] at ho ⊢
      exact (hlist old ho).2 x
    · next hplace =>
      rw [hs.mem_iff hl]
      apply and_congr_left
      intro hx
      have hne : s.parentOf? x ≠ some parent := by
        rw [hx]
        exact fun he => hplace (Option.some.inj he)
      rw [hothers x hne]
  rooted := by
    intro x place hx
    rw [parentOf?_modifySiblings] at hx
    apply (hs.rooted hx).mono hrooted
    intro y place _ hy
    rw [parentOf?_modifySiblings, hy]
  loose_nodup := hnodup
  loose_stored := by
    intro x hx
    obtain ⟨block, hb⟩ := hstored x hx
    rw [block?_modifySiblings, hb]
    split <;> exact ⟨_, rfl⟩

theorem ne_of_parentOf? (hp : s.parentOf? h = some parent) (hx : s.parentOf? x ≠ some parent) :
    x ≠ h := by
  rintro rfl
  exact hx hp

theorem Sound.detach (hs : s.Sound loose) (hp : s.parentOf? h = some parent) (hh : h ∉ loose) :
    (s.modifySiblings parent (·.filter (· ≠ h))).Sound (h :: loose) := by
  apply hs.modifySiblings
  case hlist =>
    intro old ho
    constructor
    · exact (hs.nodup ho).filter _
    · intro x
      rw [List.mem_filter, hs.mem_iff ho, List.mem_cons, not_or, decide_eq_true_eq]
      constructor
      · rintro ⟨⟨hx, hpx⟩, hne⟩
        exact ⟨⟨hne, hx⟩, hpx⟩
      · rintro ⟨⟨hne, hx⟩, hpx⟩
        exact ⟨⟨hx, hpx⟩, hne⟩
  case hothers =>
    intro x hx
    rw [List.mem_cons, or_iff_right (ne_of_parentOf? hp hx)]
  case hrooted =>
    intro x hx
    exact .loose (.tail _ hx)
  case hnodup => exact .cons hh hs.loose_nodup
  case hstored =>
    have hstored : ∃ block, s.block? h = some block :=
      (exists_block_of_parentOf? hp).imp fun _ => And.left
    exact List.forall_mem_cons.2 ⟨hstored, hs.loose_stored⟩

def Adds (h : Handle) (g : List Handle → List Handle) : Prop :=
  ∀ list : List Handle, list.Nodup → h ∉ list →
    (g list).Nodup ∧ ∀ x, x ∈ g list ↔ x = h ∨ x ∈ list

/-- A loose block is put into the list of its parent. The parent must not be below it. -/
theorem Sound.attach {g : List Handle → List Handle} (hs : s.Sound (h :: loose)) (hg : Adds h g)
    (hp : s.parentOf? h = some parent) (hr : ∀ p, parent = some p → s.Rooted loose p) :
    (s.modifySiblings parent g).Sound loose := by
  obtain ⟨hh, hnodup⟩ := List.nodup_cons.1 hs.loose_nodup
  apply hs.modifySiblings
  case hlist =>
    intro old ho
    have hnew : h ∉ old := by
      intro hmem
      exact ((hs.mem_iff ho h).1 hmem).1 (.head _)
    obtain ⟨hnodup, hmem⟩ := hg old (hs.nodup ho) hnew
    apply And.intro hnodup
    intro x
    rw [hmem, hs.mem_iff ho, List.mem_cons, not_or]
    constructor
    · rintro (rfl | ⟨⟨_, hx⟩, hpx⟩)
      · exact ⟨hh, hp⟩
      · exact ⟨hx, hpx⟩
    · rintro ⟨hx, hpx⟩
      by_cases he : x = h
      · exact .inl he
      · exact .inr ⟨⟨he, hx⟩, hpx⟩
  case hothers =>
    intro x hx
    rw [List.mem_cons, or_iff_right (ne_of_parentOf? hp hx)]
  case hrooted =>
    intro x hx
    have same (y : Handle) (place : Option Handle) (hy : s.parentOf? y = some place) :
        (s.modifySiblings parent g).parentOf? y = some place := by
      rw [parentOf?_modifySiblings, hy]
    rcases List.mem_cons.1 hx with rfl | hx
    · cases parent with
      | none => exact .root (same x _ hp)
      | some p =>
        have habove := (hr p rfl).mono (fun _ => .loose) fun y place _ => same y place
        exact .under (same x _ hp) habove
    · exact .loose hx
  case hnodup => exact hnodup
  case hstored => exact (List.forall_mem_cons.1 hs.loose_stored).2

section Vacate

variable (hb : s.block? h = some block)

theorem parentOf?_vacate (x : Handle) : (s.vacate h.index key).parentOf? x =
    if x.index = h.index then none else s.parentOf? x :=
  map_block?_vacate

theorem siblings?_of_vacate (hl : (s.vacate h.index key).siblings? place = some list) :
    s.siblings? place = some list ∧ place ≠ some h := by
  cases place with
  | none => exact ⟨hl, nofun⟩
  | some p =>
    have hl := (map_block?_vacate (a := fun block => block.children)).symm.trans hl
    split at hl
    · cases hl
    · next hi => exact ⟨hl, by rintro ⟨⟩; exact hi rfl⟩

include hb

theorem block?_vacate_of_ne {other : Block} (hx : s.block? x = some other) (hne : x ≠ h) :
    (s.vacate h.index key).block? x = some other := by
  rw [block?_vacate, if_neg fun hi => hne (handle_eq hb hx hi), hx]

theorem parentOf?_vacate_of_ne (hx : s.parentOf? x = some parent) (hne : x ≠ h) :
    (s.vacate h.index key).parentOf? x = some parent := by
  obtain ⟨other, ho, hp⟩ := exists_block_of_parentOf? hx
  rw [parentOf?, block?_vacate_of_ne hb ho hne, ← hp]
  rfl

theorem Sound.find?_vacate_iff (hs : s.Sound loose) :
    (s.vacate h.index block.key).find? key = some x ↔
      (s.vacate h.index block.key).keyOf? x = some key := by
  have keys : (s.vacate h.index block.key).keyOf? x =
      if x.index = h.index then none else s.keyOf? x := map_block?_vacate
  rw [find?_vacate, keys]
  by_cases hi : x.index = h.index
  · simp only [hi, ↓reduceIte, reduceCtorEq, iff_false]
    intro hx
    split at hx
    · cases hx
    next hk =>
    obtain ⟨other, ho, rfl⟩ := Option.map_eq_some_iff.1 (hs.find?_iff.1 hx)
    obtain rfl := handle_eq hb ho hi
    rw [hb] at ho
    cases ho
    exact hk rfl
  · rw [if_neg hi, ← hs.find?_iff]
    split
    · next hk =>
      subst hk
      rw [hs.find?_key hb]
      simp only [reduceCtorEq, Option.some.injEq, false_iff]
      rintro rfl
      exact hi rfl
    · rfl

theorem Sound.mem_iff_vacate (hs : s.Sound (h :: loose))
    (hl : (s.vacate h.index block.key).siblings? place = some list) :
    x ∈ list ↔ x ∉ block.children.reverse ++ loose ∧
      (s.vacate h.index block.key).parentOf? x = some place := by
  obtain ⟨ho, hne⟩ := siblings?_of_vacate hl
  have hc := hs.mem_children hb x
  rw [hs.mem_iff ho, List.mem_append, List.mem_reverse, hc]
  constructor
  · rintro ⟨hx, hp⟩
    simp only [List.mem_cons, not_or] at hx
    refine ⟨?_, parentOf?_vacate_of_ne hb hp hx.1⟩
    rintro (⟨_, hq⟩ | hx')
    · rw [hp] at hq
      cases hq
      exact hne rfl
    · exact hx.2 hx'
  · rintro ⟨hx, hp⟩
    rw [parentOf?_vacate] at hp
    split at hp
    · cases hp
    next hi =>
    refine ⟨?_, hp⟩
    simp only [List.mem_cons, not_or]
    exact ⟨by rintro rfl; exact hi rfl, fun hx' => hx (.inr hx')⟩

/-- Parents that led up to the block that leaves now lead up to one of those right under it. -/
theorem Sound.rooted_vacate (hs : s.Sound (h :: loose))
    (hx : (s.vacate h.index block.key).parentOf? x = some parent) :
    (s.vacate h.index block.key).Rooted (block.children.reverse ++ loose) x := by
  rw [parentOf?_vacate] at hx
  split at hx
  · cases hx
  next hi =>
  have hne : x ≠ h := by rintro rfl; exact hi rfl
  apply (hs.rooted hx).carry (K := (· ≠ h)) hne
  · intro y hy hyh
    rcases List.mem_cons.1 hy with rfl | hy
    · exact absurd rfl hyh
    · exact .loose (List.mem_append_right _ hy)
  · intro y place hy hyh hp
    by_cases hc : place = some h
    · subst hc
      have hm := (hs.mem_children hb y).2 ⟨hy, hp⟩
      exact .inl (.loose (List.mem_append_left _ (List.mem_reverse.2 hm)))
    · refine .inr ⟨parentOf?_vacate_of_ne hb hp hyh, ?_⟩
      rintro p rfl rfl
      exact hc rfl

/-- When a loose block leaves its slot, the blocks right under it become loose. -/
theorem Sound.vacate (hs : s.Sound (h :: loose)) :
    (s.vacate h.index block.key).Sound (block.children.reverse ++ loose) where
  find?_iff := hs.find?_vacate_iff hb
  vacant_nodup := .cons (fun hv => not_isVacant hb (hs.mem_vacant.1 hv)) hs.vacant_nodup
  mem_vacant := by
    intro i
    rw [isVacant_vacate, ← hs.mem_vacant]
    simp only [Script.vacate, List.mem_cons, index_lt hb, and_true, or_comm]
  nodup := fun hl => hs.nodup (siblings?_of_vacate hl).1
  mem_iff := fun hl x => hs.mem_iff_vacate hb hl
  rooted := hs.rooted_vacate hb
  loose_nodup := by
    have hc : block.children.Nodup := hs.nodup (siblings?_of_block? hb)
    refine List.nodup_append.2 ⟨List.nodup_reverse.2 hc, (List.nodup_cons.1 hs.loose_nodup).2, ?_⟩
    rintro x hx _ hx' rfl
    exact ((hs.mem_children hb x).1 (List.mem_reverse.1 hx)).1 (.tail _ hx')
  loose_stored := by
    intro x hx
    rcases List.mem_append.1 hx with hx | hx
    · obtain ⟨hn, hp⟩ := (hs.mem_children hb x).1 (List.mem_reverse.1 hx)
      obtain ⟨other, ho, _⟩ := exists_block_of_parentOf? hp
      exact ⟨other, block?_vacate_of_ne hb ho (by rintro rfl; exact hn (.head _))⟩
    · obtain ⟨other, ho⟩ := hs.loose_stored x (.tail _ hx)
      refine ⟨other, block?_vacate_of_ne hb ho ?_⟩
      rintro rfl
      exact (List.nodup_cons.1 hs.loose_nodup).1 hx

end Vacate

section Occupy

variable (hs : s.Sound loose)

include hs

theorem Sound.parentOf?_occupy (x : Handle) : (s.occupy block).1.parentOf? x =
    if x = (s.occupy block).2 then some block.parent else s.parentOf? x :=
  map_block?_occupy fun _ => hs.mem_vacant.1

theorem Sound.occupy_not_stored : s.block? (s.occupy block).2 = none :=
  block?_occupy_handle fun _ => hs.mem_vacant.1

theorem Sound.keyOf?_occupy (hk : s.keyOf? x = some key) :
    (s.occupy block).1.keyOf? x = some key := by
  have hne : x ≠ (s.occupy block).2 := by
    rintro rfl
    rw [keyOf?, hs.occupy_not_stored] at hk
    contradiction
  rw [keyOf?, map_block?_occupy fun _ => hs.mem_vacant.1, if_neg hne]
  exact hk

theorem Sound.keyOf?_occupy_handle :
    (s.occupy block).1.keyOf? (s.occupy block).2 = some block.key := by
  rw [keyOf?, map_block?_occupy fun _ => hs.mem_vacant.1, if_pos rfl]

theorem Sound.siblings?_occupy : (s.occupy block).1.siblings? place =
    if place = some (s.occupy block).2 then some block.children else s.siblings? place := by
  cases place with
  | none => rw [if_neg nofun, siblings?, siblings?, roots_occupy]
  | some p =>
    simp only [siblings?, map_block?_occupy fun _ => hs.mem_vacant.1, Option.some.injEq]

theorem Sound.vacant_occupy_nodup : (s.occupy block).1.vacant.Nodup := by
  rcases s.vacant_occupy block with he | ⟨_, he, _⟩
  · exact (List.nodup_cons.1 (he ▸ hs.vacant_nodup)).2
  · simp [he]

theorem Sound.mem_vacant_occupy {i : Nat} :
    i ∈ (s.occupy block).1.vacant ↔ (s.occupy block).1.IsVacant i := by
  rw [isVacant_occupy fun _ => hs.mem_vacant.1, ← hs.mem_vacant]
  rcases s.vacant_occupy block with he | ⟨hn, he, _⟩
  · have hd := List.nodup_cons.1 (he ▸ hs.vacant_nodup)
    rw [he, List.mem_cons]
    grind
  · simp [he, hn]

theorem Sound.occupy (hk : s.find? block.key = none) (hc : block.children = []) :
    (s.occupy block).1.Sound ((s.occupy block).2 :: loose) := by
  have hnew : s.block? (s.occupy block).2 = none := hs.occupy_not_stored
  have stored {x} {other : Block} (hx : s.block? x = some other) : x ≠ (s.occupy block).2 := by
    rintro rfl
    rw [hnew] at hx
    cases hx
  have parents {x parent} (hx : s.parentOf? x = some parent) :
      x ≠ (s.occupy block).2 ∧ (s.occupy block).1.parentOf? x = some parent := by
    obtain ⟨other, ho, _⟩ := exists_block_of_parentOf? hx
    exact ⟨stored ho, by rw [hs.parentOf?_occupy, if_neg (stored ho), hx]⟩
  constructor
  case find?_iff =>
    intro key x
    rw [find?_occupy, keyOf?, map_block?_occupy fun _ => hs.mem_vacant.1]
    have hi : s.find? key = some x ↔ s.keyOf? x = some key := hs.find?_iff
    have hi' : s.find? block.key = some x ↔ s.keyOf? x = some block.key := hs.find?_iff
    have hn : s.keyOf? (s.occupy block).2 = none := by rw [keyOf?, hnew]; rfl
    rw [keyOf?] at hi hi' hn
    grind
  case vacant_nodup => exact hs.vacant_occupy_nodup
  case mem_vacant => exact hs.mem_vacant_occupy
  case nodup =>
    intro place list hl
    rw [hs.siblings?_occupy] at hl
    split at hl
    · cases hl
      simp [hc]
    · exact hs.nodup hl
  case mem_iff =>
    intro place list hl x
    rw [hs.siblings?_occupy] at hl
    split at hl
    · next hp =>
      cases hl
      subst hp
      simp only [hc, List.not_mem_nil, false_iff, not_and, List.mem_cons, not_or]
      rintro ⟨hne, hx⟩ hq
      rw [hs.parentOf?_occupy, if_neg hne] at hq
      obtain ⟨other, ho⟩ := hs.parent_stored hq hx
      exact stored ho rfl
    · rw [hs.mem_iff hl, hs.parentOf?_occupy, List.mem_cons]
      have := @parents x place
      grind
  case rooted =>
    intro x parent hx
    rw [hs.parentOf?_occupy] at hx
    split at hx
    · next he => exact .loose (he ▸ .head _)
    · exact (hs.rooted hx).mono (fun _ hy => .loose (.tail _ hy)) fun _ _ _ hy => (parents hy).2
  case loose_nodup =>
    apply List.Nodup.cons _ hs.loose_nodup
    intro hl
    obtain ⟨other, ho⟩ := hs.loose_stored _ hl
    exact stored ho rfl
  case loose_stored =>
    intro x hx
    rw [block?_occupy fun _ => hs.mem_vacant.1]
    split
    · exact ⟨block, rfl⟩
    · next hne => exact hs.loose_stored x (List.mem_of_ne_of_mem hne hx)

end Occupy

end BlockScript.Script
