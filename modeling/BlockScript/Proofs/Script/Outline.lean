import BlockScript.Proofs.Script.Release

namespace BlockScript

open Relation

/-- A block that names its parent and its children by their keys. -/
structure Entry where
  instruction : Instruction
  parent : Option String
  children : List String

@[ext] structure Outline where
  roots : List String
  lookup? : String → Option Entry

namespace Outline

def modify (o : Outline) (key : String) (f : Entry → Entry) : Outline :=
  { o with lookup? := fun other => if other = key then (o.lookup? other).map f else o.lookup? other }

/-- Changes the list in which the keys under a parent stand. -/
def modifyList (o : Outline) (parent : Option String) (g : List String → List String) : Outline :=
  match parent with
  | some key => o.modify key fun e => { e with children := g e.children }
  | none => { o with roots := g o.roots }

def put (o : Outline) (key : String) (e : Entry) : Outline :=
  { o with lookup? := fun other => if other = key then some e else o.lookup? other }

def HasParent (o : Outline) (key parent : String) : Prop :=
  ∃ e, o.lookup? key = some e ∧ e.parent = some parent

/-- Whether a block is another one or below it. -/
def Under (o : Outline) (key above : String) : Prop := ReflTransGen o.HasParent key above

open Classical in
/-- The outline without a block and all below it. -/
noncomputable def prune (o : Outline) (key : String) : Outline :=
  { o with lookup? := fun other => if o.Under other key then none else o.lookup? other }

theorem lookup?_put {o : Outline} {key k : String} {e : Entry} :
    (o.put key e).lookup? k = if k = key then some e else o.lookup? k := rfl

theorem lookup?_prune_of_under {o : Outline} {key k : String} (h : o.Under k key) :
    (o.prune key).lookup? k = none :=
  if_pos h

theorem lookup?_prune {o : Outline} {key k : String} (h : ¬ o.Under k key) :
    (o.prune key).lookup? k = o.lookup? k :=
  if_neg h

def insertBefore (source target : String) (keys : List String) : List String :=
  keys.takeWhile (· ≠ target) ++ source :: keys.dropWhile (· ≠ target)

end Outline

namespace Script

variable {s : Script} {loose : List Handle} {h x r p : Handle} {key k : String} {block : Block}
  {parent : Option Handle} {parentKey : Option String} {f : Block → Block} {f' : Entry → Entry}
  {g : List Handle → List Handle} {g' : List String → List String}

def keysOf (s : Script) (list : List Handle) : List String := list.filterMap s.keyOf?

def entry (s : Script) (block : Block) : Entry :=
  ⟨block.instruction, block.parent.bind s.keyOf?, s.keysOf block.children⟩

def lookup? (s : Script) (key : String) : Option Entry :=
  ((s.find? key).bind s.block?).map s.entry

def outline (s : Script) : Outline := ⟨s.keysOf s.roots, s.lookup?⟩

/-- Whether a key is that of a parent. The roots have no parent and so no key. -/
inductive Names (s : Script) : Option Handle → Option String → Prop where
  | roots : Names s none none
  | block {h : Handle} {key : String} : s.keyOf? h = some key → Names s (some h) (some key)

theorem Names.bind_eq (hn : s.Names parent parentKey) : parent.bind s.keyOf? = parentKey := by
  cases hn with
  | roots => rfl
  | block hk => exact hk

theorem Names.mono {t : Script} (hn : s.Names parent parentKey)
    (h : ∀ x key, s.keyOf? x = some key → t.keyOf? x = some key) : t.Names parent parentKey := by
  cases hn with
  | roots => exact .roots
  | block hk => exact .block (h _ _ hk)

theorem Names.hasPlace (hn : s.Names parent parentKey) : s.hasPlace parent = true := by
  cases hn with
  | roots => rfl
  | block hk =>
    obtain ⟨block, hb, _⟩ := Option.map_eq_some_iff.1 hk
    exact hasPlace_iff.2 ⟨_, siblings?_of_block? hb⟩

theorem keysOf_append (s : Script) (xs ys : List Handle) :
    s.keysOf (xs ++ ys) = s.keysOf xs ++ s.keysOf ys :=
  List.filterMap_append

theorem keysOf_cons (hk : s.keyOf? h = some key) (list : List Handle) :
    s.keysOf (h :: list) = key :: s.keysOf list :=
  List.filterMap_cons_some hk

theorem keysOf_cons_of_not_stored (hn : s.keyOf? h = none) (list : List Handle) :
    s.keysOf (h :: list) = s.keysOf list :=
  List.filterMap_cons_none hn

theorem lookup?_of_missing (hn : s.find? key = none) : s.outline.lookup? key = none := by
  change s.lookup? key = none
  rw [lookup?, hn]
  rfl

section Sound

variable (hs : s.Sound loose)

include hs

theorem Sound.ne_iff_key (hk : s.keyOf? h = some key) (hx : s.keyOf? x = some k) :
    x ≠ h ↔ k ≠ key := by
  apply not_congr
  constructor
  · rintro rfl
    exact Option.some.inj (hx.symm.trans hk)
  · rintro rfl
    exact Option.some.inj ((hs.find?_iff.2 hx).symm.trans (hs.find?_iff.2 hk))

theorem Sound.keysOf_filter (hk : s.keyOf? h = some key) (list : List Handle) :
    s.keysOf (list.filter (· ≠ h)) = (s.keysOf list).filter (· ≠ key) := by
  rw [keysOf, keysOf, List.filterMap_filter, List.filter_filterMap]
  congr 1
  funext x
  cases hx : s.keyOf? x with
  | none => simp
  | some k => simp [Option.filter, hs.ne_iff_key hk hx]

theorem Sound.keysOf_insertBefore {source target : Handle} {sourceKey targetKey : String}
    (hsource : s.keyOf? source = some sourceKey) (htarget : s.keyOf? target = some targetKey)
    (list : List Handle) :
    s.keysOf (insertBefore source target list) =
      Outline.insertBefore sourceKey targetKey (s.keysOf list) := by
  induction list with
  | nil => exact keysOf_cons hsource []
  | cons x list ih =>
    by_cases hxt : x = target
    · subst hxt
      simp [insertBefore, Outline.insertBefore, keysOf_cons hsource, keysOf_cons htarget]
    · have hleft : insertBefore source target (x :: list) = x :: insertBefore source target list := by
        simp [insertBefore, hxt]
      rw [hleft]
      cases hx : s.keyOf? x with
      | none => rw [keysOf_cons_of_not_stored hx, keysOf_cons_of_not_stored hx, ih]
      | some k =>
        have hne := (hs.ne_iff_key htarget hx).1 hxt
        rw [keysOf_cons hx, keysOf_cons hx, ih]
        simp [Outline.insertBefore, hne]

theorem Sound.lookup?_of_block? (hb : s.block? h = some block) :
    s.outline.lookup? block.key = some (s.entry block) := by
  change s.lookup? block.key = _
  rw [lookup?, hs.find?_key hb]
  exact congrArg (Option.map _) hb

theorem Sound.exists_of_lookup? {e : Entry} (he : s.outline.lookup? key = some e) :
    ∃ h block, s.block? h = some block ∧ block.key = key ∧ s.entry block = e := by
  obtain ⟨block, hblock, he⟩ := Option.map_eq_some_iff.1 he
  obtain ⟨h, hfind, hb⟩ := Option.bind_eq_some_iff.1 hblock
  obtain ⟨other, ho, hkey⟩ := Option.map_eq_some_iff.1 (hs.find?_iff.1 hfind)
  obtain rfl := Option.some.inj (hb.symm.trans ho)
  exact ⟨h, block, hb, hkey, he⟩

/-- What an outline has to show to be that of a script. -/
theorem Sound.outline_eq {o : Outline} (hroots : s.keysOf s.roots = o.roots)
    (hmissing : ∀ key, s.find? key = none → o.lookup? key = none)
    (hstored : ∀ h block, s.block? h = some block →
      o.lookup? block.key = some (s.entry block)) : s.outline = o := by
  apply Outline.ext hroots
  funext key
  cases hfind : s.find? key with
  | none => rw [lookup?_of_missing hfind, hmissing key hfind]
  | some h =>
    obtain ⟨block, hb, rfl⟩ := Option.map_eq_some_iff.1 (hs.find?_iff.1 hfind)
    rw [hs.lookup?_of_block? hb, hstored h block hb]

theorem Sound.outline_modifyBlock (hk : s.keyOf? h = some key) (hkey : ∀ b, (f b).key = b.key)
    (hentry : ∀ b, s.entry (f b) = f' (s.entry b)) :
    (s.modifyBlock h f).outline = s.outline.modify key f' := by
  have hkeys : (s.modifyBlock h f).keyOf? = s.keyOf? := by
    funext x
    exact map_block?_modifyBlock hkey
  have hentries : (s.modifyBlock h f).entry = s.entry := by
    funext b
    rw [entry, entry, keysOf, keysOf, hkeys]
  apply Outline.ext
  · rw [outline, outline, keysOf, hkeys]
    rfl
  · funext k
    simp only [outline, lookup?, Outline.modify, find?_modifyBlock, hentries]
    cases hfind : s.find? k with
    | none => simp
    | some x =>
      have hiff := not_iff_not.1 (hs.ne_iff_key hk (hs.find?_iff.1 hfind))
      simp only [Option.bind_some, block?_modifyBlock, hiff]
      split
      · simp [Function.comp_def, hentry]
      · rfl

theorem Sound.outline_modifySiblings (hn : s.Names parent parentKey)
    (hg : ∀ list, s.keysOf (g list) = g' (s.keysOf list)) :
    (s.modifySiblings parent g).outline = s.outline.modifyList parentKey g' := by
  cases hn with
  | roots => exact Outline.ext (hg s.roots) rfl
  | block hk =>
    refine hs.outline_modifyBlock hk (fun _ => rfl) fun b => ?_
    rw [entry, hg]
    rfl

theorem Sound.under_iff (hx : s.keyOf? x = some k) (hr : s.keyOf? r = some key) :
    s.outline.Under k key ↔ ReflTransGen s.HasParent x r := by
  constructor
  · intro hu
    induction hu using ReflTransGen.head_induction_on generalizing x with
    | refl =>
      obtain rfl := Option.some.inj ((hs.find?_iff.2 hx).symm.trans (hs.find?_iff.2 hr))
      exact .refl
    | head hp _ ih =>
      obtain ⟨e, he, hparent⟩ := hp
      obtain ⟨y, block, hb, rfl, rfl⟩ := hs.exists_of_lookup? he
      obtain rfl := Option.some.inj ((hs.find?_iff.2 hx).symm.trans (hs.find?_key hb))
      obtain ⟨p, hp, hkey⟩ := Option.bind_eq_some_iff.1 hparent
      have hup : s.HasParent x p := by rw [HasParent, parentOf?_of_block? hb, hp]
      exact .head hup (ih hkey)
  · intro hup
    induction hup using ReflTransGen.head_induction_on generalizing k with
    | refl =>
      obtain rfl := Option.some.inj (hx.symm.trans hr)
      exact .refl
    | @head x p hp hup ih =>
      obtain ⟨top, htop, _⟩ := Option.map_eq_some_iff.1 hr
      obtain ⟨other, ho⟩ := exists_block_of_reflTransGen hup htop
      obtain ⟨block, hb, hparent⟩ := exists_block_of_parentOf? hp
      obtain rfl := Option.some.inj ((keyOf?_of_block? hb).symm.trans hx)
      refine .head ⟨s.entry block, hs.lookup?_of_block? hb, ?_⟩ (ih (keyOf?_of_block? ho))
      rw [entry, hparent]
      exact keyOf?_of_block? ho

theorem Sound.falls_iff (hr : s.keyOf? r = some key) (hx : s.keyOf? x = some k) :
    s.Falls [r] x ↔ s.outline.Under k key := by
  rw [falls_singleton, hs.under_iff hx hr]

end Sound

theorem keysOf_congr {t : Script} {list : List Handle}
    (h : ∀ x ∈ list, t.keyOf? x = s.keyOf? x) : t.keysOf list = s.keysOf list :=
  List.filterMap_congr h

theorem entry_congr {t : Script} (hparent : ∀ p, block.parent = some p → t.keyOf? p = s.keyOf? p)
    (hchildren : ∀ c ∈ block.children, t.keyOf? c = s.keyOf? c) : t.entry block = s.entry block := by
  have hp : block.parent.bind t.keyOf? = block.parent.bind s.keyOf? := by
    cases h : block.parent with
    | none => rfl
    | some p => exact hparent p h
  rw [entry, entry, hp, keysOf_congr hchildren]

theorem Sound.outline_release (hs : s.Sound [r]) (hr : s.keyOf? r = some key) :
    (s.release [r]).outline = s.outline.prune key := by
  apply hs.release.outline_eq
  case hroots =>
    rw [roots_release]
    have hl : s.siblings? none = some s.roots := rfl
    exact keysOf_congr fun x hx => hs.keyOf?_release (hs.not_falls_of_mem hl (by simp) hx)
  case hmissing =>
    intro k hn
    by_cases hu : s.outline.Under k key
    · exact Outline.lookup?_prune_of_under hu
    rw [Outline.lookup?_prune hu, Option.eq_none_iff_forall_not_mem]
    intro e he
    obtain ⟨x, block, hb, rfl, _⟩ := hs.exists_of_lookup? he
    have hx := keyOf?_of_block? hb
    rw [← hs.falls_iff hr hx] at hu
    rw [← hs.keyOf?_release hu, ← hs.release.find?_iff, hn] at hx
    contradiction
  case hstored =>
    intro x block hb
    have hx : ¬ s.Falls [r] x := by
      intro hf
      have hvacant := hs.blockAt?_release_of_falls hf
      rw [blockAt?_of_block? hb] at hvacant
      contradiction
    have hbefore : s.block? x = some block := (hs.block?_release hx).symm.trans hb
    have hparent (p : Handle) (hp : block.parent = some p) : ¬ s.Falls [r] p := by
      have hup : s.HasParent x p := by rw [HasParent, parentOf?_of_block? hbefore, hp]
      exact fun hf => hx (.under hup hf)
    have hchild (c : Handle) (hc : c ∈ block.children) : ¬ s.Falls [r] c := by
      apply hs.not_falls_of_mem (siblings?_of_block? hbefore) _ hc
      intro p hp
      rwa [← Option.some.inj hp]
    have hsame : (s.release [r]).entry block = s.entry block :=
      entry_congr (fun p hp => hs.keyOf?_release (hparent p hp))
        fun c hc => hs.keyOf?_release (hchild c hc)
    rw [Outline.lookup?_prune (mt (hs.falls_iff hr (keyOf?_of_block? hbefore)).2 hx),
      hs.lookup?_of_block? hbefore, hsame]

section Occupy

variable (hs : s.WellFormed)

include hs

theorem Sound.keyOf?_occupy_of_block? {other : Block} (ho : s.block? x = some other) :
    (s.occupy block).1.keyOf? x = s.keyOf? x := by
  rw [keyOf?_of_block? ho]
  exact hs.keyOf?_occupy (keyOf?_of_block? ho)

theorem Sound.keyOf?_occupy_of_mem {list : List Handle} (hl : s.siblings? parent = some list)
    (hx : x ∈ list) : (s.occupy block).1.keyOf? x = s.keyOf? x := by
  obtain ⟨other, ho, _⟩ := exists_block_of_parentOf? ((hs.mem_iff hl x).1 hx).2
  exact hs.keyOf?_occupy_of_block? ho

theorem Sound.outline_occupy (hk : s.find? block.key = none) (hc : block.children = [])
    (hn : s.Names block.parent parentKey) :
    (s.occupy block).1.outline =
      s.outline.put block.key ⟨block.instruction, parentKey, []⟩ := by
  apply (hs.occupy hk hc).outline_eq
  case hroots =>
    rw [roots_occupy]
    have hl : s.siblings? none = some s.roots := rfl
    exact keysOf_congr fun x => hs.keyOf?_occupy_of_mem hl
  case hmissing =>
    intro k hmissing
    rw [find?_occupy] at hmissing
    split at hmissing
    · contradiction
    · next hne =>
      rw [Outline.lookup?_put, if_neg (Ne.symm hne)]
      exact lookup?_of_missing hmissing
  case hstored =>
    intro x other ho
    rw [block?_occupy fun _ => hs.mem_vacant.1] at ho
    split at ho
    · obtain rfl := Option.some.inj ho
      have hparent : (s.occupy block).1.Names block.parent parentKey :=
        hn.mono fun _ _ => hs.keyOf?_occupy
      rw [Outline.lookup?_put, if_pos rfl, entry, hparent.bind_eq, hc]
      rfl
    · have hne : other.key ≠ block.key := by
        intro he
        rw [← he, hs.find?_key ho] at hk
        contradiction
      have hsame : (s.occupy block).1.entry other = s.entry other := by
        apply entry_congr
        · intro p hp
          have hparent : s.HasParent x p := by rw [HasParent, parentOf?_of_block? ho, hp]
          obtain ⟨above, ha⟩ := hs.parent_stored hparent List.not_mem_nil
          exact hs.keyOf?_occupy_of_block? ha
        · exact fun c => hs.keyOf?_occupy_of_mem (siblings?_of_block? ho)
      rw [Outline.lookup?_put, if_neg hne, hs.lookup?_of_block? ho, hsame]

end Occupy

end Script

end BlockScript
