import BlockScript.Proofs.Script.Outline

namespace BlockScript

open Relation

/-- An edit that names all blocks by their keys. -/
inductive Request where
  | insert (key : String) (instruction : Instruction) (parent : Option String)
  | configure (key : String) (ps : Params)
  | remove (key : String)
  | reorder (source target : String)

/-- The script after an edit, and whether that was carried out. -/
def Script.serve (s : Script) : Request → Script × Bool
  | .insert key instruction parentKey =>
    match s.parent? parentKey with
    | none => (s, false)
    | some parent =>
      let (s, handle) := s.insert key instruction parent
      (s, handle.isSome)
  | .configure key ps => (s.configure key ps).value
  | .remove key => s.remove key
  | .reorder source target => s.reorder source target

def Script.serveAll (s : Script) : List Request → Script × List Bool
  | [] => (s, [])
  | r :: rs =>
    let (s, done) := s.serve r
    let (s, others) := s.serveAll rs
    (s, done :: others)

def Script.outlined (result : Script × Bool) : Outline × Bool := (result.1.outline, result.2)

namespace Outline

def hasPlace (o : Outline) (parent : Option String) : Bool :=
  parent.all fun key => (o.lookup? key).isSome

open Classical in
noncomputable def serve (o : Outline) : Request → Outline × Bool
  | .insert key instruction parent =>
    if (o.lookup? key).isSome || !o.hasPlace parent then (o, false)
    else ((o.put key ⟨instruction, parent, []⟩).modifyList parent (· ++ [key]), true)
  | .configure key ps =>
    match o.lookup? key with
    | none => (o, false)
    | some e =>
      (o.modify key ({ · with instruction := (e.instruction.configure ps).value }), true)
  | .remove key =>
    match o.lookup? key with
    | none => (o, false)
    | some e => ((o.modifyList e.parent (·.filter (· ≠ key))).prune key, true)
  | .reorder source target =>
    match o.lookup? source, o.lookup? target with
    | some moved, some e =>
      if o.Under target source then (o, false)
      else (((o.modifyList moved.parent (·.filter (· ≠ source))).modify source
        ({ · with parent := e.parent })).modifyList e.parent (insertBefore source target), true)
    | _, _ => (o, false)

end Outline

namespace Script

variable {s t : Script} {h : Handle} {key : String} {block : Block} {parent : Option Handle}
  {parentKey : Option String}

section WellFormed

variable (hs : s.WellFormed)

include hs

theorem Sound.names_parent (hb : s.block? h = some block) :
    s.Names block.parent (s.entry block).parent := by
  cases hp : block.parent with
  | none =>
    rw [entry, hp]
    exact .roots
  | some p =>
    have hparent : s.HasParent h p := by rw [HasParent, parentOf?_of_block? hb, hp]
    obtain ⟨other, ho⟩ := hs.parent_stored hparent List.not_mem_nil
    have hkey : (s.entry block).parent = some other.key := by
      rw [entry, hp]
      exact keyOf?_of_block? ho
    rw [hkey]
    exact .block (keyOf?_of_block? ho)

theorem Sound.parent?_cases (parentKey : Option String) :
    s.parent? parentKey = none ∧ s.outline.hasPlace parentKey = false ∨
    ∃ parent, s.parent? parentKey = some parent ∧ s.Names parent parentKey ∧
      s.outline.hasPlace parentKey = true := by
  cases parentKey with
  | none => exact .inr ⟨none, rfl, .roots, rfl⟩
  | some key =>
    rcases hs.find?_cases key with hn | ⟨h, block, hb, rfl⟩
    · left
      rw [parent?, hn, Outline.hasPlace, Option.all_some, lookup?_of_missing hn]
      exact ⟨rfl, rfl⟩
    · right
      refine ⟨some h, ?_, .block (keyOf?_of_block? hb), ?_⟩
      · rw [parent?, hs.find?_key hb]
        rfl
      · rw [Outline.hasPlace, Option.all_some, hs.lookup?_of_block? hb]
        rfl

theorem Sound.serve_insert (key : String) (instruction : Instruction)
    (parentKey : Option String) :
    s.outline.serve (.insert key instruction parentKey) =
      outlined (s.serve (.insert key instruction parentKey)) := by
  rw [Outline.serve, Script.serve]
  rcases hs.parent?_cases parentKey with ⟨hp, hplace⟩ | ⟨parent, hp, hnames, hplace⟩
  · rw [hp, hplace, Bool.not_false, Bool.or_true]
    rfl
  rw [hp, hplace]
  dsimp only
  rcases hs.find?_cases key with hn | ⟨h, block, hb, rfl⟩
  · let new := s.occupy ⟨key, instruction, parent, []⟩
    have hloose : new.1.Sound [new.2] := hs.occupy hn rfl
    have hplaced : new.1.Names parent parentKey := hnames.mono fun _ _ => hs.keyOf?_occupy
    have hlast (list : List Handle) : new.1.keysOf (list ++ [new.2]) = new.1.keysOf list ++ [key] := by
      rw [keysOf_append, keysOf_cons hs.keyOf?_occupy_handle]
      rfl
    have hput : new.1.outline = s.outline.put key ⟨instruction, parentKey, []⟩ :=
      hs.outline_occupy hn rfl hnames
    have houtline : (new.1.modifySiblings parent (· ++ [new.2])).outline =
        (s.outline.put key ⟨instruction, parentKey, []⟩).modifyList parentKey (· ++ [key]) := by
      rw [← hput]
      exact hloose.outline_modifySiblings hplaced hlast
    rw [lookup?_of_missing hn, hs.insert_eq hn hnames.hasPlace]
    exact Prod.ext houtline.symm rfl
  · rw [hs.lookup?_of_block? hb, insert_eq_refused instruction (.inl (by simp [hs.find?_key hb]))]
    rfl

theorem Sound.serve_configure (key : String) (ps : Params) :
    s.outline.serve (.configure key ps) = outlined (s.serve (.configure key ps)) := by
  rw [Outline.serve, Script.serve]
  rcases hs.find?_cases key with hn | ⟨h, block, hb, rfl⟩
  · rw [lookup?_of_missing hn, configure_eq_refused hn]
    rfl
  · rw [hs.lookup?_of_block? hb, hs.configure_eq hb]
    refine Prod.ext (Eq.symm ?_) rfl
    exact hs.outline_modifyBlock (keyOf?_of_block? hb) (fun _ => rfl) fun _ => rfl

theorem Sound.serve_remove (key : String) :
    s.outline.serve (.remove key) = outlined (s.serve (.remove key)) := by
  rw [Outline.serve, Script.serve]
  rcases hs.find?_cases key with hn | ⟨h, block, hb, rfl⟩
  · rw [lookup?_of_missing hn, remove_eq_refused hn]
    rfl
  · have hk := keyOf?_of_block? hb
    have hloose := hs.detach (parentOf?_of_block? hb) List.not_mem_nil
    rw [hs.lookup?_of_block? hb, hs.remove_eq hb]
    refine Prod.ext (Eq.symm ?_) rfl
    dsimp only [outlined]
    rw [hloose.outline_release (keyOf?_modifySiblings.trans hk),
      hs.outline_modifySiblings (hs.names_parent hb) (hs.keysOf_filter hk)]

/-- A block is taken out of one list, gets its new parent and is put into the other list. -/
theorem Sound.outline_reordered {x y : Handle} {moved : Block} (hx : s.block? x = some moved)
    (hy : s.block? y = some block) :
    (((s.modifySiblings moved.parent (·.filter (· ≠ x))).modifyBlock x
        ({ · with parent := block.parent })).modifySiblings block.parent
        (insertBefore x y)).outline =
      ((s.outline.modifyList (s.entry moved).parent (·.filter (· ≠ moved.key))).modify moved.key
        ({ · with parent := (s.entry block).parent })).modifyList (s.entry block).parent
        (Outline.insertBefore moved.key block.key) := by
  let s₁ := s.modifySiblings moved.parent (·.filter (· ≠ x))
  let s₂ := s₁.modifyBlock x ({ · with parent := block.parent })
  have hs₁ : s₁.Sound [x] := hs.detach (parentOf?_of_block? hx) List.not_mem_nil
  have hs₂ : s₂.Sound [x] := hs₁.setParent (List.mem_singleton_self x) block.parent
  have keys₁ (z : Handle) : s₁.keyOf? z = s.keyOf? z := keyOf?_modifySiblings
  have keys₂ (z : Handle) : s₂.keyOf? z = s.keyOf? z := by
    rw [← keys₁ z]
    exact map_block?_modifyBlock fun _ => rfl
  have names₁ : s₁.Names block.parent (s.entry block).parent :=
    (hs.names_parent hy).mono fun z k hk => (keys₁ z).trans hk
  have names₂ : s₂.Names block.parent (s.entry block).parent :=
    (hs.names_parent hy).mono fun z k hk => (keys₂ z).trans hk
  have hx₁ := (keys₁ x).trans (keyOf?_of_block? hx)
  have hx₂ := (keys₂ x).trans (keyOf?_of_block? hx)
  have hy₂ := (keys₂ y).trans (keyOf?_of_block? hy)
  have hentry (b : Block) : s₁.entry { b with parent := block.parent } =
      { s₁.entry b with parent := (s.entry block).parent } := by
    rw [entry, names₁.bind_eq]
    rfl
  have hlast : (s₂.modifySiblings block.parent (Script.insertBefore x y)).outline =
      s₂.outline.modifyList (s.entry block).parent
        (Outline.insertBefore moved.key block.key) :=
    hs₂.outline_modifySiblings names₂ (hs₂.keysOf_insertBefore hx₂ hy₂)
  have hmiddle : s₂.outline =
      s₁.outline.modify moved.key ({ · with parent := (s.entry block).parent }) :=
    hs₁.outline_modifyBlock hx₁ (fun _ => rfl) hentry
  have hfirst : s₁.outline =
      s.outline.modifyList (s.entry moved).parent (·.filter (· ≠ moved.key)) :=
    hs.outline_modifySiblings (hs.names_parent hx) (hs.keysOf_filter (keyOf?_of_block? hx))
  rw [hlast, hmiddle, hfirst]

theorem Sound.serve_reorder (source target : String) :
    s.outline.serve (.reorder source target) =
      outlined (s.serve (.reorder source target)) := by
  rw [Outline.serve, Script.serve]
  rcases hs.find?_cases source with hn | ⟨x, moved, hx, rfl⟩
  · rw [lookup?_of_missing hn, reorder_eq_missing (.inl hn)]
    rfl
  rcases hs.find?_cases target with hn | ⟨y, block, hy, rfl⟩
  · rw [hs.lookup?_of_block? hx, lookup?_of_missing hn, reorder_eq_missing (.inr hn)]
    rfl
  rw [hs.lookup?_of_block? hx, hs.lookup?_of_block? hy]
  dsimp only
  rw [hs.under_iff (keyOf?_of_block? hy) (keyOf?_of_block? hx)]
  split
  · next hup =>
    rw [hs.reorder_eq_refused hx hy (reflTransGen_iff_eq_or_transGen.1 hup)]
    rfl
  · next hup =>
    obtain ⟨hne, ha⟩ := not_or.1 (mt reflTransGen_iff_eq_or_transGen.2 hup)
    rw [hs.reorder_eq hx hy hne ha]
    refine Prod.ext (Eq.symm ?_) rfl
    dsimp only [outlined]
    exact hs.outline_reordered hx hy

/-- An outline tells what an edit comes to, and whether it is carried out. -/
theorem Sound.serve_outline (r : Request) : s.outline.serve r = outlined (s.serve r) := by
  cases r with
  | insert key instruction parentKey => exact hs.serve_insert key instruction parentKey
  | configure key ps => exact hs.serve_configure key ps
  | remove key => exact hs.serve_remove key
  | reorder source target => exact hs.serve_reorder source target

theorem Sound.serve (r : Request) : (s.serve r).1.WellFormed := by
  cases r with
  | insert key instruction parentKey =>
    rw [Script.serve]
    split
    · exact hs
    · exact hs.insert ..
  | configure key ps => exact hs.configure key ps
  | remove key => exact hs.remove key
  | reorder source target => exact hs.reorder source target

end WellFormed

theorem Sound.serveAll (hs : s.WellFormed) (rs : List Request) : (s.serveAll rs).1.WellFormed := by
  induction rs generalizing s with
  | nil => exact hs
  | cons r rs ih => exact ih (hs.serve r)

theorem Sound.serveAll_of_outline (hs : s.WellFormed) (ht : t.WellFormed)
    (ho : s.outline = t.outline) (rs : List Request) :
    (s.serveAll rs).2 = (t.serveAll rs).2 ∧
      (s.serveAll rs).1.outline = (t.serveAll rs).1.outline := by
  induction rs generalizing s t with
  | nil => exact ⟨rfl, ho⟩
  | cons r rs ih =>
    have hserve := hs.serve_outline r
    rw [ho, ht.serve_outline r, outlined, outlined, Prod.mk.injEq] at hserve
    obtain ⟨houtline, hdone⟩ := hserve
    obtain ⟨hothers, hlast⟩ := ih (hs.serve r) (ht.serve r) houtline.symm
    exact ⟨congrArg₂ List.cons hdone.symm hothers, hlast⟩

end Script

end BlockScript
