import BlockScript.Proofs.Color
import BlockScript.Proofs.Json.Conveys
import BlockScript.Proofs.World.Assembled
import BlockScript.World.Snapshot

namespace BlockScript

open Json Json.Reader

variable {depth : Nat} {rest : List Char} {x : Float32} {v : Vec3} {spacing : Spacing}

/-- Whether a component reads back, all of its text taken, as what it is. One that is not finite is
written as `null` and does not. -/
def ReadsBack (x : Float32) : Prop :=
  single depthLimit (Numeral.single x).text.toList = .ok (x, [])

theorem readsBack_iff :
    ReadsBack x ↔ (single depthLimit (Numeral.single x).text.toList).toOption = some (x, []) := by
  rw [ReadsBack]
  cases single depthLimit (Numeral.single x).text.toList <;> simp [Except.toOption]

instance (x : Float32) : Decidable (ReadsBack x) :=
  decidable_of_iff _ readsBack_iff.symm

theorem ReadsBack.isFinite (hx : ReadsBack x) : x.isFinite = true := by
  by_contra hinfinite
  have htext : (Numeral.single x).text = "null" := if_neg hinfinite
  rw [ReadsBack, htext] at hx
  contradiction

def Transform.ReadsBack (t : Transform) : Prop :=
  ∀ v ∈ [t.position, t.rotation, t.scale], ∀ x ∈ [v.x, v.y, v.z], BlockScript.ReadsBack x

instance (t : Transform) : Decidable t.ReadsBack :=
  inferInstanceAs (Decidable (∀ v ∈ [t.position, t.rotation, t.scale], ∀ x ∈ [v.x, v.y, v.z],
    BlockScript.ReadsBack x))

section Vectors

theorem takes_component_first (hx : ReadsBack x) (hrest : Ends rest) :
    Takes (Authored.vec3.component 0) depth
      (spacing.lineBreak ++ (Json.write spacing (.number (.single x)) ++ rest)) x rest := by
  obtain ⟨before, c, tail, htext, hbefore, hc, hend, htakes⟩ := conveys_single hx spacing
  have hsplit : spacing.lineBreak ++ (Json.write spacing (.number (.single x)) ++ rest) =
      (spacing.lineBreak ++ before) ++ c :: (tail ++ rest) := by
    rw [htext]
    simp
  rw [hsplit]
  apply (takes_moreItems_first (blank_append (blank_lineBreak spacing) hbefore) hc hend).bind
  exact htakes depth [] rest (Nat.zero_le depth) blank_nil hrest

theorem takes_component_next (index : Nat) (hx : ReadsBack x) (hrest : Ends rest) :
    Takes (Authored.vec3.component (index + 1)) depth
      (',' :: (spacing.lineBreak ++ (Json.write spacing (.number (.single x)) ++ rest))) x rest := by
  obtain ⟨before, c, tail, htext, hbefore, hc, hend, htakes⟩ := conveys_single hx spacing
  have hsplit : ',' :: (spacing.lineBreak ++ (Json.write spacing (.number (.single x)) ++ rest)) =
      [] ++ ',' :: ((spacing.lineBreak ++ before) ++ c :: (tail ++ rest)) := by
    rw [htext]
    simp
  rw [hsplit]
  apply (takes_moreItems_next blank_nil (blank_append (blank_lineBreak spacing) hbefore) hc
    hend).bind
  exact htakes depth [] rest (Nat.zero_le depth) blank_nil hrest

theorem conveys_vec3 (hx : ReadsBack v.x) (hy : ReadsBack v.y) (hz : ReadsBack v.z) :
    Conveys Authored.vec3 1 v.toJson v := by
  intro spacing
  rw [Vec3.toJson, write_list]
  apply reads_typed rfl (by decide) rfl
  intro depth rest hdepth
  have hsplit : (Json.write spacing v.toJson).tail ++ rest =
      spacing.deeper.lineBreak ++ (Json.write spacing.deeper (.number (.single v.x)) ++
        ',' :: (spacing.deeper.lineBreak ++ (Json.write spacing.deeper (.number (.single v.y)) ++
          ',' :: (spacing.deeper.lineBreak ++ (Json.write spacing.deeper (.number (.single v.z)) ++
            (spacing.lineBreak ++ ']' :: rest)))))) := by
    simp [Vec3.toJson, Json.write, writeItems]
  have hcomma (cs : List Char) : Ends (',' :: cs) := ends_cons rfl
  have hclose : Ends (spacing.lineBreak ++ ']' :: rest) := ends_append (blank_lineBreak _) rfl
  have hclosed : Takes (do closeList; return v) depth (spacing.lineBreak ++ ']' :: rest) v rest :=
    (takes_closeList (blank_lineBreak spacing)).bind takes_pure
  rw [← Vec3.toJson, hsplit]
  apply takes_bind_iff.2
  refine ⟨v, _, ?_, hclosed⟩
  apply takes_nested hdepth
  intro depth _
  apply takes_advance.bind
  apply (takes_component_first hx (hcomma _)).bind
  apply (takes_component_next 0 hy (hcomma _)).bind
  apply (takes_component_next 1 hz hclose).bind
  exact takes_pure

end Vectors

/-- What is read of an object in a snapshot. Where a snapshot tells nothing there are the defaults. -/
def Actor.authored (actor : Actor) : Authored.Object where
  id := actor.id
  name := ""
  shape := .cube
  position := actor.appearance.transform.position
  rotation := actor.appearance.transform.rotation
  scale := actor.appearance.transform.scale
  color := actor.appearance.color.text
  behaviors := []
  scripts := []
  locked := false
  createdBy := ""

theorem Transform.ReadsBack.conveys {t : Transform} (h : t.ReadsBack)
    (hv : v ∈ [t.position, t.rotation, t.scale]) : Conveys Authored.vec3 1 v.toJson v := by
  have hx := h v hv
  exact conveys_vec3 (hx _ (by simp)) (hx _ (by simp)) (hx _ (by simp))

theorem Actor.conveys_snapshot {actor : Actor} (h : actor.appearance.transform.ReadsBack) :
    Conveys Authored.Object.record.read 2 actor.snapshot actor.authored := by
  have hposition := h.conveys (List.mem_cons_self ..)
  have hrotation := h.conveys (List.mem_cons_of_mem _ (List.mem_cons_self ..))
  have hscale := h.conveys (List.mem_cons_of_mem _ (List.mem_cons_of_mem _ (List.mem_cons_self ..)))
  have hcolor : Conveys string 1 (.text actor.appearance.color.text) _ := conveys_text _
  have hid : Conveys string 1 (.text actor.id) _ := conveys_text _
  apply conveys_record
  · apply Fills.cons rfl rfl hid.field
    apply Fills.cons rfl rfl hposition.field
    apply Fills.cons rfl rfl hrotation.field
    apply Fills.cons rfl rfl hscale.field
    apply Fills.cons rfl rfl hcolor.field
    exact .nil
  · rfl

theorem World.conveys_snapshot {w : World}
    (h : ∀ actor ∈ w.actors, actor.appearance.transform.ReadsBack) :
    Conveys Authored.World.record.read 4 w.snapshot ⟨w.actors.map Actor.authored, "#f3f4f6"⟩ := by
  have hactors : List.Forall₂ (Conveys Authored.Object.record.read 2)
      (w.actors.map Actor.snapshot) (w.actors.map Actor.authored) := by
    rw [List.forall₂_map_left_iff, List.forall₂_map_right_iff, List.forall₂_same]
    exact fun actor hactor => Actor.conveys_snapshot (h actor hactor)
  apply conveys_record
  · apply Fills.cons rfl rfl (conveys_list hactors).field
    exact .nil
  · rfl

/-- An actor as it is loaded from a snapshot. -/
def Actor.reloaded (actor : Actor) : Actor := (Actor.ofAuthored actor.authored).value

theorem Actor.appearance_ofAuthored (o : Authored.Object) : (ofAuthored o).value.appearance =
    ⟨⟨o.position, o.rotation, o.scale⟩, Color.parseD o.color .white⟩ := by
  rw [ofAuthored, Logged.value_bind, Logged.value_bind, Logged.value_pure]

theorem Actor.id_reloaded (actor : Actor) : actor.reloaded.id = actor.id := by
  rw [reloaded, ofAuthored, Logged.value_bind, Logged.value_bind, Logged.value_pure]
  rfl

theorem Actor.appearance_reloaded (actor : Actor) :
    actor.reloaded.appearance = actor.appearance := by
  have hcolor : Color.parseD actor.authored.color .white = actor.appearance.color := by
    rw [Color.parseD, authored, Color.parse?_text, Option.getD_some]
  rw [reloaded, appearance_ofAuthored, hcolor]
  rfl

theorem Actor.snapshot_reloaded (actor : Actor) : actor.reloaded.snapshot = actor.snapshot := by
  rw [snapshot, snapshot, appearance_reloaded, id_reloaded]

namespace World

theorem firstOfEach_of_nodup {actors : List Actor} (h : (actors.map (·.id)).Nodup) :
    firstOfEach actors = actors := by
  induction actors with
  | nil => rfl
  | cons actor actors ih =>
    rw [List.map_cons, List.nodup_cons] at h
    have hothers : actors.filter (·.id ≠ actor.id) = actors := by
      apply List.filter_eq_self.2
      intro other hother
      have hne : other.id ≠ actor.id := fun he => h.1 (he ▸ List.mem_map_of_mem hother)
      simpa using hne
    rw [firstOfEach, ih h.2, hothers]

/-- Of every world whose components read back a snapshot is written that loads, with the same
objects in the same order, at the same places and of the same colors. -/
theorem parse_snapshotText (w : World) (hw : w.Assembled)
    (hback : ∀ actor ∈ w.actors, actor.appearance.transform.ReadsBack) :
    ∃ loaded, World.parse w.snapshotText = .ok loaded ∧ loaded.value.snapshot = w.snapshot ∧
      loaded.value.actors.map (fun actor => (actor.id, actor.appearance)) =
        w.actors.map fun actor => (actor.id, actor.appearance) := by
  have hread : Authored.World.read w.snapshotText =
      .ok ⟨w.actors.map Actor.authored, "#f3f4f6"⟩ :=
    run_of_conveys (conveys_snapshot hback) (by decide)
  refine ⟨ofAuthored ⟨w.actors.map Actor.authored, "#f3f4f6"⟩, ?_, ?_⟩
  · rw [World.parse, hread]
    rfl
  have hactors : (ofAuthored ⟨w.actors.map Actor.authored, "#f3f4f6"⟩).value.actors =
      w.actors.map Actor.reloaded := by
    rw [ofAuthored, Logged.value_bind, Logged.value_mapM, actors_ofActors, List.map_map]
    apply firstOfEach_of_nodup
    have hids : (w.actors.map Actor.reloaded).map (·.id) = w.ids := by
      rw [List.map_map, ids]
      exact List.map_congr_left fun actor _ => actor.id_reloaded
    exact hids ▸ hw.indexed.nodup
  rw [snapshot, snapshot, hactors, List.map_map, List.map_map]
  constructor
  · have hsame : Actor.snapshot ∘ Actor.reloaded = Actor.snapshot := funext Actor.snapshot_reloaded
    rw [hsame]
  · apply List.map_congr_left
    intro actor _
    rw [Function.comp, actor.id_reloaded, actor.appearance_reloaded]

/-- A world of two objects, one of them with an id that has to be escaped. -/
def escaping : World :=
  let cube : Actor :=
    { ground with
      id := "cube"
      shape := .cube
      appearance := ⟨⟨⟨1, -0.5, 0⟩, .zero, .splat 1⟩, ⟨18, 52, 86⟩⟩ }
  (ofActors [cube, { cube with id := "a \"cube\"\\\n\x01\u00e9" }] .white).value

theorem parse_snapshotText_escaping :
    escaping.ids = ["cube", "a \"cube\"\\\n\x01\u00e9"] ∧
    ∃ loaded, World.parse escaping.snapshotText = .ok loaded ∧
      loaded.value.snapshot = escaping.snapshot ∧
      loaded.value.actors.map (fun actor => (actor.id, actor.appearance)) =
        escaping.actors.map fun actor => (actor.id, actor.appearance) := by
  have hids : escaping.ids = ["cube", "a \"cube\"\\\n\x01\u00e9"] := by decide +kernel
  have hback : ∀ actor ∈ escaping.actors, actor.appearance.transform.ReadsBack := by
    decide +kernel
  exact ⟨hids, parse_snapshotText escaping (.ofActors _ _) hback⟩

end World

end BlockScript
