import BlockScript.Program.Run
import BlockScript.Proofs.Program.Clicks
import BlockScript.Proofs.World.Assembled

namespace BlockScript

namespace World

variable {w : World}

def carryOut (w : World) : Operation → Logged World
  | .setPlaying playing => w.setPlaying playing
  | .tick now delta => w.tick now delta
  | .click id => Prod.fst <$> w.click id
  | .addObject shape => Prod.fst <$> w.addObject shape
  | .updateObject id update => Prod.fst <$> w.updateObject id update
  | .removeObject id => return (w.removeObject id).1
  | .addScript id => Prod.fst <$> w.addScript id
  | .addBlock id scriptId opcode parentKey => Prod.fst <$> w.addBlock id scriptId opcode parentKey
  | .updateBlock id scriptId key ps => Prod.fst <$> w.updateBlock id scriptId key ps
  | .removeBlock id scriptId key => Prod.fst <$> w.removeBlock id scriptId key
  | .reorderBlock id scriptId source target =>
    Prod.fst <$> w.reorderBlock id scriptId source target

def carryOutAll (operations : List Operation) (w : World) : Logged World :=
  operations.foldlM carryOut w

theorem value_carryOut (w : World) (operation : Operation) :
    (w.carryOut operation).value = w.perform operation := by
  cases operation <;> rfl

theorem value_carryOutAll (operations : List Operation) (w : World) :
    (carryOutAll operations w).value = w.after operations := by
  rw [carryOutAll, Logged.value_foldlM]
  simp only [value_carryOut]
  rfl

theorem playing_editActor {α : Type} (w : World) (id : String)
    (edit : Actor → Logged (Actor × Option α)) :
    (w.editActor id edit).value.1.playing = w.playing := by
  rw [editActor]
  split
  · rfl
  · split <;> rfl

theorem playing_setPlaying (w : World) (playing : Bool) :
    (w.setPlaying playing).value.playing = playing := by
  rw [setPlaying]
  split
  · next h => exact h
  · rfl

theorem playing_click (w : World) (id : String) :
    (w.click id).value.1.playing = w.playing := by
  rw [World.click]
  split
  · exact w.playing_editActor id _
  · rfl

end World

namespace Session

open World

def operations (options : Options) (n : Nat) : List Operation :=
  (due options n).map (fun click => .click click.object) ++ [.tick (time options n) (delta options)]

/-- What a run has the world do. -/
def schedule (options : Options) : List Operation :=
  .setPlaying true :: (List.range options.frames.toNat).flatMap (operations options)

/-- A world in which scripts run and that has the objects of some clicks. -/
structure Ready (clicks : List ScheduledClick) (w : World) : Prop where
  indexed : w.Indexed
  playing : w.playing = true
  known : ∀ click ∈ clicks, (w.actor? click.object).isSome

def Takes (clicks : List ScheduledClick) : Operation → Prop
  | .click id => ∃ click ∈ clicks, click.object = id
  | .tick .. => True
  | _ => False

variable {options : Options} {clicks : List ScheduledClick} {click : ScheduledClick} {w : World}
  {operation : Operation} {s : Session} {n : Nat}

namespace Ready

theorem perform (h : Ready clicks w) (hoperation : Takes clicks operation) :
    Ready clicks (w.perform operation) := by
  have hremoved : operation.removed? = none := by
    cases operation with
    | click | tick => rfl
    | _ => contradiction
  refine ⟨h.indexed.perform operation, ?_, ?_⟩
  · cases operation with
    | click id => exact (w.playing_click id).trans h.playing
    | tick => exact h.playing
    | _ => contradiction
  · intro click hclick
    obtain ⟨actor, hactor⟩ := Option.isSome_iff_exists.1 (h.known click hclick)
    rw [h.indexed.actor?_perform hactor (by rw [hremoved]; nofun)]
    rfl

theorem answers (h : Ready clicks w) (hoperation : Takes clicks operation) :
    w.answers operation = true := by
  cases operation with
  | click id =>
    obtain ⟨click, hclick, rfl⟩ := hoperation
    obtain ⟨actor, hactor⟩ := Option.isSome_iff_exists.1 (h.known click hclick)
    have htold := (h.indexed.told_click click.object).answer
    rw [h.playing, hactor] at htold
    exact htold
  | tick => rfl
  | _ => contradiction

theorem after (h : Ready clicks w) {operations : List Operation}
    (hoperations : ∀ operation ∈ operations, Takes clicks operation) :
    Ready clicks (w.after operations) := by
  induction operations generalizing w with
  | nil => exact h
  | cons operation operations ih =>
    obtain ⟨hfirst, hrest⟩ := List.forall_mem_cons.1 hoperations
    exact ih (h.perform hfirst) hrest

theorem deliver_eq (h : Ready clicks w) (hclick : click ∈ clicks) (now : Float) :
    deliver now w click = w.carryOut (.click click.object) := by
  have htakes : Takes clicks (.click click.object) := ⟨click, hclick, rfl⟩
  have htaken : (w.click click.object).value.2 = true := h.answers htakes
  apply Logged.bind_congr
  cases hvalue : (w.click click.object).value with
  | mk clicked taken =>
    rw [hvalue] at htaken
    obtain rfl := htaken
    rfl

theorem deliverAll_eq (h : Ready clicks w) {delivered : List ScheduledClick}
    (hdelivered : ∀ click ∈ delivered, click ∈ clicks) (now : Float) :
    delivered.foldlM (deliver now) w =
      carryOutAll (delivered.map fun click => .click click.object) w := by
  induction delivered generalizing w with
  | nil => rfl
  | cons click delivered ih =>
    obtain ⟨hclick, hrest⟩ := List.forall_mem_cons.1 hdelivered
    rw [List.foldlM_cons, h.deliver_eq hclick]
    apply Logged.bind_congr
    rw [value_carryOut]
    exact ih (h.perform ⟨click, hclick, rfl⟩) hrest

end Ready

theorem mem_of_mem_due (h : click ∈ due options n) : click ∈ options.clicks :=
  (perm_inOrder _).mem_iff.1 (List.mem_filter.1 h).1

theorem takes_operations (options : Options) (n : Nat) :
    ∀ operation ∈ operations options n, Takes options.clicks operation := by
  intro operation hoperation
  rcases List.mem_append.1 hoperation with hclick | htick
  · obtain ⟨click, hdue, rfl⟩ := List.mem_map.1 hclick
    exact ⟨click, mem_of_mem_due hdue, rfl⟩
  · obtain rfl := List.mem_singleton.1 htick
    trivial

namespace Ready

theorem frame_eq (h : Ready options.clicks s.world) (hqueue : s.clicks = queue options n)
    (hn : n < options.frames.toNat) :
    s.frame (delta options) n =
      (Session.mk · (queue options (n + 1))) <$> carryOutAll (operations options n) s.world := by
  have htake : s.clicks.takeWhile (·.time ≤ time options n) = due options n := by
    rw [hqueue, takeWhile_queue hn]
  have hdrop : s.clicks.dropWhile (·.time ≤ time options n) = queue options (n + 1) := by
    rw [hqueue, dropWhile_queue]
  have hdeliver : (due options n).foldlM (deliver (time options n)) s.world = _ :=
    h.deliverAll_eq (fun _ hclick => mem_of_mem_due hclick) (time options n)
  have hframe : s.frame (delta options) n =
      (s.clicks.takeWhile (·.time ≤ time options n)).foldlM (deliver (time options n)) s.world >>=
        fun w => (Session.mk · (s.clicks.dropWhile (·.time ≤ time options n))) <$>
          w.tick (time options n) (delta options) := rfl
  have hlast : ∀ w : World, [.tick (time options n) (delta options)].foldlM carryOut w =
      w.tick (time options n) (delta options) := fun _ => bind_pure _
  rw [hframe, htake, hdrop, hdeliver, operations, carryOutAll, carryOutAll, List.foldlM_append,
    map_bind]
  simp only [hlast]

theorem frames_eq (h : Ready options.clicks s.world) (hqueue : s.clicks = queue options n)
    {count : Nat} (hn : n + count = options.frames.toNat) :
    world <$> frames (delta options) count n s =
      carryOutAll ((List.range' n count).flatMap (operations options)) s.world := by
  induction count generalizing n s with
  | zero => rfl
  | succ count ih =>
    rw [List.range'_succ, List.flatMap_cons, carryOutAll, List.foldlM_append, frames,
      h.frame_eq hqueue (by omega), map_bind, bind_map_left]
    apply Logged.bind_congr
    have hready : Ready options.clicks (carryOutAll (operations options n) s.world).value := by
      rw [value_carryOutAll]
      exact h.after (takes_operations options n)
    exact ih hready rfl (by omega)

end Ready

theorem ready_start (hw : w.Indexed) (hknown : ∀ click ∈ clicks, (w.actor? click.object).isSome) :
    Ready clicks (w.perform (.setPlaying true)) where
  indexed := hw.perform _
  playing := w.playing_setPlaying true
  known := by
    intro click hclick
    obtain ⟨actor, hactor⟩ := Option.isSome_iff_exists.1 (hknown click hclick)
    have hkept : (Operation.setPlaying true).removed? ≠ some click.object := by
      intro hremoved
      contradiction
    rw [hw.actor?_perform hactor hkept]
    rfl

/-- A run carries out its schedule. -/
theorem run_eq (hw : w.Indexed) (hpreview : options.preview = false)
    (hknown : ∀ click ∈ options.clicks, (w.actor? click.object).isSome) :
    run options w = carryOutAll (schedule options) w := by
  have hready : Ready options.clicks (Session.mk _ (queue options 0)).world :=
    ready_start hw hknown
  have hframes := hready.frames_eq rfl (Nat.zero_add _)
  rw [run, start, hpreview, schedule, carryOutAll, List.foldlM_cons, bind_assoc]
  apply Logged.bind_congr
  rw [List.range_eq_range', ← queue_zero]
  exact hframes

theorem answers_schedule (hw : w.Indexed)
    (hknown : ∀ click ∈ options.clicks, (w.actor? click.object).isSome)
    {before behind : List Operation}
    (hschedule : schedule options = before ++ operation :: behind) :
    (w.after before).answers operation = true := by
  have htakes : ∀ operation ∈ (List.range options.frames.toNat).flatMap (operations options),
      Takes options.clicks operation := by
    intro operation hoperation
    obtain ⟨n, _, hn⟩ := List.mem_flatMap.1 hoperation
    exact takes_operations options n operation hn
  cases before with
  | nil =>
    obtain ⟨rfl, _⟩ := List.cons.inj hschedule
    rfl
  | cons first before =>
    obtain ⟨rfl, hrest⟩ := List.cons.inj hschedule
    rw [hrest] at htakes
    obtain ⟨hbefore, hbehind⟩ := List.forall_mem_append.1 htakes
    exact ((ready_start hw hknown).after hbefore).answers (List.forall_mem_cons.1 hbehind).1

end Session

section Simulate

variable {options : Options} {text : Except AccessFault String} {loaded : Logged World}

theorem indexed_of_load {path : String} (hload : World.load path text = .ok loaded) :
    loaded.value.Indexed := by
  cases text with
  | error fault => contradiction
  | ok text =>
    rw [World.load] at hload
    cases hparse : World.parse text with
    | error fault =>
      rw [hparse] at hload
      contradiction
    | ok parsed =>
      rw [hparse] at hload
      obtain rfl := Except.ok.inj hload
      have hindexed : parsed.value.Indexed := World.indexed_of_parse hparse
      exact hindexed

theorem simulate_of_load (hload : World.load options.world text = .ok loaded) :
    simulate options text = match unknownTarget? options loaded.value with
      | some id => .error (.unknownObject id)
      | none => .ok (loaded >>= Session.run options) := by
  rw [simulate, hload]
  rfl

theorem simulate_of_unknown (hload : World.load options.world text = .ok loaded)
    (hunknown : ∃ click ∈ options.clicks, loaded.value.actor? click.object = none) :
    ∃ before click behind, options.clicks = before ++ click :: behind ∧
      (∀ other ∈ before, (loaded.value.actor? other.object).isSome) ∧
      loaded.value.actor? click.object = none ∧
      simulate options text = .error (.unknownObject click.object) := by
  obtain ⟨missing, hmissing, hnone⟩ := hunknown
  cases hfind : options.clicks.find? fun click => (loaded.value.actor? click.object).isNone with
  | none =>
    have hknown := List.find?_eq_none.1 hfind missing hmissing
    rw [hnone] at hknown
    contradiction
  | some click =>
    obtain ⟨hclick, before, behind, hclicks, hbefore⟩ := List.find?_eq_some_iff_append.1 hfind
    refine ⟨before, click, behind, hclicks, ?_, Option.isNone_iff_eq_none.1 hclick, ?_⟩
    · intro other hother
      simpa using hbefore other hother
    · rw [simulate_of_load hload, unknownTarget?, hfind]
      rfl

theorem simulate_of_known (hload : World.load options.world text = .ok loaded)
    (hknown : ∀ click ∈ options.clicks, (loaded.value.actor? click.object).isSome) :
    simulate options text = .ok (loaded >>= Session.run options) := by
  have hfind : (options.clicks.find? fun click =>
      (loaded.value.actor? click.object).isNone) = none := by
    apply List.find?_eq_none.2
    intro click hclick
    rw [Option.isNone_iff_eq_none]
    exact Option.isSome_iff_ne_none.1 (hknown click hclick)
  rw [simulate_of_load hload, unknownTarget?, hfind]
  rfl

/-- A run that is to click an object that is not there fails before its world is touched. Any other
one carries out its schedule and nothing else: each click once, in the first frame that is not
before it, unless it comes after all frames. -/
theorem simulate_eq_schedule (hload : World.load options.world text = .ok loaded) :
    ((∃ click ∈ options.clicks, loaded.value.actor? click.object = none) →
      ∃ before click behind, options.clicks = before ++ click :: behind ∧
        (∀ other ∈ before, (loaded.value.actor? other.object).isSome) ∧
        loaded.value.actor? click.object = none ∧
        simulate options text = .error (.unknownObject click.object)) ∧
      (options.preview = false →
        (∀ click ∈ options.clicks, (loaded.value.actor? click.object).isSome) →
        simulate options text = .ok (loaded >>= World.carryOutAll (Session.schedule options)) ∧
          (∀ before operation behind, Session.schedule options = before ++ operation :: behind →
            (loaded.value.after before).answers operation = true) ∧
          (∀ n, Session.InTimeOrder
            (options.clicks.filter fun click => Session.firstFrame? options click = some n)
            (Session.due options n)) ∧
          ((List.range options.frames.toNat).flatMap (Session.due options)).Perm
            (options.clicks.filter fun click => (Session.firstFrame? options click).isSome) ∧
          (options.Valid → ∀ click ∈ options.clicks, Session.firstFrame? options click = none →
            ∀ n < options.frames.toNat, Session.time options n < click.time)) := by
  have hindexed := indexed_of_load hload
  refine ⟨simulate_of_unknown hload, fun hpreview hknown => ⟨?_, ?_, ?_, ?_, ?_⟩⟩
  · rw [simulate_of_known hload hknown]
    apply congrArg Except.ok
    apply Logged.bind_congr
    exact Session.run_eq hindexed hpreview hknown
  · intro before operation behind hschedule
    exact Session.answers_schedule hindexed hknown hschedule
  · exact Session.inTimeOrder_due options
  · exact Session.flatMap_due options
  · intro hvalid click hclick hnone n hn
    exact Session.time_lt_of_firstFrame? hvalid hclick hnone hn

def lampText : String := "\x7b\"objects\": [\x7b\"id\": \"lamp\"\x7d]\x7d"

/-- Two frames with a click in each, on a lamp and on some object, and one that is late. -/
def lampOptions (object : String) : Options where
  world := "lamp.json"
  frames := 2
  frameRate := 2
  clicks := [⟨"lamp", 0.5⟩, ⟨object, 0⟩, ⟨"lamp", 9⟩]
  preview := false
  realtime := false
  output := none

theorem simulate_eq_schedule_lamp :
    ∃ loaded, World.load "lamp.json" (.ok lampText) = .ok loaded ∧
      simulate (lampOptions "lamp") (.ok lampText) =
        .ok (loaded >>= World.carryOutAll (Session.schedule (lampOptions "lamp"))) ∧
      Session.time (lampOptions "lamp") 1 < 9 ∧
      ∃ id, simulate (lampOptions "door") (.ok lampText) = .error (.unknownObject id) := by
  have hload : (match World.load "lamp.json" (.ok lampText) with
      | .ok loaded => (loaded.value.actor? "lamp").isSome && (loaded.value.actor? "door").isNone
      | .error _ => false) = true := by
    decide +kernel
  cases hloaded : World.load "lamp.json" (.ok lampText) with
  | error failure =>
    rw [hloaded] at hload
    contradiction
  | ok loaded =>
    rw [hloaded] at hload
    obtain ⟨hlamp, hdoor⟩ := (Bool.and_eq_true _ _).mp hload
    have hknown : ∀ click ∈ (lampOptions "lamp").clicks,
        (loaded.value.actor? click.object).isSome := by
      intro click hclick
      have hobject : click.object = "lamp" := by
        fin_cases hclick <;> rfl
      rw [hobject]
      exact hlamp
    have hvalid : (lampOptions "lamp").Valid := by
      refine ⟨by decide, ?_, ?_⟩ <;> decide +kernel
    have hlampLoad : World.load (lampOptions "lamp").world (.ok lampText) = .ok loaded := hloaded
    have hdoorLoad : World.load (lampOptions "door").world (.ok lampText) = .ok loaded := hloaded
    obtain ⟨hrun, _, _, _, hlate⟩ := (simulate_eq_schedule hlampLoad).2 rfl hknown
    obtain ⟨_, click, _, _, _, _, hfailed⟩ := (simulate_eq_schedule hdoorLoad).1
      ⟨⟨"door", 0⟩, .tail _ (.head _), Option.isNone_iff_eq_none.1 hdoor⟩
    have hnever : Session.firstFrame? (lampOptions "lamp") ⟨"lamp", 9⟩ = none := by
      decide +kernel
    have hlast := hlate hvalid ⟨"lamp", 9⟩ (.tail _ (.tail _ (.head _))) hnever 1 (by decide)
    exact ⟨loaded, rfl, hrun, hlast, click.object, hfailed⟩

end Simulate

end BlockScript
