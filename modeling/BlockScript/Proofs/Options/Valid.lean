import BlockScript.Options.Parse

namespace BlockScript.Options

structure Valid (options : Options) : Prop where
  frameRate : options.frameRate ≠ 0
  finite : ∀ click ∈ options.clicks, click.time.isFinite = true
  notBelow : ∀ click ∈ options.clicks, 0 ≤ click.time

structure Draft.Valid (d : Draft) : Prop where
  frameRate : ∀ rate ∈ d.frameRate, rate ≠ 0
  finite : ∀ click ∈ d.clicks, click.time.isFinite = true
  notBelow : ∀ click ∈ d.clicks, 0 ≤ click.time

/-- A result, if there is one, has a property. -/
def Gives {ε α : Type} (P : α → Prop) (x : Except ε α) : Prop := ∀ a, x = .ok a → P a

variable {ε α β : Type} {P : α → Prop} {Q : β → Prop} {d : Draft} {p : Parsing} {text : String}

theorem gives_ok {a : α} (ha : P a) : Gives P (.ok a : Except ε α) := by
  intro b hb
  obtain rfl := Except.ok.inj hb
  exact ha

theorem gives_error (fault : ε) : Gives P (.error fault : Except ε α) := by
  intro a ha
  contradiction

theorem gives_any (x : Except ε α) : Gives (fun _ => True) x := fun _ _ => trivial

theorem Gives.bind {x : Except ε α} {f : α → Except ε β} (hx : Gives P x)
    (hf : ∀ a, P a → Gives Q (f a)) : Gives Q (x >>= f) := by
  cases x with
  | error fault => exact gives_error fault
  | ok a => exact hf a (hx a rfl)

theorem gives_count : Gives (· ≠ 0) (count 1 text) := by
  rw [count]
  split
  · exact gives_error _
  · next n _ =>
    split
    · next hn =>
      obtain ⟨hleast, hmost⟩ := (Bool.and_eq_true _ _).mp hn
      have hleast : 1 ≤ n := of_decide_eq_true hleast
      have hmost : n < 4294967296 := of_decide_eq_true hmost
      apply gives_ok
      intro hzero
      have hnat : n.toNat % 4294967296 = 0 := congrArg UInt32.toNat hzero
      omega
    · exact gives_error _

theorem gives_click :
    Gives (fun click => click.time.isFinite = true ∧ 0 ≤ click.time) (Options.click text) := by
  rw [Options.click]
  split
  · next click hparse =>
    apply gives_ok
    rw [ScheduledClick.parse] at hparse
    split at hparse
    · contradiction
    · contradiction
    · split at hparse
      · next time htime =>
        obtain rfl := Except.ok.inj hparse
        rw [ScheduledClick.time?, Option.filter_eq_some_iff] at htime
        obtain ⟨hfinite, hnotBelow⟩ := (Bool.and_eq_true _ _).mp htime.2
        exact ⟨hfinite, of_decide_eq_true hnotBelow⟩
      · contradiction
  · exact gives_error _

theorem gives_once {given : Option α} {value : Except Stop α} (hvalue : Gives P value) :
    Gives (fun set => ∀ a ∈ set, P a) (once given value) := by
  rw [once]
  split
  · exact gives_error _
  · cases value with
    | error fault => exact gives_error fault
    | ok a =>
      apply gives_ok
      intro b hb
      obtain rfl := Option.some.inj hb
      exact hvalue _ rfl

namespace Draft.Valid

theorem set (hd : d.Valid) (setting : Setting) : Gives Draft.Valid (d.set setting text) := by
  obtain ⟨hrate, hfinite, hnotBelow⟩ := hd
  cases setting with
  | world => exact (gives_any _).bind fun _ _ => gives_ok ⟨hrate, hfinite, hnotBelow⟩
  | frames => exact (gives_any _).bind fun _ _ => gives_ok ⟨hrate, hfinite, hnotBelow⟩
  | output => exact (gives_any _).bind fun _ _ => gives_ok ⟨hrate, hfinite, hnotBelow⟩
  | frameRate =>
    refine (gives_once gives_count).bind ?_
    intro rate hrate
    exact gives_ok ⟨hrate, hfinite, hnotBelow⟩
  | click =>
    refine gives_click.bind ?_
    intro click hclick
    apply gives_ok
    refine ⟨hrate, ?_, ?_⟩
    · intro other hother
      rcases List.mem_append.1 hother with hmem | hmem
      · exact hfinite other hmem
      · obtain rfl := List.mem_singleton.1 hmem
        exact hclick.1
    · intro other hother
      rcases List.mem_append.1 hother with hmem | hmem
      · exact hnotBelow other hmem
      · obtain rfl := List.mem_singleton.1 hmem
        exact hclick.2

theorem turnOn (hd : d.Valid) (switch : Switch) : Gives Draft.Valid (d.turnOn switch) := by
  cases switch with
  | help => exact gives_error _
  | version => exact gives_error _
  | preview =>
    rw [Draft.turnOn]
    split
    · exact gives_error _
    · exact gives_ok ⟨hd.1, hd.2, hd.3⟩
  | realtime =>
    rw [Draft.turnOn]
    split
    · exact gives_error _
    · exact gives_ok ⟨hd.1, hd.2, hd.3⟩

theorem finish (hd : d.Valid) : Gives Options.Valid d.finish := by
  rw [Draft.finish]
  split
  · exact gives_error _
  · apply gives_ok
    refine ⟨?_, hd.finite, hd.notBelow⟩
    cases hrate : d.frameRate with
    | none => exact (by decide : (60 : UInt32) ≠ 0)
    | some rate => exact hd.frameRate rate hrate

theorem settle (hp : p.draft.Valid) : Gives (·.draft.Valid) p.settle := by
  rw [Parsing.settle]
  split
  · exact gives_ok hp
  · exact gives_error _
  · exact (hp.set _).bind fun _ hd => gives_ok hd

theorem setting (hp : p.draft.Valid) (setting : Setting) (value : Option String) :
    Gives (·.draft.Valid) (p.setting setting value) := by
  refine hp.settle.bind ?_
  intro q hq
  cases value with
  | none => exact gives_ok hq
  | some value => exact (hq.set setting).bind fun _ hd => gives_ok hd

theorem switch (hp : p.draft.Valid) (switch : Switch) :
    Gives (·.draft.Valid) (p.switch switch) := by
  refine hp.settle.bind ?_
  intro q hq
  exact (hq.turnOn switch).bind fun _ hd => gives_ok hd

theorem positional (hp : p.draft.Valid) : Gives (·.draft.Valid) (p.positional text) := by
  rw [Parsing.positional]
  split
  · exact gives_error _
  · exact hp.settle.bind fun _ hq => gives_ok hq

theorem named (hp : p.draft.Valid) (cs : List Char) : Gives (·.draft.Valid) (p.named cs) := by
  rw [Parsing.named]
  split
  · exact hp.setting _ _
  · exact hp.switch _
  · exact gives_error _
  · exact gives_error _

theorem lettered (hp : p.draft.Valid) (cs : List Char) : Gives (·.draft.Valid) (p.lettered cs) := by
  rw [Parsing.lettered.eq_def]
  split
  · exact hp.setting _ _
  · exact hp.setting _ _
  · exact hp.setting _ _
  · exact hp.switch _
  · exact hp.switch _
  · exact gives_error _

theorem argument (hp : p.draft.Valid) : Gives (·.draft.Valid) (p.argument text) := by
  rw [Parsing.argument]
  split
  · exact hp.positional
  · split
    · exact gives_ok hp
    · exact hp.named _
    · exact hp.lettered _
    · rw [Parsing.value]
      split
      · exact gives_ok hp
      · exact hp.positional

theorem arguments (hp : p.draft.Valid) (args : List String) :
    Gives (·.draft.Valid) (args.foldlM Parsing.argument p) := by
  induction args generalizing p with
  | nil => exact gives_ok hp
  | cons text args ih => exact hp.argument.bind fun _ hq => ih hq

end Draft.Valid

theorem valid_of_parse (args : List String) : Gives Options.Valid (parse args) := by
  have hstart : Parsing.start.draft.Valid := ⟨nofun, nofun, nofun⟩
  refine (hstart.arguments args).bind ?_
  intro p hp
  refine hp.settle.bind ?_
  intro q hq
  exact hq.finish

end BlockScript.Options
