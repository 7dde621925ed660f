import BlockScript.Options.Basic
import BlockScript.Proofs.World.Assembled

namespace BlockScript

section Split

variable {c : Char} {cs before behind : List Char}

theorem splitLast?_append (hc : c ∉ behind) :
    splitLast? c (before ++ c :: behind) = some (before, behind) := by
  have hbehind : ∀ x ∈ behind.reverse, decide (x ≠ c) = true := by
    intro x hx
    apply decide_eq_true
    rintro rfl
    exact hc (List.mem_reverse.1 hx)
  have hreverse : (before ++ c :: behind).reverse = behind.reverse ++ c :: before.reverse := by
    simp
  rw [splitLast?, hreverse, List.dropWhile_append_of_pos hbehind,
    List.takeWhile_append_of_pos hbehind]
  simp

theorem splitLast?_eq_none_iff : splitLast? c cs = none ↔ c ∉ cs := by
  have hall : splitLast? c cs = none ↔ cs.reverse.dropWhile (· ≠ c) = [] := by
    rw [splitLast?]
    split
    · next hnil => exact iff_of_true rfl hnil
    · next hcons => exact iff_of_false nofun (by rw [hcons]; exact List.cons_ne_nil _ _)
  rw [hall, List.dropWhile_eq_nil_iff]
  simp only [List.mem_reverse, decide_eq_true_eq]
  exact List.forall_mem_ne'

theorem splitLast?_eq_some_iff :
    splitLast? c cs = some (before, behind) ↔ cs = before ++ c :: behind ∧ c ∉ behind := by
  constructor
  · intro h
    have hmem : c ∈ cs.reverse := by
      rw [List.mem_reverse]
      by_contra hmissing
      rw [splitLast?_eq_none_iff.2 hmissing] at h
      contradiction
    obtain ⟨reversed, others, hreverse, hlast⟩ := List.eq_append_cons_of_mem hmem
    have hcs : cs = others.reverse ++ c :: reversed.reverse := by
      rw [← List.reverse_reverse cs, hreverse]
      simp
    have hlast : c ∉ reversed.reverse := mt List.mem_reverse.1 hlast
    rw [hcs, splitLast?_append hlast] at h
    obtain ⟨rfl, rfl⟩ := Prod.mk.inj (Option.some.inj h)
    exact ⟨hcs, hlast⟩
  · rintro ⟨rfl, hc⟩
    exact splitLast?_append hc

theorem append_cons_inj {before' behind' : List Char} (hc : c ∉ behind) (hc' : c ∉ behind')
    (heq : before ++ c :: behind = before' ++ c :: behind') :
    before = before' ∧ behind = behind' := by
  have hsplit := (splitLast?_append hc).symm.trans (heq ▸ splitLast?_append hc')
  exact Prod.mk.inj (Option.some.inj hsplit)

end Split

namespace Number

variable {c : Char} {cs digits : List Char} {x : Float} {e : Int}

theorem not_mem_of_digits (h : digits.all Char.isDigit = true) : '@' ∉ digits := by
  intro hmem
  have hdigit := List.all_eq_true.1 h '@' hmem
  contradiction

theorem not_mem_of_behind_digits (h : '@' ∉ cs.dropWhile Char.isDigit) : '@' ∉ cs := by
  have hdigits : '@' ∉ cs.takeWhile Char.isDigit := not_mem_of_digits List.all_takeWhile
  rw [← List.takeWhile_append_dropWhile (p := Char.isDigit) (l := cs), List.mem_append, not_or]
  exact ⟨hdigits, h⟩

theorem not_mem_of_letters {word : String} (h : String.ofList (cs.map Char.toLower) = word)
    (hword : '@' ∉ word.toList) : '@' ∉ cs := by
  intro hmem
  apply hword
  rw [← h, String.toList_ofList]
  exact List.mem_map_of_mem (f := Char.toLower) hmem

theorem not_mem_of_exponent
    (h : (c.toLower = 'e' && digits ≠ [] && digits.all Char.isDigit) = true) :
    '@' ≠ c ∧ '@' ∉ digits := by
  rw [Bool.and_eq_true, Bool.and_eq_true, decide_eq_true_eq] at h
  refine ⟨?_, not_mem_of_digits h.2⟩
  rintro rfl
  exact absurd h.1.1 (by decide)

theorem not_mem_of_power? (h : power? cs = some e) : '@' ∉ cs := by
  cases cs with
  | nil => exact List.not_mem_nil
  | cons c rest =>
    unfold power? at h
    dsimp only at h
    split at h
    all_goals
      split at h
      case isFalse => contradiction
      next hexponent =>
      obtain ⟨hc, hdigits⟩ := not_mem_of_exponent hexponent
      simp only [List.mem_cons, hc, hdigits, Char.reduceEq, or_self, not_false_eq_true]

theorem not_mem_of_magnitude? (h : magnitude? cs = some x) : '@' ∉ cs := by
  unfold magnitude? at h
  split at h
  · next hword => exact not_mem_of_letters hword (by decide)
  · next hword => exact not_mem_of_letters hword (by decide)
  · next hword => exact not_mem_of_letters hword (by decide)
  · apply not_mem_of_behind_digits
    dsimp only at h
    split at h
    · next behind hpoint =>
      rw [hpoint]
      apply List.not_mem_cons_of_ne_of_not_mem (by decide)
      apply not_mem_of_behind_digits
      split at h
      · contradiction
      · obtain ⟨_, hpower, _⟩ := Option.map_eq_some_iff.1 h
        exact not_mem_of_power? hpower
    · split at h
      · contradiction
      · obtain ⟨_, hpower, _⟩ := Option.map_eq_some_iff.1 h
        exact not_mem_of_power? hpower

theorem not_mem_of_read? (h : read? cs = some x) : '@' ∉ cs := by
  rw [read?.eq_def] at h
  split at h
  · obtain ⟨_, hmagnitude, _⟩ := Option.map_eq_some_iff.1 h
    exact List.not_mem_cons_of_ne_of_not_mem (by decide) (not_mem_of_magnitude? hmagnitude)
  · exact List.not_mem_cons_of_ne_of_not_mem (by decide) (not_mem_of_magnitude? h)
  · exact not_mem_of_magnitude? h

end Number

namespace ScheduledClick

variable {text object time : String} {x : Float}

/-- Whether a text says a number that can be the time of a click: it is finite, and not below zero,
of which both zeros are. -/
def Tells (time : String) (x : Float) : Prop :=
  Number.read? time.toList = some x ∧ x.isFinite = true ∧ 0 ≤ x

theorem time?_eq_some_iff : time? time.toList = some x ↔ Tells time x := by
  rw [time?, Option.filter_eq_some_iff, Bool.and_eq_true, decide_eq_true_eq, Tells]

theorem time?_eq_none_iff : time? time.toList = none ↔ ∀ x, ¬ Tells time x := by
  rw [Option.eq_none_iff_forall_ne_some]
  exact forall_congr' fun x => not_congr time?_eq_some_iff

theorem Tells.not_mem (h : Tells time x) : '@' ∉ time.toList := Number.not_mem_of_read? h.1

/-- What a text says, an object and a time or what is wrong with it. -/
inductive Says (text : String) : Except Fault ScheduledClick → Prop
  | noSeparator (hmissing : '@' ∉ text.toList) : Says text (.error .noSeparator)
  | noObject {time : String} (htext : text = "" ++ "@" ++ time) (htime : '@' ∉ time.toList) :
    Says text (.error .noObject)
  | badTime {object time : String} (htext : text = object ++ "@" ++ time)
      (htime : '@' ∉ time.toList) (hobject : object ≠ "") (hbad : ∀ x, ¬ Tells time x) :
    Says text (.error .badTime)
  | click {object time : String} {x : Float} (htext : text = object ++ "@" ++ time)
      (htime : '@' ∉ time.toList) (hobject : object ≠ "") (htells : Tells time x) :
    Says text (.ok ⟨object, x⟩)

theorem toList_split (object time : String) :
    (object ++ "@" ++ time).toList = object.toList ++ '@' :: time.toList := by
  rw [String.toList_append, String.toList_append, List.append_assoc]
  rfl

theorem split_unique {object' time' : String} (htime : '@' ∉ time.toList)
    (htime' : '@' ∉ time'.toList) (heq : object ++ "@" ++ time = object' ++ "@" ++ time') :
    object = object' ∧ time = time' := by
  have hlists := congrArg String.toList heq
  rw [toList_split, toList_split] at hlists
  obtain ⟨hobject, htimes⟩ := append_cons_inj htime htime' hlists
  exact ⟨String.toList_inj.1 hobject, String.toList_inj.1 htimes⟩

theorem exists_split (h : '@' ∈ text.toList) :
    ∃ object time : String, text = object ++ "@" ++ time ∧ '@' ∉ time.toList := by
  have hsplit : splitLast? '@' text.toList ≠ none := mt splitLast?_eq_none_iff.1 (not_not_intro h)
  obtain ⟨⟨before, behind⟩, hsome⟩ := Option.ne_none_iff_exists'.1 hsplit
  obtain ⟨hlist, hbehind⟩ := splitLast?_eq_some_iff.1 hsome
  refine ⟨String.ofList before, String.ofList behind, ?_, ?_⟩
  · rw [← String.toList_inj, toList_split, String.toList_ofList, String.toList_ofList, hlist]
  · rwa [String.toList_ofList]

theorem parse_no_object (htime : '@' ∉ time.toList) :
    parse ("" ++ "@" ++ time) = .error .noObject := by
  have hsplit : splitLast? '@' ("" ++ "@" ++ time).toList = some ([], time.toList) := by
    rw [toList_split, splitLast?_append htime, String.toList_empty]
  rw [parse, hsplit]

theorem splitLast?_of_object (htime : '@' ∉ time.toList) (hobject : object ≠ "") :
    ∃ c cs, String.ofList (c :: cs) = object ∧
      splitLast? '@' (object ++ "@" ++ time).toList = some (c :: cs, time.toList) := by
  rw [toList_split, splitLast?_append htime]
  cases hlist : object.toList with
  | nil => exact absurd (String.toList_eq_nil_iff.1 hlist) hobject
  | cons c cs => exact ⟨c, cs, by rw [← hlist, String.ofList_toList], rfl⟩

theorem parse_bad_time (htime : '@' ∉ time.toList) (hobject : object ≠ "")
    (hbad : time? time.toList = none) : parse (object ++ "@" ++ time) = .error .badTime := by
  obtain ⟨c, cs, _, hsplit⟩ := splitLast?_of_object htime hobject
  simp only [parse, hsplit, hbad]

theorem parse_click (htime : '@' ∉ time.toList) (hobject : object ≠ "")
    (htold : time? time.toList = some x) :
    parse (object ++ "@" ++ time) = .ok ⟨object, x⟩ := by
  obtain ⟨c, cs, hback, hsplit⟩ := splitLast?_of_object htime hobject
  simp only [parse, hsplit, htold, hback]

theorem Says.parse_eq {result : Except Fault ScheduledClick} (h : Says text result) :
    parse text = result := by
  cases h with
  | noSeparator hmissing => rw [parse, splitLast?_eq_none_iff.2 hmissing]
  | noObject htext htime => rw [htext, parse_no_object htime]
  | badTime htext htime hobject hbad =>
    rw [htext, parse_bad_time htime hobject (time?_eq_none_iff.2 hbad)]
  | click htext htime hobject htells =>
    rw [htext, parse_click htime hobject (time?_eq_some_iff.2 htells)]

theorem exists_result (text : String) : ∃ result, Says text result := by
  by_cases hmem : '@' ∈ text.toList
  · obtain ⟨object, time, htext, htime⟩ := exists_split hmem
    by_cases hobject : object = ""
    · exact ⟨_, .noObject (hobject ▸ htext) htime⟩
    by_cases hbad : ∀ x, ¬ Tells time x
    · exact ⟨_, .badTime htext htime hobject hbad⟩
    · obtain ⟨x, htells⟩ := not_forall_not.1 hbad
      exact ⟨_, .click htext htime hobject htells⟩
  · exact ⟨_, .noSeparator hmem⟩

/-- A text is read as a click exactly if there is an `@` in it with an object in front of the last
one, and behind that a number that can be the time. Of what is wrong with any other text, the first
of the three faults counts. All that is in front is the object, so that every object can be named,
and no text names two of them. -/
theorem parse_eq_iff (text : String) :
    (∀ result, parse text = result ↔ Says text result) ∧
    (∀ fault, parse text = .error fault →
      Options.click text = .error (.badValue (fault.message text))) ∧
    (∀ (object time : String) (x : Float), text = object ++ "@" ++ time → object ≠ "" →
      Tells time x → parse text = .ok ⟨object, x⟩ ∧
        ∀ w : World, w.Assembled → ∀ actor, w.actor? object = some actor ↔
          actor ∈ w.actors ∧ actor.id = object) ∧
    ∀ object time object' time' : String, '@' ∉ time.toList → '@' ∉ time'.toList →
      text = object ++ "@" ++ time → text = object' ++ "@" ++ time' →
        object = object' ∧ time = time' := by
  refine ⟨?_, ?_, ?_, ?_⟩
  · intro result
    constructor
    · rintro rfl
      obtain ⟨result, htold⟩ := exists_result text
      rwa [htold.parse_eq]
    · exact Says.parse_eq
  · intro fault hfault
    rw [Options.click, hfault]
  · intro object time x htext hobject htells
    refine ⟨(Says.click htext htells.not_mem hobject htells).parse_eq, ?_⟩
    intro w hw actor
    exact hw.indexed.actor?_eq_some_iff
  · intro object time object' time' htime htime' htext htext'
    exact split_unique htime htime' (htext.symm.trans htext')

example : parse "a@b@-0" = .ok ⟨"a@b", -0.0⟩ := by rfl

end ScheduledClick

end BlockScript
