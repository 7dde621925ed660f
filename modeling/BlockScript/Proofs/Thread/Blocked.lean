import BlockScript.Proofs.Script.Edits
import BlockScript.Proofs.Thread.Step

namespace BlockScript

def Action.IsOver (action : Action) (now : Float) : Prop :=
  1 ≤ Easing.progress action.startTime action.duration now

instance (action : Action) (now : Float) : Decidable (action.IsOver now) :=
  inferInstanceAs (Decidable (_ ≤ _))

theorem Tween.apply_apply (w : Tween) (part part' : Float32) (a : Appearance) :
    w.apply part' (w.apply part a) = w.apply part' a := by
  cases w <;> rfl

theorem Tween.finish_apply (w : Tween) (part : Float32) (a : Appearance) :
    w.finish (w.apply part a) = w.finish a := by
  cases w <;> rfl

theorem Action.resume_of_not_isOver {action : Action} {now : Float} (h : ¬ action.IsOver now)
    (a : Appearance) : ∃ part, action.resume a now = (action.tween.apply part a, false) :=
  ⟨_, if_neg h⟩

/-- A change says what an object is like from where it began, not from how far it had come. -/
theorem Action.resume_apply (action : Action) (part : Float32) (a : Appearance) (now : Float) :
    action.resume (action.tween.apply part a) now = action.resume a now := by
  simp only [Action.resume, Tween.finish_apply, Tween.apply_apply]

def Script.growing : Script :=
  (empty "script-3" "Growing").after [.insert "start" .onStart none,
    .insert "grow" (.scale 3 2) (some ⟨0, 0⟩), .insert "rest" (.wait 1) (some ⟨0, 0⟩),
    .insert "paint" (.paint .white) (some ⟨0, 0⟩)]

namespace Thread

variable {s : Script} {t : Thread} {a : Appearance} {now : Float} {times kept : List Float}

/-- Whether a tick finds a thread at its end, or within a change that the tick does not complete, or
waiting. -/
def Blocked (t : Thread) (now : Float) : Prop :=
  t.active = false ∨ match t.action with
    | some action => ¬ action.IsOver now
    | none => now < t.wakeTime

instance (t : Thread) (now : Float) : Decidable (t.Blocked now) :=
  @instDecidableOr _ _ _ (match t.action with
    | some action => inferInstanceAs (Decidable ¬ action.IsOver now)
    | none => inferInstanceAs (Decidable (now < t.wakeTime)))

theorem advance_apply {action : Action} (hactive : t.active = true)
    (haction : t.action = some action) (part : Float32) (a : Appearance) (now : Float) :
    t.advance s (action.tween.apply part a) now = t.advance s a now := by
  rw [advance, advance, if_pos hactive, if_pos hactive, haction]
  simp only [action.resume_apply]

/-- A tick of a blocked thread does nothing that is not done again by the next one. -/
theorem advance_of_blocked (s : Script) (a : Appearance) (hblocked : t.Blocked now) :
    ∃ shown, t.advance s a now = ⟨t, shown, 0, []⟩ ∧
      ∀ later, t.advance s shown later = t.advance s a later := by
  by_cases hactive : t.active = true
  · have hblocked := hblocked.resolve_left (by simp [hactive])
    cases haction : t.action with
    | none =>
      rw [haction] at hblocked
      refine ⟨a, ?_, fun _ => rfl⟩
      rw [advance, if_pos hactive, haction]
      exact if_pos hblocked
    | some action =>
      rw [haction] at hblocked
      obtain ⟨part, hresume⟩ := Action.resume_of_not_isOver hblocked a
      refine ⟨action.tween.apply part a, ?_, advance_apply hactive haction part a⟩
      rw [advance, if_pos hactive, haction]
      simp only [hresume]
  · have hinactive := Bool.eq_false_iff.2 hactive
    exact ⟨a, advance_of_inactive s a now hinactive, fun _ => rfl⟩

/-- Whether some ticks are left of others when such as find the thread blocked are dropped, which
the last one never is. -/
inductive Thinned (s : Script) : Thread → Appearance → List Float → List Float → Prop
  | done {t : Thread} {a : Appearance} : Thinned s t a [] []
  | keep {t : Thread} {a : Appearance} {now : Float} {times kept : List Float}
      (rest : Thinned s (t.advance s a now).thread (t.advance s a now).appearance times kept) :
      Thinned s t a (now :: times) (now :: kept)
  | drop {t : Thread} {a : Appearance} {now : Float} {times kept : List Float}
      (hblocked : t.Blocked now) (hlast : times ≠ [])
      (rest : Thinned s (t.advance s a now).thread (t.advance s a now).appearance times kept) :
      Thinned s t a (now :: times) kept

theorem Thinned.ne_nil (h : Thinned s t a times kept) (htimes : times ≠ []) : kept ≠ [] := by
  induction h with
  | done => contradiction
  | keep => exact List.cons_ne_nil _ _
  | drop _ hlast _ ih => exact ih hlast

theorem advances_congr {b : Appearance} (hkept : kept ≠ [])
    (hsame : ∀ later, t.advance s b later = t.advance s a later) :
    t.advances s b kept = t.advances s a kept := by
  cases kept with
  | nil => contradiction
  | cons later kept => rw [advances, advances, hsame]

theorem Thinned.advances_eq (h : Thinned s t a times kept) :
    t.advances s a kept = t.advances s a times := by
  induction h with
  | done => rfl
  | keep _ ih => rw [advances, advances, ih]
  | @drop t a now times kept hblocked hlast rest ih =>
    obtain ⟨shown, heq, hsame⟩ := advance_of_blocked s a hblocked
    have hkept := rest.ne_nil hlast
    rw [heq] at ih
    rw [advances, heq, ← advances_congr hkept hsame, ih]
    simp

/-- A tick that finds a thread blocked makes no difference to the next one. So nothing is changed
for a thread or its object by how many ticks there are while a change is under way or a wait lasts:
any of them may be left out, except for the last one. -/
theorem advances_of_thinned :
    (∀ (s : Script) (t : Thread) (a : Appearance) (now later : Float), t.Blocked now →
        (t.advance s a now).thread.advance s (t.advance s a now).appearance later =
          t.advance s a later) ∧
      ∀ (s : Script) (t : Thread) (a : Appearance) (times kept : List Float),
        Thinned s t a times kept → t.advances s a kept = t.advances s a times := by
  constructor
  · intro s t a now later hblocked
    obtain ⟨shown, heq, hsame⟩ := advance_of_blocked s a hblocked
    rw [heq]
    exact hsame later
  · exact fun s t a times kept h => h.advances_eq

/-- The ticks at half a second and at one do not complete the change, and the wait then lasts until
the third second. -/
theorem advances_of_thinned_growing :
    let t := start ⟨0, 0⟩
    let begun := t.advance .growing .default 0
    begun.thread.Blocked 0.5 ∧
      (begun.thread.advance .growing begun.appearance 0.5).thread.advance .growing
        (begun.thread.advance .growing begun.appearance 0.5).appearance 2 =
          begun.thread.advance .growing begun.appearance 2 ∧
      Thinned .growing t .default [0, 0.5, 1, 2, 2.5, 3] [0, 2, 3] ∧
      t.advances .growing .default [0, 2, 3] =
        t.advances .growing .default [0, 0.5, 1, 2, 2.5, 3] := by
  intro t begun
  have hblocked : begun.thread.Blocked 0.5 := by decide +kernel
  have hthinned : Thinned .growing t .default [0, 0.5, 1, 2, 2.5, 3] [0, 2, 3] := by
    apply Thinned.keep
    apply Thinned.drop (by decide +kernel) (by simp)
    apply Thinned.drop (by decide +kernel) (by simp)
    apply Thinned.keep
    apply Thinned.drop (by decide +kernel) (by simp)
    exact .keep .done
  exact ⟨hblocked, advances_of_thinned.1 .growing _ _ 0.5 2 hblocked, hthinned,
    advances_of_thinned.2 _ _ _ _ _ hthinned⟩

end Thread

end BlockScript
