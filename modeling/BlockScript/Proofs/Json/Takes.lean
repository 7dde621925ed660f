import BlockScript.Json.Record
import Mathlib.Data.List.TakeWhile

namespace BlockScript.Json.Reader

variable {α β σ : Type} {levels depth : Nat} {cs mid rest blanks more : List Char} {c : Char} {a : α}
  {b : β} {r : Reader α} {f : α → Reader β} {s s' : σ} {step : σ → Reader (σ ⊕ α)}

/-- Whether a reader takes the front of a text and leaves the rest. -/
def Takes (r : Reader α) (depth : Nat) (cs : List Char) (a : α) (rest : List Char) : Prop :=
  r depth cs = .ok (a, rest)

def Blank (cs : List Char) : Prop := ∀ c ∈ cs, isSpace c = true

theorem blank_nil : Blank [] := fun _ hc => absurd hc List.not_mem_nil

theorem blank_append (hb : Blank blanks) (hm : Blank more) : Blank (blanks ++ more) := by
  intro c hc
  rcases List.mem_append.1 hc with hc | hc
  · exact hb c hc
  · exact hm c hc

theorem takes_pure : Takes (pure a) depth cs a cs := rfl

theorem takes_pure_iff {a' : α} : Takes (pure a) depth cs a' rest ↔ a = a' ∧ cs = rest := by
  constructor
  · rintro ⟨⟩
    exact ⟨rfl, rfl⟩
  · rintro ⟨rfl, rfl⟩
    exact takes_pure

theorem not_takes_throw {fault : Fault} : ¬ Takes (throw fault : Reader α) depth cs a rest := nofun

theorem takes_bind_iff : Takes (r >>= f) depth cs b rest ↔
    ∃ a mid, Takes r depth cs a mid ∧ Takes (f a) depth mid b rest := by
  change (r depth cs >>= fun result => f result.1 depth result.2) = _ ↔ _
  constructor
  · intro h
    cases hr : r depth cs with
    | error fault =>
      rw [hr] at h
      contradiction
    | ok result =>
      rw [hr] at h
      exact ⟨result.1, result.2, hr, h⟩
  · rintro ⟨a, mid, hr, hf⟩
    rw [show r depth cs = .ok (a, mid) from hr]
    exact hf

theorem Takes.bind (hr : Takes r depth cs a mid) (hf : Takes (f a) depth mid b rest) :
    Takes (r >>= f) depth cs b rest :=
  takes_bind_iff.2 ⟨a, mid, hr, hf⟩

theorem takes_get : Takes get depth cs cs cs := rfl

theorem takes_modify {g : List Char → List Char} : Takes (modify g) depth cs () (g cs) := rfl

theorem takes_look : Takes look depth cs cs.head? cs := rfl

theorem takes_next : Takes next depth (c :: cs) (some c) cs := rfl

theorem takes_advance : Takes advance depth (c :: cs) () cs := rfl

theorem takes_nested (hdepth : levels < depth)
    (hr : ∀ depth, levels ≤ depth → Takes r depth cs a rest) :
    Takes (nested r) depth cs a rest := by
  cases depth with
  | zero => contradiction
  | succ depth => exact hr depth (Nat.le_of_lt_succ hdepth)

theorem takes_lift {e : Except Fault α} (he : e = .ok a) : Takes (liftM e) depth cs a cs := by
  rw [he]
  rfl

theorem takes_peek_iff {c? : Option Char} : Takes peek depth cs c? rest ↔
    (cs.dropWhile isSpace).head? = c? ∧ cs.dropWhile isSpace = rest := by
  constructor
  · rintro ⟨⟩
    exact ⟨rfl, rfl⟩
  · rintro ⟨rfl, rfl⟩
    rfl

theorem takes_peek (hb : Blank blanks) (hc : isSpace c = false) :
    Takes peek depth (blanks ++ c :: cs) (some c) (c :: cs) := by
  rw [takes_peek_iff, List.dropWhile_append_of_pos hb, List.dropWhile_cons_of_neg (by simp [hc])]
  exact ⟨rfl, rfl⟩

theorem takes_typed {expected : String} {accept : Char → Option (Reader α)} (hb : Blank blanks)
    (hc : isSpace c = false) (ha : accept c = some r) (hr : Takes r depth (c :: cs) a rest) :
    Takes (typed expected accept) depth (blanks ++ c :: cs) a rest := by
  refine (takes_peek hb hc).bind ?_
  dsimp only
  rw [ha]
  exact hr

theorem takes_iterateWithin_mono {bound bound' : List Char} (hle : bound.length ≤ bound'.length)
    (h : Takes (iterateWithin step bound s) depth cs a rest) :
    Takes (iterateWithin step bound' s) depth cs a rest := by
  induction bound generalizing bound' s cs with
  | nil =>
    obtain ⟨result, mid, hstep, hrest⟩ := takes_bind_iff.1 h
    cases result with
    | inl s' => exact absurd hrest not_takes_throw
    | inr a' => cases bound' <;> exact hstep.bind hrest
  | cons c bound ih =>
    cases bound' with
    | nil => contradiction
    | cons c' bound' =>
      obtain ⟨result, mid, hstep, hrest⟩ := takes_bind_iff.1 h
      cases result with
      | inl s' => exact hstep.bind (ih (Nat.le_of_succ_le_succ hle) hrest)
      | inr a' => exact hstep.bind hrest

theorem takes_iterate (h : Takes (iterateWithin step cs s) depth cs a rest) :
    Takes (iterate step s) depth cs a rest :=
  takes_get.bind h

theorem takes_iterate_last (hstep : Takes (step s) depth cs (.inr a) rest) :
    Takes (iterate step s) depth cs a rest := by
  apply takes_iterate
  cases cs <;> exact hstep.bind takes_pure

theorem takes_iterate_more (hstep : Takes (step s) depth cs (.inl s') mid)
    (hless : mid.length < cs.length) (hrest : Takes (iterate step s') depth mid a rest) :
    Takes (iterate step s) depth cs a rest := by
  apply takes_iterate
  cases cs with
  | nil => contradiction
  | cons c cs => exact hstep.bind (takes_iterateWithin_mono (Nat.le_of_lt_succ hless) hrest)

section Lists

variable (hb : Blank blanks)

include hb

theorem takes_moreItems_end {first : Bool} :
    Takes (moreItems first) depth (blanks ++ ']' :: rest) false (']' :: rest) :=
  (takes_peek hb rfl).bind takes_pure

theorem takes_moreItems_first (hc : isSpace c = false) (hend : c ≠ ']') :
    Takes (moreItems true) depth (blanks ++ c :: cs) true (c :: cs) := by
  refine (takes_peek hb hc).bind ?_
  split
  · contradiction
  · next h => exact absurd (Option.some.inj h) hend
  · exact takes_pure

theorem takes_moreItems_next (hm : Blank more) (hc : isSpace c = false) (hend : c ≠ ']') :
    Takes (moreItems false) depth (blanks ++ ',' :: (more ++ c :: cs)) true (c :: cs) := by
  refine (takes_peek hb rfl).bind (takes_advance.bind ((takes_peek hm hc).bind ?_))
  split
  · contradiction
  · next h => exact absurd (Option.some.inj h) hend
  · exact takes_pure

theorem takes_closeList : Takes closeList depth (blanks ++ ']' :: rest) () rest :=
  (takes_peek hb rfl).bind takes_advance

end Lists

section Objects

variable (hb : Blank blanks)

include hb

theorem takes_moreFields_end {first : Bool} :
    Takes (moreFields first) depth (blanks ++ '\x7d' :: rest) false ('\x7d' :: rest) :=
  (takes_peek hb rfl).bind takes_pure

theorem takes_moreFields_first :
    Takes (moreFields true) depth (blanks ++ '"' :: cs) true ('"' :: cs) :=
  (takes_peek hb rfl).bind takes_pure

theorem takes_moreFields_next (hm : Blank more) :
    Takes (moreFields false) depth (blanks ++ ',' :: (more ++ '"' :: cs)) true ('"' :: cs) :=
  (takes_peek hb rfl).bind (takes_advance.bind ((takes_peek hm rfl).bind takes_pure))

theorem takes_colon : Takes colon depth (blanks ++ ':' :: rest) () rest :=
  (takes_peek hb rfl).bind takes_advance

end Objects

end BlockScript.Json.Reader
