import BlockScript.Json.Typed
import BlockScript.Proofs.Json.Takes

namespace BlockScript.Json.Reader

variable {α β : Type} {depth : Nat} {cs rest : List Char} {c : Char}

/-- The characters of which numerals are made up. -/
def isNumeral (c : Char) : Bool :=
  c.isDigit || c = '.' || c = 'e' || c = 'E' || c = '+' || c = '-'

/-- Whether no numeral goes on at the front of a text. -/
def Ends (cs : List Char) : Prop := ∀ c ∈ cs.head?, isNumeral c = false

theorem ne_of_isNumeral {d : Char} (hc : isNumeral c = false) (hd : isNumeral d = true) :
    c ≠ d := by
  rintro rfl
  rw [hc] at hd
  contradiction

/-- A reader that takes the same, whatever follows and whatever is open around it. -/
structure Local (r : Reader α) : Prop where
  takes : ∀ {depth depth' : Nat} {cs mid rest : List Char} {a : α}, Ends rest →
    Takes r depth cs a mid → Takes r depth' (cs ++ rest) a (mid ++ rest)

theorem local_pure (a : α) : Local (pure a : Reader α) where
  takes := by
    intro depth depth' cs mid rest a' hrest h
    obtain ⟨rfl, rfl⟩ := takes_pure_iff.1 h
    exact takes_pure

theorem local_of_not_takes {r : Reader α} (h : ∀ depth cs a rest, ¬ Takes r depth cs a rest) :
    Local r where
  takes := fun _ ht => absurd ht (h _ _ _ _)

theorem local_throw (fault : Fault) : Local (throw fault : Reader α) :=
  local_of_not_takes fun _ _ _ _ => not_takes_throw

theorem local_lift (e : Except Fault α) : Local (liftM e : Reader α) := by
  cases e with
  | error fault => exact local_throw fault
  | ok a => exact local_pure a

theorem Local.bind {r : Reader α} {f : α → Reader β} (hr : Local r) (hf : ∀ a, Local (f a)) :
    Local (r >>= f) where
  takes := by
    intro depth depth' cs mid rest b hrest h
    obtain ⟨a, between, hr', hf'⟩ := takes_bind_iff.1 h
    exact (hr.takes hrest hr').bind ((hf a).takes hrest hf')

/-- Looking ahead is local if no character that follows a numeral makes a difference, and a character
that does is taken. -/
theorem local_look {f : Option Char → Reader β} (hnone : Local (f none))
    (hother : ∀ c, isNumeral c = false → f (some c) = f none)
    (hsome : ∀ c, Local (f (some c)) ∨ ∃ g, f (some c) = advance >>= g ∧ ∀ u, Local (g u)) :
    Local (look >>= f) where
  takes := by
    intro depth depth' cs mid rest b hrest h
    cases cs with
    | nil =>
      have hhead : f rest.head? = f none := by
        cases rest with
        | nil => rfl
        | cons c rest => exact hother c (hrest c rfl)
      have hlook : Takes (f rest.head?) depth' rest b (mid ++ rest) := by
        rw [hhead]
        exact hnone.takes hrest h
      exact takes_look.bind hlook
    | cons c cs =>
      apply takes_look.bind
      rcases hsome c with hlocal | ⟨g, hg, hlocal⟩
      · exact hlocal.takes hrest h
      · have h : Takes (g ()) depth cs b mid := by
          change Takes (f (some c)) depth (c :: cs) b mid at h
          rwa [hg] at h
        change Takes (f (some c)) depth' (c :: (cs ++ rest)) b (mid ++ rest)
        rw [hg]
        exact takes_advance.bind ((hlocal ()).takes hrest h)

theorem local_look_char {f : Option Char → Reader β} (d : Char) (hd : isNumeral d = true)
    (hnone : Local (f none)) (hother : ∀ c ≠ d, f (some c) = f none)
    (htaken : ∃ g, f (some d) = advance >>= g ∧ ∀ u, Local (g u)) : Local (look >>= f) := by
  apply local_look hnone
  · intro c hc
    exact hother c (ne_of_isNumeral hc hd)
  · intro c
    by_cases hcd : c = d
    · exact .inr (hcd ▸ htaken)
    · left
      rw [hother c hcd]
      exact hnone

theorem takes_digits_iff {ds : List Char} : Takes digits depth cs ds rest ↔
    cs.takeWhile Char.isDigit = ds ∧ cs.dropWhile Char.isDigit = rest := by
  constructor
  · rintro ⟨⟩
    exact ⟨rfl, rfl⟩
  · rintro ⟨rfl, rfl⟩
    rfl

theorem span_digits_append (hrest : Ends rest) (cs : List Char) :
    (cs ++ rest).takeWhile Char.isDigit = cs.takeWhile Char.isDigit ∧
      (cs ++ rest).dropWhile Char.isDigit = cs.dropWhile Char.isDigit ++ rest := by
  induction cs with
  | nil =>
    cases rest with
    | nil => exact ⟨rfl, rfl⟩
    | cons c rest =>
      have hc : c.isDigit = false := by
        have hc := hrest c rfl
        simp only [isNumeral, Bool.or_eq_false_iff] at hc
        exact hc.1.1.1.1.1
      simp [hc]
  | cons c cs ih =>
    cases hc : c.isDigit with
    | true => simpa [hc] using ih
    | false => simp [hc]

theorem local_digits : Local digits where
  takes := by
    intro depth depth' cs mid rest ds hrest h
    obtain ⟨rfl, rfl⟩ := takes_digits_iff.1 h
    exact takes_digits_iff.2 (span_digits_append hrest cs)

theorem local_someDigits (ending : Fault) : Local (someDigits ending) := by
  apply local_digits.bind
  intro ds
  cases ds with
  | nil =>
    apply local_of_not_takes
    intro depth cs a rest h
    obtain ⟨c?, mid, _, h⟩ := takes_bind_iff.1 h
    exact not_takes_throw h
  | cons d ds => exact local_pure _

theorem local_fraction (ending : Fault) : Local (fraction ending) := by
  apply local_look_char '.' rfl
  case hnone => exact local_pure none
  case hother =>
    intro c hc
    simp [hc]
  case htaken => exact ⟨_, rfl, fun _ => (local_someDigits ending).bind fun _ => local_pure _⟩

theorem local_power (ending : Fault) : Local (power ending) := by
  apply local_look
  case hnone => exact local_pure none
  case hother =>
    intro c hc
    split
    · next h => exact absurd (Option.some.inj h) (ne_of_isNumeral hc rfl)
    · next h => exact absurd (Option.some.inj h) (ne_of_isNumeral hc rfl)
    · rfl
  case hsome =>
    intro c
    split
    case h_3 => exact .inl (local_pure none)
    all_goals
      right
      refine ⟨_, rfl, fun _ => ?_⟩
      apply local_look
      case hnone => exact (local_someDigits ending).bind fun _ => local_pure _
      case hother =>
        intro sign hsign
        have hplus : sign ≠ '+' := ne_of_isNumeral hsign rfl
        have hminus : sign ≠ '-' := ne_of_isNumeral hsign rfl
        simp [hplus, hminus]
      case hsome =>
        intro sign
        dsimp only
        by_cases hsign : (decide (some sign = some '+') || decide (some sign = some '-')) = true
        · rw [if_pos hsign]
          exact .inr ⟨_, rfl, fun _ => (local_someDigits ending).bind fun _ => local_pure _⟩
        · rw [if_neg hsign]
          exact .inl ((local_someDigits ending).bind fun _ => local_pure _)

theorem local_parts (ending : Fault) : Local (parts ending) := by
  have behind (negative : Bool) (whole : List Char) :
      Local (do return ⟨negative, whole, ← fraction ending, ← power ending⟩ :
        Reader NumeralParts) :=
    (local_fraction ending).bind fun _ => (local_power ending).bind fun _ => local_pure _
  apply local_look_char '-' rfl
  case hnone =>
    apply (local_someDigits ending).bind
    intro ds
    split
    · exact local_throw _
    · exact behind _ ds
  case hother =>
    intro c hc
    simp [hc]
  case htaken =>
    refine ⟨_, rfl, fun _ => (local_someDigits ending).bind fun ds => ?_⟩
    split
    · exact local_throw _
    · exact behind _ ds

theorem local_numeral : Local numeral := by
  apply (local_parts .cutValue).bind
  intro parts
  exact local_lift parts.value

end BlockScript.Json.Reader
