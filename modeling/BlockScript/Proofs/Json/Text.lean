import BlockScript.Json.Writer
import BlockScript.Proofs.Json.Takes

namespace BlockScript.Json.Reader

variable {depth : Nat} {rest : List Char} {c d : Char}

theorem escaped_cases (c : Char) :
    (∃ d, d ≠ 'u' ∧ lettered? d = some c ∧ escaped c = ['\\', d]) ∨
      (c < ' ' ∧ escaped c =
        ['\\', 'u', '0', '0', Nat.digitChar (c.toNat / 16), Nat.digitChar (c.toNat % 16)]) ∨
      (c ≠ '"' ∧ c ≠ '\\' ∧ ¬ c < ' ' ∧ escaped c = [c]) := by
  unfold escaped
  split
  case h_8 hquote hbackslash _ _ _ _ _ =>
    right
    split
    · next hcontrol => exact .inl ⟨hcontrol, rfl⟩
    · next hcontrol => exact .inr ⟨hquote, hbackslash, hcontrol, rfl⟩
  all_goals exact .inl ⟨_, by decide, rfl, rfl⟩

theorem length_escaped_pos (c : Char) : 0 < (escaped c).length := by
  rcases escaped_cases c with ⟨_, _, _, he⟩ | ⟨_, he⟩ | ⟨_, _, _, he⟩ <;>
    · rw [he]
      exact Nat.succ_pos _

theorem hexDigit?_digitChar : ∀ n < 16, hexDigit? (Nat.digitChar n) = some n := by decide

theorem takes_unit {m n : Nat} (hm : m < 16) (hn : n < 16) :
    Takes unit depth ('0' :: '0' :: Nat.digitChar m :: Nat.digitChar n :: rest) (16 * m + n)
      rest := by
  have hdigits : ['0', '0', Nat.digitChar m, Nat.digitChar n].mapM hexDigit? =
      some [0, 0, m, n] := by
    rw [List.mapM_cons, List.mapM_cons, List.mapM_cons, List.mapM_cons, hexDigit?_digitChar m hm,
      hexDigit?_digitChar n hn]
    rfl
  apply takes_get.bind
  dsimp only [List.take]
  rw [hdigits]
  apply takes_modify.bind
  rw [takes_pure_iff]
  exact ⟨by omega, rfl⟩

/-- A control character has no more than two places, so that its number is half of no pair. -/
theorem takes_numbered (hc : c < ' ') :
    Takes numbered depth ('0' :: '0' :: Nat.digitChar (c.toNat / 16) ::
      Nat.digitChar (c.toNat % 16) :: rest) c rest := by
  have hlt : c.toNat < 32 := hc
  have hsum : 16 * (c.toNat / 16) + c.toNat % 16 = c.toNat := Nat.div_add_mod ..
  have hunit : Takes unit depth ('0' :: '0' :: Nat.digitChar (c.toNat / 16) ::
      Nat.digitChar (c.toNat % 16) :: rest) (16 * (c.toNat / 16) + c.toNat % 16) rest :=
    takes_unit (by omega) (by omega)
  rw [hsum] at hunit
  have htrailing : isTrailing c.toNat = false := by simp [isTrailing]; omega
  have hleading : isLeading c.toNat = false := by simp [isLeading]; omega
  apply hunit.bind
  rw [htrailing, hleading]
  exact takes_pure_iff.2 ⟨Char.ofNat_toNat c, rfl⟩

theorem takes_escape {number : Reader Char} (hu : d ≠ 'u') (hd : lettered? d = some c) :
    Takes (escape number) depth (d :: rest) c rest := by
  apply takes_next.bind
  split
  · contradiction
  · next h => exact absurd (Option.some.inj h) hu
  · next _ h =>
    obtain rfl := Option.some.inj h
    rw [hd]
    exact takes_pure

theorem takes_characters (s : List Char) :
    Takes (characters numbered) depth (s.flatMap escaped ++ '"' :: rest) s rest := by
  refine (?_ : ∀ read, Takes (iterate _ read) depth (s.flatMap escaped ++ '"' :: rest)
    (read.reverse ++ s) rest) []
  induction s with
  | nil =>
    intro read
    rw [List.append_nil]
    exact takes_iterate_last (takes_next.bind takes_pure)
  | cons c s ih =>
    intro read
    have hread := ih (c :: read)
    rw [List.reverse_cons, List.append_assoc] at hread
    rw [List.flatMap_cons, List.append_assoc]
    have hless : (s.flatMap escaped ++ '"' :: rest).length <
        (escaped c ++ (s.flatMap escaped ++ '"' :: rest)).length := by
      have hpos := length_escaped_pos c
      simp only [List.length_append]
      omega
    apply takes_iterate_more _ hless hread
    rcases escaped_cases c with ⟨d, hu, hd, he⟩ | ⟨hcontrol, he⟩ | ⟨hquote, hbackslash, hplain, he⟩
    · rw [he]
      exact takes_next.bind ((takes_escape hu hd).bind takes_pure)
    · rw [he]
      exact takes_next.bind ((takes_next.bind (takes_numbered hcontrol)).bind takes_pure)
    · rw [he]
      apply takes_next.bind
      split
      · contradiction
      · next h => exact absurd (Option.some.inj h) hquote
      · next h => exact absurd (Option.some.inj h) hbackslash
      · next h =>
        obtain rfl := Option.some.inj h
        rw [if_neg hplain]
        exact takes_pure

theorem takes_text (s : String) :
    Takes text depth (s.toList.flatMap escaped ++ '"' :: rest) s rest := by
  apply (takes_characters s.toList).bind
  rw [String.ofList_toList]
  exact takes_pure

end BlockScript.Json.Reader
