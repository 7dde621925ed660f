import Mathlib.Data.List.TakeWhile
import BlockScript.Text.Blank

namespace BlockScript.Text

theorem toLower_of_not_ascii {c : Char} (hc : ¬ c.toNat < 128) : c.toLower = c := by
  apply dif_neg
  intro h
  have hle : c.toNat ≤ 90 := h.2
  omega

theorem isBlank_toLower (c : Char) : isBlank c.toLower = isBlank c := by
  by_cases hc : c.toNat < 128
  · have hascii : ∀ k < 128, isBlank (Char.ofNat k).toLower = isBlank (.ofNat k) := by decide
    rw [← Char.ofNat_toNat c, hascii c.toNat hc]
  · rw [toLower_of_not_ascii hc]

/-- A text is a word but for blanks around it. -/
def Pads (word cs : List Char) : Prop :=
  ∃ before after, cs = before ++ word ++ after ∧
    (∀ c ∈ before, isBlank c) ∧ ∀ c ∈ after, isBlank c

theorem pads_trim (cs : List Char) : Pads (trim cs) cs := by
  let rest := cs.dropWhile isBlank
  refine ⟨cs.takeWhile isBlank, (rest.reverse.takeWhile isBlank).reverse, ?_, ?_, ?_⟩
  · rw [trim, List.append_assoc, ← List.reverse_append, List.takeWhile_append_dropWhile,
      List.reverse_reverse, List.takeWhile_append_dropWhile]
  · intro c hc
    exact List.mem_takeWhile_imp hc
  · intro c hc
    exact List.mem_takeWhile_imp (List.mem_reverse.mp hc)

theorem dropWhile_of_not_blank {cs : List Char} (h : ∀ c ∈ cs, isBlank c = false) :
    cs.dropWhile isBlank = cs := by
  cases cs with
  | nil => rfl
  | cons c cs => exact List.dropWhile_cons_of_neg (by simp [h c])

theorem Pads.trim_eq {word cs : List Char} (hp : Pads word cs)
    (hword : ∀ c ∈ word, isBlank c = false) : trim cs = word := by
  obtain ⟨before, after, rfl, hbefore, hafter⟩ := hp
  rw [List.append_assoc, trim, List.dropWhile_append_of_pos hbefore, List.dropWhile_append,
    dropWhile_of_not_blank hword]
  split
  · next hnil =>
    rw [List.isEmpty_iff.mp hnil, List.dropWhile_eq_nil_iff.mpr hafter]
    rfl
  · rw [List.reverse_append, List.dropWhile_append_of_pos (by simpa using hafter),
      dropWhile_of_not_blank (by simpa using hword), List.reverse_reverse]

theorem exists_pads_iff {P : List Char → Prop} {cs : List Char}
    (hP : ∀ {word}, P word → ∀ c ∈ word, isBlank c = false) :
    (∃ word, Pads word cs ∧ P word) ↔ P (trim cs) := by
  constructor
  · rintro ⟨word, hpads, hword⟩
    rwa [hpads.trim_eq (hP hword)]
  · intro h
    exact ⟨trim cs, pads_trim cs, h⟩

end BlockScript.Text
