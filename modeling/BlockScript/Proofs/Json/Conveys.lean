import BlockScript.Proofs.Json.Numeral
import BlockScript.Proofs.Json.Text
import Mathlib.Data.List.Forall2

namespace BlockScript.Json.Reader

variable {α δ : Type} {r : Reader α} {levels depth : Nat} {text rest blanks more cs : List Char}
  {a : α} {j : Json} {js : List Json} {as : List α} {c : Char} {spacing : Spacing}

/-- Whether a reader finds data in a text, with blanks in front of it or without, and whatever
stands behind it that is no part of a numeral. -/
def Reads (r : Reader α) (levels : Nat) (text : List Char) (a : α) : Prop :=
  ∃ blanks c tail, text = blanks ++ c :: tail ∧ Blank blanks ∧ isSpace c = false ∧ c ≠ ']' ∧
    ∀ depth more rest, levels ≤ depth → Blank more → Ends rest →
      Takes r depth (more ++ c :: (tail ++ rest)) a rest

/-- Whether a reader finds data in a value, on however many lines it is written. At most `levels`
lists and objects are open at a time. -/
def Conveys (r : Reader α) (levels : Nat) (j : Json) (a : α) : Prop :=
  ∀ spacing, Reads r levels (j.write spacing) a

theorem blank_replicate (n : Nat) : Blank (List.replicate n ' ') := by
  intro c hc
  rw [List.eq_of_mem_replicate hc]
  rfl

theorem blank_lineBreak (spacing : Spacing) : Blank spacing.lineBreak := by
  cases spacing with
  | line => exact blank_nil
  | lines depth =>
    intro c hc
    rcases List.mem_cons.1 hc with rfl | hc
    · rfl
    · exact blank_replicate _ c hc

theorem ends_nil : Ends [] := fun _ hc => absurd hc (by simp)

theorem ends_cons (hc : isNumeral c = false) : Ends (c :: cs) := by
  intro d hd
  rw [← Option.some.inj hd]
  exact hc

theorem isNumeral_of_isSpace (h : isSpace c = true) : isNumeral c = false := by
  simp only [isSpace, Bool.or_eq_true, decide_eq_true_eq] at h
  rcases h with ((rfl | rfl) | rfl) | rfl <;> decide

theorem ends_append (hb : Blank blanks) (hc : isNumeral c = false) : Ends (blanks ++ c :: cs) := by
  cases blanks with
  | nil => exact ends_cons hc
  | cons d blanks =>
    exact ends_cons (isNumeral_of_isSpace (hb d (List.mem_cons_self ..)))

theorem reads_typed {expected : String} {accept : Char → Option (Reader α)}
    (hc : isSpace c = false) (hend : c ≠ ']') (ha : accept c = some r)
    (hr : ∀ depth rest, levels ≤ depth → Takes r depth (c :: (cs ++ rest)) a rest) :
    Reads (typed expected accept) levels (c :: cs) a := by
  refine ⟨[], c, cs, rfl, blank_nil, hc, hend, ?_⟩
  intro depth more rest hdepth hm _
  exact takes_typed hm hc ha (hr depth rest hdepth)

theorem run_of_conveys (h : Conveys r levels j a) (hlevels : levels ≤ depthLimit) :
    r.run j.pretty = .ok a := by
  obtain ⟨before, c, tail, htext, hbefore, _, _, htakes⟩ := h (.lines 0)
  have hread := htakes depthLimit before [] hlevels hbefore ends_nil
  rw [List.append_nil, ← htext] at hread
  rw [run, Json.pretty, String.toList_ofList, show r depthLimit _ = .ok (a, []) from hread]
  rfl

theorem Conveys.field (h : Conveys r levels j a) {name : String} {get : δ → Option α}
    {put : δ → Option α → δ} {mayEndBefore : Bool} {draft : δ} :
    Conveys ((Field.of name get put r mayEndBefore).read draft) levels j (put draft (some a)) := by
  intro spacing
  obtain ⟨blanks, c, tail, htext, hb, hc, hend, htakes⟩ := h spacing
  refine ⟨blanks, c, tail, htext, hb, hc, hend, ?_⟩
  intro depth more rest hdepth hm hrest
  exact (htakes depth more rest hdepth hm hrest).bind takes_pure

theorem conveys_text (s : String) : Conveys string levels (.text s) s := by
  intro spacing
  change Reads string levels ('"' :: (s.toList.flatMap escaped ++ ['"'])) s
  apply reads_typed rfl (by decide) rfl
  intro depth rest _
  rw [List.append_assoc]
  exact takes_advance.bind (takes_text s)

theorem conveys_single {x : Float32}
    (h : Takes single depth (Numeral.single x).text.toList x []) :
    Conveys single levels (.number (.single x)) x := by
  intro spacing
  rw [Json.write]
  obtain ⟨c?, mid, hpeek, h⟩ := takes_bind_iff.1 h
  obtain ⟨rfl, rfl⟩ := takes_peek_iff.1 hpeek
  have hsplit := List.takeWhile_append_dropWhile (p := isSpace)
    (l := (Numeral.single x).text.toList)
  generalize (Numeral.single x).text.toList.dropWhile isSpace = behind at h hsplit
  cases behind with
  | nil => exact absurd h not_takes_throw
  | cons c tail =>
    dsimp only [List.head?] at h
    by_cases hc : (decide (c = '-') || c.isDigit) = true
    · rw [if_pos hc] at h
      have hnumeral : isNumeral c = true := by
        rcases Bool.or_eq_true_iff.1 hc with hminus | hdigit
        · rw [of_decide_eq_true hminus]
          rfl
        · simp [isNumeral, hdigit]
      have hspace : isSpace c = false := by
        rw [← Bool.not_eq_true]
        intro hs
        rw [isNumeral_of_isSpace hs] at hnumeral
        contradiction
      have hend : c ≠ ']' := by
        rintro rfl
        contradiction
      refine ⟨_, c, tail, hsplit.symm, fun d hd => List.mem_takeWhile_imp hd, hspace, hend, ?_⟩
      intro depth' more rest _ hm hrest
      apply takes_typed hm hspace (if_pos hc)
      apply Local.takes _ hrest h
      apply local_numeral.bind
      intro n
      cases n <;> exact local_pure _
    · rw [if_neg hc] at h
      obtain ⟨_, _, _, h⟩ := takes_bind_iff.1 h
      exact absurd h not_takes_throw

section Items

def itemStep (item : Reader α) (read : List α) : Reader (List α ⊕ List α) := do
  if ← moreItems read.isEmpty then return .inl ((← item) :: read)
  else
    closeList
    return .inr read.reverse

theorem items_eq (item : Reader α) : items item = iterate (itemStep item) [] := rfl

theorem ends_writeItems (hrest : Ends rest) : Ends (writeItems spacing js ++ rest) := by
  cases js with
  | nil => exact hrest
  | cons j js => exact ends_cons rfl

theorem takes_itemsBehind (h : List.Forall₂ (Conveys r levels) js as) (hdepth : levels ≤ depth)
    (hb : Blank blanks) (x : α) (read : List α) :
    Takes (iterate (itemStep r) (x :: read)) depth
      (writeItems spacing js ++ (blanks ++ ']' :: rest)) ((x :: read).reverse ++ as) rest := by
  induction h generalizing x read with
  | nil =>
    rw [List.append_nil]
    apply takes_iterate_last
    exact (takes_moreItems_end hb).bind ((takes_closeList blank_nil).bind takes_pure)
  | @cons j a js as hj _ ih =>
    obtain ⟨before, c, tail, htext, hbefore, hc, hend, htakes⟩ := hj spacing
    have hclose : Ends (blanks ++ ']' :: rest) := ends_append hb rfl
    have hsplit : writeItems spacing (j :: js) ++ (blanks ++ ']' :: rest) =
        [] ++ ',' :: ((spacing.lineBreak ++ before) ++
          c :: (tail ++ (writeItems spacing js ++ (blanks ++ ']' :: rest)))) := by
      rw [writeItems, htext]
      simp
    have hread := ih a (x :: read)
    rw [List.reverse_cons, List.append_assoc] at hread
    rw [hsplit]
    apply takes_iterate_more _ _ hread
    · apply (takes_moreItems_next blank_nil (blank_append (blank_lineBreak spacing) hbefore) hc
        hend).bind
      exact (htakes depth [] _ hdepth blank_nil (ends_writeItems hclose)).bind takes_pure
    · simp
      omega

theorem write_list (spacing : Spacing) (js : List Json) :
    Json.write spacing (.list js) = '[' :: (Json.write spacing (.list js)).tail := by
  cases js <;> rfl

theorem takes_items (h : List.Forall₂ (Conveys r levels) js as) (hdepth : levels ≤ depth) :
    Takes (items r) depth ((Json.write spacing (.list js)).tail ++ rest) as rest := by
  rw [items_eq]
  cases h with
  | nil =>
    apply takes_iterate_last
    exact (takes_moreItems_end blank_nil).bind ((takes_closeList blank_nil).bind takes_pure)
  | @cons j a js as hj hrest =>
    obtain ⟨before, c, tail, htext, hbefore, hc, hend, htakes⟩ := hj spacing.deeper
    have hclose : Ends (spacing.lineBreak ++ ']' :: rest) := ends_append (blank_lineBreak _) rfl
    have hsplit : (Json.write spacing (.list (j :: js))).tail ++ rest =
        (spacing.deeper.lineBreak ++ before) ++ c :: (tail ++
          (writeItems spacing.deeper js ++ (spacing.lineBreak ++ ']' :: rest))) := by
      rw [Json.write, htext]
      simp
    have hbehind : Takes (iterate (itemStep r) [a]) depth
        (writeItems spacing.deeper js ++ (spacing.lineBreak ++ ']' :: rest)) (a :: as) rest :=
      takes_itemsBehind hrest hdepth (blank_lineBreak spacing) a []
    rw [hsplit]
    apply takes_iterate_more _ _ hbehind
    · apply (takes_moreItems_first (blank_append (blank_lineBreak _) hbefore) hc hend).bind
      exact (htakes depth [] _ hdepth blank_nil (ends_writeItems hclose)).bind takes_pure
    · simp
      omega

theorem conveys_list (h : List.Forall₂ (Conveys r levels) js as) :
    Conveys (list r) (levels + 1) (.list js) as := by
  intro spacing
  rw [write_list]
  apply reads_typed rfl (by decide) rfl
  intro depth rest hdepth
  apply takes_nested hdepth
  intro depth hdepth
  exact takes_advance.bind (takes_items h hdepth)

end Items

section Fields

def fieldStep (field : δ → Reader δ) (state : Bool × δ) : Reader ((Bool × δ) ⊕ δ) := do
  if ← moreFields state.1 then
    advance
    return .inl (false, ← field state.2)
  else
    advance
    return .inr state.2

theorem fields_eq (field : δ → Reader δ) (draft : δ) :
    fields field draft = iterate (fieldStep field) (true, draft) := rfl

/-- The values of some fields, taken one after another from a draft to another one. -/
inductive Fills (record : Record δ α) (levels : Nat) : δ → List (String × Json) → δ → Prop where
  | nil {draft : δ} : Fills record levels draft [] draft
  | cons {draft filled last : δ} {key : String} {j : Json} {fields : List (String × Json)}
      {field : Field δ} : record.fields.find? (·.name = key) = some field →
      field.isGiven draft = false → Conveys (field.read draft) levels j filled →
      Fills record levels filled fields last →
      Fills record levels draft ((key, j) :: fields) last

variable {record : Record δ α} {draft filled last : δ} {key : String} {field : Field δ}
  {fs : List (String × Json)}

theorem blank_afterKey (spacing : Spacing) :
    ∃ blanks, spacing.afterKey = ':' :: blanks ∧ Blank blanks := by
  cases spacing with
  | line => exact ⟨[], rfl, blank_nil⟩
  | lines depth => exact ⟨[' '], rfl, blank_replicate 1⟩

theorem afterKey_deeper (spacing : Spacing) : spacing.deeper.afterKey = spacing.afterKey := by
  cases spacing with
  | line => rfl
  | lines => rfl

theorem takes_field (hfind : record.fields.find? (·.name = key) = some field)
    (hnew : field.isGiven draft = false) (hj : Conveys (field.read draft) levels j filled)
    (hdepth : levels ≤ depth) (hrest : Ends rest) :
    Takes (record.readField draft) depth
      (key.toList.flatMap escaped ++ '"' :: (spacing.afterKey ++ (j.write spacing ++ rest))) filled
      rest := by
  obtain ⟨before, c, tail, htext, hbefore, hc, hend, htakes⟩ := hj spacing
  obtain ⟨blanks, hkey, hblanks⟩ := blank_afterKey spacing
  have hvalue := htakes depth (blanks ++ before) rest hdepth (blank_append hblanks hbefore) hrest
  have hsplit : spacing.afterKey ++ (j.write spacing ++ rest) =
      [] ++ ':' :: (blanks ++ before ++ c :: (tail ++ rest)) := by
    rw [hkey, htext]
    simp
  rw [hsplit]
  apply (takes_text key).bind
  rw [hfind]
  dsimp only
  rw [hnew]
  exact (takes_colon blank_nil).bind hvalue

theorem ends_writeFields (hrest : Ends rest) : Ends (writeFields spacing fs ++ rest) := by
  cases fs with
  | nil => exact hrest
  | cons => exact ends_cons rfl

theorem takes_fieldsBehind (h : Fills record levels draft fs last) (hdepth : levels ≤ depth)
    (hb : Blank blanks) :
    Takes (iterate (fieldStep record.readField) (false, draft)) depth
      (writeFields spacing fs ++ (blanks ++ '}' :: rest)) last rest := by
  induction h with
  | nil =>
    apply takes_iterate_last
    exact (takes_moreFields_end hb).bind (takes_advance.bind takes_pure)
  | @cons draft filled last key j fs field hfind hnew hj _ ih =>
    have hclose : Ends (blanks ++ '}' :: rest) := ends_append hb rfl
    have hsplit : writeFields spacing ((key, j) :: fs) ++ (blanks ++ '}' :: rest) =
        [] ++ ',' :: (spacing.lineBreak ++ '"' :: (key.toList.flatMap escaped ++
          '"' :: (spacing.afterKey ++ (j.write spacing ++
            (writeFields spacing fs ++ (blanks ++ '}' :: rest)))))) := by
      rw [writeFields, quoted]
      simp
    rw [hsplit]
    apply takes_iterate_more _ _ ih
    · apply (takes_moreFields_next blank_nil (blank_lineBreak spacing)).bind
      apply takes_advance.bind
      exact (takes_field hfind hnew hj hdepth (ends_writeFields hclose)).bind takes_pure
    · simp
      omega

theorem write_object (spacing : Spacing) (fs : List (String × Json)) :
    Json.write spacing (.object fs) = '{' :: (Json.write spacing (.object fs)).tail := by
  cases fs with
  | nil => rfl
  | cons => rfl

theorem takes_fields (h : Fills record levels draft fs last) (hdepth : levels ≤ depth) :
    Takes (fields record.readField draft) depth ((Json.write spacing (.object fs)).tail ++ rest)
      last rest := by
  rw [fields_eq]
  cases h with
  | nil =>
    apply takes_iterate_last
    exact (takes_moreFields_end blank_nil).bind (takes_advance.bind takes_pure)
  | @cons draft filled last key j fs field hfind hnew hj hlater =>
    have hclose : Ends (spacing.lineBreak ++ '}' :: rest) := ends_append (blank_lineBreak _) rfl
    have hsplit : (Json.write spacing (.object ((key, j) :: fs))).tail ++ rest =
        spacing.deeper.lineBreak ++ '"' :: (key.toList.flatMap escaped ++
          '"' :: (spacing.deeper.afterKey ++ (j.write spacing.deeper ++
            (writeFields spacing.deeper fs ++ (spacing.lineBreak ++ '}' :: rest))))) := by
      rw [Json.write, quoted, afterKey_deeper]
      simp
    have hbehind : Takes (iterate (fieldStep record.readField) (false, filled)) depth
        (writeFields spacing.deeper fs ++ (spacing.lineBreak ++ '}' :: rest)) last rest :=
      takes_fieldsBehind hlater hdepth (blank_lineBreak spacing)
    rw [hsplit]
    apply takes_iterate_more _ _ hbehind
    · apply (takes_moreFields_first (blank_lineBreak _)).bind
      apply takes_advance.bind
      exact (takes_field hfind hnew hj hdepth (ends_writeFields hclose)).bind takes_pure
    · simp
      omega

theorem conveys_record (h : Fills record levels record.empty fs last)
    (hfinish : record.finish last = .ok a) : Conveys record.read (levels + 1) (.object fs) a := by
  intro spacing
  rw [write_object]
  apply reads_typed rfl (by decide) rfl
  intro depth rest hdepth
  apply takes_nested hdepth
  intro depth hdepth
  apply takes_advance.bind
  exact (takes_fields h hdepth).bind (takes_lift hfinish)

end Fields

end BlockScript.Json.Reader
