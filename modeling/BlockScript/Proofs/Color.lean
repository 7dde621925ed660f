import BlockScript.Color
import BlockScript.Proofs.Text.Blank

namespace BlockScript.Color

/-- A character is the digit for a number below sixteen, in either case. -/
def IsDigit (c : Char) (n : UInt8) : Prop :=
  n < 16 ∧ c.toLower = hexChar n

theorem isBlank_digitChar : ∀ n < 16, Text.isBlank (Nat.digitChar n) = false := by decide

theorem IsDigit.not_blank {c : Char} {n : UInt8} (h : IsDigit c n) : Text.isBlank c = false := by
  rw [← Text.isBlank_toLower, h.2]
  exact isBlank_digitChar n.toNat h.1

theorem isDigit_hexChar {n : UInt8} (hn : n < 16) : IsDigit (hexChar n) n := by
  have hlower : ∀ n < 16, (Nat.digitChar n).toLower = Nat.digitChar n := by decide
  exact ⟨hn, hlower n.toNat hn⟩

theorem hexDigit?_of_not_ascii {c : Char} (hc : ¬ c.toNat < 128) : hexDigit? c = none := by
  have h9 : ¬ c ≤ '9' := by
    intro h
    have hle : c.toNat ≤ 57 := h
    omega
  have hf : ¬ c ≤ 'f' := by
    intro h
    have hle : c.toNat ≤ 102 := h
    omega
  have hF : ¬ c ≤ 'F' := by
    intro h
    have hle : c.toNat ≤ 70 := h
    omega
  simp [hexDigit?, h9, hf, hF]

instance (c : Char) (n : UInt8) : Decidable (IsDigit c n) :=
  inferInstanceAs (Decidable (_ ∧ _))

theorem hexDigit?_ascii : ∀ k < 128, (∀ n ∈ hexDigit? (.ofNat k), IsDigit (.ofNat k) n) ∧
    ∀ n < 16, (Char.ofNat k).toLower = Nat.digitChar n → hexDigit? (.ofNat k) = some (.ofNat n) := by
  decide +kernel

theorem hexDigit?_eq_some_iff {c : Char} {n : UInt8} : hexDigit? c = some n ↔ IsDigit c n := by
  by_cases hc : c.toNat < 128
  · have hascii := hexDigit?_ascii c.toNat hc
    rw [Char.ofNat_toNat] at hascii
    constructor
    · exact hascii.1 n
    · intro h
      rw [hascii.2 n.toNat h.1 h.2, UInt8.ofNat_toNat]
  · rw [hexDigit?_of_not_ascii hc]
    refine iff_of_false nofun ?_
    intro h
    have hlower := h.2
    rw [Text.toLower_of_not_ascii hc] at hlower
    have hascii : ∀ n < 16, (Nat.digitChar n).toNat < 128 := by decide
    exact hc (hlower ▸ hascii n.toNat h.1)

theorem not_isDigit_plus (n : UInt8) : ¬ IsDigit '+' n := by
  rw [← hexDigit?_eq_some_iff]
  exact nofun

/-- A channel as two digits. -/
def IsPair (c d : Char) (n : UInt8) : Prop :=
  ∃ high low, IsDigit c high ∧ IsDigit d low ∧ n = 16 * high + low

def IsSigned (c d : Char) (n : UInt8) : Prop :=
  c = '+' ∧ IsDigit d n

theorem IsPair.not_blank {c d : Char} {n : UInt8} (h : IsPair c d n) :
    Text.isBlank c = false ∧ Text.isBlank d = false := by
  obtain ⟨_, _, hc, hd, _⟩ := h
  exact ⟨hc.not_blank, hd.not_blank⟩

theorem IsPair.ne_plus {c d : Char} {n : UInt8} (h : IsPair c d n) : '+' ≠ c := by
  obtain ⟨high, _, hc, _, _⟩ := h
  rintro rfl
  exact not_isDigit_plus high hc

theorem isPair_hexChar (n : UInt8) : IsPair (hexChar (n / 16)) (hexChar (n % 16)) n := by
  refine ⟨n / 16, n % 16, isDigit_hexChar ?_, isDigit_hexChar ?_, ?_⟩
  · rw [UInt8.lt_iff_toNat_lt, UInt8.toNat_div]
    exact Nat.div_lt_of_lt_mul n.toNat_lt
  · exact UInt8.mod_lt n (by decide)
  · have hsplit : 16 * (n.toNat / 16) + n.toNat % 16 = n.toNat := Nat.div_add_mod _ _
    have hn := n.toNat_lt
    apply UInt8.toNat_inj.mp
    simp [hsplit, Nat.mod_eq_of_lt hn]

theorem IsSigned.not_blank {c d : Char} {n : UInt8} (h : IsSigned c d n) :
    Text.isBlank c = false ∧ Text.isBlank d = false :=
  ⟨h.1 ▸ rfl, h.2.not_blank⟩

theorem shortChannel?_eq_some_iff {c : Char} {n : UInt8} :
    shortChannel? c = some n ↔ IsPair c c n := by
  have hdouble (d : UInt8) : 17 * d = 16 * d + d := by
    rw [show (17 : UInt8) = 16 + 1 from rfl, UInt8.add_mul, UInt8.one_mul]
  simp only [shortChannel?, Option.map_eq_some_iff, hexDigit?_eq_some_iff, hdouble]
  constructor
  · rintro ⟨d, hd, rfl⟩
    exact ⟨d, d, hd, hd, rfl⟩
  · rintro ⟨high, low, hhigh, hlow, rfl⟩
    have hsame : some high = some low := by
      rw [← hexDigit?_eq_some_iff.mpr hhigh, hexDigit?_eq_some_iff.mpr hlow]
    cases hsame
    exact ⟨high, hhigh, rfl⟩

theorem longChannel?_eq_some_iff {c d : Char} {n : UInt8} :
    longChannel? c d = some n ↔ IsPair c d n ∨ IsSigned c d n := by
  rw [longChannel?]
  split
  · next hsign =>
    subst hsign
    simp [hexDigit?_eq_some_iff, IsPair, IsSigned, not_isDigit_plus]
  · next hsign =>
    simp only [IsPair, IsSigned, hsign, false_and, or_false, Option.bind_eq_bind,
      Option.bind_eq_some_iff, Option.pure_def, Option.some.injEq, hexDigit?_eq_some_iff]
    constructor
    · rintro ⟨high, hhigh, low, hlow, rfl⟩
      exact ⟨high, low, hhigh, hlow, rfl⟩
    · rintro ⟨high, low, hhigh, hlow, rfl⟩
      exact ⟨high, hhigh, low, hlow, rfl⟩

theorem lookup_named_eq_some_iff {name : String} {c : Color} :
    named.lookup name = some c ↔ (name, c) ∈ named := by
  constructor
  · intro h
    obtain ⟨front, back, hsplit, -⟩ := List.lookup_eq_some_iff.mp h
    rw [hsplit]
    exact List.mem_append_cons_self
  · have hdistinct : ∀ entry ∈ named, named.lookup entry.1 = some entry.2 := by decide
    exact hdistinct (name, c)

theorem not_blank_of_named {name : String} {c : Color} (hnamed : (name, c) ∈ named) :
    ∀ d ∈ name.toList, Text.isBlank d = false := by
  have hnames : (named.all fun entry => !entry.1.toList.any Text.isBlank) = true := by decide
  have hname := List.all_eq_true.1 hnames (name, c) hnamed
  rw [Bool.not_eq_true', List.any_eq_false] at hname
  intro d hd
  exact Bool.eq_false_iff.2 (hname d hd)

theorem not_sign_of_named {name : String} {c : Color} (hnamed : (name, c) ∈ named)
    (cs : List Char) : ('#' :: cs).map Char.toLower ≠ name.toList := by
  intro hword
  have hnames : ∀ entry ∈ named, entry.1.toList.head? ≠ some '#' := by decide
  refine hnames _ hnamed ?_
  rw [← hword]
  rfl

/-- The words that are authored for a color. A word of three digits has each of them doubled. -/
inductive Denotes : List Char → Color → Prop
  | short {r g b : Char} {c : Color} (hr : IsPair r r c.red) (hg : IsPair g g c.green)
      (hb : IsPair b b c.blue) : Denotes ['#', r, g, b] c
  | long {r r' g g' b b' : Char} {c : Color} (hr : IsPair r r' c.red) (hg : IsPair g g' c.green)
      (hb : IsPair b b' c.blue) : Denotes ['#', r, r', g, g', b, b'] c
  | name {word : List Char} {name : String} {c : Color} (hnamed : (name, c) ∈ named)
      (hword : word.map Char.toLower = name.toList) : Denotes word c

/-- The words of six places that have a plus sign in front of a digit. -/
inductive DenotesSigned : List Char → Color → Prop
  | long {r r' g g' b b' : Char} {c : Color} (hr : IsPair r r' c.red ∨ IsSigned r r' c.red)
      (hg : IsPair g g' c.green ∨ IsSigned g g' c.green)
      (hb : IsPair b b' c.blue ∨ IsSigned b b' c.blue) (hsign : '+' ∈ [r, g, b]) :
      DenotesSigned ['#', r, r', g, g', b, b'] c

theorem Denotes.not_blank {word : List Char} {c : Color} (h : Denotes word c) :
    ∀ d ∈ word, Text.isBlank d = false := by
  have hsign : Text.isBlank '#' = false := rfl
  cases h with
  | short hr hg hb => simp [hsign, hr.not_blank, hg.not_blank, hb.not_blank]
  | long hr hg hb => simp [hsign, hr.not_blank, hg.not_blank, hb.not_blank]
  | name hnamed hword =>
    intro d hd
    rw [← Text.isBlank_toLower]
    exact not_blank_of_named hnamed _ (hword ▸ List.mem_map_of_mem hd)

theorem DenotesSigned.not_blank {word : List Char} {c : Color} (h : DenotesSigned word c) :
    ∀ d ∈ word, Text.isBlank d = false := by
  have hsign : Text.isBlank '#' = false := rfl
  obtain ⟨hr, hg, hb, -⟩ := h
  have hr := hr.elim IsPair.not_blank IsSigned.not_blank
  have hg := hg.elim IsPair.not_blank IsSigned.not_blank
  have hb := hb.elim IsPair.not_blank IsSigned.not_blank
  simp [hsign, hr, hg, hb]

theorem denotes_short_iff {r g b : Char} {c : Color} : Denotes ['#', r, g, b] c ↔
    IsPair r r c.red ∧ IsPair g g c.green ∧ IsPair b b c.blue := by
  constructor
  · intro h
    cases h with
    | short hr hg hb => exact ⟨hr, hg, hb⟩
    | name hnamed hword => exact absurd hword (not_sign_of_named hnamed _)
  · intro ⟨hr, hg, hb⟩
    exact .short hr hg hb

theorem denotes_long_iff {r r' g g' b b' : Char} {c : Color} :
    Denotes ['#', r, r', g, g', b, b'] c ↔
      IsPair r r' c.red ∧ IsPair g g' c.green ∧ IsPair b b' c.blue := by
  constructor
  · intro h
    cases h with
    | long hr hg hb => exact ⟨hr, hg, hb⟩
    | name hnamed hword => exact absurd hword (not_sign_of_named hnamed _)
  · intro ⟨hr, hg, hb⟩
    exact .long hr hg hb

theorem DenotesSigned.not_denotes {word : List Char} {c d : Color} (hs : DenotesSigned word c) :
    ¬ Denotes word d := by
  obtain ⟨-, -, -, hsign⟩ := hs
  intro h
  obtain ⟨hr, hg, hb⟩ := denotes_long_iff.mp h
  simp [hr.ne_plus, hg.ne_plus, hb.ne_plus] at hsign

theorem denotes_or_signed_iff {r r' g g' b b' : Char} {c : Color} :
    (Denotes ['#', r, r', g, g', b, b'] c ∨ DenotesSigned ['#', r, r', g, g', b, b'] c) ↔
      (IsPair r r' c.red ∨ IsSigned r r' c.red) ∧ (IsPair g g' c.green ∨ IsSigned g g' c.green) ∧
        (IsPair b b' c.blue ∨ IsSigned b b' c.blue) := by
  constructor
  · rintro (h | ⟨hr, hg, hb, -⟩)
    · obtain ⟨hr, hg, hb⟩ := denotes_long_iff.mp h
      exact ⟨.inl hr, .inl hg, .inl hb⟩
    · exact ⟨hr, hg, hb⟩
  · intro ⟨hr, hg, hb⟩
    by_cases hsign : '+' ∈ [r, g, b]
    · exact .inr (.long hr hg hb hsign)
    · simp only [List.mem_cons, List.not_mem_nil, or_false, not_or] at hsign
      obtain ⟨hr', hg', hb'⟩ := hsign
      have hr := hr.resolve_right fun h => hr' h.1.symm
      have hg := hg.resolve_right fun h => hg' h.1.symm
      have hb := hb.resolve_right fun h => hb' h.1.symm
      exact .inl (.long hr hg hb)

theorem bind_channels_eq_some_iff {red green blue : Option UInt8} {c : Color} :
    (do return (⟨← red, ← green, ← blue⟩ : Color)) = some c ↔
      red = some c.red ∧ green = some c.green ∧ blue = some c.blue := by
  cases c
  simp only [Option.bind_eq_bind, Option.bind_eq_some_iff, Option.pure_def, Option.some.injEq,
    Color.mk.injEq]
  grind

theorem parse?_eq_some_iff_trim {text : String} {c : Color} : parse? text = some c ↔
    Denotes (Text.trim text.toList) c ∨ DenotesSigned (Text.trim text.toList) c := by
  rw [parse?]
  generalize Text.trim text.toList = word
  -- The cases are those of the reader: three places, six, another number of them, and a name.
  split
  · next r g b =>
    rw [bind_channels_eq_some_iff, denotes_short_iff]
    simp only [shortChannel?_eq_some_iff]
    exact (or_iff_left nofun).symm
  · next r r' g g' b b' =>
    rw [bind_channels_eq_some_iff, denotes_or_signed_iff]
    simp only [longChannel?_eq_some_iff]
  · next cs hshort hlong =>
    refine iff_of_false nofun ?_
    rintro (h | h)
    · cases h with
      | short => exact hshort _ _ _ rfl
      | long => exact hlong _ _ _ _ _ _ rfl
      | name hnamed hword => exact not_sign_of_named hnamed _ hword
    · cases h with
      | long => exact hlong _ _ _ _ _ _ rfl
  · next hsign =>
    rw [lookup_named_eq_some_iff]
    constructor
    · intro hnamed
      exact .inl (.name hnamed String.toList_ofList.symm)
    · rintro (h | h)
      · cases h with
        | short => exact absurd rfl (hsign _)
        | long => exact absurd rfl (hsign _)
        | name hnamed hword => rwa [hword, String.ofList_toList]
      · cases h with
        | long => exact absurd rfl (hsign _)

/-- A text stands for a color, blanks around it aside. -/
def Means (text : String) (c : Color) : Prop :=
  ∃ word, Text.Pads word text.toList ∧ Denotes word c

def MeansSigned (text : String) (c : Color) : Prop :=
  ∃ word, Text.Pads word text.toList ∧ DenotesSigned word c

theorem means_iff_trim {text : String} {c : Color} :
    Means text c ↔ Denotes (Text.trim text.toList) c :=
  Text.exists_pads_iff Denotes.not_blank

theorem meansSigned_iff_trim {text : String} {c : Color} :
    MeansSigned text c ↔ DenotesSigned (Text.trim text.toList) c :=
  Text.exists_pads_iff DenotesSigned.not_blank

theorem parse?_eq_some_iff {text : String} {c : Color} :
    parse? text = some c ↔ Means text c ∨ MeansSigned text c := by
  rw [parse?_eq_some_iff_trim, means_iff_trim, meansSigned_iff_trim]

theorem MeansSigned.not_means {text : String} {c d : Color} (hs : MeansSigned text c) :
    ¬ Means text d := by
  rw [meansSigned_iff_trim] at hs
  rw [means_iff_trim]
  exact hs.not_denotes

theorem parse?_ofList_eq_some_iff {word : List Char} {c : Color}
    (hword : ∀ d ∈ word, Text.isBlank d = false) :
    parse? (String.ofList word) = some c ↔ Denotes word c ∨ DenotesSigned word c := by
  have hpads : Text.Pads word word := ⟨[], [], by simp, nofun, nofun⟩
  rw [parse?_eq_some_iff_trim, String.toList_ofList, hpads.trim_eq hword]

theorem parse?_text (c : Color) : parse? c.text = some c := by
  have hword : Denotes ('#' :: hexPair c.red ++ hexPair c.green ++ hexPair c.blue) c :=
    .long (isPair_hexChar _) (isPair_hexChar _) (isPair_hexChar _)
  exact (parse?_ofList_eq_some_iff hword.not_blank).mpr (.inl hword)

theorem parse?_doubled {x y z : Char} {l m n : UInt8} (hx : IsDigit x l) (hy : IsDigit y m)
    (hz : IsDigit z n) :
    parse? (String.ofList ['#', x, y, z]) = parse? (String.ofList ['#', x, x, y, y, z, z]) := by
  let c : Color := ⟨16 * l + l, 16 * m + m, 16 * n + n⟩
  have hred : IsPair x x c.red := ⟨l, l, hx, hx, rfl⟩
  have hgreen : IsPair y y c.green := ⟨m, m, hy, hy, rfl⟩
  have hblue : IsPair z z c.blue := ⟨n, n, hz, hz, rfl⟩
  have hshort : Denotes ['#', x, y, z] c := .short hred hgreen hblue
  have hlong : Denotes ['#', x, x, y, y, z, z] c := .long hred hgreen hblue
  rw [(parse?_ofList_eq_some_iff hshort.not_blank).mpr (.inl hshort),
    (parse?_ofList_eq_some_iff hlong.not_blank).mpr (.inl hlong)]

/-- What is read is what a text stands for, except that signed words are read as well: it is just
what the text stands for exactly if its word is not signed. -/
theorem parse?_means (text : String) :
    (∀ c, parse? text = some c ↔ Means text c ∨ MeansSigned text c) ∧
      ((∀ c, parse? text = some c ↔ Means text c) ↔ ∀ c, ¬ MeansSigned text c) ∧
      ∀ x y z l m n, IsDigit x l → IsDigit y m → IsDigit z n →
        text = String.ofList ['#', x, y, z] →
          parse? text = parse? (String.ofList ['#', x, x, y, y, z, z]) := by
  refine ⟨fun c => parse?_eq_some_iff, ?_, ?_⟩
  · constructor
    · intro hmeans c hs
      exact hs.not_means ((hmeans c).mp (parse?_eq_some_iff.mpr (.inr hs)))
    · intro hunsigned c
      rw [parse?_eq_some_iff, or_iff_left (hunsigned c)]
  · rintro x y z l m n hx hy hz rfl
    exact parse?_doubled hx hy hz

theorem not_means_signed : ¬ ∀ c, parse? "#+f+f+f" = some c ↔ Means "#+f+f+f" c := by
  intro hmeans
  have hsigned : MeansSigned "#+f+f+f" ⟨15, 15, 15⟩ := by
    have hf : IsSigned '+' 'f' 15 := ⟨rfl, by decide⟩
    exact ⟨['#', '+', 'f', '+', 'f', '+', 'f'], ⟨[], [], rfl, nofun, nofun⟩,
      .long (.inr hf) (.inr hf) (.inr hf) List.mem_cons_self⟩
  have hread : parse? "#+f+f+f" = some ⟨15, 15, 15⟩ := by cbv
  exact hsigned.not_means ((hmeans _).mp hread)

end BlockScript.Color
