import BlockScript.Proofs.Number.Exact

namespace BlockScript.Number

open Float.Model Float.Model.UnpackedFloat

variable {x : Float} {m : Nat} {e : Int}

theorem roundBit_shiftRight (em : ExtendedMantissa) (n : Nat) :
    (em >>> (n + 1)).roundBit = (em.mantissa / 2 ^ n % 2 != 0) := by
  show ((em >>> n).mantissa % 2 != 0) = _
  rw [mantissa_shiftRight]

theorem le_roundedMantissa (em : ExtendedMantissa) : em.mantissa ≤ em.roundedMantissa := by
  rw [ExtendedMantissa.roundedMantissa]
  cases em.accuracy with
  | exact => exact Nat.le_refl _
  | inexact ordering =>
    cases ordering <;> simp only [Accuracy.roundToNearestEven] <;> omega

theorem roundedMantissa_of_low {em : ExtendedMantissa} (hbit : em.roundBit = false) :
    em.roundedMantissa = em.mantissa := by
  obtain ⟨m, roundBit, stickyBit⟩ := em
  subst hbit
  cases stickyBit <;> rfl

theorem roundedMantissa_of_high {em : ExtendedMantissa} (hbit : em.roundBit = true)
    (hodd : em.mantissa % 2 = 1) : em.roundedMantissa = em.mantissa + 1 := by
  obtain ⟨m, roundBit, stickyBit⟩ := em
  subst hbit
  cases stickyBit with
  | false => exact congrArg (m + ·) hodd
  | true => rfl

/-- A mantissa of up to 53 places is rounded to 24 of them. From half a place below on it is rounded
to the power of two that needs one place more. -/
theorem roundedMantissa_lt_iff (em : ExtendedMantissa) (hm : em.mantissa < 2 ^ 53) :
    (em >>> 29).roundedMantissa < 2 ^ 24 ↔ em.mantissa < 2 ^ 53 - 2 ^ 28 := by
  have hmantissa := mantissa_shiftRight em 29
  have hbit : (em >>> 29).roundBit = (em.mantissa / 2 ^ 28 % 2 != 0) := roundBit_shiftRight em 28
  have hmore := roundedMantissa_le (em >>> 29)
  constructor
  · intro hlt
    by_contra hge
    -- All the places that are kept are ones, and so is the first that is not.
    have hhigh : (em >>> 29).roundedMantissa = (em >>> 29).mantissa + 1 := by
      apply roundedMantissa_of_high
      · rw [hbit, bne_iff_ne]
        omega
      · rw [hmantissa]
        omega
    omega
  · intro hlt
    by_cases hones : em.mantissa / 2 ^ 29 = 2 ^ 24 - 1
    · have hlow : (em >>> 29).roundedMantissa = (em >>> 29).mantissa := by
        apply roundedMantissa_of_low
        rw [hbit, bne_eq_false_iff_eq]
        omega
      omega
    · omega

theorem log2_le {n places : Nat} (hn : n < 2 ^ (places + 1)) : n.log2 ≤ places := by
  by_cases hzero : n = 0
  · rw [hzero]
    exact Nat.zero_le _
  · exact Nat.le_of_lt_succ ((Nat.log2_lt hzero).2 hn)

theorem shiftToTargetExponent_rounded {n : Nat} {f : Int} (hn : n ≤ 2 ^ 24) (hf : -149 ≤ f) :
    shiftToTargetExponent .binary32 n f .exact =
      if n < 2 ^ 24 then (⟨n, false, false⟩, f) else (⟨2 ^ 23, false, false⟩, f + 1) := by
  have htarget : Format.binary32.targetExponent (totalExponent n f) =
      max (n.log2 + 1 + f - 24) (-149) := rfl
  rw [shiftToTargetExponent, htarget, shiftToExponent]
  split
  · next hlt =>
    have hlog := log2_le hlt
    have hplaces : (max (n.log2 + 1 + f - 24) (-149) - f).toNat = 0 := by omega
    rw [hplaces]
    exact congrArg (Prod.mk _) (Int.add_zero f)
  · next hge =>
    obtain rfl : n = 2 ^ 24 := by omega
    have hlog : (2 ^ 24).log2 = 24 := Nat.log2_two_pow
    have hplaces : (max ((2 ^ 24).log2 + 1 + f - 24) (-149) - f).toNat = 1 := by omega
    rw [hplaces]
    rfl

theorem below_roundWithAccuracy_iff {bound f : Int} {em : ExtendedMantissa} (s : Sign)
    (hfirst : shiftToTargetExponent .binary32 m e .exact = (em, f)) (hm : em.mantissa < 2 ^ 24)
    (hf : -149 ≤ f) :
    Below bound (roundWithAccuracy .binary32 s m e .exact) ↔ em.roundedMantissa = 0 ∨
      f + (if em.roundedMantissa < 2 ^ 24 then 0 else 1) ≤ bound := by
  have hmore := roundedMantissa_le em
  rw [roundWithAccuracy, hfirst]
  dsimp only
  rw [shiftToTargetExponent_rounded (by omega) hf]
  split
  · next hlt =>
    by_cases hzero : em.roundedMantissa = 0
    · simp [hzero, Below]
    · simp [hzero, Below]
  · next hge =>
    have hzero : em.roundedMantissa ≠ 0 := by omega
    simp [hzero, Below]

theorem isFinite_unpack_iff (b : BitVec 32) :
    (UnpackedFloat.unpack .binary32 b).isFinite = true ↔
      @unpackExponent Format.binary32 b ≠ -1#_ := by
  rw [UnpackedFloat.unpack]
  dsimp only
  split
  · next hlast =>
    refine iff_of_false ?_ (not_not_intro hlast)
    split <;> exact Bool.false_ne_true
  · next hlast =>
    refine iff_of_true ?_ hlast
    split
    · split <;> rfl
    · rfl

theorem isFinite_pack_iff (u : UnpackedFloat) :
    (Float32.Model.pack u).unpack.isFinite = true ↔ Below 104 u := by
  show (UnpackedFloat.unpack .binary32 (UnpackedFloat.pack .binary32 u)).isFinite = true ↔ _
  rw [isFinite_unpack_iff]
  have hbias : (Format.binary32.exponentBias : Int) = 127 := rfl
  have hwidth : (Format.binary32.mantissaBitsWithoutImplicit : Int) = 23 := rfl
  have hbits : 2 ^ Format.binary32.exponentBits = 256 := rfl
  cases u with
  | notANumber => exact iff_of_false (not_not_intro unpackExponent_packComponents) not_false
  | infinity s => exact iff_of_false (not_not_intro unpackExponent_packComponents) not_false
  | zero s => cases s <;> exact iff_of_true (by decide) trivial
  | finite s m e hpos =>
    rw [UnpackedFloat.pack, Below]
    simp only [hbias, hwidth, hbits]
    split
    · rw [packedInfinity, unpackExponent_packComponents]
      exact iff_of_false (not_not_intro rfl) (by omega)
    · refine iff_of_true ?_ (by omega)
      split
      · rw [unpackExponent_packComponents]
        intro hlast
        have hvalue : _ % 256 = 255 := congrArg BitVec.toNat hlast
        omega
      · rw [unpackExponent_packComponents]
        decide

/-- The places of a stored mantissa that are dropped for single precision. -/
def dropped (m : Nat) (e : Int) : Nat :=
  (max (m.log2 + 1 + e - 24) (-149) - e).toNat

theorem Stored.dropped_eq (hm : Stored m e) (hpos : 0 < m) :
    e + dropped m e = max (m.log2 + 1 + e - 24) (-149) ∧ m.log2 ≤ 52 ∧
      (-1074 < e → m.log2 = 52) := by
  obtain ⟨hmost, hleast, hnormal⟩ := hm
  have hlog : m.log2 ≤ 52 := log2_le hmost
  have hfull : 2 ^ 52 ≤ m → 52 ≤ m.log2 := (Nat.le_log2 (Nat.ne_of_gt hpos)).2
  rw [dropped]
  omega

theorem shiftToTargetExponent_single (m : Nat) (e : Int) :
    shiftToTargetExponent .binary32 m e .exact =
      ((⟨m, false, false⟩ : ExtendedMantissa) >>> dropped m e, e + dropped m e) := rfl

/-- A stored mantissa has no fewer places than single precision asks for. -/
theorem Stored.round_single (s : Sign) (hm : Stored m e) (hpos : 0 < m) :
    UnpackedFloat.round .binary32 s m e = roundWithAccuracy .binary32 s m e .exact := by
  have htarget : Format.binary32.targetExponent (totalExponent m e) =
      max (m.log2 + 1 + e - 24) (-149) := rfl
  obtain ⟨hdropped, _, _⟩ := hm.dropped_eq hpos
  have hnone : (e - max (m.log2 + 1 + e - 24) (-149)).toNat = 0 := by omega
  rw [UnpackedFloat.round, htarget, decreaseExponent, hnone]
  exact congrArg (roundWithAccuracy .binary32 s m · .exact) (Int.sub_zero e)

theorem Stored.below_round_iff (s : Sign) (hm : Stored m e) (hpos : 0 < m) :
    Below 104 (UnpackedFloat.round .binary32 s m e) ↔
      e ≤ 74 ∨ (e = 75 ∧ m < 2 ^ 53 - 2 ^ 28) := by
  obtain ⟨hdropped, hlog, hfull⟩ := hm.dropped_eq hpos
  have hmantissa := mantissa_shiftRight ⟨m, false, false⟩ (dropped m e)
  have hkept : m / 2 ^ dropped m e < 2 ^ 24 := by
    rw [Nat.div_lt_iff_lt_mul (Nat.two_pow_pos _), ← Nat.pow_add,
      ← Nat.log2_lt (Nat.ne_of_gt hpos)]
    omega
  rw [hm.round_single s hpos, below_roundWithAccuracy_iff s (shiftToTargetExponent_single m e)
    (hmantissa ▸ hkept) (by omega)]
  by_cases hsmall : e ≤ 74
  · refine iff_of_true (.inr ?_) (.inl hsmall)
    split <;> omega
  · have hplaces : dropped m e = 29 := by omega
    have hnormal := hm.normal
    have hlt := roundedMantissa_lt_iff ⟨m, false, false⟩ hm.mantissa
    have hrounded := le_roundedMantissa ((⟨m, false, false⟩ : ExtendedMantissa) >>> 29)
    rw [hplaces] at hmantissa ⊢
    rw [hmantissa] at hrounded
    dsimp only at hlt hrounded
    rw [← hlt]
    split <;> omega

theorem Stored.magnitude_lt_iff (hm : Stored m e) :
    (m * 2 ^ e : ℚ) < 2 ^ 128 - 2 ^ 103 ↔ e ≤ 74 ∨ (e = 75 ∧ m < 2 ^ 53 - 2 ^ 28) := by
  obtain ⟨hmost, hleast, hnormal⟩ := hm
  rcases Int.lt_trichotomy e 75 with hlt | rfl | hgt
  · refine iff_of_true ?_ (.inl (by omega))
    have hm : (m : ℚ) ≤ 2 ^ 53 := by exact_mod_cast hmost.le
    have he : (2 : ℚ) ^ e ≤ 2 ^ (74 : Int) := zpow_le_zpow_right₀ (by norm_num) (by omega)
    calc (m * 2 ^ e : ℚ) ≤ 2 ^ 53 * 2 ^ (74 : Int) := by gcongr
      _ < 2 ^ 128 - 2 ^ 103 := by norm_num
  · have hlimit : (2 ^ 128 - 2 ^ 103 : ℚ) = (2 ^ 53 - 2 ^ 28 : Nat) * 2 ^ (75 : Int) := by norm_num
    rw [hlimit, mul_lt_mul_iff_left₀ (by positivity), Nat.cast_lt]
    omega
  · refine iff_of_false (not_lt.2 ?_) (by omega)
    have hm : (2 ^ 52 : ℚ) ≤ m := by
      have hfull : 2 ^ 52 ≤ m := by omega
      exact_mod_cast hfull
    have he : (2 : ℚ) ^ (76 : Int) ≤ 2 ^ e := zpow_le_zpow_right₀ (by norm_num) (by omega)
    calc (2 ^ 128 - 2 ^ 103 : ℚ) ≤ 2 ^ 52 * 2 ^ (76 : Int) := by norm_num
      _ ≤ m * 2 ^ e := by gcongr

theorem abs_value_finite (s : Sign) (hpos : 0 < m) :
    |value (.finite s m e hpos)| = m * 2 ^ e := by
  have hmagnitude : (0 : ℚ) ≤ m * 2 ^ e := by positivity
  cases s with
  | positive => exact abs_of_nonneg hmagnitude
  | negative =>
    rw [value, Sign.apply, Int.cast_neg, Int.cast_natCast, neg_mul, abs_neg,
      abs_of_nonneg hmagnitude]

/-- A finite double stays finite in single precision exactly if it is less than half a place beyond
the greatest number there. -/
theorem isFinite_single_iff (hx : x.isFinite = true) :
    (single x).isFinite = true ↔ |exact x| < 2 ^ 128 - 2 ^ 103 := by
  have hcanonical := canonical_of_isFinite hx
  change x.toModel.unpack.isFinite = true at hx
  show (Float32.Model.pack _).unpack.isFinite = true ↔ _
  rw [isFinite_pack_iff, exact]
  generalize x.toModel.unpack = u at hx hcanonical
  cases hcanonical with
  | infinity => contradiction
  | zero s =>
    have hzero : value (.zero s) = 0 := rfl
    rw [hzero, abs_zero]
    exact iff_of_true trivial (by norm_num)
  | finite s hpos hm hleast hmost hnormal =>
    have hstored := Stored.mk hm hleast hnormal
    rw [abs_value_finite s hpos, hstored.magnitude_lt_iff]
    exact hstored.below_round_iff s hpos

end BlockScript.Number
