import BlockScript.Proofs.Number.Order

namespace BlockScript.Number

open Float.Model Float.Model.UnpackedFloat

/-- An unpacked double that is zero or has an exponent up to a bound. -/
def Below (bound : Int) : UnpackedFloat → Prop
  | .notANumber | .infinity _ => False
  | .zero _ => True
  | .finite _ _ e _ => e ≤ bound

variable {bound : Int} {u v : UnpackedFloat} {x y : Float}

theorem Below.isFinite (hu : Below bound u) : u.isFinite = true := by
  cases u with
  | finite | zero => rfl
  | _ => contradiction

theorem below_unpack {b : BitVec 64} (hlast : (@unpackExponent Format.binary64 b).toNat < 2047)
    (hexponent : (@unpackExponent Format.binary64 b).toNat ≤ bound + 1075)
    (hleast : -1074 ≤ bound) : Below bound (UnpackedFloat.unpack .binary64 b) := by
  have hbias : (Format.binary64.exponentBias : Int) = 1023 := rfl
  have hwidth : (Format.binary64.mantissaBitsWithoutImplicit : Int) = 52 := rfl
  rw [UnpackedFloat.unpack]
  simp only [hbias, hwidth]
  split
  · next heq =>
    have hvalue : (@unpackExponent Format.binary64 b).toNat = 2047 := congrArg BitVec.toNat heq
    omega
  · split
    · next heq =>
      have hvalue : (@unpackExponent Format.binary64 b).toNat = 0 := congrArg BitVec.toNat heq
      split
      · trivial
      · show _ ≤ bound
        omega
    · show _ ≤ bound
      omega

theorem Below.pack (hu : Below bound u) (hleast : -1074 ≤ bound) (hmost : bound ≤ 971) :
    Below bound (Float.Model.pack u).unpack := by
  show Below bound (UnpackedFloat.unpack .binary64 (UnpackedFloat.pack .binary64 u))
  cases u with
  | notANumber | infinity => contradiction
  | zero s => cases s <;> trivial
  | finite s m e hpos =>
    change e ≤ bound at hu
    have hbias : (Format.binary64.exponentBias : Int) = 1023 := rfl
    have hwidth : (Format.binary64.mantissaBitsWithoutImplicit : Int) = 52 := rfl
    have hbits : 2 ^ Format.binary64.exponentBits = 2048 := rfl
    rw [UnpackedFloat.pack]
    simp only [hbias, hwidth, hbits]
    rw [if_neg (by omega)]
    split
    · apply below_unpack
      · rw [unpackExponent_packComponents]
        show _ % 2048 < _
        omega
      · rw [unpackExponent_packComponents]
        show ((_ % 2048 : Nat) : Int) ≤ _
        omega
      · exact hleast
    · apply below_unpack
      · rw [unpackExponent_packComponents]
        decide
      · rw [unpackExponent_packComponents]
        show (0 : Int) ≤ _
        omega
      · exact hleast

theorem mantissa_shiftRight (em : ExtendedMantissa) (n : Nat) :
    (em >>> n).mantissa = em.mantissa / 2 ^ n := by
  induction n with
  | zero => exact (Nat.div_one _).symm
  | succ n ih =>
    show (em >>> n).mantissa / 2 = _
    rw [ih, Nat.div_div_eq_div_mul, Nat.pow_succ]

theorem roundedMantissa_le (em : ExtendedMantissa) : em.roundedMantissa ≤ em.mantissa + 1 := by
  rw [ExtendedMantissa.roundedMantissa]
  cases em.accuracy with
  | exact => exact Nat.le_succ _
  | inexact ordering =>
    cases ordering <;> simp only [Accuracy.roundToNearestEven] <;> omega

/-- A shift to the exponent of the format goes no further than the digits in front take it. -/
theorem shiftToTargetExponent_le {m digits : Nat} {e : Int} (accuracy : Accuracy)
    (hm : m < 2 ^ digits) (hexponent : e + digits ≤ bound) (hleast : -1074 ≤ bound) :
    (shiftToTargetExponent .binary64 m e accuracy).1.mantissa < 2 ^ digits ∧
      (shiftToTargetExponent .binary64 m e accuracy).2 ≤ bound := by
  have hstart : (ExtendedMantissa.ofMantissaAndAccuracy m accuracy).mantissa = m := by
    cases accuracy with
    | exact => rfl
    | inexact ordering => cases ordering <;> rfl
  have hlog : m.log2 ≤ digits := by
    by_cases hzero : m = 0
    · rw [hzero]
      exact Nat.zero_le _
    · exact Nat.le_of_lt ((Nat.log2_lt hzero).2 hm)
  constructor
  · have hshift := mantissa_shiftRight (.ofMantissaAndAccuracy m accuracy)
      (Format.binary64.targetExponent (totalExponent m e) - e).toNat
    rw [hstart] at hshift
    show (_ >>> _ : ExtendedMantissa).mantissa < _
    rw [hshift]
    exact Nat.lt_of_le_of_lt (Nat.div_le_self _ _) hm
  · have htarget : Format.binary64.targetExponent (totalExponent m e) =
        max (m.log2 + 1 + e - 53) (-1074) := rfl
    rw [shiftToTargetExponent, shiftToExponent, htarget]
    omega

theorem below_roundWithAccuracy {m digits : Nat} {e : Int} (s : Sign) (accuracy : Accuracy)
    (hm : m < 2 ^ digits) (hexponent : e + 2 * digits < bound) (hdigits : digits < bound) :
    Below bound (roundWithAccuracy .binary64 s m e accuracy) := by
  rw [roundWithAccuracy]
  dsimp only
  obtain ⟨hmantissa, hfirst⟩ := shiftToTargetExponent_le accuracy hm
    (Int.le_max_left (e + digits) (-1074)) (Int.le_max_right _ _)
  generalize shiftToTargetExponent .binary64 m e accuracy = shifted at hmantissa hfirst ⊢
  have hrounded : shifted.1.roundedMantissa < 2 ^ (digits + 1) := by
    have hmore := roundedMantissa_le shifted.1
    rw [Nat.pow_succ]
    omega
  have hsecond : (shiftToTargetExponent .binary64 shifted.1.roundedMantissa shifted.2 .exact).2 ≤
      bound := (shiftToTargetExponent_le .exact hrounded (by omega) (by omega)).2
  split
  · trivial
  · exact hsecond

theorem Below.mul {a b : Int} (hu : Below a u) (hv : Below b v) (hcu : Canonical u)
    (hcv : Canonical v) (hbound : a + b + 212 < bound) (hleast : 106 < bound) :
    Below bound (UnpackedFloat.mul .binary64 u v) := by
  cases hcu with
  | infinity => contradiction
  | zero => cases hcv <;> trivial
  | @finite s m e _ hm =>
    cases hcv with
    | infinity => contradiction
    | zero => trivial
    | @finite t n f _ hn =>
      change e ≤ a at hu
      change f ≤ b at hv
      have hproduct : m * n < 2 ^ 106 := by
        rw [show 2 ^ 106 = 2 ^ 53 * 2 ^ 53 from rfl]
        exact Nat.mul_lt_mul'' hm hn
      have hexponent : e + f + 2 * (106 : Nat) < bound := by omega
      exact below_roundWithAccuracy (s * t) .exact hproduct hexponent hleast

def Above (bound : Int) : UnpackedFloat → Prop
  | .finite _ _ e _ => bound ≤ e
  | _ => False

theorem Below.div {a b : Int} (hu : Below a u) (hv : Above b v) (hcu : Canonical u)
    (hcv : Canonical v) (hbound : a - b + 316 < bound) (hleast : 158 < bound) :
    Below bound (UnpackedFloat.div .binary64 u v) := by
  cases hcv with
  | infinity | zero => contradiction
  | @finite t n f hnpos hn =>
    cases hcu with
    | infinity => contradiction
    | zero => trivial
    | @finite s m e hmpos hm =>
      change e ≤ a at hu
      change b ≤ f at hv
      have hnlog : n.log2 < 53 := (Nat.log2_lt (Nat.ne_of_gt hnpos)).2 hn
      have htarget : Format.binary64.targetExponent (totalExponent m e - totalExponent n f) =
        max (m.log2 + 1 + e - (n.log2 + 1 + f) - 53) (-1074) := rfl
      -- The quotient has no more digits than a numerator with all the places that it may need.
      have hquotient : (divCore .binary64 m e n f).1 < 2 ^ 158 := by
        have hnumerator : (divCore .binary64 m e n f).1 ≤ m * 2 ^ 105 := by
          rw [divCore, htarget, Nat.shiftLeft_eq]
          apply Nat.le_trans (Nat.div_le_self _ n)
          apply Nat.mul_le_mul_left
          apply Nat.pow_le_pow_right Nat.two_pos
          omega
        omega
      have hexponent : (divCore .binary64 m e n f).2.1 + 2 * (158 : Nat) < bound := by
        show min (e - f) _ + _ < _
        omega
      exact below_roundWithAccuracy (s / t) _ hquotient hexponent hleast

theorem log2_shiftLeft {n : Nat} (hn : n ≠ 0) (k : Nat) : (n <<< k).log2 = n.log2 + k := by
  induction k with
  | zero => rfl
  | succ k ih =>
    have hshift : n <<< k ≠ 0 := by
      rw [Nat.shiftLeft_eq]
      exact Nat.mul_ne_zero hn (Nat.ne_of_gt (Nat.two_pow_pos k))
    rw [Nat.shiftLeft_succ, Nat.log2_two_mul hshift, ih]
    rfl

theorem roundWithAccuracy_exact {m : Nat} {e : Int} (s : Sign) (hpos : 0 < m)
    (hm : m.log2 = 52) (he : -1074 ≤ e) :
    roundWithAccuracy .binary64 s m e .exact = .finite s m e hpos := by
  have htarget : Format.binary64.targetExponent (totalExponent m e) = e := by
    show max (m.log2 + 1 + e - 53) (-1074) = e
    omega
  have hshift : shiftToTargetExponent .binary64 m e .exact = (⟨m, false, false⟩, e) := by
    rw [shiftToTargetExponent, htarget, shiftToExponent, Int.sub_self]
    exact congrArg (Prod.mk _) (Int.add_zero e)
  have hrounded : (⟨m, false, false⟩ : ExtendedMantissa).roundedMantissa = m := rfl
  rw [roundWithAccuracy, hshift]
  simp only [hrounded, hshift]
  rw [dif_neg (Nat.ne_of_gt hpos)]

/-- A natural number up to the number of digits is stored as it is. -/
theorem ofNat_eq {n : Nat} (hpos : 0 < n) (hn : n < 2 ^ 53) :
    ∃ h, UnpackedFloat.ofNat .binary64 n =
      .finite .positive (n <<< (52 - n.log2)) (n.log2 - 52) h := by
  have hne : n ≠ 0 := Nat.ne_of_gt hpos
  have hlog : n.log2 < 53 := (Nat.log2_lt hne).2 hn
  have hshift : (n <<< (52 - n.log2)).log2 = 52 := by
    rw [log2_shiftLeft hne]
    omega
  have hshiftpos : 0 < n <<< (52 - n.log2) := by
    rw [Nat.shiftLeft_eq]
    exact Nat.mul_pos hpos (Nat.two_pow_pos _)
  have htarget : Format.binary64.targetExponent (totalExponent n 0) = n.log2 - 52 := by
    show max (n.log2 + 1 + 0 - 53 : Int) (-1074) = _
    omega
  have hplaces : (0 - (n.log2 - 52 : Int)).toNat = 52 - n.log2 := by omega
  have hexponent : (0 - (52 - n.log2 : Nat) : Int) = n.log2 - 52 := by omega
  refine ⟨hshiftpos, ?_⟩
  rw [UnpackedFloat.ofNat, UnpackedFloat.ofInt, UnpackedFloat.normalize,
    Int.compare_eq_gt.2 (by omega)]
  show UnpackedFloat.round .binary64 .positive n 0 = _
  rw [UnpackedFloat.round, htarget, decreaseExponent, hplaces]
  simp only [hexponent]
  exact roundWithAccuracy_exact _ hshiftpos hshift (by omega)

theorem above_unpack {b : BitVec 64} (hlast : (@unpackExponent Format.binary64 b).toNat < 2047)
    (hfirst : 0 < (@unpackExponent Format.binary64 b).toNat)
    (hexponent : bound + 1075 ≤ (@unpackExponent Format.binary64 b).toNat) :
    Above bound (UnpackedFloat.unpack .binary64 b) := by
  have hbias : (Format.binary64.exponentBias : Int) = 1023 := rfl
  have hwidth : (Format.binary64.mantissaBitsWithoutImplicit : Int) = 52 := rfl
  rw [UnpackedFloat.unpack]
  simp only [hbias, hwidth]
  rw [if_neg, if_neg]
  · show bound ≤ _
    omega
  · intro heq
    have hvalue : (@unpackExponent Format.binary64 b).toNat = 0 := congrArg BitVec.toNat heq
    omega
  · intro heq
    have hvalue : (@unpackExponent Format.binary64 b).toNat = 2047 := congrArg BitVec.toNat heq
    omega

theorem above_ofNat {n : Nat} (hpos : 0 < n) (hn : n < 2 ^ 53) :
    Above (-52) (Float.Model.ofNat n).unpack := by
  have hlog : n.log2 < 53 := (Nat.log2_lt (Nat.ne_of_gt hpos)).2 hn
  have hdigits : (n <<< (52 - n.log2)).log2 + 1 = Format.binary64.mantissaBits := by
    rw [log2_shiftLeft (Nat.ne_of_gt hpos)]
    show _ = 53
    omega
  obtain ⟨_, heq⟩ := ofNat_eq hpos hn
  show Above (-52) (UnpackedFloat.unpack .binary64 (UnpackedFloat.pack .binary64 _))
  have hbias : (Format.binary64.exponentBias : Int) = 1023 := rfl
  have hwidth : (Format.binary64.mantissaBitsWithoutImplicit : Int) = 52 := rfl
  have hbits : 2 ^ Format.binary64.exponentBits = 2048 := rfl
  rw [heq, UnpackedFloat.pack]
  simp only [hbias, hwidth, hbits]
  rw [if_neg (by omega), if_pos hdigits]
  apply above_unpack <;> rw [unpackExponent_packComponents]
  · show _ % 2048 < _
    omega
  · show 0 < _ % 2048
    omega
  · show _ ≤ ((_ % 2048 : Nat) : Int)
    omega

theorem below_ofNat {n : Nat} (hn : n < 2 ^ 53) : Below 0 (Float.Model.ofNat n).unpack := by
  apply Below.pack
  · rcases Nat.eq_zero_or_pos n with rfl | hpos
    · trivial
    · obtain ⟨_, heq⟩ := ofNat_eq hpos hn
      have hlog : n.log2 < 53 := (Nat.log2_lt (Nat.ne_of_gt hpos)).2 hn
      rw [heq]
      show (n.log2 - 52 : Int) ≤ 0
      omega
  · decide
  · decide

theorem canonical_of_isFinite (hx : x.isFinite = true) : Canonical x.toModel.unpack := by
  rcases unpack_cases x.toModel.toBits.toBitVec with hnone | ⟨hsome, _⟩
  · have hinfinite : x.isFinite = false := congrArg UnpackedFloat.isFinite hnone
    rw [hx] at hinfinite
    contradiction
  · exact hsome

theorem not_isNaN_of_isFinite (hx : x.isFinite = true) : x.isNaN = false :=
  (canonical_of_isFinite hx).not_isNaN

theorem Below.canonical (hx : Below bound x.toModel.unpack) : Canonical x.toModel.unpack :=
  canonical_of_isFinite hx.isFinite

theorem below_mul {a b : Int} (hx : Below a x.toModel.unpack) (hy : Below b y.toModel.unpack)
    (hbound : a + b + 212 < bound) (hleast : 106 < bound) (hmost : bound ≤ 971) :
    Below bound (x * y).toModel.unpack := by
  have hproduct := hx.mul hy hx.canonical hy.canonical hbound hleast
  exact hproduct.pack (by omega) hmost

theorem below_div {a b : Int} (hx : Below a x.toModel.unpack) (hy : Above b y.toModel.unpack)
    (hfinite : y.isFinite = true) (hbound : a - b + 316 < bound) (hleast : 158 < bound)
    (hmost : bound ≤ 971) : Below bound (x / y).toModel.unpack := by
  have hquotient := hx.div hy hx.canonical (canonical_of_isFinite hfinite) hbound hleast
  exact hquotient.pack (by omega) hmost

/-- The double for a natural number, which is made by a product with one. -/
theorem below_natCast {n : Nat} (hn : n < 2 ^ 53) : Below 161 (Float.ofNat n).toModel.unpack := by
  have hone : Below (-52) (Float.ofBits 0x3FF0000000000000).toModel.unpack := by
    apply Below.pack
    · apply below_unpack <;> decide
    · decide
    · decide
  have hwhole : Below 0 n.toUInt64.toFloat.toModel.unpack := by
    have hnat : n.toUInt64.toNat = n := Nat.mod_eq_of_lt (by omega)
    have hbelow := below_ofNat hn
    rw [← hnat] at hbelow
    exact hbelow
  have heq : Float.ofNat n = n.toUInt64.toFloat * Float.ofBits 0x3FF0000000000000 :=
    dif_pos ⟨hn, Nat.zero_le _⟩
  rw [heq]
  exact below_mul hwhole hone (by omega) (by omega) (by omega)

/-- Frames take a finite time, whatever their number and at any rate but zero. -/
theorem isFinite_time {n : Nat} {rate : UInt32} (hn : n < 2 ^ 32) (hrate : rate ≠ 0) :
    (Float.ofNat n * (1 / rate.toFloat)).isFinite = true := by
  have hpos : 0 < rate.toNat := by
    apply Nat.pos_of_ne_zero
    intro hzero
    exact hrate (UInt32.toNat_inj.1 hzero)
  have hsize : rate.toNat < 2 ^ 32 := rate.toNat_lt
  have hrate : Above (-52) rate.toFloat.toModel.unpack := above_ofNat hpos (by omega)
  have hwhole : Below 0 rate.toFloat.toModel.unpack := below_ofNat (by omega)
  have hone : Below 161 (1 : Float).toModel.unpack := below_natCast (by decide)
  have hdelta : Below 530 (1 / rate.toFloat).toModel.unpack :=
    below_div hone hrate hwhole.isFinite (by omega) (by omega) (by omega)
  have hcount : Below 161 (Float.ofNat n).toModel.unpack := below_natCast (by omega)
  have hnow : Below 904 (Float.ofNat n * (1 / rate.toFloat)).toModel.unpack :=
    below_mul hcount hdelta (by omega) (by omega) (by omega)
  exact hnow.isFinite

end BlockScript.Number
