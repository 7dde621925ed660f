import BlockScript.Program.Session
import Mathlib

namespace BlockScript.Number

open Float.Model Float.Model.UnpackedFloat

/-- An unpacked double that is a number, with a mantissa and an exponent as they are stored. -/
inductive Canonical : UnpackedFloat → Prop
  | infinity (s : Sign) : Canonical (.infinity s)
  | zero (s : Sign) : Canonical (.zero s)
  | finite (s : Sign) {m : Nat} {e : Int} (hpos : 0 < m) (hm : m < 2 ^ 53) (hleast : -1074 ≤ e)
      (hmost : e ≤ 971) (hnormal : e = -1074 ∨ 2 ^ 52 ≤ m) : Canonical (.finite s m e hpos)

/-- The place of an unpacked double among all of them, with both zeros at 0. -/
def place : UnpackedFloat → Int
  | .notANumber | .zero _ => 0
  | .infinity s => s.apply (2047 * 2 ^ 52)
  | .finite s m e _ => s.apply (m + (e + 1074) * 2 ^ 52)

def placeOfBits (bits : Nat) : Int :=
  if bits < 2 ^ 63 then bits else -(bits - 2 ^ 63 : Nat)

variable {u v : UnpackedFloat} {x y z : Float}

theorem toNat_unpackMantissa (b : BitVec 64) :
    (@unpackMantissa Format.binary64 b).toNat = b.toNat % 2 ^ 52 := by
  simp [unpackMantissa]

theorem toNat_unpackExponent (b : BitVec 64) :
    (@unpackExponent Format.binary64 b).toNat = b.toNat / 2 ^ 52 % 2 ^ 11 := by
  simp [unpackExponent, Nat.shiftRight_eq_div_pow]

theorem unpackMantissa_eq_iff (b : BitVec 64) (m : BitVec 52) :
    @unpackMantissa Format.binary64 b = m ↔ b.toNat % 2 ^ 52 = m.toNat := by
  rw [← BitVec.toNat_inj, toNat_unpackMantissa]

theorem unpackExponent_eq_iff (b : BitVec 64) (e : BitVec 11) :
    @unpackExponent Format.binary64 b = e ↔ b.toNat / 2 ^ 52 % 2 ^ 11 = e.toNat := by
  rw [← BitVec.toNat_inj, toNat_unpackExponent]

theorem ofBitVec_unpackSign (b : BitVec 64) :
    Sign.ofBitVec (@unpackSign Format.binary64 b) =
      if b.toNat < 2 ^ 63 then .positive else .negative := by
  have hb : b.toNat < 2 ^ 64 := b.isLt
  have hsign : (@unpackSign Format.binary64 b).toNat = b.toNat / 2 ^ 63 := by
    simp [unpackSign, Nat.shiftRight_eq_div_pow]
    omega
  have hzero : @unpackSign Format.binary64 b = 0#1 ↔ b.toNat < 2 ^ 63 := by
    rw [← BitVec.toNat_inj, hsign]
    show _ = 0 ↔ _
    omega
  rw [Sign.ofBitVec]
  simp only [hzero]

theorem apply_eq_placeOfBits {bits : Nat} {a : Int} (hbits : bits < 2 ^ 64)
    (ha : a = (bits % 2 ^ 63 : Nat)) :
    Sign.apply (if bits < 2 ^ 63 then .positive else .negative) a = placeOfBits bits := by
  rw [placeOfBits]
  split
  · show a = _
    omega
  · show -a = _
    omega

theorem unpack_cases (b : BitVec 64) :
    UnpackedFloat.unpack .binary64 b = .notANumber ∨
      (Canonical (UnpackedFloat.unpack .binary64 b) ∧
        place (UnpackedFloat.unpack .binary64 b) = placeOfBits b.toNat ∧
        b.toNat % 2 ^ 63 ≤ 2047 * 2 ^ 52) := by
  have hb : b.toNat < 2 ^ 64 := b.isLt
  have hmantissa := toNat_unpackMantissa b
  have hexponent := toNat_unpackExponent b
  have hbias : (Format.binary64.exponentBias : Int) = 1023 := rfl
  have hwidth : (Format.binary64.mantissaBitsWithoutImplicit : Int) = 52 := rfl
  rw [UnpackedFloat.unpack]
  simp only [ofBitVec_unpackSign, hbias, hwidth]
  split
  · next hlast =>
    have hlast : b.toNat / 2 ^ 52 % 2 ^ 11 = 2047 := (unpackExponent_eq_iff b _).1 hlast
    split
    · next hzero =>
      have hzero : b.toNat % 2 ^ 52 = 0 := (unpackMantissa_eq_iff b _).1 hzero
      refine .inr ⟨.infinity _, apply_eq_placeOfBits hb ?_, ?_⟩
      all_goals omega
    · exact .inl rfl
  · next hlast =>
    have hlast : b.toNat / 2 ^ 52 % 2 ^ 11 ≠ 2047 :=
      fun h => hlast ((unpackExponent_eq_iff b _).2 h)
    right
    split
    · next hfirst =>
      have hfirst : b.toNat / 2 ^ 52 % 2 ^ 11 = 0 := (unpackExponent_eq_iff b _).1 hfirst
      split
      · next hzero =>
        have hzero : b.toNat % 2 ^ 52 = 0 := (unpackMantissa_eq_iff b _).1 hzero
        refine ⟨.zero _, ?_, by omega⟩
        rw [placeOfBits, place]
        omega
      · refine ⟨.finite _ _ ?_ ?_ ?_ (.inl ?_), apply_eq_placeOfBits hb ?_, ?_⟩
        all_goals omega
    · next hfirst =>
      have hfirst : b.toNat / 2 ^ 52 % 2 ^ 11 ≠ 0 :=
        fun h => hfirst ((unpackExponent_eq_iff b _).2 h)
      have hnormal : (1#1 ++ @unpackMantissa Format.binary64 b).toNat =
          2 ^ 52 + b.toNat % 2 ^ 52 := by
        rw [BitVec.toNat_append, ← Nat.shiftLeft_add_eq_or_of_lt (BitVec.isLt _), hmantissa]
        rfl
      refine ⟨.finite _ _ ?_ ?_ ?_ (.inr ?_), apply_eq_placeOfBits hb ?_, ?_⟩
      all_goals omega

/-- The magnitude of a finite double, in which the exponent counts for more than the mantissa. -/
theorem compare_magnitude {m n : Nat} {e f : Int} (hm : m < 2 ^ 53) (hn : n < 2 ^ 53)
    (hme : e = -1074 ∨ 2 ^ 52 ≤ m) (hnf : f = -1074 ∨ 2 ^ 52 ≤ n) (he : -1074 ≤ e)
    (hf : -1074 ≤ f) :
    (compare e f).then (compare m n) =
      compare (m + (e + 1074) * 2 ^ 52 : Int) (n + (f + 1074) * 2 ^ 52) := by
  rcases Int.lt_trichotomy e f with hlt | rfl | hgt
  · rw [Int.compare_eq_lt.2 hlt, Int.compare_eq_lt.2 (by omega)]
    rfl
  · rw [Int.compare_eq_eq.2 rfl, Ordering.eq_then]
    rcases Nat.lt_trichotomy m n with hlt | rfl | hgt
    · rw [Nat.compare_eq_lt.2 hlt, Int.compare_eq_lt.2 (by omega)]
    · rw [Nat.compare_eq_eq.2 rfl, Int.compare_eq_eq.2 rfl]
    · rw [Nat.compare_eq_gt.2 hgt, Int.compare_eq_gt.2 (by omega)]
  · rw [Int.compare_eq_gt.2 hgt, Int.compare_eq_gt.2 (by omega)]
    rfl

theorem compare_neg (a b : Int) : compare (-a) (-b) = (compare a b).swap := by
  rw [Int.compare_swap]
  rcases Int.lt_trichotomy a b with hlt | rfl | hgt
  · rw [Int.compare_eq_gt.2 hlt, Int.compare_eq_gt.2 (by omega)]
  · rw [Int.compare_eq_eq.2 rfl, Int.compare_eq_eq.2 rfl]
  · rw [Int.compare_eq_lt.2 hgt, Int.compare_eq_lt.2 (by omega)]

theorem some_lt (h : place u < place v) : some .lt = some (compare (place u) (place v)) :=
  congrArg some (Int.compare_eq_lt.2 h).symm

theorem some_gt (h : place v < place u) : some .gt = some (compare (place u) (place v)) :=
  congrArg some (Int.compare_eq_gt.2 h).symm

/-- Canonical doubles compare as their places do. -/
theorem compare_of_canonical (hu : Canonical u) (hv : Canonical v) :
    u.compare v = some (compare (place u) (place v)) := by
  cases hu with
  | infinity s =>
    cases hv with
    | infinity t => cases s <;> cases t <;> rfl
    | zero t => cases s <;> rfl
    | finite t =>
      cases s with
      | positive =>
        apply some_gt
        cases t <;> simp only [place, Sign.apply] <;> omega
      | negative =>
        apply some_lt
        cases t <;> simp only [place, Sign.apply] <;> omega
  | zero s =>
    cases hv with
    | infinity t => cases t <;> rfl
    | zero t => rfl
    | finite t =>
      cases t with
      | positive =>
        apply some_lt
        simp only [place, Sign.apply]
        omega
      | negative =>
        apply some_gt
        simp only [place, Sign.apply]
        omega
  | finite s hm hmb he heb hme =>
    cases hv with
    | infinity t =>
      cases t with
      | positive =>
        apply some_lt
        cases s <;> simp only [place, Sign.apply] <;> omega
      | negative =>
        apply some_gt
        cases s <;> simp only [place, Sign.apply] <;> omega
    | zero t =>
      cases s with
      | positive =>
        apply some_gt
        simp only [place, Sign.apply]
        omega
      | negative =>
        apply some_lt
        simp only [place, Sign.apply]
        omega
    | finite t hn hnb hf hfb hnf =>
      have hmagnitude := compare_magnitude hmb hnb hme hnf he hf
      cases s with
      | positive =>
        cases t with
        | positive => exact congrArg some hmagnitude
        | negative =>
          apply some_gt
          simp only [place, Sign.apply]
          omega
      | negative =>
        cases t with
        | positive =>
          apply some_lt
          simp only [place, Sign.apply]
          omega
        | negative =>
          exact congrArg some ((congrArg Ordering.swap hmagnitude).trans (compare_neg _ _).symm)

theorem Canonical.not_isNaN (hu : Canonical u) : u.isNaN = false := by
  cases hu <;> rfl

theorem canonical_unpack (hx : x.isNaN = false) :
    Canonical x.toModel.unpack ∧ place x.toModel.unpack = placeOfBits x.toBits.toNat ∧
      x.toBits.toNat % 2 ^ 63 ≤ 2047 * 2 ^ 52 := by
  rcases unpack_cases x.toModel.toBits.toBitVec with hnone | hsome
  · have hnan : x.isNaN = true := congrArg UnpackedFloat.isNaN hnone
    exact absurd hnan (Bool.eq_false_iff.1 hx)
  · exact hsome

/-- There are only some bits for what is no number, and they come after all others. -/
theorem toBits_of_isNaN (hx : x.isNaN = true) : x.toBits.toNat = 2047 * 2 ^ 52 + 2 ^ 51 :=
  congrArg BitVec.toNat ((isNaN_unpack_iff_of_valid x.toModel.valid).1 hx)

theorem le_iff (hx : x.isNaN = false) (hy : y.isNaN = false) :
    x ≤ y ↔ placeOfBits x.toBits.toNat ≤ placeOfBits y.toBits.toNat := by
  obtain ⟨hcx, hpx, _⟩ := canonical_unpack hx
  obtain ⟨hcy, hpy, _⟩ := canonical_unpack hy
  show decide (x.toModel.unpack.le y.toModel.unpack = true) = true ↔ _
  rw [decide_eq_true_iff, UnpackedFloat.le, compare_of_canonical hcx hcy, hpx, hpy]
  exact Int.isLE_compare

theorem lt_iff (hx : x.isNaN = false) (hy : y.isNaN = false) :
    x < y ↔ placeOfBits x.toBits.toNat < placeOfBits y.toBits.toNat := by
  obtain ⟨hcx, hpx, _⟩ := canonical_unpack hx
  obtain ⟨hcy, hpy, _⟩ := canonical_unpack hy
  show decide (x.toModel.unpack.lt y.toModel.unpack = true) = true ↔ _
  rw [decide_eq_true_iff, UnpackedFloat.lt, compare_of_canonical hcx hcy, hpx, hpy]
  rw [beq_iff_eq, Option.some_inj, Int.compare_eq_lt]

theorem not_isNaN_of_le (h : x ≤ y) : x.isNaN = false ∧ y.isNaN = false := by
  change decide (x.toModel.unpack.le y.toModel.unpack = true) = true at h
  rw [decide_eq_true_iff, UnpackedFloat.le] at h
  change x.toModel.unpack.isNaN = false ∧ y.toModel.unpack.isNaN = false
  cases hx : x.toModel.unpack with
  | notANumber =>
    rw [hx] at h
    contradiction
  | _ =>
    cases hy : y.toModel.unpack with
    | notANumber =>
      rw [hx, hy] at h
      simp [UnpackedFloat.compare] at h
    | _ => exact ⟨rfl, rfl⟩

theorem lt_of_not_le (hx : x.isNaN = false) (hy : y.isNaN = false) (h : ¬x ≤ y) : y < x := by
  rw [le_iff hx hy] at h
  rw [lt_iff hy hx]
  omega

theorem le_of_not_lt (hx : x.isNaN = false) (hy : y.isNaN = false) (h : ¬x < y) : y ≤ x := by
  rw [lt_iff hx hy] at h
  rw [le_iff hy hx]
  omega

theorem rank_eq (x : Float) :
    rank x = if x.toBits.toNat < 2 ^ 63 then (x.toBits.toNat : Int)
      else -(x.toBits.toNat - 2 ^ 63 + 1 : Nat) := rfl

theorem placeOfBits_le_of_rank_le (h : rank x ≤ rank y) :
    placeOfBits x.toBits.toNat ≤ placeOfBits y.toBits.toNat := by
  rw [rank_eq, rank_eq] at h
  rw [placeOfBits, placeOfBits]
  omega

theorem le_of_rank_le (hxy : rank x ≤ rank y) (hyz : y ≤ z) : x ≤ z := by
  obtain ⟨hy, hz⟩ := not_isNaN_of_le hyz
  have hx : x.isNaN = false := by
    apply Bool.eq_false_iff.2
    intro hx
    have hbits := toBits_of_isNaN hx
    obtain ⟨_, _, hbound⟩ := canonical_unpack hy
    rw [rank_eq, rank_eq, hbits] at hxy
    omega
  rw [le_iff hy hz] at hyz
  rw [le_iff hx hz]
  exact Int.le_trans (placeOfBits_le_of_rank_le hxy) hyz

end BlockScript.Number
