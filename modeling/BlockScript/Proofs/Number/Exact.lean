import BlockScript.Proofs.Number.Finite
import Mathlib

namespace BlockScript.Number

open Float.Model Float.Model.UnpackedFloat

def value : UnpackedFloat → ℚ
  | .finite s m e _ => s.apply m * 2 ^ e
  | _ => 0

/-- The value of a finite double. -/
def exact (x : Float) : ℚ := value x.toModel.unpack

/-- A mantissa and an exponent as they are stored, those of zero being the least ones. -/
structure Stored (m : Nat) (e : Int) : Prop where
  mantissa : m < 2 ^ 53
  least : -1074 ≤ e
  normal : e = -1074 ∨ 2 ^ 52 ≤ m

variable {u v : UnpackedFloat} {x y : Float} {m n : Nat} {e f : Int}

theorem Stored.magnitude_lt (hm : Stored m e) (hn : Stored n f)
    (hplace : (m + (e + 1074) * 2 ^ 52 : Int) < n + (f + 1074) * 2 ^ 52) :
    (m * 2 ^ e : ℚ) < n * 2 ^ f := by
  obtain ⟨hmantissa, hleast, hnormal⟩ := hm
  obtain ⟨hmantissa', hleast', hnormal'⟩ := hn
  have hpow : (0 : ℚ) < 2 ^ e := by positivity
  rcases Int.lt_trichotomy e f with hlt | rfl | hgt
  · -- The larger exponent is not the least one, so that its mantissa has all its places.
    have hfull : (2 ^ 52 : ℚ) ≤ n := by
      have hfull : 2 ^ 52 ≤ n := by omega
      exact_mod_cast hfull
    have hexponent : (2 : ℚ) ^ (e + 1) ≤ 2 ^ f := zpow_le_zpow_right₀ (by norm_num) hlt
    calc (m * 2 ^ e : ℚ) < 2 ^ 53 * 2 ^ e := by
          apply mul_lt_mul_of_pos_right _ hpow
          exact_mod_cast hmantissa
      _ = 2 ^ 52 * 2 ^ (e + 1) := by rw [zpow_add_one₀ (by norm_num)]; ring
      _ ≤ n * 2 ^ f := by gcongr
  · have hmn : m < n := by omega
    apply mul_lt_mul_of_pos_right _ hpow
    exact_mod_cast hmn
  · omega

theorem Stored.eq_of_place (hm : Stored m e) (hn : Stored n f)
    (hplace : (m + (e + 1074) * 2 ^ 52 : Int) = n + (f + 1074) * 2 ^ 52) : m = n ∧ e = f := by
  obtain ⟨hmantissa, hleast, hnormal⟩ := hm
  obtain ⟨hmantissa', hleast', hnormal'⟩ := hn
  omega

theorem Canonical.exists_stored (hu : Canonical u) (hfinite : u.isFinite = true) :
    ∃ (s : Sign) (m : Nat) (e : Int), Stored m e ∧ value u = s.apply m * 2 ^ e ∧
      place u = s.apply (m + (e + 1074) * 2 ^ 52) := by
  cases hu with
  | infinity => contradiction
  | zero s =>
    have hzero : value (.zero s) = Sign.positive.apply (0 : Nat) * 2 ^ (-1074 : Int) := by
      simp [value, Sign.apply]
    exact ⟨.positive, 0, -1074, ⟨by decide, by decide, .inl rfl⟩, hzero, rfl⟩
  | @finite s m e hpos hm hleast hmost hnormal =>
    exact ⟨s, m, e, ⟨hm, hleast, hnormal⟩, rfl, rfl⟩

theorem value_lt (hu : Canonical u) (hv : Canonical v) (hfu : u.isFinite = true)
    (hfv : v.isFinite = true) (hplace : place u < place v) : value u < value v := by
  obtain ⟨s, m, e, hm, hvalue, hp⟩ := hu.exists_stored hfu
  obtain ⟨t, n, f, hn, hvalue', hp'⟩ := hv.exists_stored hfv
  rw [hp, hp'] at hplace
  rw [hvalue, hvalue']
  have hleast := hm.least
  have hleast' := hn.least
  cases s with
  | positive =>
    cases t with
    | positive => simpa [Sign.apply] using hm.magnitude_lt hn hplace
    | negative =>
      simp only [Sign.apply] at hplace
      omega
  | negative =>
    cases t with
    | positive =>
      -- A zero has the least exponent, so that one of the two is none.
      have hnormal := hm.normal
      have hnormal' := hn.normal
      simp only [Sign.apply] at hplace
      have hsome : 0 < m ∨ 0 < n := by omega
      have hsum : (0 : ℚ) < m * 2 ^ e + n * 2 ^ f := by
        rcases hsome with hpos | hpos
        · positivity
        · positivity
      simp only [Sign.apply, Int.cast_neg, Int.cast_natCast]
      linarith
    | negative =>
      simp only [Sign.apply, neg_lt_neg_iff] at hplace
      simpa [Sign.apply] using hn.magnitude_lt hm hplace

theorem value_eq (hu : Canonical u) (hv : Canonical v) (hfu : u.isFinite = true)
    (hfv : v.isFinite = true) (hplace : place u = place v) : value u = value v := by
  obtain ⟨s, m, e, hm, hvalue, hp⟩ := hu.exists_stored hfu
  obtain ⟨t, n, f, hn, hvalue', hp'⟩ := hv.exists_stored hfv
  rw [hp, hp'] at hplace
  rw [hvalue, hvalue']
  have hleast := hm.least
  have hleast' := hn.least
  by_cases hsign : s = t
  · subst hsign
    have hsame : m = n ∧ e = f := by
      apply hm.eq_of_place hn
      cases s with
      | positive => exact hplace
      | negative => exact Int.neg_inj.1 hplace
    rw [hsame.1, hsame.2]
  · -- With different signs both are zero.
    have hzero : m = 0 ∧ n = 0 := by
      cases s <;> cases t <;> simp only [Sign.apply] at hplace <;> first | contradiction | omega
    rw [hzero.1, hzero.2]
    cases s <;> cases t <;> simp [Sign.apply]

/-- Finite doubles are in the order of their values. -/
theorem lt_iff_exact_lt (hx : x.isFinite = true) (hy : y.isFinite = true) :
    x < y ↔ exact x < exact y := by
  obtain ⟨hcx, hpx, _⟩ := canonical_unpack (not_isNaN_of_isFinite hx)
  obtain ⟨hcy, hpy, _⟩ := canonical_unpack (not_isNaN_of_isFinite hy)
  rw [lt_iff (not_isNaN_of_isFinite hx) (not_isNaN_of_isFinite hy), ← hpx, ← hpy]
  constructor
  · exact value_lt hcx hcy hx hy
  · intro hlt
    by_contra hle
    rcases Int.lt_or_eq_of_le (Int.not_lt.1 hle) with hgt | heq
    · exact lt_asymm hlt (value_lt hcy hcx hy hx hgt)
    · exact hlt.ne' (value_eq hcy hcx hy hx heq)

theorem exact_one : exact 1 = 1 := by
  have hone : (1 : Float).toModel.unpack = .finite .positive (2 ^ 52) (-52) (by decide) := rfl
  rw [exact, hone, value, Sign.apply]
  norm_num

theorem ceilScaled_eq (m : Nat) (e : Int) : ceilScaled m e = ⌈(m * 2 ^ e : ℚ)⌉₊ := by
  rw [ceilScaled]
  split
  · next he =>
    obtain ⟨k, rfl⟩ := Int.eq_ofNat_of_zero_le he
    have hcast : (m * 2 ^ (k : Int) : ℚ) = (m * 2 ^ k : Nat) := by push_cast; rw [zpow_natCast]
    rw [hcast, Nat.ceil_natCast, Nat.shiftLeft_eq]
    rfl
  · next he =>
    obtain ⟨k, hk⟩ := Int.eq_ofNat_of_zero_le (show 0 ≤ -e by omega)
    obtain rfl : e = -(k : Int) := by omega
    have hpow : 0 < 2 ^ k := Nat.two_pow_pos k
    rw [hk, Int.toNat_natCast, Nat.shiftRight_eq_div_pow, Nat.one_shiftLeft]
    apply eq_of_forall_ge_iff
    intro bound
    rw [Nat.ceil_le, zpow_neg, zpow_natCast, ← div_eq_mul_inv, div_le_iff₀ (by positivity),
      ← Nat.lt_succ_iff, Nat.div_lt_iff_lt_mul hpow]
    have hcast : ((m : ℚ) ≤ bound * 2 ^ k) ↔ m ≤ bound * 2 ^ k := by exact_mod_cast Iff.rfl
    rw [hcast, Nat.succ_mul]
    omega

/-- A double that is not above zero is rounded up to zero. -/
theorem ceil_eq (x : Float) : ceil x = ⌈exact x⌉₊ := by
  rw [ceil, exact]
  cases hx : x.toModel.unpack with
  | finite s m e hpos =>
    cases s with
    | positive => exact ceilScaled_eq m e
    | negative =>
      refine (Nat.ceil_eq_zero.2 ?_).symm
      have hvalue : (0 : ℚ) < m * 2 ^ e := by positivity
      simp only [value, Sign.apply, Int.cast_neg, Int.cast_natCast]
      linarith
  | _ => exact Nat.ceil_zero.symm

end BlockScript.Number
