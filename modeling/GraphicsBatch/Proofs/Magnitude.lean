import Mathlib
import GraphicsBatch.Number.Binary64

/-!
# How large floating-point numbers get

Sums, differences, products and quotients are rounded. Rounding loses at most one bit of size, so results of numbers of
moderate size are finite. A number that is much smaller than another one is lost in a sum.
-/

namespace GraphicsBatch.Binary64

open Float.Model (Format UnpackedFloat totalExponent)
open Float.Model.UnpackedFloat

/-! ## Rounding -/

theorem log2_le_of_lt {m k : Nat} (h : m < 2 ^ (k + 1)) : m.log2 ≤ k := by
  by_cases hzero : m = 0
  · simp [hzero]
  · exact Nat.le_of_lt_succ ((Nat.log2_lt hzero).mpr h)

/-- How many bits of `m * 2 ^ e` have to go. -/
def excess (m : Nat) (e : Int) : Nat := (max (m.log2 + e - 52) (-1074) - e).toNat

theorem targetExponent_eq (m : Nat) (e : Int) :
    Format.binary64.targetExponent (totalExponent m e) = max (m.log2 + e - 52) (-1074) := by
  simp only [Format.targetExponent, totalExponent, Format.mantissaBits, Format.minExponent]
  omega

theorem mantissa_shiftRight (em : ExtendedMantissa) (n : Nat) : (em >>> n).mantissa = em.mantissa / 2 ^ n := by
  induction n with
  | zero => exact (Nat.div_one _).symm
  | succ n ih =>
    calc (em >>> (n + 1)).mantissa = (em >>> n).mantissa / 2 := rfl
      _ = em.mantissa / 2 ^ (n + 1) := by rw [ih, Nat.div_div_eq_div_mul, pow_succ]

theorem mantissa_ofMantissaAndAccuracy (m : Nat) (acc : Accuracy) :
    (ExtendedMantissa.ofMantissaAndAccuracy m acc).mantissa = m := by
  rcases acc with _ | (_ | _ | _) <;> rfl

theorem roundedMantissa_bounds (em : ExtendedMantissa) :
    em.mantissa ≤ em.roundedMantissa ∧ em.roundedMantissa ≤ em.mantissa + 1 := by
  obtain ⟨m, _ | _, _ | _⟩ := em <;>
    simp only [ExtendedMantissa.roundedMantissa, ExtendedMantissa.accuracy, Accuracy.roundToNearestEven] <;> omega

/-- The significand that is left of `m * 2 ^ e`. -/
def rounded (m : Nat) (e : Int) (acc : Accuracy) : Nat :=
  (ExtendedMantissa.ofMantissaAndAccuracy m acc >>> excess m e).roundedMantissa

theorem rounded_bounds (m : Nat) (e : Int) (acc : Accuracy) :
    m / 2 ^ excess m e ≤ rounded m e acc ∧ rounded m e acc ≤ m / 2 ^ excess m e + 1 := by
  have hbounds := roundedMantissa_bounds (ExtendedMantissa.ofMantissaAndAccuracy m acc >>> excess m e)
  rwa [mantissa_shiftRight, mantissa_ofMantissaAndAccuracy] at hbounds

theorem rounded_le (m : Nat) (e : Int) (acc : Accuracy) : rounded m e acc ≤ 2 ^ 53 := by
  have hlt : m / 2 ^ excess m e < 2 ^ 53 := by
    rw [Nat.div_lt_iff_lt_mul (Nat.two_pow_pos _), ← pow_add]
    calc m < 2 ^ (m.log2 + 1) := Nat.lt_log2_self
      _ ≤ 2 ^ (53 + excess m e) := Nat.pow_le_pow_right (by decide) (by unfold excess; omega)
  have := (rounded_bounds m e acc).2
  omega

theorem shiftToTargetExponent_eq (m : Nat) (e : Int) (acc : Accuracy) :
    shiftToTargetExponent .binary64 m e acc =
      (ExtendedMantissa.ofMantissaAndAccuracy m acc >>> excess m e, e + excess m e) := by
  simp only [shiftToTargetExponent, shiftToExponent, targetExponent_eq]
  rfl

/-- Rounding cuts the significand, and once more if that has carried over. -/
theorem roundWithAccuracy_eq (s : Sign) {m : Nat} {e : Int} (acc : Accuracy) (he : e ≤ -1074 ∨ 2 ^ 52 ≤ m) :
    roundWithAccuracy .binary64 s m e acc =
      if h : rounded m e acc = 0 then .zero s
      else if rounded m e acc < 2 ^ 53 then
        .finite s (rounded m e acc) (max (m.log2 + e - 52) (-1074)) (Nat.pos_of_ne_zero h)
      else .finite s (2 ^ 52) (max (m.log2 + e - 52) (-1074) + 1) (by decide) := by
  have hexponent : e + excess m e = max (m.log2 + e - 52) (-1074) := by
    unfold excess
    rcases he with he | hm
    · omega
    · have hlog : 52 ≤ m.log2 := (Nat.le_log2 (by omega)).mpr hm
      omega
  have hround : rounded m e acc ≤ 2 ^ 53 := rounded_le m e acc
  have hmin : -1074 ≤ max ((m.log2 : Int) + e - 52) (-1074) := le_max_right _ _
  have hfold : (ExtendedMantissa.ofMantissaAndAccuracy m acc >>> excess m e).roundedMantissa = rounded m e acc := rfl
  unfold roundWithAccuracy
  simp only [shiftToTargetExponent_eq, hexponent, hfold, mantissa_shiftRight, mantissa_ofMantissaAndAccuracy]
  -- Rounding up to the next power of two leaves one bit too many, which is shifted out once more.
  by_cases hr : rounded m e acc < 2 ^ 53
  · have hlog : (rounded m e acc).log2 ≤ 52 := log2_le_of_lt hr
    have hexcess : excess (rounded m e acc) (max (m.log2 + e - 52) (-1074)) = 0 := by
      unfold excess
      omega
    simp only [hexcess, hr, pow_zero, Nat.div_one, if_true, Nat.cast_zero, add_zero]
  · have hr' : rounded m e acc = 2 ^ 53 := by omega
    have hexcess : excess (2 ^ 53) (max (m.log2 + e - 52) (-1074)) = 1 := by
      unfold excess
      rw [Nat.log2_two_pow]
      omega
    simp only [hr', hexcess]
    rfl

/-! ## Sizes -/

/-- A number of sign `s` that is less than `2 ^ k` in size, with the exponent that its size calls for. -/
inductive Small (k : Int) (s : Sign) : UnpackedFloat → Prop where
  | zero : Small k s (.zero s)
  | finite {m : Nat} {e : Int} {h : 0 < m} (hm : m < 2 ^ 53) (he : -1074 ≤ e) (hnormal : 2 ^ 52 ≤ m ∨ e = -1074)
      (hsize : m.log2 + 1 + e ≤ k) : Small k s (.finite s m e h)

theorem Small.mono {k k' : Int} {s : Sign} {u : UnpackedFloat} (h : Small k s u) (hk : k ≤ k') : Small k' s u := by
  cases h with
  | zero => exact .zero
  | finite hm he hnormal hsize => exact .finite hm he hnormal (by omega)

theorem small_roundWithAccuracy (s : Sign) {m : Nat} {e k : Int} (acc : Accuracy) (he : e ≤ -1074 ∨ 2 ^ 52 ≤ m)
    (hk : m.log2 + 2 + e ≤ k) (hmin : -1020 ≤ k) : Small k s (roundWithAccuracy .binary64 s m e acc) := by
  rw [roundWithAccuracy_eq s acc he]
  split
  · exact .zero
  · rename_i hzero
    split
    · rename_i hr
      have hlog : (rounded m e acc).log2 ≤ 52 := log2_le_of_lt hr
      refine .finite hr (le_max_right _ _) ?_ (by omega)
      by_cases hsub : (m.log2 : Int) + e - 52 ≤ -1074
      · exact .inr (max_eq_right hsub)
      · -- All 53 bits are in use.
        refine .inl (Nat.le_trans ?_ (rounded_bounds m e acc).1)
        have hm : m ≠ 0 := by
          rintro rfl
          simp only [Nat.log2_zero] at hsub
          omega
        have hexcess : 52 + excess m e = m.log2 := by
          unfold excess
          rcases he with he | hm'
          · omega
          · have hlog : 52 ≤ m.log2 := (Nat.le_log2 hm).mpr hm'
            omega
        rw [Nat.le_div_iff_mul_le (Nat.two_pow_pos _), ← pow_add, hexcess]
        exact Nat.log2_self_le hm
    · have hlog : (2 ^ 52).log2 = 52 := Nat.log2_two_pow
      exact .finite (by decide) (by omega) (.inl le_rfl) (by omega)

theorem log2_mul_two_pow {m : Nat} (hm : 0 < m) (n : Nat) : (m * 2 ^ n).log2 = m.log2 + n := by
  rw [Nat.log2_eq_iff (Nat.mul_pos hm (Nat.two_pow_pos n)).ne', Nat.add_right_comm, pow_add, pow_add _ (_ + 1)]
  exact ⟨Nat.mul_le_mul_right _ (Nat.log2_self_le hm.ne'),
    Nat.mul_lt_mul_of_pos_right Nat.lt_log2_self (Nat.two_pow_pos n)⟩

theorem small_round (s : Sign) {m : Nat} {e k : Int} (hm : 0 < m) (hk : m.log2 + 2 + e ≤ k) (hmin : -1020 ≤ k) :
    Small k s (round .binary64 s m e) := by
  simp only [UnpackedFloat.round, decreaseExponent, targetExponent_eq, Nat.shiftLeft_eq]
  generalize ht : (e - max ((m.log2 : Int) + e - 52) (-1074)).toNat = n
  have hlog := log2_mul_two_pow hm n
  refine small_roundWithAccuracy s .exact ?_ (by omega) hmin
  by_cases hsub : (m.log2 : Int) + e - 52 ≤ -1074
  · exact .inl (by omega)
  · refine .inr ((Nat.le_log2 (Nat.mul_pos hm (Nat.two_pow_pos n)).ne').mp ?_)
    omega

theorem small_normalize {n e k : Int} (hk : n.natAbs.log2 + 2 + e ≤ k) (hmin : -1020 ≤ k) :
    Small k (if n < 0 then .negative else .positive) (normalize .binary64 n e .positive) := by
  cases hcmp : compare n 0 with
  | lt =>
    have hneg : n < 0 := Int.compare_eq_lt.mp hcmp
    have habs : (-n).toNat = n.natAbs := by omega
    simp only [UnpackedFloat.normalize, hcmp, if_pos hneg, habs]
    exact small_round _ (by omega) hk hmin
  | eq =>
    obtain rfl : n = 0 := Int.compare_eq_eq.mp hcmp
    exact .zero
  | gt =>
    have hpos : 0 < n := Int.compare_eq_gt.mp hcmp
    have habs : n.toNat = n.natAbs := by omega
    simp only [UnpackedFloat.normalize, hcmp, if_neg (Int.not_lt.mpr hpos.le), habs]
    exact small_round _ (by omega) hk hmin

/-! ## Operations -/

theorem mul_two_pow_lt {m : Nat} {e e₀ k : Int} (he : e₀ ≤ e) (hk : m.log2 + 1 + e ≤ k) :
    m * 2 ^ (e - e₀).toNat < 2 ^ (k - e₀).toNat := calc
  m * 2 ^ (e - e₀).toNat < 2 ^ (m.log2 + 1) * 2 ^ (e - e₀).toNat :=
    Nat.mul_lt_mul_of_pos_right Nat.lt_log2_self (Nat.two_pow_pos _)
  _ = 2 ^ (m.log2 + 1 + (e - e₀).toNat) := (pow_add ..).symm
  _ ≤ 2 ^ (k - e₀).toNat := Nat.pow_le_pow_right (by decide) (by omega)

/-- Sums and differences of numbers less than `2 ^ k`, brought to the same exponent. -/
theorem small_sum {k e₁ e₂ n : Int} {m₁ m₂ : Nat} (h₁ : m₁.log2 + 1 + e₁ ≤ k) (h₂ : m₂.log2 + 1 + e₂ ≤ k)
    (hn : n.natAbs ≤ m₁ * 2 ^ (e₁ - min e₁ e₂).toNat + m₂ * 2 ^ (e₂ - min e₁ e₂).toNat) (hmin : -1022 ≤ k) :
    Small (k + 2) (if n < 0 then .negative else .positive) (normalize .binary64 n (min e₁ e₂) .positive) := by
  have hlog : n.natAbs.log2 ≤ (k - min e₁ e₂).toNat := by
    refine log2_le_of_lt ?_
    have hlt₁ := mul_two_pow_lt (min_le_left e₁ e₂) h₁
    have hlt₂ := mul_two_pow_lt (min_le_right e₁ e₂) h₂
    rw [pow_succ]
    omega
  exact small_normalize (by omega) (by omega)

theorem small_add {k : Int} {u v : UnpackedFloat} (hu : Small k .positive u) (hv : Small k .positive v)
    (hmin : -1022 ≤ k) : Small (k + 2) .positive (add .binary64 u v) := by
  cases hu with
  | zero =>
    cases hv with
    | zero => exact .zero
    | finite hm he hnormal hsize => exact .finite hm he hnormal (by omega)
  | @finite m₁ e₁ _ hm he hnormal hsize₁ =>
    cases hv with
    | zero => exact .finite hm he hnormal (by omega)
    | @finite m₂ e₂ _ _ _ _ hsize₂ =>
      have hsum := small_sum (n := ↑(m₁ * 2 ^ (e₁ - min e₁ e₂).toNat) + ↑(m₂ * 2 ^ (e₂ - min e₁ e₂).toNat)) hsize₁
        hsize₂ (by omega) hmin
      rw [if_neg (by omega)] at hsum
      simpa only [add, decreaseExponent, Sign.apply, Nat.shiftLeft_eq] using hsum

theorem small_sub {k : Int} {s t : Sign} {u v : UnpackedFloat} (hu : Small k s u) (hv : Small k t v)
    (hmin : -1022 ≤ k) : ∃ r, Small (k + 2) r (sub .binary64 u v) := by
  cases hu with
  | zero =>
    cases hv with
    | zero =>
      simp only [sub]
      split
      · exact ⟨_, .zero⟩
      · exact ⟨_, .zero⟩
    | finite hm he hnormal hsize => exact ⟨_, .finite hm he hnormal (by omega)⟩
  | @finite m₁ e₁ _ hm he hnormal hsize₁ =>
    cases hv with
    | zero => exact ⟨_, .finite hm he hnormal (by omega)⟩
    | @finite m₂ e₂ _ _ _ _ hsize₂ =>
      refine ⟨_, small_sum hsize₁ hsize₂ ?_ hmin⟩
      simp only [Nat.shiftLeft_eq]
      cases s <;> cases t <;> simp only [Sign.apply] <;> omega

/-- The number 1000, unpacked. -/
def thousand : UnpackedFloat := .finite .positive (1000 * 2 ^ 43) (-43) (by decide)

theorem small_mul_thousand {k : Int} {s : Sign} {u : UnpackedFloat} (hu : Small k s u) (hmin : -1031 ≤ k) :
    Small (k + 11) s (mul .binary64 u thousand) := by
  have hsign : s * .positive = s := by cases s <;> rfl
  cases hu with
  | zero =>
    simp only [mul, thousand, hsign]
    exact .zero
  | @finite m e hm _ _ _ hsize =>
    simp only [mul, thousand, hsign]
    have hlog : (m * (1000 * 2 ^ 43)).log2 ≤ m.log2 + 53 := by
      refine log2_le_of_lt ?_
      calc m * (1000 * 2 ^ 43) < 2 ^ (m.log2 + 1) * (1000 * 2 ^ 43) :=
            Nat.mul_lt_mul_of_pos_right Nat.lt_log2_self (by decide)
        _ ≤ 2 ^ (m.log2 + 1) * 2 ^ 53 := Nat.mul_le_mul_left _ (by decide)
        _ = 2 ^ (m.log2 + 53 + 1) := by rw [← pow_add, Nat.add_right_comm]
    exact small_roundWithAccuracy s .exact (.inr (by omega)) (by omega) (by omega)

theorem small_div {k k' b : Int} {s : Sign} {d : Nat} {hd : 0 < d} {u : UnpackedFloat} (hu : Small k s u)
    (hbits : 2 ^ 52 ≤ d ∧ d < 2 ^ 53) (hk : k - 51 - b ≤ k') (hmin : -1020 ≤ k') :
    Small k' s (div .binary64 u (.finite .positive d b hd)) := by
  have hsign : s / .positive = s := by cases s <;> rfl
  cases hu with
  | zero =>
    simp only [div, hsign]
    exact .zero
  | @finite m e hm _ _ _ hsize =>
    simp only [div, hsign, divCore, Nat.shiftLeft_eq]
    have htarget : Format.binary64.targetExponent (totalExponent m e - totalExponent d b) =
        max (m.log2 + e - b - 105) (-1074) := by
      have hlog : d.log2 = 52 := (Nat.log2_eq_iff hd.ne').mpr hbits
      simp only [Format.targetExponent, totalExponent, Format.mantissaBits, Format.minExponent, hlog]
      omega
    rw [htarget]
    generalize hexp : min (e - b) (max ((m.log2 : Int) + e - b - 105) (-1074)) = e'
    generalize hshift : (e - b - e').toNat = n
    have hlower : 2 ^ (m.log2 + n) ≤ m * 2 ^ n := by
      rw [pow_add]
      exact Nat.mul_le_mul_right _ (Nat.log2_self_le hm.ne')
    have hupper : m * 2 ^ n < 2 ^ (m.log2 + 1 + n) := by
      rw [pow_add]
      exact Nat.mul_lt_mul_of_pos_right Nat.lt_log2_self (Nat.two_pow_pos n)
    -- Enough bits for a full significand, unless the quotient is tiny.
    have hfull : e' ≤ -1074 ∨ 2 ^ 52 ≤ m * 2 ^ n / d := by
      by_cases htiny : e' ≤ -1074
      · exact .inl htiny
      · have hbits : 2 ^ 105 ≤ 2 ^ (m.log2 + n) := Nat.pow_le_pow_right (by decide) (by omega)
        refine .inr ((Nat.le_div_iff_mul_le (by omega)).mpr ?_)
        omega
    refine small_roundWithAccuracy s _ hfull ?_ hmin
    by_cases hzero : m * 2 ^ n / d = 0
    · rw [hzero, Nat.log2_zero]
      omega
    · have hlog : (m * 2 ^ n / d).log2 + 52 < m.log2 + 1 + n := by
        refine (Nat.pow_lt_pow_iff_right (by decide : 1 < 2)).mp ?_
        calc 2 ^ ((m * 2 ^ n / d).log2 + 52) = 2 ^ (m * 2 ^ n / d).log2 * 2 ^ 52 := pow_add ..
          _ ≤ m * 2 ^ n / d * d := Nat.mul_le_mul (Nat.log2_self_le hzero) hbits.1
          _ ≤ m * 2 ^ n := Nat.div_mul_le_self _ _
          _ < 2 ^ (m.log2 + 1 + n) := hupper
      omega

theorem small_div_thousand {k : Int} {s : Sign} {u : UnpackedFloat} (hu : Small k s u) (hmin : -1020 ≤ k) :
    Small k s (div .binary64 u thousand) :=
  small_div hu (by decide) (by omega) hmin

/-! ## Bits -/

theorem unpackSign_packComponents {format : Format} (s : Sign) (exponent : BitVec format.exponentBits)
    (fraction : BitVec format.mantissaBitsWithoutImplicit) :
    unpackSign (packComponents format s exponent fraction) = s.toBitVec := by
  ext i hi
  obtain rfl : i = 0 := by omega
  simp [unpackSign, packComponents, BitVec.getLsbD_append, BitVec.getElem_append]

theorem toNat_implicit (fraction : BitVec 52) : (1#1 ++ fraction).toNat = 2 ^ 52 + fraction.toNat := by
  rw [BitVec.toNat_append, ← Nat.shiftLeft_add_eq_or_of_lt fraction.isLt]
  rfl

theorem ofBitVec_toBitVec (s : Sign) : Sign.ofBitVec s.toBitVec = s := by
  cases s <;> rfl

/-- The number with a sign, an exponent field and a fraction field. -/
def ofFields (s : Sign) (exponent fraction : Nat) : UnpackedFloat :=
  if exponent = 2047 then (if fraction = 0 then .infinity s else .notANumber)
  else if exponent = 0 then
    if h : fraction = 0 then .zero s else .finite s fraction (-1074) (Nat.pos_of_ne_zero h)
  else .finite s (2 ^ 52 + fraction) (exponent - 1075) (Nat.lt_add_right _ (Nat.two_pow_pos 52))

theorem unpack_eq (b : BitVec 64) : UnpackedFloat.unpack .binary64 b =
    ofFields (.ofBitVec (@unpackSign .binary64 b)) (@unpackExponent .binary64 b).toNat
      (@unpackMantissa .binary64 b).toNat := by
  have hones : @unpackExponent .binary64 b = -1#_ ↔ (@unpackExponent .binary64 b).toNat = 2047 := BitVec.toNat_eq
  have hzero : @unpackExponent .binary64 b = 0#_ ↔ (@unpackExponent .binary64 b).toNat = 0 := BitVec.toNat_eq
  have hfraction : @unpackMantissa .binary64 b = 0#_ ↔ (@unpackMantissa .binary64 b).toNat = 0 := BitVec.toNat_eq
  have hbias : ((Format.binary64.exponentBias : Int) + Format.binary64.mantissaBitsWithoutImplicit) = 1075 := rfl
  simp only [UnpackedFloat.unpack, ofFields, hones, hzero, hfraction, hbias]
  split
  · rfl
  · split
    · rename_i h
      simp only [h]
      rfl
    · congr 1
      exact toNat_implicit _

theorem unpack_packComponents (s : Sign) {exponent fraction : Nat} (hexponent : exponent < 2 ^ 11)
    (hfraction : fraction < 2 ^ 52) : UnpackedFloat.unpack .binary64
      (packComponents .binary64 s (BitVec.ofNat _ exponent) (BitVec.ofNat _ fraction)) = ofFields s exponent fraction := by
  rw [unpack_eq, unpackSign_packComponents, ofBitVec_toBitVec, unpackExponent_packComponents,
    unpackMantissa_packComponents, BitVec.toNat_ofNat, BitVec.toNat_ofNat, Nat.mod_eq_of_lt hexponent,
    Nat.mod_eq_of_lt hfraction]

theorem Small.unpack_pack {k : Int} {s : Sign} {u : UnpackedFloat} (hu : Small k s u) (hk : k ≤ 1024) :
    UnpackedFloat.unpack .binary64 (UnpackedFloat.pack .binary64 u) = u := by
  cases hu with
  | zero => cases s <;> rfl
  | @finite m e h hm he hnormal hsize =>
    have hbiased : (e + Format.binary64.exponentBias + Format.binary64.mantissaBitsWithoutImplicit).toNat =
        (e + 1075).toNat := by
      simp only [Format.exponentBias]
      omega
    simp only [UnpackedFloat.pack, hbiased]
    by_cases hfull : 2 ^ 52 ≤ m
    · have hlog : m.log2 = 52 := (Nat.log2_eq_iff h.ne').mpr ⟨hfull, hm⟩
      obtain ⟨fraction, hfraction⟩ : ∃ fraction, m = 2 ^ 52 + fraction := ⟨m - 2 ^ 52, by omega⟩
      have hbits : BitVec.ofNat 52 m = BitVec.ofNat 52 fraction := by
        apply BitVec.eq_of_toNat_eq
        simp only [BitVec.toNat_ofNat]
        omega
      rw [if_neg (by omega), if_pos (by rw [hlog]; rfl), hbits, unpack_packComponents s (by omega) (by omega), ofFields,
        if_neg (by omega), if_neg (by omega)]
      congr 1 <;> omega
    · have hlog : m.log2 < 52 := (Nat.log2_lt h.ne').mpr (by omega)
      obtain rfl : e = -1074 := hnormal.resolve_left hfull
      have hbits : Format.binary64.mantissaBits = 53 := rfl
      rw [if_neg (by decide), if_neg (by omega), unpack_packComponents s (by decide) (by omega), ofFields,
        if_neg (by decide), if_pos rfl, dif_neg h.ne']

theorem unpack_toModel (x : Float) : x.toModel.unpack =
    ofFields (if x.toBits.toNat / 0x8000000000000000 = 1 then .negative else .positive)
      (x.toBits.toNat / 0x10000000000000 % 0x800) (x.toBits.toNat % 0x10000000000000) := by
  have hlt : x.toBits.toNat < 2 ^ 64 := x.toBits.toNat_lt
  have hsign : Sign.ofBitVec (@unpackSign .binary64 x.toBits.toBitVec) =
      if x.toBits.toNat / 0x8000000000000000 = 1 then .negative else .positive := by
    have hbit : (@unpackSign .binary64 x.toBits.toBitVec).toNat = x.toBits.toNat / 0x8000000000000000 % 2 := by
      simp [unpackSign, BitVec.extractLsb_toNat, Nat.shiftRight_eq_div_pow]
    have hzero : @unpackSign .binary64 x.toBits.toBitVec = 0#1 ↔ ¬ x.toBits.toNat / 0x8000000000000000 = 1 := by
      rw [BitVec.toNat_eq, hbit, BitVec.toNat_zero]
      omega
    simp only [Sign.ofBitVec, hzero, ite_not]
  have hexponent : (@unpackExponent .binary64 x.toBits.toBitVec).toNat = x.toBits.toNat / 0x10000000000000 % 0x800 := by
    simp [unpackExponent, BitVec.extractLsb_toNat, Nat.shiftRight_eq_div_pow]
  have hfraction : (@unpackMantissa .binary64 x.toBits.toBitVec).toNat = x.toBits.toNat % 0x10000000000000 := by
    simp [unpackMantissa, BitVec.extractLsb_toNat]
  rw [← hsign, ← hexponent, ← hfraction]
  exact unpack_eq _

/-! ## Numbers below a power of 2 -/

/-- A number of sign `s` less than `2 ^ k` in size. -/
def Under (k : Int) (s : Sign) (x : Float) : Prop := Small k s x.toModel.unpack

namespace Under

variable {k k' : Int} {s t : Sign} {x y : Float}

theorem mono (hx : Under k s x) (hk : k ≤ k') : Under k' s x := Small.mono hx hk

theorem of_small {u : UnpackedFloat} (hu : Small k s u) (hk : k ≤ 1024)
    (hx : x.toModel.unpack = UnpackedFloat.unpack .binary64 (UnpackedFloat.pack .binary64 u)) : Under k s x := by
  unfold Under
  rwa [hx, hu.unpack_pack hk]

theorem add (hx : Under k .positive x) (hy : Under k .positive y) (hmin : -1022 ≤ k) (hmax : k ≤ 1022) :
    Under (k + 2) .positive (x + y) :=
  of_small (small_add hx hy hmin) (by omega) rfl

theorem sub (hx : Under k s x) (hy : Under k t y) (hmin : -1022 ≤ k) (hmax : k ≤ 1022) :
    ∃ r, Under (k + 2) r (x - y) := by
  obtain ⟨r, hdiff⟩ := small_sub hx hy hmin
  exact ⟨r, of_small hdiff (by omega) rfl⟩

theorem mul_thousand (hx : Under k s x) (hmin : -1031 ≤ k) (hmax : k ≤ 1013) : Under (k + 11) s (x * 1000) :=
  of_small (small_mul_thousand hx hmin) (by omega) rfl

theorem div_thousand (hx : Under k s x) (hmin : -1020 ≤ k) (hmax : k ≤ 1024) : Under k s (x / 1000) :=
  of_small (small_div_thousand hx hmin) hmax rfl

theorem div {d : Nat} {b : Int} {hd : 0 < d} (hx : Under k s x) (hy : y.toModel.unpack = .finite .positive d b hd)
    (hbits : 2 ^ 52 ≤ d ∧ d < 2 ^ 53) (hb : -52 ≤ b) (hmin : -1021 ≤ k) (hmax : k ≤ 1023) : Under (k + 1) s (x / y) := by
  have hdiv : Small (k + 1) s (UnpackedFloat.div .binary64 x.toModel.unpack y.toModel.unpack) := by
    rw [hy]
    exact small_div hx hbits (by omega) (by omega)
  exact of_small hdiv (by omega) rfl

theorem neg (hx : Under k .positive x) (hmax : k ≤ 1024) : Under k .negative (-x) := by
  have hneg : Small k .negative (UnpackedFloat.neg x.toModel.unpack) := by
    unfold Under at hx
    generalize x.toModel.unpack = u at hx
    cases hx with
    | zero => exact .zero
    | finite hm he hnormal hsize => exact .finite hm he hnormal hsize
  exact of_small hneg hmax rfl

theorem doubled {n : Nat} (hx : Under k .positive x) (hmin : -1022 ≤ k) (hmax : k + 2 * n ≤ 1024) :
    Under (k + 2 * n) .positive (Binary64.doubled n x) := by
  induction n generalizing k x with
  | zero => exact hx.mono (by omega)
  | succ n ih =>
    have htwice := hx.add hx hmin (by omega)
    exact (ih htwice (by omega) (by omega)).mono (by omega)

theorem decode (hx : Under k s x) : ∃ negative m e, Binary64.decode x = some (negative, m, e) ∧
    (m = 0 ∨ m.log2 + 1 + e ≤ k) := by
  unfold Under at hx
  rw [unpack_toModel, ofFields] at hx
  unfold Binary64.decode
  dsimp only
  split at hx
  · split at hx <;> cases hx
  · rename_i hfinite
    rw [if_neg hfinite]
    split at hx
    · rename_i hsub
      rw [if_pos hsub]
      split at hx
      · rename_i hzero
        exact ⟨_, _, _, rfl, .inl hzero⟩
      · cases hx with
        | finite _ _ _ hsize => exact ⟨_, _, _, rfl, .inr hsize⟩
    · rename_i hnormal
      rw [if_neg hnormal]
      cases hx with
      | finite _ _ _ hsize => exact ⟨_, _, _, rfl, .inr hsize⟩

theorem truncate {n : Nat} (hx : Under n s x) : ∃ r, Binary64.truncate x = .ok r ∧ r.natAbs < 2 ^ n := by
  obtain ⟨negative, m, e, hdecode, hsize⟩ := hx.decode
  have hsplit : (split m e).1 < 2 ^ n := by
    rcases hsize with rfl | hsize
    · have hzero : (split 0 e).1 = 0 := by cases e <;> simp [split]
      rw [hzero]
      exact Nat.two_pow_pos n
    · cases e with
      | ofNat j =>
        have hlt := mul_two_pow_lt (show (0 : Int) ≤ j by omega) hsize
        simpa [split] using hlt
      | negSucc j =>
        rw [Int.negSucc_eq] at hsize
        refine (Nat.div_lt_iff_lt_mul (Nat.two_pow_pos _)).mpr ?_
        calc m < 2 ^ (m.log2 + 1) := Nat.lt_log2_self
          _ ≤ 2 ^ (n + (j + 1)) := Nat.pow_le_pow_right (by decide) (by omega)
          _ = 2 ^ n * 2 ^ (j + 1) := pow_add ..
  refine ⟨_, by simp only [Binary64.truncate, hdecode]; rfl, ?_⟩
  split <;> omega

end Under

theorem under_toFloat {m : Nat} (hm : m ≤ 2 ^ 53) : Under 55 .positive m.toUInt64.toFloat := by
  have hnat : m.toUInt64.toNat = m := by
    simp only [Nat.toUInt64, UInt64.toNat_ofNat']
    omega
  have hlog : m.log2 ≤ 53 := log2_le_of_lt (by omega)
  have hsmall := small_normalize (n := m) (e := 0) (k := 55) (by rw [Int.natAbs_natCast]; omega) (by omega)
  rw [if_neg (by omega), ← hnat] at hsmall
  exact .of_small hsmall (by omega) rfl

theorem nearest_bounds (n : Nat) : (nearest n).1 ≤ 2 ^ 53 ∧ (nearest n).2 = n.log2 - 52 := by
  refine ⟨?_, rfl⟩
  have hlt : n / 2 ^ (n.log2 - 52) < 2 ^ 53 := by
    rw [Nat.div_lt_iff_lt_mul (Nat.two_pow_pos _), ← pow_add]
    calc n < 2 ^ (n.log2 + 1) := Nat.lt_log2_self
      _ ≤ 2 ^ (53 + (n.log2 - 52)) := Nat.pow_le_pow_right (by decide) (by omega)
  have hcases : (nearest n).1 = n / 2 ^ (n.log2 - 52) + 1 ∨ (nearest n).1 = n / 2 ^ (n.log2 - 52) := by
    unfold nearest
    dsimp only
    split
    · exact .inl rfl
    · exact .inr rfl
  omega

theorem under_ofNat? {n j : Nat} (hlt : n < 2 ^ j) (hj : 53 ≤ j ∧ j ≤ 500) :
    ∃ x, ofNat? n = some x ∧ Under (2 * j) .positive x := by
  obtain ⟨hm, he⟩ := nearest_bounds n
  have hlog : n.log2 ≤ j := log2_le_of_lt (Nat.lt_trans hlt (Nat.pow_lt_pow_succ (by decide)))
  have hnat : ofNat? n = some (doubled (nearest n).2 (nearest n).1.toUInt64.toFloat) := by
    have hfits : (nearest n).1 * 2 ^ (nearest n).2 < 2 ^ 1024 := calc
      (nearest n).1 * 2 ^ (nearest n).2 ≤ 2 ^ 53 * 2 ^ (nearest n).2 := Nat.mul_le_mul_right _ hm
      _ = 2 ^ (53 + (nearest n).2) := (pow_add ..).symm
      _ < 2 ^ 1024 := pow_lt_pow_right₀ (by decide) (by omega)
    unfold ofNat?
    generalize nearest n = r at hfits
    dsimp only
    generalize 1024 = limit at hfits ⊢
    exact if_neg (Nat.not_le.mpr hfits)
  have hunder := (under_toFloat hm).doubled (n := (nearest n).2) (by omega) (by omega)
  exact ⟨_, hnat, hunder.mono (by omega)⟩

theorem under_ofInt {n : Int} {j : Nat} (hn : 0 ≤ n) (hlt : n < 2 ^ j) (hj : 53 ≤ j ∧ j ≤ 500) :
    ∃ x, ofInt n = .ok x ∧ Under (2 * j) .positive x := by
  have habs : n.natAbs < 2 ^ j := by
    have hself : (n.natAbs : Int) = n := Int.natAbs_of_nonneg hn
    exact_mod_cast hself ▸ hlt
  obtain ⟨x, hx, hunder⟩ := under_ofNat? habs hj
  refine ⟨x, ?_, hunder⟩
  unfold ofInt
  rw [hx]
  exact congrArg Except.ok (if_neg (Int.not_lt.mpr hn))

theorem under_ofInt_natAbs {n : Int} {j : Nat} (hlt : n.natAbs < 2 ^ j) (hj : 53 ≤ j ∧ j ≤ 500) :
    ∃ x s, ofInt n = .ok x ∧ Under (2 * j) s x := by
  obtain ⟨x, hx, hunder⟩ := under_ofNat? hlt hj
  unfold ofInt
  rw [hx]
  dsimp only
  split
  · exact ⟨-x, .negative, rfl, hunder.neg (by omega)⟩
  · exact ⟨x, .positive, rfl, hunder⟩

theorem under_of_decode {x : Float} {m : Nat} {e : Int} (h : decode x = some (false, m, e)) :
    Under (53 + e) .positive x := by
  unfold Under
  rw [unpack_toModel, ofFields]
  unfold decode at h
  dsimp only at h
  split at h
  · cases h
  · rename_i hfinite
    rw [if_neg hfinite]
    split at h
    · rename_i hsub
      obtain ⟨hsign, rfl, rfl⟩ : _ ∧ _ ∧ _ := by simpa using h
      rw [if_pos hsub, if_neg hsign]
      split
      · exact .zero
      · rename_i hzero
        have hlog := (Nat.log2_lt hzero).mpr (Nat.mod_lt x.toBits.toNat (Nat.two_pow_pos 52))
        exact .finite (by omega) (by omega) (.inr rfl) (by omega)
    · rename_i hnormal
      obtain ⟨hsign, rfl, rfl⟩ : _ ∧ _ ∧ _ := by simpa using h
      rw [if_neg hnormal, if_neg hsign]
      have hlt : x.toBits.toNat % 0x10000000000000 < 2 ^ 52 := Nat.mod_lt _ (Nat.two_pow_pos 52)
      have hlog : (2 ^ 52 + x.toBits.toNat % 0x10000000000000).log2 ≤ 52 := log2_le_of_lt (by omega)
      exact .finite (by omega) (by omega) (.inl (by omega)) (by omega)

/-! ## Lost in a sum -/

theorem roundedMantissa_of_low {m n : Nat} (h : m / 2 ^ n % 2 = 0) :
    (ExtendedMantissa.mk m false false >>> (n + 1)).roundedMantissa = m / 2 ^ (n + 1) := by
  have hround : (ExtendedMantissa.mk m false false >>> (n + 1)).roundBit = false := by
    change ((ExtendedMantissa.mk m false false >>> n).mantissa % 2 != 0) = false
    rw [mantissa_shiftRight, h]
    rfl
  rw [← mantissa_shiftRight (ExtendedMantissa.mk m false false)]
  generalize ExtendedMantissa.mk m false false >>> (n + 1) = em at hround
  obtain ⟨m', _, _ | _⟩ := em <;> cases hround <;> rfl

/-- What is less than half a unit in the last place of a number is lost in a sum. -/
theorem add_of_low {m m' : Nat} {e e' : Int} {h : 0 < m} {h' : 0 < m'} (hm : m < 2 ^ 53) (hfull : 2 ^ 52 ≤ m)
    (he : -1074 ≤ e) (hlow : m'.log2 + 1 + e' < e) :
    add .binary64 (.finite .positive m e h) (.finite .positive m' e' h') = .finite .positive m e h := by
  obtain ⟨n, hn⟩ : ∃ n : Nat, e - e' = n + 1 := ⟨(e - e' - 1).toNat, by omega⟩
  have hm' : m' < 2 ^ n := Nat.lt_of_lt_of_le Nat.lt_log2_self (Nat.pow_le_pow_right (by decide) (by omega))
  -- The small term does not carry into the bits of the large one.
  have hlog : (m * 2 ^ (n + 1) + m').log2 = 52 + (n + 1) := by
    refine (Nat.log2_eq_iff (by omega)).mpr ⟨?_, ?_⟩
    · calc 2 ^ (52 + (n + 1)) = 2 ^ 52 * 2 ^ (n + 1) := pow_add ..
        _ ≤ m * 2 ^ (n + 1) := Nat.mul_le_mul_right _ hfull
        _ ≤ m * 2 ^ (n + 1) + m' := Nat.le_add_right _ _
    · calc m * 2 ^ (n + 1) + m' < m * 2 ^ (n + 1) + 2 ^ (n + 1) :=
            Nat.add_lt_add_left (Nat.lt_trans hm' (Nat.pow_lt_pow_succ (by decide))) _
        _ = (m + 1) * 2 ^ (n + 1) := (Nat.succ_mul ..).symm
        _ ≤ 2 ^ 53 * 2 ^ (n + 1) := Nat.mul_le_mul_right _ hm
        _ = 2 ^ (52 + (n + 1) + 1) := by rw [← pow_add, Nat.add_right_comm]
  have hexcess : excess (m * 2 ^ (n + 1) + m') e' = n + 1 := by
    unfold excess
    rw [hlog]
    omega
  -- It lies below half of the last place, so it is rounded away.
  have hhalf : (m * 2 ^ (n + 1) + m') / 2 ^ n = 2 * m := by
    rw [pow_succ', ← Nat.mul_assoc, Nat.mul_comm, Nat.mul_add_div (Nat.two_pow_pos n), Nat.div_eq_of_lt hm']
    omega
  have hrounded : rounded (m * 2 ^ (n + 1) + m') e' .exact = m := by
    have hlow := roundedMantissa_of_low (m := m * 2 ^ (n + 1) + m') (n := n) (by omega)
    unfold rounded
    rw [hexcess]
    refine hlow.trans ?_
    rw [pow_succ, ← Nat.div_div_eq_div_mul, ← pow_succ, hhalf]
    omega
  have hsum : add .binary64 (.finite .positive m e h) (.finite .positive m' e' h') =
      round .binary64 .positive (m * 2 ^ (n + 1) + m') e' := by
    have hshift : (e - e').toNat = n + 1 := by omega
    have hmin : min e e' = e' := min_eq_right (by omega)
    have hcmp : compare (((m * 2 ^ (n + 1) : Nat) : Int) + (m' : Nat)) 0 = .gt := Int.compare_eq_gt.mpr (by omega)
    simp only [add, decreaseExponent, Sign.apply, Nat.shiftLeft_eq, hmin, hshift, sub_self, Int.toNat_zero, pow_zero,
      mul_one, UnpackedFloat.normalize, hcmp]
    rfl
  have htarget : Format.binary64.targetExponent (totalExponent (m * 2 ^ (n + 1) + m') e') = e := by
    rw [targetExponent_eq, hlog]
    omega
  have hkeep : (e' - e).toNat = 0 := by omega
  rw [hsum]
  simp only [UnpackedFloat.round, htarget, decreaseExponent, hkeep, Nat.shiftLeft_zero, Nat.cast_zero, sub_zero]
  have hbits : 2 ^ 52 ≤ m * 2 ^ (n + 1) + m' := (Nat.le_log2 (by omega)).mp (by omega)
  rw [roundWithAccuracy_eq .positive .exact (.inr hbits), ← targetExponent_eq, htarget]
  simp only [hrounded, h.ne', hm, dite_false, if_true]

theorem sub_self_eq_zero {s : Sign} {m : Nat} {e : Int} {h : 0 < m} :
    sub .binary64 (.finite s m e h) (.finite s m e h) = .zero .positive := by
  simp [sub, UnpackedFloat.normalize]

/-! ## Waiting for a while -/

/-- A time that is not negative. The limit is far beyond all times that are ever reached. -/
def IsTime (x : Float) : Prop := Under 953 .positive x

theorem isTime_of_decode {x : Float} {m : Nat} {e : Int} (h : decode x = some (false, m, e)) (he : e ≤ 900) : IsTime x :=
  (under_of_decode h).mono (by omega)

theorem unpack_of_late {c : Float} (hc : IsTime c) (hlate : ¬ Under 200 .positive c) :
    ∃ m e h, c.toModel.unpack = .finite .positive m e h ∧ m < 2 ^ 53 ∧ 2 ^ 52 ≤ m ∧ 147 < e := by
  unfold IsTime Under at *
  generalize c.toModel.unpack = u at *
  cases hc with
  | zero => exact absurd .zero hlate
  | @finite m e h hm he hnormal _ =>
    have hlog : m.log2 ≤ 52 := log2_le_of_lt hm
    have hlarge : ¬ m.log2 + 1 + e ≤ 200 := fun hsize => hlate (.finite hm he hnormal hsize)
    exact ⟨m, e, h, rfl, hm, hnormal.resolve_right (by omega), by omega⟩

/-- Something small makes no difference to a late time. -/
theorem late_add {c x : Float} (hc : IsTime c) (hlate : ¬ Under 200 .positive c) (hx : Under 140 .positive x) :
    (c + x).toModel.unpack = c.toModel.unpack := by
  obtain ⟨m, e, h, hu, hm, hfull, he⟩ := unpack_of_late hc hlate
  have hsum : add .binary64 c.toModel.unpack x.toModel.unpack = c.toModel.unpack := by
    unfold Under at hx
    rw [hu]
    generalize x.toModel.unpack = v at hx
    cases hx with
    | zero => rfl
    | finite _ _ _ hsize => exact add_of_low hm hfull (by omega) (by omega)
  have hpacked : (c + x).toModel.unpack = UnpackedFloat.unpack .binary64
      (UnpackedFloat.pack .binary64 (add .binary64 c.toModel.unpack x.toModel.unpack)) := rfl
  rw [hpacked, hsum, Small.unpack_pack hc (by decide)]

theorem late_sub {c x : Float} (hc : IsTime c) (hlate : ¬ Under 200 .positive c) (hx : Under 140 .positive x) :
    Under 0 .positive (c + x - c) := by
  have hsame := late_add hc hlate hx
  obtain ⟨m, e, h, hu, -⟩ := unpack_of_late hc hlate
  have hdiff : sub .binary64 (c + x).toModel.unpack c.toModel.unpack = .zero .positive := by
    rw [hsame, hu, sub_self_eq_zero]
  exact .of_small (.zero : Small 0 .positive (.zero .positive)) (by decide) (by rw [← hdiff]; rfl)

theorem remaining_ok {c : Float} {n : Int} (hc : IsTime c) (hn : 0 ≤ n ∧ n < 2 ^ 63) :
    ∃ ms, ofInt n = .ok ms ∧ ∃ left, truncate ((c + ms / 1000 - c) * 1000) = .ok left ∧
      ∃ pause, ofInt (max 0 left) = .ok pause ∧ IsTime (c + pause / 1000) := by
  obtain ⟨ms, hms, hunder⟩ := under_ofInt (j := 63) hn.1 hn.2 (by decide)
  have hx : Under 126 .positive (ms / 1000) := hunder.div_thousand (by decide) (by decide)
  refine ⟨ms, hms, ?_⟩
  by_cases hearly : Under 200 .positive c
  · have hsum := hearly.add (hx.mono (by decide)) (by decide) (by decide)
    obtain ⟨s, hdiff⟩ := hsum.sub (hearly.mono (by decide)) (by decide) (by decide)
    have hprod := hdiff.mul_thousand (by decide) (by decide)
    obtain ⟨left, hleft, hlt⟩ := Under.truncate (n := 215) hprod
    obtain ⟨pause, hpause, hunder'⟩ := under_ofInt (n := max 0 left) (j := 215) (by omega) (by omega) (by decide)
    have hy := hunder'.div_thousand (by decide) (by decide)
    exact ⟨left, hleft, pause, hpause, ((hearly.mono (by decide)).add hy (by decide) (by decide)).mono (by decide)⟩
  · have hprod := (late_sub hc hearly (hx.mono (by decide))).mul_thousand (by decide) (by decide)
    obtain ⟨left, hleft, hlt⟩ := Under.truncate (n := 11) hprod
    obtain ⟨pause, hpause, hunder'⟩ := under_ofInt (n := max 0 left) (j := 53) (by omega) (by omega) (by decide)
    have hy := hunder'.div_thousand (by decide) (by decide)
    refine ⟨left, hleft, pause, hpause, ?_⟩
    unfold IsTime Under
    rw [late_add hc hearly (hy.mono (by decide))]
    exact hc

end GraphicsBatch.Binary64
