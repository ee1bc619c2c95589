import Mathlib.Tactic.Ring
import PrefixScript.Proofs.Number.Bits

namespace PrefixScript.Number

open Float.Model Float.Model.UnpackedFloat

def Fits : UnpackedFloat → Prop
  | .zero _ => True
  | .finite _ _ e _ => e ≤ 971
  | .infinity _ | .notANumber => False

@[simp] theorem fits_finite {s : Sign} {m : Nat} {e : Int} {hm : 0 < m} :
    Fits (.finite s m e hm) ↔ e ≤ 971 := .rfl

theorem fits_dite {s : Sign} {m : Nat} {e : Int} {hm : ¬ m = 0 → 0 < m} (he : e ≤ 971) :
    Fits (if h : m = 0 then .zero s else .finite s m e (hm h)) := by
  by_cases h : m = 0
  · rw [dif_pos h]
    trivial
  · rw [dif_neg h]
    exact he

@[irreducible] def halfExponent : Nat := 2044

/-- Half a unit beyond the greatest finite number, counted in units of the least one. -/
def overflow : Nat := (2 ^ 54 - 1) * 2 ^ halfExponent

section Unpack

theorem unpack_cases {w : BitVec Format.binary64.numBits} (h : unpackExponent w ≠ -1#_) :
    (∃ s, UnpackedFloat.unpack .binary64 w = .zero s) ∨
      ∃ s m e, ∃ hm, UnpackedFloat.unpack .binary64 w = .finite s m e hm ∧
        m < 2 ^ 53 ∧ -1074 ≤ e ∧ e ≤ 971 := by
  have hm : (unpackMantissa w).toNat < 2 ^ 52 := (unpackMantissa w).isLt
  have he : (unpackExponent w).toNat < 2 ^ 11 := (unpackExponent w).isLt
  have hall : (unpackExponent w).toNat ≠ 2047 := fun heq => h (BitVec.eq_of_toNat_eq heq)
  by_cases hzero : unpackExponent w = 0#_
  · by_cases hmantissa : unpackMantissa w = 0#_
    · exact .inl ⟨_, unpack_of_zero hzero hmantissa⟩
    · obtain ⟨hpos, hunpack⟩ := unpack_of_low hzero hmantissa
      exact .inr ⟨_, _, _, hpos, hunpack, by omega, by omega, by omega⟩
  · have hne : (unpackExponent w).toNat ≠ 0 := fun heq => hzero (BitVec.eq_of_toNat_eq heq)
    have happend := toNat_implicit_append (unpackMantissa w)
    obtain ⟨hpos, hunpack⟩ := unpack_of_normal h hzero
    exact .inr ⟨_, _, _, hpos, hunpack, by omega, by omega, by omega⟩

theorem isFinite_unpack {w : BitVec Format.binary64.numBits} (h : unpackExponent w ≠ -1#_) :
    (UnpackedFloat.unpack .binary64 w).isFinite = true := by
  rcases unpack_cases h with ⟨s, hs⟩ | ⟨s, m, e, hm, hs, -⟩ <;> rw [hs] <;> rfl

theorem unpackExponent_ne_of_isFinite {w : BitVec Format.binary64.numBits}
    (h : (UnpackedFloat.unpack .binary64 w).isFinite = true) : unpackExponent w ≠ -1#_ := by
  intro heq
  rw [unpack_of_full heq] at h
  split at h <;> contradiction

theorem isFinite_of_finite {x : Float} (h : Finite x) : x.isFinite = true :=
  isFinite_unpack (unpackExponent_ne h)

theorem isFinite_pack {u : UnpackedFloat} (h : Fits u) :
    (Float.ofModel (Float.Model.pack u)).isFinite = true := by
  apply isFinite_unpack
  change unpackExponent (UnpackedFloat.pack .binary64 u) ≠ _
  cases u with
  | infinity | notANumber => exact h.elim
  | zero s => cases s <;> decide
  | finite s m e hm =>
    have hexponent : (e + (1023 : Nat) + (52 : Nat)).toNat < 2047 := by
      rw [fits_finite] at h
      omega
    rw [pack_finite, if_neg (by omega)]
    split
    · rw [unpackExponent_packComponents]
      intro heq
      have hnat := congrArg BitVec.toNat heq
      change _ % 2 ^ 11 = 2047 at hnat
      omega
    · rw [unpackExponent_packComponents]
      decide

end Unpack

section Rounding

variable {m : Nat} {e : Int}

theorem mantissa_shiftRight (x : ExtendedMantissa) (k : Nat) :
    (x >>> k).mantissa = x.mantissa / 2 ^ k := by
  induction k with
  | zero => exact (Nat.div_one _).symm
  | succ k ih =>
    change (x >>> k).mantissa / 2 = _
    rw [ih, Nat.div_div_eq_div_mul, Nat.pow_succ]

theorem roundBit_shiftRight (x : ExtendedMantissa) (k : Nat) :
    (x >>> (k + 1)).roundBit = (x.mantissa / 2 ^ k % 2 != 0) := by
  rw [← mantissa_shiftRight]
  rfl

theorem roundedMantissa_le (x : ExtendedMantissa) :
    x.roundedMantissa ≤ x.mantissa + x.roundBit.toNat := by
  obtain ⟨m, round, sticky⟩ := x
  change Accuracy.roundToNearestEven m _ ≤ m + round.toNat
  have hone : true.toNat = 1 := rfl
  cases round <;> cases sticky <;>
    simp only [ExtendedMantissa.accuracy, Accuracy.roundToNearestEven] <;> grind

theorem log2_le_of_lt {n k : Nat} (h : n < 2 ^ (k + 1)) : n.log2 ≤ k := by
  by_cases hn : n = 0
  · subst hn
    simp
  · exact Nat.le_of_lt_succ ((Nat.log2_lt hn).2 h)

theorem targetExponent_eq (m : Nat) (e : Int) :
    Format.binary64.targetExponent (totalExponent m e) = max (m.log2 + 1 + e - 53) (-1074) := by
  rfl

theorem roundedMantissa_lt {k : Nat} (h : 2 * m < (2 ^ 54 - 1) * 2 ^ k) :
    (ExtendedMantissa.ofMantissaAndAccuracy m .exact >>> k).roundedMantissa < 2 ^ 53 := by
  have hle := roundedMantissa_le (ExtendedMantissa.ofMantissaAndAccuracy m .exact >>> k)
  rw [mantissa_shiftRight] at hle
  change _ ≤ m / 2 ^ k + _ at hle
  cases k with
  | zero =>
    change m < 2 ^ 53
    omega
  | succ j =>
    rw [roundBit_shiftRight] at hle
    change _ ≤ _ + (m / 2 ^ j % 2 != 0).toNat at hle
    have hhalf : m / 2 ^ j < 2 ^ 54 - 1 := by
      rw [Nat.div_lt_iff_lt_mul (Nat.two_pow_pos j)]
      rw [Nat.pow_succ] at h
      omega
    rw [Nat.pow_succ, ← Nat.div_div_eq_div_mul] at hle
    generalize m / 2 ^ j = q at hle hhalf
    rcases Nat.mod_two_eq_zero_or_one q with hbit | hbit <;> simp [hbit] at hle <;> omega

theorem log2_add_le (h : m * 2 ^ (e + 1074).toNat < overflow) (hlow : -1074 ≤ e) (hm : m ≠ 0) :
    m.log2 + e ≤ 1023 := by
  have hpow : 2 ^ (m.log2 + (e + 1074).toNat) < 2 ^ (54 + halfExponent) :=
    calc 2 ^ (m.log2 + (e + 1074).toNat) = 2 ^ m.log2 * 2 ^ (e + 1074).toNat := Nat.pow_add ..
      _ ≤ m * 2 ^ (e + 1074).toNat := Nat.mul_le_mul_right _ (Nat.log2_self_le hm)
      _ < overflow := h
      _ < 2 ^ 54 * 2 ^ halfExponent := Nat.mul_lt_mul_of_pos_right (by decide) (Nat.two_pow_pos _)
      _ = 2 ^ (54 + halfExponent) := by rw [Nat.pow_add]
  have hlt := (Nat.pow_lt_pow_iff_right (by decide)).1 hpow
  simp only [halfExponent] at hlt
  omega

theorem two_mul_lt {k : Nat} (h : m * 2 ^ (e + 1074).toNat < overflow) (hk : e + k = 971)
    (hlow : -1074 ≤ e) : 2 * m < (2 ^ 54 - 1) * 2 ^ k := by
  apply Nat.lt_of_mul_lt_mul_right (a := 2 ^ halfExponent)
  have hexponent : (e + 1074).toNat + k = halfExponent + 1 := by
    simp only [halfExponent]
    omega
  calc 2 * m * 2 ^ halfExponent = m * 2 ^ (halfExponent + 1) := by rw [Nat.pow_succ]; ring
    _ = m * 2 ^ (e + 1074).toNat * 2 ^ k := by rw [← hexponent, Nat.pow_add, Nat.mul_assoc]
    _ < overflow * 2 ^ k := Nat.mul_lt_mul_of_pos_right h (Nat.two_pow_pos k)
    _ = (2 ^ 54 - 1) * 2 ^ k * 2 ^ halfExponent := by rw [overflow, Nat.mul_right_comm]

theorem fits_roundWithAccuracy (sign : Sign) (hlow : -1074 ≤ e)
    (hhigh : e ≤ Format.binary64.targetExponent (totalExponent m e))
    (hlt : m * 2 ^ (e + 1074).toNat < overflow) :
    Fits (roundWithAccuracy .binary64 sign m e .exact) := by
  rw [targetExponent_eq] at hhigh
  generalize ht : max ((m.log2 : Int) + 1 + e - 53) (-1074) = t at hhigh
  obtain ⟨k, rfl⟩ : ∃ k : Nat, t = e + k := ⟨(t - e).toNat, by omega⟩
  have hshift : (e + k - e).toNat = k := by omega
  generalize hr : (ExtendedMantissa.ofMantissaAndAccuracy m .exact >>> k).roundedMantissa = r
  have htarget : e + k ≤ 971 := by
    by_cases hm : m = 0
    · subst hm
      simp only [Nat.log2_zero] at ht
      omega
    · have hlog := log2_add_le hlt hlow hm
      omega
  -- The rounded mantissa is at most a power of two, and below it at the greatest exponent.
  have hrounded : (r.log2 : Int) + 1 + (e + k) - 53 ≤ 971 := by
    by_cases hk : e + k = 971
    · have hlt := roundedMantissa_lt (two_mul_lt hlt hk hlow)
      rw [hr] at hlt
      have hlog := log2_le_of_lt (k := 52) hlt
      omega
    · have hle := roundedMantissa_le (ExtendedMantissa.ofMantissaAndAccuracy m .exact >>> k)
      rw [mantissa_shiftRight, hr] at hle
      have hone := Bool.toNat_le (ExtendedMantissa.ofMantissaAndAccuracy m .exact >>> k).roundBit
      have hmantissa : m / 2 ^ k < 2 ^ 53 := by
        rw [Nat.div_lt_iff_lt_mul (Nat.two_pow_pos k), ← Nat.pow_add]
        exact Nat.lt_of_lt_of_le Nat.lt_log2_self (Nat.pow_le_pow_right (by decide) (by omega))
      change r ≤ m / 2 ^ k + _ at hle
      have hlog := log2_le_of_lt (k := 53) (show r < 2 ^ 54 by omega)
      omega
  unfold roundWithAccuracy shiftToTargetExponent shiftToExponent
  dsimp only
  rw [targetExponent_eq, ht, hshift, hr, targetExponent_eq]
  exact fits_dite (by omega)

theorem fits_round (sign : Sign) (hm : m ≠ 0) (hlow : -1074 ≤ e)
    (hlt : m * 2 ^ (e + 1074).toNat < overflow) :
    Fits (UnpackedFloat.round .binary64 sign m e) := by
  simp only [UnpackedFloat.round, decreaseExponent, targetExponent_eq, Nat.shiftLeft_eq]
  generalize hd : (e - max ((m.log2 : Int) + 1 + e - 53) (-1074)).toNat = d
  apply fits_roundWithAccuracy
  · omega
  · rw [targetExponent_eq]
    have hlog : m.log2 + d ≤ (m * 2 ^ d).log2 := by
      rw [Nat.le_log2 (Nat.mul_ne_zero hm (Nat.two_pow_pos d).ne'), Nat.pow_add]
      exact Nat.mul_le_mul_right _ (Nat.log2_self_le hm)
    omega
  · have hexponent : d + (e - d + 1074).toNat = (e + 1074).toNat := by omega
    rwa [Nat.mul_assoc, ← Nat.pow_add, hexponent]

theorem fits_normalize {z : Int} (zeroSign : Sign) (hlow : -1074 ≤ e)
    (hlt : z.natAbs * 2 ^ (e + 1074).toNat < overflow) :
    Fits (UnpackedFloat.normalize .binary64 z e zeroSign) := by
  unfold UnpackedFloat.normalize
  split
  · next h =>
    rw [Int.compare_eq_lt] at h
    have hz : (-z).toNat = z.natAbs := by omega
    exact fits_round _ (by omega) hlow (by rwa [hz])
  · trivial
  · next h =>
    rw [Int.compare_eq_gt] at h
    have hz : z.toNat = z.natAbs := by omega
    exact fits_round _ (by omega) hlow (by rwa [hz])

end Rounding

theorem natAbs_apply (s : Sign) (n : Nat) : (s.apply n).natAbs = n := by
  cases s <;> simp [Sign.apply]

theorem fits_add {s₁ s₂ : Sign} {m₁ m₂ : Nat} {e₁ e₂ : Int} (h₁ : 0 < m₁) (h₂ : 0 < m₂)
    (hlow₁ : -1074 ≤ e₁) (hlow₂ : -1074 ≤ e₂)
    (hlt : m₁ * 2 ^ (e₁ + 1074).toNat + m₂ * 2 ^ (e₂ + 1074).toNat < overflow) :
    Fits (UnpackedFloat.add .binary64 (.finite s₁ m₁ e₁ h₁) (.finite s₂ m₂ e₂ h₂)) := by
  change Fits (UnpackedFloat.normalize .binary64 _ (min e₁ e₂) _)
  simp only [Nat.shiftLeft_eq]
  generalize hd₁ : (e₁ - min e₁ e₂).toNat = d₁
  generalize hd₂ : (e₂ - min e₁ e₂).toNat = d₂
  have hexponent₁ : d₁ + (min e₁ e₂ + 1074).toNat = (e₁ + 1074).toNat := by omega
  have hexponent₂ : d₂ + (min e₁ e₂ + 1074).toNat = (e₂ + 1074).toNat := by omega
  apply fits_normalize
  · omega
  · apply Nat.lt_of_le_of_lt _ hlt
    rw [← hexponent₁, ← hexponent₂, Nat.pow_add, Nat.pow_add, ← Nat.mul_assoc, ← Nat.mul_assoc,
      ← Nat.add_mul]
    apply Nat.mul_le_mul_right
    apply Nat.le_trans (Int.natAbs_add_le _ _)
    rw [natAbs_apply, natAbs_apply]

def unit (s : Sign) : UnpackedFloat :=
  .finite s (2 ^ 52) (-52) (by decide)

theorem lt_overflow {m : Nat} {e : Int} (hm : m < 2 ^ 53) (he : e ≤ 971) :
    m * 2 ^ (e + 1074).toNat + 2 ^ 52 * 2 ^ ((-52 : Int) + 1074).toNat < overflow := by
  have hlarge : m * 2 ^ (e + 1074).toNat ≤ (2 ^ 53 - 1) * 2 ^ (halfExponent + 1) := by
    apply Nat.mul_le_mul (by omega) (Nat.pow_le_pow_right (by decide) _)
    simp only [halfExponent]
    omega
  have hsmall : 2 ^ 52 * 2 ^ ((-52 : Int) + 1074).toNat < 2 ^ halfExponent := by
    rw [← Nat.pow_add]
    apply Nat.pow_lt_pow_right (by decide)
    simp [halfExponent]
  rw [Nat.pow_succ] at hlarge
  rw [overflow]
  omega

theorem isFinite_add_unit {x y : Float} {s : Sign} (hx : x.isFinite = true)
    (hy : y.toModel.unpack = unit s) : (x + y).isFinite = true := by
  apply isFinite_pack
  rw [hy]
  change Fits (UnpackedFloat.add .binary64
    (UnpackedFloat.unpack .binary64 x.toModel.toBits.toBitVec) _)
  obtain ⟨t, ht⟩ | ⟨t, m, e, hm, ht, hlt, hlow, hhigh⟩ :=
    unpack_cases (unpackExponent_ne_of_isFinite hx)
  · rw [ht]
    exact show (-52 : Int) ≤ 971 by decide
  · rw [ht]
    exact fits_add hm _ hlow (by decide) (lt_overflow hlt hhigh)

theorem isFinite_add_one {x : Float} (h : x.isFinite = true) : (x + 1).isFinite = true :=
  isFinite_add_unit (s := .positive) h rfl

theorem isFinite_add_neg_one {x : Float} (h : x.isFinite = true) : (x + -1).isFinite = true :=
  isFinite_add_unit (s := .negative) h rfl

theorem isFinite_toFloat (n : UInt64) : n.toFloat.isFinite = true := by
  apply isFinite_pack
  apply fits_normalize _ (by decide)
  calc n.toNat * 2 ^ ((0 : Int) + 1074).toNat
      < 2 ^ 64 * 2 ^ ((0 : Int) + 1074).toNat :=
        Nat.mul_lt_mul_of_pos_right n.toNat_lt (Nat.two_pow_pos _)
    _ ≤ 2 ^ halfExponent := by
        rw [← Nat.pow_add]
        apply Nat.pow_le_pow_right (by decide)
        simp [halfExponent]
    _ ≤ overflow := Nat.le_mul_of_pos_left _ (by decide)

end PrefixScript.Number
