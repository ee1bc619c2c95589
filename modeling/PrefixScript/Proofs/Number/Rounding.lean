import PrefixScript.Number.Shortest
import Mathlib.Algebra.Order.Field.Power
import Mathlib.Tactic.FieldSimp
import Mathlib.Tactic.Linarith
import Mathlib.Tactic.NormNum
import Mathlib.Tactic.Positivity
import Mathlib.Tactic.Ring

/-!
# Rounding

The reals that round to a binary number are those of its interval: rounding a fraction of the
interval gives the bits of the number back.
-/

namespace PrefixScript.Number

theorem pow_toNat_div_pow_toNat {b : ℚ} (hb : b ≠ 0) (e : ℤ) :
    b ^ e.toNat / b ^ (-e).toNat = b ^ e := by
  rw [← zpow_natCast, ← zpow_natCast, ← zpow_sub₀ hb]
  congr 1
  omega

theorem scaled_div {n d b : ℚ} (hb : b ≠ 0) (e : ℤ) :
    n * b ^ e.toNat / (d * b ^ (-e).toNat) = n / d * b ^ e := by
  rw [mul_div_mul_comm, pow_toNat_div_pow_toNat hb]

section DivNearest

variable {n d k : ℕ}

theorem divNearest_eq (hlow : 2 * (k * d) ≤ 2 * n + d) (hhigh : 2 * n ≤ 2 * (k * d) + d)
    (htie : k % 2 = 0 ∨ 2 * (k * d) < 2 * n + d ∧ 2 * n < 2 * (k * d) + d) (hd : 0 < d) :
    divNearest n d = k := by
  have hsplit := Nat.div_add_mod' n d
  have hmod := Nat.mod_lt n hd
  unfold divNearest
  set q := n / d
  set r := n % d
  have hk : k = q ∨ k = q + 1 := by
    have hle : k < q + 2 := by
      apply Nat.lt_of_mul_lt_mul_right (a := d)
      nlinarith
    have hge : q < k + 1 := by
      apply Nat.lt_of_mul_lt_mul_right (a := d)
      nlinarith
    omega
  split
  · next h =>
    rw [Nat.compare_eq_lt] at h
    rcases hk with rfl | rfl
    · rfl
    · nlinarith
  · next h =>
    rw [Nat.compare_eq_eq] at h
    rcases hk with rfl | rfl
    · rcases htie with heven | ⟨-, hlt⟩
      · omega
      · omega
    · rcases htie with heven | ⟨hlt, -⟩
      · omega
      · nlinarith
  · next h =>
    rw [Nat.compare_eq_gt] at h
    rcases hk with rfl | rfl
    · omega
    · rfl

theorem divNearest_eq_of_near (hd : 0 < d) (hlow : (k : ℚ) - 1 / 2 ≤ n / d)
    (hhigh : (n : ℚ) / d ≤ k + 1 / 2)
    (htie : k % 2 = 0 ∨ (k : ℚ) - 1 / 2 < n / d ∧ (n : ℚ) / d < k + 1 / 2) : divNearest n d = k := by
  have hd' : (0 : ℚ) < d := by exact_mod_cast hd
  rw [le_div_iff₀ hd'] at hlow
  rw [div_le_iff₀ hd'] at hhigh
  rw [lt_div_iff₀ hd', div_lt_iff₀ hd'] at htie
  refine divNearest_eq ?_ ?_ (htie.imp id fun h => ?_) hd
  · have : (2 * (k * d) : ℚ) ≤ 2 * n + d := by linarith
    exact_mod_cast this
  · have : (2 * n : ℚ) ≤ 2 * (k * d) + d := by linarith
    exact_mod_cast this
  · have hl : (2 * (k * d) : ℚ) < 2 * n + d := by linarith
    have hr : (2 * n : ℚ) < 2 * (k * d) + d := by linarith
    exact ⟨by exact_mod_cast hl, by exact_mod_cast hr⟩

end DivNearest

theorem cast_log2_le {n : ℕ} (h : 0 < n) : (2 : ℚ) ^ (n.log2 : ℤ) ≤ n := by
  rw [zpow_natCast]
  exact_mod_cast Nat.log2_self_le (by omega)

theorem cast_lt_log2 (n : ℕ) : (n : ℚ) < 2 ^ ((n.log2 : ℤ) + 1) := by
  rw [← Nat.cast_one (R := ℤ), ← Nat.cast_add, zpow_natCast]
  exact_mod_cast Nat.lt_log2_self

theorem Binary.log2Ratio_spec {n d : ℕ} (hn : 0 < n) (hd : 0 < d) :
    (2 : ℚ) ^ log2Ratio n d ≤ n / d ∧ (n : ℚ) / d < 2 ^ (log2Ratio n d + 1) := by
  have hd' : (0 : ℚ) < d := by exact_mod_cast hd
  have hnlow := cast_log2_le hn
  have hdlow := cast_log2_le hd
  have hnhigh := cast_lt_log2 n
  have hdhigh := cast_lt_log2 d
  set e : ℤ := (n.log2 : ℤ) - d.log2 with he
  have hlow : (2 : ℚ) ^ (e - 1) ≤ n / d := by
    rw [le_div_iff₀ hd']
    calc (2 : ℚ) ^ (e - 1) * d
        ≤ 2 ^ (e - 1) * 2 ^ ((d.log2 : ℤ) + 1) := by gcongr
      _ = 2 ^ (n.log2 : ℤ) := by rw [← zpow_add₀ (by norm_num)]; congr 1; omega
      _ ≤ n := hnlow
  have hhigh : (n : ℚ) / d < 2 ^ (e + 1) := by
    rw [div_lt_iff₀ hd']
    calc (n : ℚ) < 2 ^ ((n.log2 : ℤ) + 1) := hnhigh
      _ = 2 ^ (e + 1) * 2 ^ (d.log2 : ℤ) := by rw [← zpow_add₀ (by norm_num)]; congr 1; omega
      _ ≤ 2 ^ (e + 1) * d := by gcongr
  have htest : n * 2 ^ (-e).toNat < d * 2 ^ e.toNat ↔ (n : ℚ) / d < 2 ^ e := by
    rw [← pow_toNat_div_pow_toNat (by norm_num) e, div_lt_div_iff₀ hd' (by positivity)]
    rw [mul_comm (2 ^ _) (d : ℚ)]
    exact_mod_cast Iff.rfl
  simp only [log2Ratio, ← he]
  split
  · next h => exact ⟨hlow, by simpa using htest.1 h⟩
  · next h => exact ⟨not_lt.1 fun hlt => h (htest.2 hlt), hhigh⟩

def Interval.Contains (i : Interval) (t : ℚ) : Prop :=
  (i.low ≤ t ∧ t ≤ i.high) ∧ (i.closed = true ∨ i.low < t ∧ t < i.high)

namespace Binary

/-- The form in which the format has a number: the mantissa has its full width, except at the least
exponent. -/
structure Canonical (b : Binary) : Prop where
  mantissa_lt : b.mantissa < 2 * fullMantissa
  leastExponent_le : leastExponent ≤ b.exponent
  full : fullMantissa ≤ b.mantissa ∨ b.exponent = leastExponent

def bits (b : Binary) : ℕ :=
  (b.exponent - leastExponent).toNat * fullMantissa + b.mantissa

theorem canonical_ofMagnitudeBits (negative : Bool) (n : ℕ) :
    (ofMagnitudeBits negative n).Canonical := by
  unfold ofMagnitudeBits fullMantissa leastExponent
  split
  · next h => exact ⟨by simp only [fullMantissa]; omega, le_rfl, .inr rfl⟩
  · next h =>
    refine ⟨?_, ?_, .inl ?_⟩ <;> simp only [fullMantissa, leastExponent] <;> omega

theorem bits_ofMagnitudeBits (negative : Bool) (n : ℕ) :
    (ofMagnitudeBits negative n).bits = n := by
  unfold ofMagnitudeBits bits fullMantissa leastExponent
  split <;> simp only <;> omega

section InUnits

variable {n d k : ℕ} {t : ℚ} {e : ℤ}

theorem log2Ratio_lt (hn : 0 < n) (hd : 0 < d) (hv : (n : ℚ) / d = t * 2 ^ e) (ht : t < 2 ^ k) :
    log2Ratio n d < e + k := by
  have h : (2 : ℚ) ^ log2Ratio n d < 2 ^ (e + k) :=
    calc (2 : ℚ) ^ log2Ratio n d ≤ t * 2 ^ e := hv ▸ (log2Ratio_spec hn hd).1
      _ < 2 ^ k * 2 ^ e := by gcongr
      _ = 2 ^ (e + k) := by rw [zpow_add₀ (by norm_num), zpow_natCast, mul_comm]
  exact (zpow_lt_zpow_iff_right₀ (by norm_num)).1 h

theorem le_log2Ratio (hn : 0 < n) (hd : 0 < d) (hv : (n : ℚ) / d = t * 2 ^ e) (ht : 2 ^ k ≤ t) :
    e + k ≤ log2Ratio n d := by
  have h : (2 : ℚ) ^ (e + k) < 2 ^ (log2Ratio n d + 1) :=
    calc (2 : ℚ) ^ (e + k) = 2 ^ k * 2 ^ e := by
          rw [zpow_add₀ (by norm_num), zpow_natCast, mul_comm]
      _ ≤ t * 2 ^ e := by gcongr
      _ < 2 ^ (log2Ratio n d + 1) := hv ▸ (log2Ratio_spec hn hd).2
  have := (zpow_lt_zpow_iff_right₀ (by norm_num : (1 : ℚ) < 2)).1 h
  omega

theorem nearestBits_of_units {m : ℕ} (hn : 0 < n) (hd : 0 < d) (hv : (n : ℚ) / d = t * 2 ^ e)
    (hleast : leastExponent ≤ e) (ht : t < 2 ^ 53) (hwide : 2 ^ 52 ≤ t ∨ e = leastExponent)
    (hlow : (m : ℚ) - 1 / 2 ≤ t) (hhigh : t ≤ m + 1 / 2)
    (htie : m % 2 = 0 ∨ (m : ℚ) - 1 / 2 < t ∧ t < m + 1 / 2) :
    nearestBits n d = (e - leastExponent).toNat * fullMantissa + m := by
  have hq : max (log2Ratio n d - 52) leastExponent = e := by
    have hlt := log2Ratio_lt hn hd hv ht
    rcases hwide with hwide | rfl
    · have := le_log2Ratio hn hd hv hwide
      omega
    · omega
  have hratio : ((n * 2 ^ (-e).toNat : ℕ) : ℚ) / (d * 2 ^ e.toNat : ℕ) = t := by
    have h := scaled_div (n := n) (d := d) (b := 2) (by norm_num) (-e)
    rw [neg_neg, hv, mul_assoc, ← zpow_add₀ (by norm_num), add_neg_cancel, zpow_zero, mul_one] at h
    exact_mod_cast h
  rw [← hratio] at hlow hhigh htie
  rw [nearestBits, hq, divNearest_eq_of_near (by positivity) hlow hhigh htie]

end InUnits

section OfContains

variable {b : Binary} {n d : ℕ} {t : ℚ} (hn : 0 < n) (hd : 0 < d)
  (hv : (n : ℚ) / d = t * 2 ^ b.exponent)
include hn hd hv

theorem nearestBits_below_full (hfull : b.mantissa = fullMantissa)
    (hexponent : leastExponent < b.exponent) (hlow : (2 ^ 52 : ℚ) - 1 / 4 ≤ t) (ht : t < 2 ^ 52) :
    nearestBits n d = b.bits := by
  have hhalf : (n : ℚ) / d = 2 * t * 2 ^ (b.exponent - 1) := by
    rw [hv, zpow_sub_one₀ (by norm_num)]
    ring
  rw [nearestBits_of_units (m := 2 ^ 53) hn hd hhalf (by omega) (by linarith) (.inl (by linarith))
    (by push_cast; linarith) (by push_cast; linarith) (.inl (by norm_num)), bits, hfull]
  simp only [fullMantissa]
  omega

variable (hb : b.Canonical)
include hb

theorem nearestBits_of_wide (hwide : 2 ^ 52 ≤ t ∨ b.exponent = leastExponent)
    (hlow : (b.mantissa : ℚ) - 1 / 2 ≤ t) (hhigh : t ≤ b.mantissa + 1 / 2)
    (htie : b.mantissa % 2 = 0 ∨ (b.mantissa : ℚ) - 1 / 2 < t ∧ t < b.mantissa + 1 / 2) :
    nearestBits n d = b.bits := by
  have hm : (b.mantissa : ℚ) + 1 ≤ 2 ^ 53 := by
    have h := hb.mantissa_lt
    have : b.mantissa + 1 ≤ 2 ^ 53 := by
      rw [fullMantissa] at h
      omega
    exact_mod_cast this
  exact nearestBits_of_units hn hd hv hb.leastExponent_le (by linarith) hwide hlow hhigh htie

theorem nearestBits_of_quarters (h : b.interval.Contains (4 * t)) : nearestBits n d = b.bits := by
  obtain ⟨⟨hlow, hhigh⟩, htie⟩ := h
  simp only [interval, decide_eq_true_eq] at hlow hhigh htie
  push_cast at hhigh htie
  by_cases hedge : t < 2 ^ 52 ∧ b.mantissa = fullMantissa ∧ leastExponent < b.exponent
  · obtain ⟨hbelow, hfull, hexponent⟩ := hedge
    have hnear : (4 * fullMantissa - 1 : ℕ) ≤ 4 * t := by simpa [hfull, hexponent] using hlow
    norm_num [fullMantissa] at hnear
    exact nearestBits_below_full hn hd hv hfull hexponent (by linarith) hbelow
  · set low : ℕ := 4 * b.mantissa -
      if b.mantissa = fullMantissa ∧ leastExponent < b.exponent then 1 else 2 with hlowdef
    have hhalf : (4 * b.mantissa : ℚ) ≤ low + 2 := by
      have : 4 * b.mantissa ≤ low + 2 := by
        rw [hlowdef]
        split <;> omega
      exact_mod_cast this
    have hwide : 2 ^ 52 ≤ t ∨ b.exponent = leastExponent := by
      by_contra hnot
      rw [not_or, not_le] at hnot
      have hleast := hb.leastExponent_le
      have hstrict : leastExponent < b.exponent := by omega
      have hfull : fullMantissa ≤ b.mantissa := hb.full.resolve_right hnot.2
      have hlarge : fullMantissa + 1 ≤ b.mantissa := by
        have : b.mantissa ≠ fullMantissa := fun heq => hedge ⟨hnot.1, heq, hstrict⟩
        omega
      have : (2 ^ 52 + 1 : ℚ) ≤ b.mantissa := by
        rw [fullMantissa] at hlarge
        exact_mod_cast hlarge
      linarith [hnot.1]
    refine nearestBits_of_wide hn hd hv hb hwide (by linarith) (by linarith) ?_
    rcases htie with heven | ⟨hl, hh⟩
    · exact .inl heven
    · exact .inr ⟨by linarith, by linarith⟩

end OfContains

theorem nearestBits_eq {b : Binary} (hb : b.Canonical) {n d : ℕ} (hn : 0 < n) (hd : 0 < d)
    (h : b.interval.Contains (n / d / 2 ^ (b.exponent - 2))) : nearestBits n d = b.bits := by
  have hv : (n : ℚ) / d = n / d / 2 ^ b.exponent * 2 ^ b.exponent := by field_simp
  have hquarters : (n : ℚ) / d / 2 ^ (b.exponent - 2) = 4 * (n / d / 2 ^ b.exponent) := by
    rw [zpow_sub₀ (by norm_num)]
    field_simp
    norm_num
  rw [hquarters] at h
  exact nearestBits_of_quarters hn hd hv hb h

end Binary

end PrefixScript.Number
