import PrefixScript.Proofs.Number.Rounding

namespace PrefixScript.Number

theorem Interval.holds_iff {i : Interval} {unit point : ℕ} (h : 0 < unit) :
    i.holds unit point = true ↔ i.Contains (point / unit) := by
  have hunit : (0 : ℚ) < unit := by exact_mod_cast h
  rw [Interval.Contains, le_div_iff₀ hunit, div_le_iff₀ hunit, lt_div_iff₀ hunit,
    div_lt_iff₀ hunit, holds]
  norm_cast
  cases i.closed with
  | true => simp
  | false =>
    simp only [Bool.false_eq_true, if_false, Bool.and_eq_true, decide_eq_true_eq, false_or]
    constructor
    · rintro ⟨hl, hh⟩
      exact ⟨⟨hl.le, hh.le⟩, hl, hh⟩
    · exact fun h => h.2

theorem digitCount_spec {n : ℕ} (h : 0 < n) :
    ∃ c, digitCount n = c + 1 ∧ 10 ^ c ≤ n ∧ n < 10 ^ (c + 1) := by
  induction n using digitCount.induct with
  | case1 => contradiction
  | case2 n hn ih =>
    rw [digitCount, if_neg hn]
    rcases Nat.eq_zero_or_pos (n / 10) with hzero | hpos
    · refine ⟨0, by simp [hzero, digitCount], by omega, ?_⟩
      omega
    · obtain ⟨c, hc, hlow, hhigh⟩ := ih hpos
      refine ⟨c + 1, by rw [hc], ?_, ?_⟩
      · rw [pow_succ]
        omega
      · rw [pow_succ]
        omega

theorem decimalOrder_spec {n d : ℕ} (hn : 0 < n) (hd : 0 < d) :
    (10 : ℚ) ^ (decimalOrder n d - 1) ≤ n / d ∧ (n : ℚ) / d < 10 ^ decimalOrder n d := by
  have hn' : (0 : ℚ) < n := by exact_mod_cast hn
  have hd' : (0 : ℚ) < d := by exact_mod_cast hd
  rw [le_div_iff₀ hd', div_lt_iff₀ hd', decimalOrder]
  split
  · next hle =>
    obtain ⟨c, hc, hlow, hhigh⟩ := digitCount_spec (Nat.div_pos hle hd)
    rw [Nat.le_div_iff_mul_le hd] at hlow
    rw [Nat.div_lt_iff_lt_mul hd] at hhigh
    rw [hc, Nat.cast_add, Nat.cast_one, add_sub_cancel_right, zpow_natCast, ← Nat.cast_succ,
      zpow_natCast]
    exact ⟨by exact_mod_cast hlow, by exact_mod_cast hhigh⟩
  · next hgt =>
    obtain ⟨c, hc, hlow, hhigh⟩ := digitCount_spec (n := (d - 1) / n)
      (Nat.div_pos (by omega) hn)
    rw [Nat.le_div_iff_mul_le hn] at hlow
    rw [Nat.div_lt_iff_lt_mul hn] at hhigh
    have hlow' : (10 ^ c * n : ℚ) < d := by
      have : 10 ^ c * n < d := by omega
      exact_mod_cast this
    have hhigh' : (d : ℚ) ≤ 10 ^ (c + 1) * n := by
      have : d ≤ 10 ^ (c + 1) * n := by omega
      exact_mod_cast this
    have hfirst : (1 - ((c + 1 : ℕ) : ℤ) - 1 : ℤ) = -((c + 1 : ℕ) : ℤ) := by omega
    have hsecond : (1 - ((c + 1 : ℕ) : ℤ) : ℤ) = -(c : ℤ) := by omega
    rw [hc, hfirst, hsecond, zpow_neg, zpow_neg, zpow_natCast, zpow_natCast, inv_mul_le_iff₀,
      lt_inv_mul_iff₀]
    · exact ⟨hhigh', hlow'⟩
    · positivity
    · positivity

namespace Decimal

def value (d : Decimal) : ℚ :=
  d.digits * 10 ^ d.exponent

@[simp] theorem value_trim (d : Decimal) : d.trim.value = d.value := by
  induction d using trim.induct with
  | case1 d h ih =>
    rw [trim, if_pos h, ih, value, value, zpow_add_one₀ (by norm_num)]
    have : ((d.digits / 10 : ℕ) : ℚ) * 10 = d.digits := by
      have : d.digits / 10 * 10 = d.digits := by omega
      exact_mod_cast this
    rw [← this]
    ring
  | case2 d h => rw [trim, if_neg h]

theorem digits_trim_le (d : Decimal) : d.trim.digits ≤ d.digits := by
  induction d using trim.induct with
  | case1 d h ih =>
    rw [trim, if_pos h]
    exact ih.trans (Nat.div_le_self ..)
  | case2 d h => rw [trim, if_neg h]

end Decimal

namespace Binary

variable {b : Binary}

theorem ratio_eq (b : Binary) : (b.ratio.1 : ℚ) / b.ratio.2 = b.mantissa * 2 ^ b.exponent := by
  have h := scaled_div (n := b.mantissa) (d := 1) (b := 2) (by norm_num) b.exponent
  simpa [ratio] using h

def gridUnit (b : Binary) (x : ℤ) : ℕ :=
  2 ^ (b.exponent - 2).toNat * 10 ^ (-x).toNat

def gridStep (b : Binary) (x : ℤ) : ℕ :=
  2 ^ (-(b.exponent - 2)).toNat * 10 ^ x.toNat

def gridWidth (b : Binary) (x : ℤ) : ℚ :=
  10 ^ x / 2 ^ (b.exponent - 2)

theorem gridUnit_pos (b : Binary) (x : ℤ) : 0 < b.gridUnit x := by
  unfold gridUnit
  positivity

theorem gridStep_pos (b : Binary) (x : ℤ) : 0 < b.gridStep x := by
  unfold gridStep
  positivity

theorem gridStep_div_gridUnit (b : Binary) (x : ℤ) :
    (b.gridStep x : ℚ) / b.gridUnit x = b.gridWidth x := by
  rw [gridStep, gridUnit, gridWidth, ← pow_toNat_div_pow_toNat (by norm_num) x,
    ← pow_toNat_div_pow_toNat (by norm_num) (b.exponent - 2)]
  push_cast
  field_simp

/-- The number of steps from zero to the last point of a grid that is not beyond the number. -/
def stepsBelow (b : Binary) (x : ℤ) : ℕ :=
  b.interval.middle * b.gridUnit x / b.gridStep x

theorem stepsBelow_spec (b : Binary) (x : ℤ) :
    b.stepsBelow x * b.gridWidth x ≤ 4 * b.mantissa ∧
      4 * b.mantissa < (b.stepsBelow x + 1) * b.gridWidth x := by
  have hunit : (0 : ℚ) < b.gridUnit x := by exact_mod_cast b.gridUnit_pos x
  have hlow : b.stepsBelow x * b.gridStep x ≤ 4 * b.mantissa * b.gridUnit x :=
    Nat.div_mul_le_self ..
  have hhigh : 4 * b.mantissa * b.gridUnit x < (b.stepsBelow x + 1) * b.gridStep x := by
    rw [add_one_mul]
    exact Nat.lt_div_mul_add (b.gridStep_pos x)
  rw [← gridStep_div_gridUnit, mul_div_assoc', mul_div_assoc', div_le_iff₀ hunit, lt_div_iff₀ hunit]
  exact ⟨by exact_mod_cast hlow, by exact_mod_cast hhigh⟩

theorem holds_gridStep_iff (b : Binary) (x : ℤ) (k : ℕ) :
    b.interval.holds (b.gridUnit x) (k * b.gridStep x) = true ↔
      b.interval.Contains (k * b.gridWidth x) := by
  rw [Interval.holds_iff (b.gridUnit_pos x), ← gridStep_div_gridUnit, mul_div_assoc', Nat.cast_mul]

theorem onGrid?_eq_some {tie : Tie} {x : ℤ} {d : Decimal} (h : b.onGrid? tie x = some d) :
    d.exponent = x ∧ (d.digits = b.stepsBelow x ∨ d.digits = b.stepsBelow x + 1) ∧
      b.interval.Contains (d.digits * b.gridWidth x) := by
  have hbelow := b.holds_gridStep_iff x (b.stepsBelow x)
  have habove := b.holds_gridStep_iff x (b.stepsBelow x + 1)
  unfold onGrid? at h
  extract_lets quarter unit step point below above at h
  split at h
  · contradiction
  · next htrue _ =>
    obtain rfl := Option.some.inj h
    exact ⟨rfl, .inl rfl, hbelow.1 htrue⟩
  · next _ htrue =>
    obtain rfl := Option.some.inj h
    exact ⟨rfl, .inr rfl, habove.1 htrue⟩
  · next hl hr =>
    split at h
    · obtain rfl := Option.some.inj h
      exact ⟨rfl, .inl rfl, hbelow.1 hl⟩
    · obtain rfl := Option.some.inj h
      exact ⟨rfl, .inr rfl, habove.1 hr⟩
    · obtain rfl := Option.some.inj h
      split
      · exact ⟨rfl, .inl rfl, hbelow.1 hl⟩
      · exact ⟨rfl, .inr rfl, habove.1 hr⟩

theorem onGrid?_ne_none {x : ℤ} {k : ℕ} (tie : Tie)
    (hk : k = b.stepsBelow x ∨ k = b.stepsBelow x + 1)
    (h : b.interval.Contains (k * b.gridWidth x)) : b.onGrid? tie x ≠ none := by
  rw [← holds_gridStep_iff] at h
  unfold onGrid?
  extract_lets quarter unit step point below above
  intro hnone
  split at hnone
  · next hl hr =>
    rcases hk with rfl | rfl
    · exact absurd (hl.symm.trans h) (by decide)
    · exact absurd (hr.symm.trans h) (by decide)
  · contradiction
  · contradiction
  · split at hnone <;> contradiction

theorem low_cases (hpos : 0 < b.mantissa) :
    (b.interval.low : ℚ) = 4 * b.mantissa - 2 ∨
      b.mantissa = fullMantissa ∧ (b.interval.low : ℚ) = 4 * b.mantissa - 1 := by
  by_cases hfull : b.mantissa = fullMantissa ∧ leastExponent < b.exponent
  · refine .inr ⟨hfull.1, ?_⟩
    rw [interval, if_pos hfull, Nat.cast_sub (by omega)]
    norm_num
  · refine .inl ?_
    rw [interval, if_neg hfull, Nat.cast_sub (by omega)]
    norm_num

theorem exists_contains {x : ℤ} (hpos : 0 < b.mantissa)
    (h : b.gridWidth x < 2 * (4 * b.mantissa - b.interval.low)) :
    ∃ k, (k = b.stepsBelow x ∨ k = b.stepsBelow x + 1) ∧
      b.interval.Contains (k * b.gridWidth x) := by
  obtain ⟨hbelow, habove⟩ := b.stepsBelow_spec x
  have hhigh : (b.interval.high : ℚ) = 4 * b.mantissa + 2 := by simp [interval]
  have hlow : (b.interval.low : ℚ) < 4 * b.mantissa ∧ 4 * b.mantissa - 2 ≤ (b.interval.low : ℚ) := by
    rcases low_cases hpos with hl | ⟨-, hl⟩ <;> rw [hl] <;> constructor <;> linarith
  have hwithin : ∀ t : ℚ, b.interval.low < t → t < b.interval.high → b.interval.Contains t :=
    fun t hl hh => ⟨⟨hl.le, hh.le⟩, .inr ⟨hl, hh⟩⟩
  by_cases hnear : b.interval.low < b.stepsBelow x * b.gridWidth x
  · exact ⟨_, .inl rfl, hwithin _ hnear (by linarith)⟩
  · refine ⟨_, .inr rfl, hwithin _ ?_ ?_⟩ <;> push_cast <;> linarith

theorem decimalOrder_ratio (hpos : 0 < b.mantissa) :
    (10 : ℚ) ^ (decimalOrder b.ratio.1 b.ratio.2 - 1) ≤ b.mantissa * 2 ^ b.exponent ∧
      b.mantissa * (2 : ℚ) ^ b.exponent < 10 ^ decimalOrder b.ratio.1 b.ratio.2 := by
  rw [← ratio_eq]
  apply decimalOrder_spec <;> unfold ratio <;> positivity

theorem gridWidth_order_lt (hb : b.mantissa < 2 * fullMantissa) (hpos : 0 < b.mantissa) :
    b.gridWidth (decimalOrder b.ratio.1 b.ratio.2 - 17) <
      2 * (4 * b.mantissa - b.interval.low) := by
  have horder := (decimalOrder_ratio hpos).1
  set order := decimalOrder b.ratio.1 b.ratio.2
  have hwidth : b.gridWidth (order - 17) ≤ 4 * b.mantissa / 10 ^ 16 :=
    calc b.gridWidth (order - 17)
        = 10 ^ (order - 1) / (10 ^ 16 * 2 ^ (b.exponent - 2)) := by
          have hten : (10 : ℚ) ^ (order - 17) = 10 ^ (order - 1) / 10 ^ 16 := by
            rw [← zpow_natCast, ← zpow_sub₀ (by norm_num)]
            congr 1
            push_cast
            ring
          rw [gridWidth, hten, div_div]
      _ ≤ b.mantissa * 2 ^ b.exponent / (10 ^ 16 * 2 ^ (b.exponent - 2)) := by gcongr
      _ = 4 * b.mantissa / 10 ^ 16 := by
          rw [zpow_sub₀ (by norm_num)]
          field_simp
          norm_num
  have hmantissa : (b.mantissa : ℚ) < 2 ^ 53 := by
    rw [fullMantissa] at hb
    exact_mod_cast hb
  rcases low_cases hpos with hl | ⟨hfull, hl⟩
  · rw [hl]
    linarith
  · rw [hl]
    rw [hfull] at hwidth ⊢
    norm_num [fullMantissa] at hwidth ⊢
    linarith

theorem stepsBelow_lt {x : ℤ} (hpos : 0 < b.mantissa)
    (hx : decimalOrder b.ratio.1 b.ratio.2 - 17 ≤ x) : b.stepsBelow x < 10 ^ 17 := by
  have horder := (decimalOrder_ratio hpos).2
  set order := decimalOrder b.ratio.1 b.ratio.2
  have hsteps : b.stepsBelow x * (10 : ℚ) ^ x ≤ b.mantissa * 2 ^ b.exponent := by
    have h := (b.stepsBelow_spec x).1
    rw [gridWidth, zpow_sub₀ (by norm_num)] at h
    field_simp at h
    norm_num at h
    linarith
  have h : b.stepsBelow x * (10 : ℚ) ^ x < 10 ^ 17 * 10 ^ x :=
    calc b.stepsBelow x * (10 : ℚ) ^ x ≤ b.mantissa * 2 ^ b.exponent := hsteps
      _ < 10 ^ order := horder
      _ ≤ 10 ^ (17 + x) := zpow_le_zpow_right₀ (by norm_num) (by omega)
      _ = 10 ^ 17 * 10 ^ x := by rw [zpow_add₀ (by norm_num)]; norm_num
  exact_mod_cast lt_of_mul_lt_mul_right h (by positivity)

theorem shortest_spec (tie : Tie) (hb : b.mantissa < 2 * fullMantissa) (hpos : 0 < b.mantissa) :
    0 < (b.shortest tie).digits ∧ (b.shortest tie).digits ≤ 10 ^ 17 ∧
      b.interval.Contains ((b.shortest tie).value / 2 ^ (b.exponent - 2)) := by
  set order := decimalOrder b.ratio.1 b.ratio.2 with horder
  set grids := (List.range 17).map fun (k : ℕ) => order - 1 - (k : ℤ) with hgrids
  obtain ⟨k, hk, hcontains⟩ := exists_contains hpos (gridWidth_order_lt hb hpos)
  have hlast : order - 17 ∈ grids := by
    rw [hgrids, List.mem_map]
    exact ⟨16, by simp, by push_cast; ring⟩
  have hsome : (grids.findSome? (b.onGrid? tie)).isSome := by
    rw [List.findSome?_isSome_iff]
    exact ⟨_, hlast, Option.isSome_iff_ne_none.2 (onGrid?_ne_none tie hk hcontains)⟩
  obtain ⟨d, hd⟩ := Option.isSome_iff_exists.1 hsome
  obtain ⟨x, hx, hfound⟩ := List.exists_of_findSome?_eq_some hd
  have hshortest : b.shortest tie = d.trim := by
    rw [shortest, if_neg (by omega)]
    change ((grids.findSome? (b.onGrid? tie)).getD ⟨0, 0⟩).trim = d.trim
    rw [hd]
    rfl
  obtain ⟨hexponent, hdigits, hin⟩ := onGrid?_eq_some hfound
  have hvalue : d.digits * b.gridWidth x = d.value / 2 ^ (b.exponent - 2) := by
    rw [Decimal.value, hexponent, gridWidth, mul_div_assoc]
  have hfew : d.digits ≤ 10 ^ 17 := by
    obtain ⟨j, hj, rfl⟩ := List.mem_map.1 hx
    rw [List.mem_range] at hj
    have := stepsBelow_lt (x := order - 1 - j) hpos (by omega)
    omega
  have hlow : (0 : ℚ) < d.value / 2 ^ (b.exponent - 2) := by
    have hone : (1 : ℚ) ≤ b.mantissa := by exact_mod_cast hpos
    rw [← hvalue]
    refine lt_of_lt_of_le ?_ hin.1.1
    rcases low_cases hpos with hl | ⟨-, hl⟩ <;> rw [hl] <;> linarith
  rw [hshortest, Decimal.value_trim, ← hvalue]
  refine ⟨Nat.pos_of_ne_zero fun hzero => ?_, (Decimal.digits_trim_le d).trans hfew, hin⟩
  rw [← Decimal.value_trim, Decimal.value, hzero] at hlow
  norm_num at hlow

end Binary

end PrefixScript.Number
