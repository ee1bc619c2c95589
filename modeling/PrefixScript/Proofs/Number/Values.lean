import PrefixScript.Number.Whole
import PrefixScript.Proofs.Number.Comparison
import PrefixScript.Proofs.Number.Shortest

namespace PrefixScript.Number

open Float.Model Float.Model.UnpackedFloat

def Binary.magnitude (b : Binary) : ℚ :=
  b.mantissa * 2 ^ b.exponent

/-- What a number is as a rational number; infinities and NaN are none. -/
def value? (x : Float) : Option ℚ :=
  (Binary.ofFloat? x).map fun b => if b.negative then -b.magnitude else b.magnitude

def magnitude (bits : ℕ) : ℚ :=
  (Binary.ofMagnitudeBits false bits).magnitude

theorem Binary.magnitude_lt {b c : Binary} (hb : b.Canonical) (hc : c.Canonical)
    (h : b.bits < c.bits) : b.magnitude < c.magnitude := by
  obtain ⟨hblt, hble, hbfull⟩ := hb
  obtain ⟨hclt, hcle, hcfull⟩ := hc
  simp only [bits, fullMantissa, leastExponent] at *
  unfold magnitude
  rcases lt_trichotomy b.exponent c.exponent with hlt | heq | hgt
  · have hwide : 2 ^ 52 ≤ c.mantissa := by omega
    calc (b.mantissa : ℚ) * 2 ^ b.exponent < 2 ^ 53 * 2 ^ b.exponent := by
          gcongr
          exact_mod_cast hblt
      _ = 2 ^ 52 * 2 ^ (b.exponent + 1) := by
          rw [zpow_add_one₀ (by norm_num)]
          ring
      _ ≤ c.mantissa * 2 ^ c.exponent := by
          gcongr
          · exact_mod_cast hwide
          · norm_num
          · omega
  · rw [heq]
    have hmantissa : b.mantissa < c.mantissa := by
      rw [heq] at h
      omega
    gcongr
  · omega

theorem magnitude_strictMono : StrictMono magnitude := by
  intro bits bits' h
  refine Binary.magnitude_lt (Binary.canonical_ofMagnitudeBits false bits)
    (Binary.canonical_ofMagnitudeBits false bits') ?_
  rwa [Binary.bits_ofMagnitudeBits, Binary.bits_ofMagnitudeBits]

@[simp] theorem magnitude_zero : magnitude 0 = 0 := by
  simp [magnitude, Binary.ofMagnitudeBits, Binary.magnitude, fullMantissa]

def valueAt (z : ℤ) : ℚ :=
  if z < 0 then -magnitude z.natAbs else magnitude z.natAbs

theorem valueAt_signed (negative : Bool) (bits : ℕ) :
    valueAt (signed negative bits) = if negative then -magnitude bits else magnitude bits := by
  cases negative with
  | false =>
    have hnot : ¬ (bits : ℤ) < 0 := by omega
    simp [valueAt, hnot]
  | true =>
    rcases Nat.eq_zero_or_pos bits with rfl | hpos
    · simp [valueAt]
    · simp [valueAt, hpos]

theorem valueAt_lt_valueAt {a b : ℤ} (h : a < b) : valueAt a < valueAt b := by
  unfold valueAt
  split_ifs with ha hb hb
  · exact neg_lt_neg (magnitude_strictMono (by omega))
  · have hneg : magnitude 0 < magnitude a.natAbs := magnitude_strictMono (by omega)
    have hpos : magnitude 0 ≤ magnitude b.natAbs := magnitude_strictMono.monotone (by omega)
    rw [magnitude_zero] at hneg hpos
    linarith
  · omega
  · exact magnitude_strictMono (by omega)

theorem Binary.negative_ofMagnitudeBits (negative : Bool) (bits : ℕ) :
    (ofMagnitudeBits negative bits).negative = negative := by
  unfold ofMagnitudeBits
  split <;> rfl

theorem Binary.magnitude_ofMagnitudeBits (negative : Bool) (bits : ℕ) :
    (ofMagnitudeBits negative bits).magnitude = Number.magnitude bits := by
  unfold Number.magnitude ofMagnitudeBits
  split <;> rfl

section Values

variable {x y : Float} {p q : ℚ}

theorem value?_of_finite (h : Finite x) : value? x = some (valueAt (place x)) := by
  rw [value?, Binary.ofFloat?_of_finite h, Option.map_some, Binary.negative_ofMagnitudeBits,
    Binary.magnitude_ofMagnitudeBits, place, valueAt_signed]

theorem value?_eq_some_iff : value? x = some p ↔ Finite x ∧ valueAt (place x) = p := by
  by_cases h : Finite x
  · simp [value?_of_finite h, h]
  · have hnone : value? x = none := by
      rw [value?, Binary.ofFloat?]
      simpa [Finite] using h
    simp [hnone, h]

theorem value?_of_zero (h : magnitudeBits x = 0) : value? x = some 0 := by
  have hfinite : Finite x := by
    rw [Finite, h]
    decide
  rw [value?_of_finite hfinite, place_eq_zero_iff.2 h]
  simp [valueAt]

theorem finite_of_value? (h : value? x = some p) : Finite x :=
  (value?_eq_some_iff.1 h).1

theorem place_le_place_iff (hx : value? x = some p) (hy : value? y = some q) :
    place x ≤ place y ↔ p ≤ q := by
  obtain ⟨-, rfl⟩ := value?_eq_some_iff.1 hx
  obtain ⟨-, rfl⟩ := value?_eq_some_iff.1 hy
  have hmono : StrictMono valueAt := fun _ _ => valueAt_lt_valueAt
  exact hmono.le_iff_le.symm

theorem le_iff_value_le (hx : value? x = some p) (hy : value? y = some q) : x ≤ y ↔ p ≤ q := by
  rw [le_iff, Placed, place_le_place_iff hx hy]
  exact ⟨fun h => h.2.2, fun h => ⟨isNaN_of_finite (finite_of_value? hx),
    isNaN_of_finite (finite_of_value? hy), h⟩⟩

theorem lt_iff_value_lt (hx : value? x = some p) (hy : value? y = some q) : x < y ↔ p < q := by
  rw [lt_iff, Placed, ← not_le, place_le_place_iff hy hx, not_le]
  exact ⟨fun h => h.2.2, fun h => ⟨isNaN_of_finite (finite_of_value? hx),
    isNaN_of_finite (finite_of_value? hy), h⟩⟩

end Values

theorem divNearest_pos {n d : ℕ} (hn : 0 < n) (h : d ∣ n) : 0 < divNearest n d := by
  have hle : n / d ≤ divNearest n d := by
    unfold divNearest
    split <;> omega
  exact (Nat.div_pos (Nat.le_of_dvd hn h) (Nat.pos_of_dvd_of_pos h hn)).trans_le hle

namespace Binary

theorem nearestBits_pos {r d : ℕ} (hr : 0 < r) (hd : d ∣ 2 ^ (-leastExponent).toNat) :
    0 < nearestBits r d := by
  have hfull : 0 < fullMantissa := by decide
  unfold nearestBits
  extract_lets q
  have hq : leastExponent ≤ q := le_max_right _ _
  clear_value q
  rcases hq.eq_or_lt with rfl | hlt
  · have hzero : leastExponent.toNat = 0 := rfl
    rw [hzero]
    generalize (-leastExponent).toNat = k at hd ⊢
    exact Nat.add_pos_right _ (divNearest_pos (by positivity) (by simpa using hd.mul_left r))
  · exact Nat.add_pos_left (Nat.mul_pos (by omega) hfull) _

theorem nearest?_beq_zero_iff {negative : Bool} {r d : ℕ} (hd : d ∣ 2 ^ (-leastExponent).toNat) :
    ((nearest? negative r d).getD nan == 0) = true ↔ r = 0 := by
  unfold nearest?
  split
  · next h =>
    rw [Option.getD_some, beq_zero_iff, magnitudeBits_ofMagnitudeBits negative (by decide)]
    exact iff_of_true rfl h
  · next h =>
    refine iff_of_false ?_ h
    split
    · next hfinite =>
      rw [Option.getD_some, beq_zero_iff, magnitudeBits_ofMagnitudeBits negative hfinite]
      exact (nearestBits_pos (Nat.pos_of_ne_zero h) hd).ne'
    · exact of_decide_eq_true (by decide +kernel)

theorem ratio_dvd {b : Binary} (hb : b.Canonical) : b.ratio.2 ∣ 2 ^ (-leastExponent).toNat := by
  have hle : (-b.exponent).toNat ≤ (-leastExponent).toNat := by
    have := hb.leastExponent_le
    omega
  unfold ratio
  generalize (-leastExponent).toNat = k at hle ⊢
  exact pow_dvd_pow 2 hle

theorem ratio_mod_eq_zero_iff (b : Binary) :
    b.ratio.1 % b.ratio.2 = 0 ↔ ∃ z : ℤ, b.magnitude = z := by
  have hpos : (0 : ℚ) < b.ratio.2 := by
    unfold ratio
    positivity
  rw [magnitude, ← ratio_eq, ← Nat.dvd_iff_mod_eq_zero]
  constructor
  · rintro ⟨k, hk⟩
    refine ⟨k, ?_⟩
    rw [hk]
    push_cast
    field_simp
  · rintro ⟨z, hz⟩
    rw [div_eq_iff hpos.ne'] at hz
    rw [← Int.natCast_dvd_natCast]
    exact ⟨z, by rw [mul_comm]; exact_mod_cast hz⟩

end Binary

section Whole

variable {x : Float}

theorem exists_int_neg_iff {p : ℚ} : (∃ z : ℤ, -p = z) ↔ ∃ z : ℤ, p = z := by
  constructor
  · rintro ⟨z, h⟩
    exact ⟨-z, by push_cast; linarith⟩
  · rintro ⟨z, h⟩
    exact ⟨-z, by push_cast; linarith⟩

theorem fraction_beq_zero_iff : (fraction x == 0) = true ↔ ∃ z : ℤ, value? x = some (z : ℚ) := by
  by_cases h : Finite x
  · have hb := Binary.canonical_ofMagnitudeBits (isNegative x) (magnitudeBits x)
    rw [fraction, value?, Binary.ofFloat?_of_finite h]
    generalize Binary.ofMagnitudeBits (isNegative x) (magnitudeBits x) = b at hb
    dsimp only
    rw [Binary.nearest?_beq_zero_iff (Binary.ratio_dvd hb), Binary.ratio_mod_eq_zero_iff]
    simp only [Option.map_some, Option.some_inj]
    split
    · exact exists_int_neg_iff.symm
    · rfl
  · have hnone : Binary.ofFloat? x = none := if_neg h
    rw [fraction, value?, hnone]
    exact iff_of_false (of_decide_eq_true (by decide +kernel)) (by simp)

theorem roundToInt_eq {m : ℕ} {e : ℤ} {k : ℕ} (h : (m : ℚ) * 2 ^ e = k) :
    roundToInt .positive m e = k := by
  have hk : m * 2 ^ e.toNat = k * 2 ^ (-e).toNat := by
    rw [← pow_toNat_div_pow_toNat (by norm_num), mul_div_assoc', div_eq_iff (by positivity)] at h
    exact_mod_cast h
  have hshift : (0 - (e - (e - 0).toNat)).toNat = (-e).toNat := by omega
  have hleft : (e - 0).toNat = e.toNat := by rw [sub_zero]
  change ((ExtendedMantissa.ofMantissaAndAccuracy (m <<< (e - 0).toNat) .exact >>>
    (0 - (e - (e - 0).toNat)).toNat).mantissa : ℤ) = k
  rw [mantissa_shiftRight, hshift, hleft]
  change ((m <<< e.toNat / 2 ^ (-e).toNat : ℕ) : ℤ) = k
  rw [Nat.shiftLeft_eq, hk, Nat.mul_div_cancel _ (by positivity)]

theorem Unpacks.toInt_eq {negative : Bool} {bits k : ℕ} {u : UnpackedFloat}
    (hu : Unpacks negative bits u) (hfinite : bits < infinityBits)
    (h : valueAt (signed negative bits) = k) (low high : ℤ) : u.toInt low high = k := by
  rw [valueAt_signed] at h
  cases hu with
  | infinity hbits | notANumber hbits => omega
  | zero hbits =>
    rw [hbits, magnitude_zero, neg_zero, ite_self] at h
    have hk : k = 0 := by exact_mod_cast h.symm
    rw [hk]
    rfl
  | finite m e hm hlt hparts =>
    have hmagnitude : magnitude bits = m * 2 ^ e := by
      rw [← Binary.magnitude_ofMagnitudeBits negative, hparts]
      rfl
    have hpos : (0 : ℚ) < m * 2 ^ e := by positivity
    rw [hmagnitude] at h
    cases negative with
    | true =>
      have hnonneg : (0 : ℚ) ≤ k := Nat.cast_nonneg k
      rw [if_pos rfl] at h
      linarith
    | false => exact roundToInt_eq h

theorem toNat_toUInt64 {k : ℕ} (h : value? x = some (k : ℚ)) (hk : k < 2 ^ 64) :
    x.toUInt64.toNat = k := by
  obtain ⟨hfinite, hvalue⟩ := value?_eq_some_iff.1 h
  have hint := (unpacks x).toInt_eq hfinite hvalue 0 (UInt64.size - 1)
  change (UInt64.ofNatClamp
    ((UnpackedFloat.unpack .binary64 (word x)).toInt 0 (UInt64.size - 1)).toNat).toNat = k
  rw [hint, Int.toNat_natCast, UInt64.ofNatClamp_eq_ofNat k hk, UInt64.toNat_ofNat_of_lt' hk]

end Whole

section Natural

theorem toNat_packComponents (s : Sign) (e : BitVec 11) (m : BitVec 52) :
    (packComponents .binary64 s e m).toNat =
      s.toBitVec.toNat * 2 ^ 63 + e.toNat * 2 ^ 52 + m.toNat := by
  change (s.toBitVec ++ e ++ m).toNat = _
  rw [BitVec.toNat_append, BitVec.toNat_append, ← Nat.shiftLeft_add_eq_or_of_lt m.isLt,
    ← Nat.shiftLeft_add_eq_or_of_lt e.isLt, Nat.shiftLeft_eq, Nat.shiftLeft_eq]
  ring

theorem ofFloat?_eq_some {x : Float} {m : ℕ} {e : ℤ} (hfull : fullMantissa ≤ m)
    (hm : m < 2 * fullMantissa) (hlow : leastExponent ≤ e) (hhigh : e ≤ 971)
    (h : x.toBits.toNat = (e - leastExponent).toNat * fullMantissa + m) :
    Binary.ofFloat? x = some ⟨false, m, e⟩ := by
  simp only [fullMantissa, leastExponent] at *
  have hbits : magnitudeBits x = x.toBits.toNat := by
    rw [magnitudeBits, signBit]
    omega
  have hsign : isNegative x = false := by
    rw [isNegative, signBit]
    simp
    omega
  have hfinite : Finite x := by
    rw [Finite, hbits, infinityBits, fullMantissa]
    omega
  rw [Binary.ofFloat?_of_finite hfinite, hsign, hbits, Binary.ofMagnitudeBits,
    if_neg (by rw [fullMantissa]; omega)]
  simp only [fullMantissa, leastExponent, Option.some_inj, Binary.mk.injEq, true_and]
  omega

theorem value?_pack {m : ℕ} {e : ℤ} (hpos : 0 < m) (hfull : fullMantissa ≤ m)
    (hm : m < 2 * fullMantissa) (hlow : leastExponent ≤ e) (hhigh : e ≤ 971) :
    value? (.ofModel (Float.Model.pack (.finite .positive m e hpos))) =
      some ((m : ℚ) * 2 ^ e) := by
  simp only [fullMantissa, leastExponent] at hfull hm hlow
  have hlog : m.log2 + 1 = Format.binary64.mantissaBits := (log2_add_one_eq_iff (by omega)).2 hfull
  have hword : UnpackedFloat.pack .binary64 (.finite .positive m e hpos) =
      packComponents .binary64 .positive (BitVec.ofNat 11 (e + (1023 : ℕ) + (52 : ℕ)).toNat)
        (BitVec.ofNat 52 m) := by
    rw [pack_finite, if_neg (by omega), if_pos hlog]
  have hbits : (Float.ofModel (Float.Model.pack (.finite .positive m e hpos))).toBits.toNat =
      (e - leastExponent).toNat * fullMantissa + m := by
    change (UnpackedFloat.pack .binary64 (.finite .positive m e hpos)).toNat = _
    rw [hword, toNat_packComponents, BitVec.toNat_ofNat, BitVec.toNat_ofNat]
    change 0 * 2 ^ 63 + _ + _ = _
    simp only [leastExponent, fullMantissa]
    omega
  rw [value?, ofFloat?_eq_some (by simpa [fullMantissa]) (by simp only [fullMantissa]; omega) hlow
    hhigh hbits]
  rfl

theorem roundWithAccuracy_of_full {m : ℕ} {e : ℤ} (s : Sign) (hpos : 0 < m)
    (hlog : m.log2 = 52) (hlow : -1074 ≤ e) :
    roundWithAccuracy .binary64 s m e .exact = .finite s m e hpos := by
  have htarget : Format.binary64.targetExponent (totalExponent m e) = e := by
    rw [targetExponent_eq, hlog]
    omega
  have hshift : (e - e).toNat = 0 := by simp
  have hrounded : (ExtendedMantissa.ofMantissaAndAccuracy m .exact >>> 0).roundedMantissa = m := rfl
  unfold roundWithAccuracy shiftToTargetExponent shiftToExponent
  dsimp only
  rw [htarget, hshift, hrounded, Nat.cast_zero, add_zero, htarget, hshift, Nat.cast_zero, add_zero]
  exact dif_neg hpos.ne'

theorem log2_shift {n k : ℕ} (hpos : 0 < n) (hk : n.log2 + k = 52) :
    2 ^ 52 ≤ n * 2 ^ k ∧ n * 2 ^ k < 2 ^ 53 := by
  constructor
  · calc 2 ^ 52 = 2 ^ n.log2 * 2 ^ k := by rw [← pow_add, hk]
      _ ≤ n * 2 ^ k := Nat.mul_le_mul_right _ (Nat.log2_self_le hpos.ne')
  · calc n * 2 ^ k < 2 ^ (n.log2 + 1) * 2 ^ k :=
          Nat.mul_lt_mul_of_pos_right Nat.lt_log2_self (by positivity)
      _ = 2 ^ 53 := by rw [← pow_add]; congr 1; omega

theorem round_eq {n k : ℕ} (s : Sign) (hpos : 0 < n) (hk : n.log2 + k = 52) :
    UnpackedFloat.round .binary64 s n 0 =
      .finite s (n * 2 ^ k) (-k) (Nat.mul_pos hpos (Nat.two_pow_pos k)) := by
  have htarget : Format.binary64.targetExponent (totalExponent n 0) = -(k : ℤ) := by
    rw [targetExponent_eq]
    omega
  have hshift : (0 - -(k : ℤ)).toNat = k := by omega
  have hexponent : (0 : ℤ) - k = -k := zero_sub _
  have hlog : (n * 2 ^ k).log2 = 52 :=
    (Nat.log2_eq_iff (Nat.mul_pos hpos (Nat.two_pow_pos k)).ne').2 (log2_shift hpos hk)
  unfold UnpackedFloat.round decreaseExponent
  dsimp only
  rw [htarget, hshift, Nat.shiftLeft_eq, hexponent]
  exact roundWithAccuracy_of_full s _ hlog (by omega)

theorem value?_toFloat_of_lt {n : ℕ} (hpos : 0 < n) (hn : n < 2 ^ 53) :
    value? n.toUInt64.toFloat = some (n : ℚ) := by
  have hword : n.toUInt64.toNat = n := UInt64.toNat_ofNat_of_lt' (hn.trans (by decide))
  obtain ⟨k, hk⟩ : ∃ k, n.log2 + k = 52 := by
    have hlog : n.log2 < 53 := (Nat.log2_lt hpos.ne').2 hn
    exact ⟨52 - n.log2, by omega⟩
  obtain ⟨hlow, hhigh⟩ := log2_shift hpos hk
  have hnormalize : UnpackedFloat.normalize .binary64 (n : ℤ) 0 .positive =
      UnpackedFloat.round .binary64 .positive n 0 := by
    unfold UnpackedFloat.normalize
    rw [Int.compare_eq_gt.2 (by omega)]
    rfl
  change value? (.ofModel (Float.Model.pack
    (UnpackedFloat.normalize .binary64 (n.toUInt64.toNat : ℤ) 0 .positive))) = _
  rw [hword, hnormalize, round_eq .positive hpos hk,
    value?_pack _ (by simp only [fullMantissa]; omega) (by simp only [fullMantissa]; omega)
      (by simp only [leastExponent]; omega) (by omega)]
  push_cast
  rw [mul_assoc, zpow_neg, zpow_natCast, mul_inv_cancel₀ (by positivity), mul_one]

theorem value?_toFloat {n : ℕ} (hn : n ≤ 2 ^ 53) : value? n.toUInt64.toFloat = some (n : ℚ) := by
  rcases Nat.eq_zero_or_pos n with rfl | hpos
  · rw [Nat.cast_zero]
    exact value?_of_zero rfl
  · rcases hn.eq_or_lt with rfl | hlt
    · have hparts : Binary.ofFloat? (2 ^ 53 : ℕ).toUInt64.toFloat = some ⟨false, 2 ^ 52, 1⟩ := by
        decide +kernel
      rw [value?, hparts]
      norm_num [Binary.magnitude]
    · exact value?_toFloat_of_lt hpos hlt

end Natural

end PrefixScript.Number
