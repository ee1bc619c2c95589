import PrefixScript.Proofs.Number.Bits
import PrefixScript.Proofs.Number.Digits
import PrefixScript.Proofs.Number.Shortest

namespace PrefixScript.Number

namespace Numeral

def magnitude (n : Numeral) : ℚ :=
  n.digits * 10 ^ n.exponent

theorem dropWhile_zeros (j : ℕ) (cs : List Char) :
    (List.replicate j '0' ++ cs).dropWhile (· = '0') = cs.dropWhile (· = '0') := by
  apply List.dropWhile_append_of_pos
  intro c hc
  simpa using List.eq_of_mem_replicate hc

theorem ofDigits_zeros (negative : Bool) {n : ℕ} (hpos : 0 < n) (hn : n < 10 ^ 18) (j k : ℕ)
    (x : ℤ) :
    ∃ digits exponent, 0 < digits ∧
      (⟨negative, digits, exponent⟩ : Numeral).magnitude = n * 10 ^ (k + x) ∧
      ofDigits negative (List.replicate j '0' ++ (digitChars n ++ List.replicate k '0')) x =
        ⟨negative, digits, exponent⟩ := by
  have hlength := length_digitChars_le hn
  have hroom : (digitChars n).length ≤ maxDigits := by
    rw [maxDigits]
    omega
  -- The zeros that are kept and those that are passed over.
  set kept := min (maxDigits - (digitChars n).length) k with hkept
  set passed := k - (maxDigits - (digitChars n).length) with hpassed
  refine ⟨n * 10 ^ kept, x + passed, by positivity, ?_, ?_⟩
  · have hsplit : (k : ℤ) + x = kept + (x + passed) := by omega
    rw [hsplit, zpow_add₀ (by norm_num) (kept : ℤ), zpow_natCast, magnitude]
    push_cast
    ring
  · rw [ofDigits, dropWhile_zeros, dropWhile_digitChars_append hpos]
    have htake : (digitChars n ++ List.replicate k '0').take maxDigits =
        digitChars n ++ List.replicate kept '0' := by
      rw [List.take_append, List.take_of_length_le hroom, List.take_replicate]
    have hdrop : (digitChars n ++ List.replicate k '0').drop maxDigits =
        List.replicate passed '0' := by
      rw [List.drop_append, List.drop_of_length_le hroom, List.drop_replicate, List.nil_append]
    simp only [htake, hdrop]
    rw [if_pos (by simp), ofDigits_append_zeros, ofDigits_digitChars, List.length_replicate]

end Numeral

theorem isDigit_replicate_zero (k : ℕ) : ∀ c ∈ List.replicate k '0', c.isDigit = true := by
  intro c hc
  rw [List.eq_of_mem_replicate hc]
  rfl

theorem takeFraction_point {f : List Char} (hf : ∀ c ∈ f, c.isDigit = true) :
    takeFraction ('.' :: f) = (f, []) := by
  have h := takeDigits_append hf .nil
  rwa [List.append_nil] at h

namespace Decimal

/-- The digits `w` before a point and `f` behind it are those of the decimal among zeros. -/
structure Pointed (d : Decimal) (w f : List Char) (j k : ℕ) : Prop where
  ne_nil : w ≠ []
  digits : w ++ f = List.replicate j '0' ++ (digitChars d.digits ++ List.replicate k '0')
  exponent : (k : ℤ) - f.length = d.exponent

theorem Pointed.isDigit {d : Decimal} {w f : List Char} {j k : ℕ} (h : d.Pointed w f j k) :
    ∀ c ∈ w ++ f, c.isDigit = true := by
  intro c hc
  rw [h.digits, List.mem_append, List.mem_append] at hc
  rcases hc with hc | hc | hc
  · exact isDigit_replicate_zero _ c hc
  · exact isDigit_of_mem_digitChars _ c hc
  · exact isDigit_replicate_zero _ c hc

theorem positionalChars_eq (d : Decimal) :
    ∃ w f j k, d.Pointed w f j k ∧
      (d.positionalChars false = w ∧ f = [] ∨ d.positionalChars false = w ++ '.' :: f) := by
  have hne := digitChars_ne_nil d.digits
  unfold positionalChars
  extract_lets digits
  split
  · next hexponent =>
    -- A whole number: zeros follow the digits.
    refine ⟨digits ++ List.replicate d.exponent.toNat '0', [], 0, d.exponent.toNat, ?_,
      .inl ⟨by simp, rfl⟩⟩
    constructor
    · simp [digits, hne]
    · simp [digits]
    · simpa using hexponent
  · split
    · next hexponent hinside =>
      -- The point stands among the digits.
      set whole := digits.length - (-d.exponent).toNat with hwhole
      refine ⟨digits.take whole, digits.drop whole, 0, 0, ?_, .inr rfl⟩
      constructor
      · apply List.ne_nil_of_length_pos
        rw [List.length_take]
        omega
      · simp [digits]
      · rw [List.length_drop]
        omega
    · next hexponent hbefore =>
      -- Zeros stand between the point and the digits.
      set zeros := (-d.exponent).toNat - digits.length with hzeros
      refine ⟨['0'], List.replicate zeros '0' ++ digits, zeros + 1, 0, ?_, .inr rfl⟩
      constructor
      · simp
      · simp [List.replicate_succ, digits]
      · rw [List.length_append, List.length_replicate]
        omega

theorem positionalChars_ne_nil (d : Decimal) : d.positionalChars false ≠ [] := by
  obtain ⟨w, f, j, k, h, ⟨hchars, -⟩ | hchars⟩ := d.positionalChars_eq
  · rw [hchars]
    exact h.ne_nil
  · simp [hchars]

theorem mem_positionalChars {d : Decimal} {c : Char} (hc : c ∈ d.positionalChars false) :
    c.isDigit = true ∨ c = '.' := by
  obtain ⟨w, f, j, k, h, ⟨hchars, -⟩ | hchars⟩ := d.positionalChars_eq <;> rw [hchars] at hc
  · exact .inl (h.isDigit c (List.mem_append_left f hc))
  · rcases List.mem_append.1 hc with hc | hc
    · exact .inl (h.isDigit c (List.mem_append_left f hc))
    · rcases List.mem_cons.1 hc with rfl | hc
      · exact .inr rfl
      · exact .inl (h.isDigit c (List.mem_append_right w hc))

def ReadsBack (d : Decimal) (cs : List Char) : Prop :=
  ∀ negative, ∃ n : Numeral, 0 < n.digits ∧ n.negative = negative ∧ n.magnitude = d.value ∧
    Numeral.ofChars? ((if negative then ['-'] else []) ++ cs) = some n

theorem readsBack_positionalChars {d : Decimal} (hpos : 0 < d.digits) (hd : d.digits < 10 ^ 18) :
    d.ReadsBack (d.positionalChars false) := by
  intro negative
  obtain ⟨w, f, j, k, h, hchars⟩ := d.positionalChars_eq
  have hw : ∀ c ∈ w, c.isDigit = true := fun c hc => h.isDigit c (List.mem_append_left f hc)
  obtain ⟨digits, exponent, hn, hmagnitude, hread⟩ :=
    Numeral.ofDigits_zeros negative hpos hd j k (0 - f.length)
  refine ⟨⟨negative, digits, exponent⟩, hn, rfl, ?_, ?_⟩
  · rw [hmagnitude, value, ← h.exponent]
    congr 2
    ring
  · rw [← hread, ← h.digits]
    rcases hchars with ⟨hchars, rfl⟩ | hchars
    · have hnone : takeFraction [] = ([], []) := rfl
      have hall := Numeral.ofChars?_eq negative hw h.ne_nil .nil hnone rfl
      rw [List.append_nil] at hall
      rwa [hchars, List.append_nil]
    · rw [hchars]
      exact Numeral.ofChars?_eq negative hw h.ne_nil (.cons rfl f)
        (takeFraction_point fun c hc => h.isDigit c (List.mem_append_right w hc)) rfl

theorem toFloat?_zero (negative : Bool) :
    (Numeral.ofChars? ((if negative then ['-'] else []) ++
      (⟨0, 0⟩ : Decimal).positionalChars false)).bind Numeral.toFloat? =
        some (Number.ofMagnitudeBits negative 0) := by
  have hchars : (⟨0, 0⟩ : Decimal).positionalChars false = ['0'] ++ [] := by
    simp [positionalChars, digitChars_of_lt, digitChar]
  have hend : takeFraction [] = ([], []) := rfl
  rw [hchars, Numeral.ofChars?_eq negative (by simp) (by simp) .nil hend rfl]
  rfl

end Decimal

namespace Numeral

theorem lead_bounds {n : Numeral} (hpos : 0 < n.digits) (hlow : (10 : ℚ) ^ (-400 : ℤ) ≤ n.magnitude)
    (hhigh : n.magnitude < 10 ^ (400 : ℤ)) :
    -farLead ≤ digitCount n.digits + n.exponent ∧ digitCount n.digits + n.exponent ≤ farLead := by
  obtain ⟨c, hc, hfirst, hlast⟩ := digitCount_spec hpos
  have hten : (0 : ℚ) < 10 ^ n.exponent := by positivity
  have hover : (10 : ℚ) ^ (c + n.exponent) ≤ n.magnitude := by
    rw [zpow_add₀ (by norm_num), zpow_natCast, magnitude]
    gcongr
    exact_mod_cast hfirst
  have hunder : n.magnitude < (10 : ℚ) ^ ((c + 1 : ℕ) + n.exponent) := by
    rw [zpow_add₀ (by norm_num), zpow_natCast, magnitude]
    gcongr
    exact_mod_cast hlast
  have h₁ := (zpow_lt_zpow_iff_right₀ (by norm_num : (1 : ℚ) < 10)).1 (hlow.trans_lt hunder)
  have h₂ := (zpow_lt_zpow_iff_right₀ (by norm_num : (1 : ℚ) < 10)).1 (hover.trans_lt hhigh)
  rw [hc, farLead]
  omega

end Numeral

namespace Binary

variable {b : Binary}

theorem two_pow_le_ten_pow : (2 : ℚ) ^ 1076 ≤ 10 ^ 400 :=
  calc (2 : ℚ) ^ 1076 ≤ (2 ^ 13) ^ 100 := by
        rw [← pow_mul]
        exact pow_le_pow_right₀ (by norm_num) (by norm_num)
    _ ≤ (10 ^ 4) ^ 100 := by
        gcongr
        norm_num
    _ = 10 ^ 400 := by rw [← pow_mul]

theorem magnitude_bounds (hb : b.Canonical) (hpos : 0 < b.mantissa) (hfinite : b.bits < infinityBits)
    {v : ℚ} (hv : b.interval.Contains (v / 2 ^ (b.exponent - 2))) :
    (10 : ℚ) ^ (-400 : ℤ) ≤ v ∧ v < 10 ^ (400 : ℤ) := by
  have hunit : (0 : ℚ) < 2 ^ (b.exponent - 2) := by positivity
  obtain ⟨⟨hlow, hhigh⟩, -⟩ := hv
  rw [le_div_iff₀ hunit] at hlow
  rw [div_le_iff₀ hunit] at hhigh
  have htwo : (2 : ℚ) ≤ b.interval.low := by
    have hone : (1 : ℚ) ≤ b.mantissa := by exact_mod_cast hpos
    rcases low_cases hpos with hl | ⟨-, hl⟩ <;> rw [hl] <;> linarith
  have hupper : (b.interval.high : ℚ) ≤ 2 ^ 55 := by
    have h := hb.mantissa_lt
    have : b.interval.high ≤ 2 ^ 55 := by
      simp only [interval, fullMantissa] at *
      omega
    exact_mod_cast this
  have hleast := hb.leastExponent_le
  have hgreatest : b.exponent ≤ 972 := by
    simp only [bits, infinityBits, fullMantissa, leastExponent] at *
    omega
  constructor
  · calc (10 : ℚ) ^ (-400 : ℤ)
        ≤ 2 ^ (-1076 : ℤ) := by
          rw [zpow_neg, zpow_neg]
          exact inv_anti₀ (by positivity) (by exact_mod_cast two_pow_le_ten_pow)
      _ ≤ 2 * 2 ^ (-1076 : ℤ) := by linarith [zpow_pos (by norm_num : (0 : ℚ) < 2) (-1076)]
      _ ≤ b.interval.low * 2 ^ (b.exponent - 2) := by
        gcongr
        · norm_num
        · rw [leastExponent] at hleast
          omega
      _ ≤ v := hlow
  · calc v ≤ b.interval.high * 2 ^ (b.exponent - 2) := hhigh
      _ ≤ 2 ^ 55 * 2 ^ (970 : ℤ) := by
        gcongr
        · norm_num
        · omega
      _ < 2 ^ 1076 := by
        rw [← zpow_natCast, ← zpow_natCast, ← zpow_add₀ (by norm_num)]
        exact zpow_lt_zpow_right₀ (by norm_num) (by norm_num)
      _ ≤ 10 ^ (400 : ℤ) := by exact_mod_cast two_pow_le_ten_pow

theorem toFloat?_eq (hb : b.Canonical) (hpos : 0 < b.mantissa) (hfinite : b.bits < infinityBits)
    {n : Numeral} (hn : 0 < n.digits)
    (hv : b.interval.Contains (n.magnitude / 2 ^ (b.exponent - 2))) :
    n.toFloat? = some (Number.ofMagnitudeBits n.negative b.bits) := by
  obtain ⟨hlow, hhigh⟩ := magnitude_bounds hb hpos hfinite hv
  obtain ⟨hfar, hfar'⟩ := Numeral.lead_bounds hn hlow hhigh
  have hratio : ((n.digits * 10 ^ n.exponent.toNat : ℕ) : ℚ) / (10 ^ (-n.exponent).toNat : ℕ) =
      n.magnitude := by
    have h := scaled_div (n := n.digits) (d := 1) (b := 10) (by norm_num) n.exponent
    rw [Numeral.magnitude]
    simpa using h
  have hbits := nearestBits_eq hb (n := n.digits * 10 ^ n.exponent.toNat)
    (d := 10 ^ (-n.exponent).toNat) (by positivity) (by positivity) (by rwa [hratio])
  have hnonzero : n.digits * 10 ^ n.exponent.toNat ≠ 0 := by positivity
  unfold Numeral.toFloat?
  rw [if_neg (by simp; omega), if_neg (by omega), nearest?, if_neg hnonzero, hbits, if_pos hfinite]

theorem toFloat?_of_readsBack (hb : b.Canonical) (hpos : 0 < b.mantissa)
    (hfinite : b.bits < infinityBits) {tie : Tie} {cs : List Char}
    (h : (b.shortest tie).ReadsBack cs) (negative : Bool) :
    (Numeral.ofChars? ((if negative then ['-'] else []) ++ cs)).bind Numeral.toFloat? =
      some (Number.ofMagnitudeBits negative b.bits) := by
  obtain ⟨n, hn, hnegative, hmagnitude, hread⟩ := h negative
  obtain ⟨-, -, hin⟩ := shortest_spec tie hb.mantissa_lt hpos
  rw [← hmagnitude] at hin
  rw [hread, Option.bind_some, toFloat?_eq hb hpos hfinite hn hin, hnegative]

theorem mantissa_eq_zero_iff (negative : Bool) (bits : ℕ) :
    (ofMagnitudeBits negative bits).mantissa = 0 ↔ bits = 0 := by
  unfold ofMagnitudeBits
  split
  · rfl
  · simp only [fullMantissa] at *
    omega

end Binary

structure Layout.Plain (layout : Layout) : Prop where
  positional : ∀ lead, layout.positional lead = true
  showsFraction : layout.showsFraction = false
  showsSignOfZero : layout.showsSignOfZero = true

theorem finite_of_ofText? {text : String} {x : Float} (h : ofText? text = some x) : Finite x := by
  obtain ⟨n, -, hn⟩ := Option.bind_eq_some_iff.1 h
  unfold Numeral.toFloat? at hn
  extract_lets lead at hn
  split at hn
  · exact Binary.finite_of_nearest? hn
  · split at hn
    · contradiction
    · exact Binary.finite_of_nearest? hn

end PrefixScript.Number
