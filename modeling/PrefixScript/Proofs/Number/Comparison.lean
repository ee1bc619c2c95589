import PrefixScript.Proofs.Number.Rounding
import PrefixScript.Proofs.Number.Sums

/-!
# Comparing numbers

The host takes a number apart before it compares it: first signs are compared, then exponents, then
mantissas. Bits are ordered in the same way. So every number has a place on the line of integers,
both zeros the same one, and apart from NaN two numbers compare as their places do.
-/

namespace PrefixScript.Number

open Float.Model Float.Model.UnpackedFloat

def word (x : Float) : BitVec Format.binary64.numBits :=
  x.toBits.toBitVec

def hostSign (negative : Bool) : Sign :=
  if negative then .negative else .positive

/-- What the host makes of a sign and the bits below it. -/
inductive Unpacks (negative : Bool) (bits : Nat) : UnpackedFloat → Prop
  | zero (h : bits = 0) : Unpacks negative bits (.zero (hostSign negative))
  | finite (m : Nat) (e : Int) (hm : 0 < m) (h : bits < infinityBits)
      (hparts : Binary.ofMagnitudeBits negative bits = ⟨negative, m, e⟩) :
      Unpacks negative bits (.finite (hostSign negative) m e hm)
  | infinity (h : bits = infinityBits) : Unpacks negative bits (.infinity (hostSign negative))
  | notANumber (h : infinityBits < bits) : Unpacks negative bits .notANumber

section Unpack

variable (w : BitVec Format.binary64.numBits)

theorem toNat_unpackMantissa : (unpackMantissa w).toNat = w.toNat % 2 ^ 52 := by
  change (w.toNat >>> 0) % 2 ^ 52 = _
  rw [Nat.shiftRight_zero]

theorem ofBitVec_unpackSign :
    Sign.ofBitVec (unpackSign w) = hostSign (signBit ≤ w.toNat) := by
  have hnat : (unpackSign w).toNat = w.toNat / 2 ^ 63 % 2 := by
    change (w.toNat >>> 63) % 2 ^ 1 = _
    rw [Nat.shiftRight_eq_div_pow]
  have hlt : w.toNat < 2 ^ 64 := w.isLt
  unfold Sign.ofBitVec hostSign
  by_cases h : signBit ≤ w.toNat
  · have hne : unpackSign w ≠ 0#1 := by
      intro heq
      rw [heq] at hnat
      change 0 = _ at hnat
      rw [signBit] at h
      omega
    rw [if_neg hne, if_pos (by simpa using h)]
  · have heq : unpackSign w = 0#1 := by
      apply BitVec.eq_of_toNat_eq
      rw [hnat]
      change _ = 0
      rw [signBit] at h
      omega
    rw [if_pos heq, if_neg (by simpa using h)]

end Unpack

theorem magnitudeBits_eq_parts (x : Float) :
    magnitudeBits x = (unpackExponent (word x)).toNat * fullMantissa +
      (unpackMantissa (word x)).toNat := by
  rw [toNat_unpackMantissa, toNat_unpackExponent]
  change x.toBits.toNat % signBit = x.toBits.toNat / 2 ^ 52 % 2 ^ 11 * fullMantissa +
    x.toBits.toNat % 2 ^ 52
  have hlt := x.toBits.toNat_lt
  simp only [signBit, fullMantissa]
  omega

section Unpacks

variable {x : Float}

theorem unpacks_of_full (h : unpackExponent (word x) = -1#_) :
    Unpacks (isNegative x) (magnitudeBits x) (UnpackedFloat.unpack .binary64 (word x)) := by
  have hbits := magnitudeBits_eq_parts x
  have hall : (unpackExponent (word x)).toNat = 2047 := congrArg BitVec.toNat h
  rw [hall] at hbits
  rw [unpack_of_full h, ofBitVec_unpackSign (word x)]
  split
  · next hzero =>
    have hnone : (unpackMantissa (word x)).toNat = 0 := congrArg BitVec.toNat hzero
    exact .infinity (by rw [hbits, hnone, infinityBits, Nat.add_zero])
  · next hzero =>
    have hsome : (unpackMantissa (word x)).toNat ≠ 0 := fun heq =>
      hzero (BitVec.eq_of_toNat_eq heq)
    exact .notANumber (by rw [hbits, infinityBits]; omega)

theorem unpacks_of_zero (h : unpackExponent (word x) = 0#_) :
    Unpacks (isNegative x) (magnitudeBits x) (UnpackedFloat.unpack .binary64 (word x)) := by
  have hm : (unpackMantissa (word x)).toNat < fullMantissa := (unpackMantissa (word x)).isLt
  have hnone : (unpackExponent (word x)).toNat = 0 := congrArg BitVec.toNat h
  have hbits := magnitudeBits_eq_parts x
  rw [hnone, Nat.zero_mul, Nat.zero_add] at hbits
  by_cases hzero : unpackMantissa (word x) = 0#_
  · rw [unpack_of_zero h hzero, ofBitVec_unpackSign (word x)]
    exact .zero (hbits.trans (congrArg BitVec.toNat hzero))
  · obtain ⟨hpos, hunpack⟩ := unpack_of_low h hzero
    rw [hunpack, ofBitVec_unpackSign (word x)]
    refine .finite _ _ _ (by rw [infinityBits]; omega) ?_
    rw [Binary.ofMagnitudeBits, if_pos (by omega), hbits]
    rfl

theorem unpacks_of_normal (h : unpackExponent (word x) ≠ -1#_)
    (hzero : unpackExponent (word x) ≠ 0#_) :
    Unpacks (isNegative x) (magnitudeBits x) (UnpackedFloat.unpack .binary64 (word x)) := by
  have hm : (unpackMantissa (word x)).toNat < 2 ^ 52 := (unpackMantissa (word x)).isLt
  have he : (unpackExponent (word x)).toNat < 2 ^ 11 := (unpackExponent (word x)).isLt
  have hall : (unpackExponent (word x)).toNat ≠ 2047 := fun heq => h (BitVec.eq_of_toNat_eq heq)
  have hsome : (unpackExponent (word x)).toNat ≠ 0 := fun heq => hzero (BitVec.eq_of_toNat_eq heq)
  have happend := toNat_implicit_append (unpackMantissa (word x))
  have hbits := magnitudeBits_eq_parts x
  obtain ⟨hpos, hunpack⟩ := unpack_of_normal h hzero
  rw [hunpack, ofBitVec_unpackSign (word x)]
  simp only [fullMantissa] at hbits
  refine .finite _ _ _ (by simp only [infinityBits, fullMantissa]; omega) ?_
  rw [Binary.ofMagnitudeBits, if_neg (by simp only [fullMantissa]; omega)]
  simp only [fullMantissa, leastExponent, Binary.mk.injEq, true_and, happend]
  omega

end Unpacks

theorem unpacks (x : Float) :
    Unpacks (isNegative x) (magnitudeBits x) (UnpackedFloat.unpack .binary64 (word x)) := by
  by_cases hfull : unpackExponent (word x) = -1#_
  · exact unpacks_of_full hfull
  · by_cases hzero : unpackExponent (word x) = 0#_
    · exact unpacks_of_zero hzero
    · exact unpacks_of_normal hfull hzero

theorem isNaN_iff_eq {u : UnpackedFloat} : u.isNaN = true ↔ u = .notANumber := by
  cases u with
  | notANumber => exact iff_of_true rfl rfl
  | zero | finite | infinity => exact iff_of_false nofun nofun

theorem isNaN_iff {x : Float} : x.isNaN = true ↔ infinityBits < magnitudeBits x := by
  have hx := unpacks x
  change (UnpackedFloat.unpack .binary64 (word x)).isNaN = true ↔ _
  rw [isNaN_iff_eq]
  generalize UnpackedFloat.unpack .binary64 (word x) = u at hx
  cases hx with
  | zero h | infinity h | finite _ _ _ h => exact iff_of_false nofun (by omega)
  | notANumber h => exact iff_of_true rfl h

theorem finite_of_isFinite {x : Float} (h : x.isFinite = true) : Finite x := by
  have hx := unpacks x
  change (UnpackedFloat.unpack .binary64 (word x)).isFinite = true at h
  generalize UnpackedFloat.unpack .binary64 (word x) = u at hx h
  cases hx with
  | zero hzero =>
    rw [Finite, hzero]
    decide
  | finite m e hm hlt => exact hlt
  | infinity | notANumber => contradiction

def signed (negative : Bool) (bits : Nat) : Int :=
  if negative then -(bits : Int) else bits

@[simp] theorem signed_true (bits : Nat) : signed true bits = -(bits : Int) := rfl

@[simp] theorem signed_false (bits : Nat) : signed false bits = bits := rfl

theorem eq_of_bits {x y : Float} (hsign : isNegative x = isNegative y)
    (hbits : magnitudeBits x = magnitudeBits y) : x = y := by
  have hsigns : signBit ≤ x.toBits.toNat ↔ signBit ≤ y.toBits.toNat := decide_eq_decide.1 hsign
  have hx := x.toBits.toNat_lt
  have hy := y.toBits.toNat_lt
  apply toBits_injective
  apply UInt64.toNat_inj.1
  simp only [magnitudeBits, signBit] at hsigns hbits
  omega

def place (x : Float) : Int :=
  signed (isNegative x) (magnitudeBits x)

@[simp] def Stands (a b : Int) : Ordering → Prop
  | .lt => a < b
  | .eq => a = b
  | .gt => b < a

theorem stands_compare (a b : Nat) : Stands a b (compare a b) := by
  rcases h : compare a b with _ | _ | _
  · simpa using Nat.compare_eq_lt.1 h
  · simpa using Nat.compare_eq_eq.1 h
  · simpa using Nat.compare_eq_gt.1 h

theorem Stands.neg {a b : Int} {o : Ordering} (h : Stands a b o) : Stands (-a) (-b) o.swap := by
  cases o <;> simp_all

/-- Exponents first, then mantissas: this is the order of bits. -/
theorem Binary.compare_bits {b c : Binary} (hb : b.Canonical) (hc : c.Canonical) :
    (compare b.exponent c.exponent).then (compare b.mantissa c.mantissa) =
      compare b.bits c.bits := by
  obtain ⟨hblt, hble, hbfull⟩ := hb
  obtain ⟨hclt, hcle, hcfull⟩ := hc
  simp only [bits, fullMantissa, leastExponent] at *
  rcases lt_trichotomy b.exponent c.exponent with h | h | h
  · rw [compare_lt_iff_lt.2 h, Ordering.lt_then, eq_comm, compare_lt_iff_lt]
    omega
  · rw [h, compare_eq_iff_eq.2 rfl, Ordering.eq_then]
    rcases lt_trichotomy b.mantissa c.mantissa with h' | h' | h'
    · rw [compare_lt_iff_lt.2 h', eq_comm, compare_lt_iff_lt]
      omega
    · rw [compare_eq_iff_eq.2 h', eq_comm, compare_eq_iff_eq]
      omega
    · rw [compare_gt_iff_gt.2 h', eq_comm, compare_gt_iff_gt]
      omega
  · rw [compare_gt_iff_gt.2 h, Ordering.gt_then, eq_comm, compare_gt_iff_gt]
    omega

section Parts

variable {negative negative' : Bool} {bits bits' m m' : Nat} {e e' : Int}
  (h : Binary.ofMagnitudeBits negative bits = ⟨negative, m, e⟩)
include h

theorem bits_pos_of_parts (hm : 0 < m) : 0 < bits := by
  have hbits := Binary.bits_ofMagnitudeBits negative bits
  rw [h, Binary.bits] at hbits
  simp only at hbits
  omega

theorem stands_of_parts (h' : Binary.ofMagnitudeBits negative' bits' = ⟨negative', m', e'⟩) :
    Stands bits bits' ((compare e e').then (compare m m')) := by
  have hcompare := Binary.compare_bits (Binary.canonical_ofMagnitudeBits negative bits)
    (Binary.canonical_ofMagnitudeBits negative' bits')
  rw [Binary.bits_ofMagnitudeBits, Binary.bits_ofMagnitudeBits, h, h'] at hcompare
  rw [hcompare]
  exact stands_compare bits bits'

end Parts

theorem Unpacks.compare {negative negative' : Bool} {bits bits' : Nat} {u v : UnpackedFloat}
    (hu : Unpacks negative bits u) (hv : Unpacks negative' bits' v) (hbits : bits ≤ infinityBits)
    (hbits' : bits' ≤ infinityBits) :
    ∃ o, u.compare v = some o ∧ Stands (signed negative bits) (signed negative' bits') o := by
  have hpos : 0 < infinityBits := by decide
  cases hu with
  | notANumber h => omega
  | zero h =>
    cases hv with
    | notANumber h' => omega
    | zero h' => cases negative <;> cases negative' <;> exact ⟨.eq, rfl, by simp [h, h']⟩
    | finite m' e' hm' h' hparts' =>
      have := bits_pos_of_parts hparts' hm'
      cases negative <;> cases negative' <;> refine ⟨_, rfl, ?_⟩ <;> simp <;> omega
    | infinity h' =>
      cases negative <;> cases negative' <;> refine ⟨_, rfl, ?_⟩ <;> simp <;> omega
  | finite m e hm h hparts =>
    have := bits_pos_of_parts hparts hm
    cases hv with
    | notANumber h' => omega
    | zero h' => cases negative <;> cases negative' <;> refine ⟨_, rfl, ?_⟩ <;> simp <;> omega
    | finite m' e' hm' h' hparts' =>
      have hstands := stands_of_parts hparts hparts'
      cases negative <;> cases negative' <;> refine ⟨_, rfl, ?_⟩
      · exact hstands
      · simp; omega
      · simp; omega
      · exact hstands.neg
    | infinity h' =>
      cases negative <;> cases negative' <;> refine ⟨_, rfl, ?_⟩ <;> simp <;> omega
  | infinity h =>
    cases hv with
    | notANumber h' => omega
    | zero h' | finite m' e' hm' h' =>
      cases negative <;> cases negative' <;> refine ⟨_, rfl, ?_⟩ <;> simp <;> omega
    | infinity h' =>
      cases negative <;> cases negative'
      · exact ⟨.eq, rfl, by simp [h, h']⟩
      · exact ⟨.gt, rfl, by simp; omega⟩
      · exact ⟨.lt, rfl, by simp; omega⟩
      · exact ⟨.eq, rfl, by simp [h, h']⟩

section Compare

variable {x y : Float}

def comparison (x y : Float) : Option Ordering :=
  (UnpackedFloat.unpack .binary64 (word x)).compare (UnpackedFloat.unpack .binary64 (word y))

theorem comparison_of_isNaN (h : x.isNaN = true ∨ y.isNaN = true) : comparison x y = none := by
  change (UnpackedFloat.unpack .binary64 (word x)).isNaN = true ∨
    (UnpackedFloat.unpack .binary64 (word y)).isNaN = true at h
  unfold comparison
  rcases h with h | h
  · rw [isNaN_iff_eq.1 h]
    rfl
  · rw [isNaN_iff_eq.1 h]
    cases UnpackedFloat.unpack .binary64 (word x) <;> rfl

theorem exists_comparison (hx : x.isNaN = false) (hy : y.isNaN = false) :
    ∃ o, comparison x y = some o ∧ Stands (place x) (place y) o := by
  rw [← Bool.not_eq_true, isNaN_iff, Nat.not_lt] at hx hy
  exact (unpacks x).compare (unpacks y) hx hy

/-- Neither number is NaN, and their places are related. -/
def Placed (r : Int → Int → Prop) (x y : Float) : Prop :=
  x.isNaN = false ∧ y.isNaN = false ∧ r (place x) (place y)

theorem comparison_iff {p : Option Ordering → Prop} {r : Int → Int → Prop} (hnone : ¬ p none)
    (hsome : ∀ {a b o}, Stands a b o → (p (some o) ↔ r a b)) :
    p (comparison x y) ↔ Placed r x y := by
  cases hx : x.isNaN with
  | true =>
    rw [comparison_of_isNaN (.inl hx)]
    exact iff_of_false hnone fun h => Bool.noConfusion (hx.symm.trans h.1)
  | false =>
    cases hy : y.isNaN with
    | true =>
      rw [comparison_of_isNaN (.inr hy)]
      exact iff_of_false hnone fun h => Bool.noConfusion (hy.symm.trans h.2.1)
    | false =>
      obtain ⟨o, ho, hstands⟩ := exists_comparison hx hy
      rw [ho, hsome hstands]
      exact ⟨fun h => ⟨hx, hy, h⟩, fun h => h.2.2⟩

theorem le_iff : x ≤ y ↔ Placed (· ≤ ·) x y := by
  have h : x ≤ y ↔ (comparison x y).any (·.isLE) = true := decide_eq_true_iff
  rw [h]
  refine comparison_iff (p := fun c => c.any (·.isLE) = true) (by simp) fun {a b o} ho => ?_
  cases o <;> simp at ho ⊢ <;> omega

theorem lt_iff : x < y ↔ Placed (· < ·) x y := by
  have h : x < y ↔ comparison x y = some .lt := decide_eq_true_iff.trans beq_iff_eq
  rw [h]
  refine comparison_iff (p := fun c => c = some .lt) (by simp) fun {a b o} ho => ?_
  cases o <;> simp at ho ⊢ <;> omega

theorem beq_iff : (x == y) = true ↔ Placed (· = ·) x y := by
  have h : (x == y) = (comparison x y == some .eq) := rfl
  rw [h, beq_iff_eq]
  refine comparison_iff (p := fun c => c = some .eq) (by simp) fun {a b o} ho => ?_
  cases o <;> simp at ho ⊢ <;> omega

theorem eq_or_zeros_of_place_eq (h : place x = place y) :
    x = y ∨ magnitudeBits x = 0 ∧ magnitudeBits y = 0 := by
  unfold place at h
  by_cases hsign : isNegative x = isNegative y
  · refine .inl (eq_of_bits hsign ?_)
    rw [hsign] at h
    cases hy : isNegative y <;> simpa [hy] using h
  · refine .inr ?_
    cases hx : isNegative x <;> cases hy : isNegative y <;> simp_all

theorem place_eq_zero_iff : place x = 0 ↔ magnitudeBits x = 0 := by
  unfold place signed
  split <;> omega

theorem beq_zero_iff : (x == 0) = true ↔ magnitudeBits x = 0 := by
  have hzero : (0 : Float).isNaN = false := rfl
  have hplace : place 0 = 0 := rfl
  rw [beq_iff, Placed, hplace, place_eq_zero_iff]
  refine ⟨fun h => h.2.2, fun h => ⟨?_, hzero, h⟩⟩
  rw [← Bool.not_eq_true, isNaN_iff, h]
  decide

theorem isNaN_of_finite (h : Finite x) : x.isNaN = false := by
  rw [← Bool.not_eq_true, isNaN_iff]
  exact Nat.not_lt_of_gt h

theorem isNaN_of_isFinite (h : x.isFinite = true) : x.isNaN = false :=
  isNaN_of_finite (finite_of_isFinite h)

theorem beq_self (h : x.isNaN = false) : (x == x) = true :=
  beq_iff.2 ⟨h, h, rfl⟩

end Compare

end PrefixScript.Number
