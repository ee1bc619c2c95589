import PrefixScript.Number.Binary

namespace PrefixScript.Number

open Float.Model Float.Model.UnpackedFloat

attribute [local instance (high)] instPowNat

theorem sign_toBitVec_ofBitVec (s : BitVec 1) : (Sign.ofBitVec s).toBitVec = s := by
  revert s
  decide

theorem packComponents_unpack (w : BitVec Format.binary64.numBits) :
    packComponents .binary64 (.ofBitVec (unpackSign w)) (unpackExponent w) (unpackMantissa w) =
      w := by
  rw [packComponents, sign_toBitVec_ofBitVec]
  apply BitVec.eq_of_getLsbD_eq
  intro i hi
  unfold unpackSign unpackExponent unpackMantissa
  simp only [BitVec.extractLsb, BitVec.getLsbD_append]
  grind

theorem toNat_implicit_append (m : BitVec 52) : (1#1 ++ m).toNat = 2 ^ (52 : Nat) + m.toNat := by
  rw [BitVec.toNat_append, ← Nat.shiftLeft_add_eq_or_of_lt m.isLt]
  rfl

theorem log2_add_one_eq_iff {m : Nat} (hm : m < 2 ^ (53 : Nat)) :
    m.log2 + 1 = Format.binary64.mantissaBits ↔ 2 ^ (52 : Nat) ≤ m := by
  have hbits : Format.binary64.mantissaBits = 53 := rfl
  rcases Nat.eq_zero_or_pos m with rfl | hpos
  · simp [hbits]
  · have hle := Nat.le_log2 (n := m) (k := 52) (by omega)
    have hlt := Nat.log2_lt (n := m) (k := 53) (by omega)
    omega

theorem pack_finite (s : Sign) {m : Nat} (e : Int) (hm : 0 < m) :
    UnpackedFloat.pack .binary64 (.finite s m e hm) =
      if 2 ^ (11 : Nat) ≤ (e + (1023 : Nat) + (52 : Nat)).toNat + 1 then packedInfinity .binary64 s
      else if m.log2 + 1 = Format.binary64.mantissaBits then
        packComponents .binary64 s (BitVec.ofNat 11 (e + (1023 : Nat) + (52 : Nat)).toNat)
          (BitVec.ofNat 52 m)
      else packComponents .binary64 s 0#11 (BitVec.ofNat 52 m) := rfl

section Unpack

variable {w : BitVec Format.binary64.numBits}

theorem packComponents_of_unpack {e : BitVec Format.binary64.exponentBits}
    {m : BitVec Format.binary64.mantissaBitsWithoutImplicit} (he : unpackExponent w = e)
    (hm : unpackMantissa w = m) :
    packComponents .binary64 (.ofBitVec (unpackSign w)) e m = w := by
  rw [← he, ← hm, packComponents_unpack]

theorem unpack_of_full (h : unpackExponent w = -1#_) :
    UnpackedFloat.unpack .binary64 w =
      if unpackMantissa w = 0#_ then .infinity (.ofBitVec (unpackSign w)) else .notANumber :=
  if_pos h

theorem ne_full_of_eq_zero (h : unpackExponent w = 0#_) : unpackExponent w ≠ -1#_ := by
  rw [h]
  decide

theorem unpack_of_zero (h : unpackExponent w = 0#_) (hm : unpackMantissa w = 0#_) :
    UnpackedFloat.unpack .binary64 w = .zero (.ofBitVec (unpackSign w)) :=
  (if_neg (ne_full_of_eq_zero h)).trans ((if_pos h).trans (dif_pos hm))

theorem unpack_of_low (h : unpackExponent w = 0#_) (hm : unpackMantissa w ≠ 0#_) :
    ∃ hpos, UnpackedFloat.unpack .binary64 w =
      .finite (.ofBitVec (unpackSign w)) (unpackMantissa w).toNat (-1074) hpos := by
  have hexponent : ((unpackExponent w).toNat : Int) - ((1023 : Nat) + (52 : Nat)) + 1 = -1074 := by
    rw [h]
    rfl
  rw [← hexponent]
  exact ⟨_, (if_neg (ne_full_of_eq_zero h)).trans ((if_pos h).trans (dif_neg hm))⟩

theorem unpack_of_normal (h : unpackExponent w ≠ -1#_) (hzero : unpackExponent w ≠ 0#_) :
    ∃ hpos, UnpackedFloat.unpack .binary64 w =
      .finite (.ofBitVec (unpackSign w)) (1#1 ++ unpackMantissa w).toNat
        ((unpackExponent w).toNat - ((1023 : Nat) + (52 : Nat))) hpos :=
  ⟨_, (if_neg h).trans (if_neg hzero)⟩

theorem pack_unpack (h : unpackExponent w ≠ -1#_) :
    UnpackedFloat.pack .binary64 (UnpackedFloat.unpack .binary64 w) = w := by
  have hm : (unpackMantissa w).toNat < 2 ^ 52 := (unpackMantissa w).isLt
  have he : (unpackExponent w).toNat < 2 ^ 11 := (unpackExponent w).isLt
  have hall : (unpackExponent w).toNat ≠ 2047 := fun heq => h (BitVec.eq_of_toNat_eq heq)
  by_cases hzero : unpackExponent w = 0#_
  · by_cases hmantissa : unpackMantissa w = 0#_
    · -- Zero.
      rw [unpack_of_zero hzero hmantissa]
      exact packComponents_of_unpack hzero hmantissa
    · -- A number below the full mantissas: its exponent is stored as zero.
      have hnot : ¬ (unpackMantissa w).toNat.log2 + 1 = Format.binary64.mantissaBits := by
        rw [log2_add_one_eq_iff (by omega)]
        omega
      obtain ⟨hpos, hunpack⟩ := unpack_of_low hzero hmantissa
      rw [hunpack, pack_finite, if_neg (by decide), if_neg hnot, BitVec.ofNat_toNat,
        BitVec.setWidth_eq]
      exact packComponents_of_unpack hzero rfl
  · have happend := toNat_implicit_append (unpackMantissa w)
    have hexponent : (((unpackExponent w).toNat : Int) - ((1023 : Nat) + (52 : Nat)) + (1023 : Nat) +
        (52 : Nat)).toNat = (unpackExponent w).toNat := by
      omega
    have hfull : (1#1 ++ unpackMantissa w).toNat.log2 + 1 = Format.binary64.mantissaBits := by
      rw [log2_add_one_eq_iff] <;> omega
    have hmantissa : BitVec.ofNat 52 (1#1 ++ unpackMantissa w).toNat = unpackMantissa w := by
      apply BitVec.eq_of_toNat_eq
      rw [happend, BitVec.toNat_ofNat]
      omega
    obtain ⟨hpos, hunpack⟩ := unpack_of_normal h hzero
    rw [hunpack, pack_finite, hexponent, if_neg (by omega), if_pos hfull, hmantissa,
      BitVec.ofNat_toNat, BitVec.setWidth_eq]
    exact packComponents_unpack w

theorem pack_unpack_of_valid (h : Format.binary64.Valid w) :
    UnpackedFloat.pack .binary64 (UnpackedFloat.unpack .binary64 w) = w := by
  by_cases hfull : unpackExponent w = -1#_
  · by_cases hzero : unpackMantissa w = 0#_
    · -- An infinity.
      rw [unpack_of_full hfull, if_pos hzero]
      exact packComponents_of_unpack hfull hzero
    · rw [h.eq_packedNaN hfull hzero]
      rfl
  · exact pack_unpack hfull

end Unpack

theorem toNat_unpackExponent (w : BitVec Format.binary64.numBits) :
    (unpackExponent w).toNat = w.toNat / 2 ^ (52 : Nat) % 2 ^ (11 : Nat) := by
  change (w.toNat >>> 52) % 2 ^ 11 = _
  rw [Nat.shiftRight_eq_div_pow]

theorem unpackExponent_ne {w : BitVec Format.binary64.numBits}
    (h : w.toNat % signBit < infinityBits) : unpackExponent w ≠ -1#_ := by
  intro heq
  have hexponent := toNat_unpackExponent w
  rw [heq] at hexponent
  change 2047 = _ at hexponent
  simp only [signBit, infinityBits, fullMantissa] at h
  omega

theorem toBits_ofBits {w : UInt64} (h : w.toNat % signBit < infinityBits) :
    (Float.ofBits w).toBits = w := by
  apply UInt64.toBitVec_inj.1
  exact pack_unpack (w := w.toBitVec) (unpackExponent_ne h)

theorem toBits_injective : Function.Injective Float.toBits := by
  rintro ⟨⟨bits, _⟩⟩ ⟨⟨_, _⟩⟩ h
  obtain rfl : bits = _ := h
  rfl

theorem ofBits_toBits (x : Float) : Float.ofBits x.toBits = x := by
  apply toBits_injective
  apply UInt64.toBitVec_inj.1
  exact pack_unpack_of_valid x.toModel.valid

def Finite (x : Float) : Prop :=
  magnitudeBits x < infinityBits

section OfMagnitudeBits

variable {bits : Nat} (negative : Bool) (h : bits < infinityBits)
include h

theorem toNat_toBits_ofMagnitudeBits : (ofMagnitudeBits negative bits).toBits.toNat =
    if negative then signBit + bits else bits := by
  have hlt : (if negative then signBit + bits else bits) < 2 ^ 64 := by
    simp only [signBit, infinityBits, fullMantissa] at *
    split <;> omega
  have hnat := UInt64.toNat_ofNat_of_lt' hlt
  rw [ofMagnitudeBits, toBits_ofBits, hnat]
  rw [hnat]
  simp only [signBit, infinityBits, fullMantissa] at *
  split <;> omega

theorem magnitudeBits_ofMagnitudeBits : magnitudeBits (ofMagnitudeBits negative bits) = bits := by
  rw [magnitudeBits, toNat_toBits_ofMagnitudeBits negative h]
  simp only [signBit, infinityBits, fullMantissa] at *
  split <;> omega

theorem finite_ofMagnitudeBits : Finite (ofMagnitudeBits negative bits) := by
  rwa [Finite, magnitudeBits_ofMagnitudeBits negative h]

end OfMagnitudeBits

theorem ofMagnitudeBits_magnitudeBits (x : Float) :
    ofMagnitudeBits (isNegative x) (magnitudeBits x) = x := by
  have hlt := x.toBits.toNat_lt
  have hnat : (if isNegative x then signBit + magnitudeBits x else magnitudeBits x) =
      x.toBits.toNat := by
    unfold isNegative magnitudeBits signBit
    by_cases hsign : 2 ^ 63 ≤ x.toBits.toNat
    · rw [if_pos (decide_eq_true hsign)]
      omega
    · rw [if_neg (by simpa using hsign)]
      omega
  rw [ofMagnitudeBits, hnat, UInt64.ofNat_toNat, ofBits_toBits]

theorem Binary.ofFloat?_of_finite {x : Float} (h : Finite x) :
    ofFloat? x = some (ofMagnitudeBits (isNegative x) (magnitudeBits x)) :=
  if_pos h

theorem Binary.finite_of_nearest? {negative : Bool} {n d : Nat} {x : Float}
    (h : nearest? negative n d = some x) : Finite x := by
  unfold nearest? at h
  split at h
  · obtain rfl := Option.some.inj h
    exact finite_ofMagnitudeBits negative (by decide)
  · split at h
    · next hfinite =>
      obtain rfl := Option.some.inj h
      exact finite_ofMagnitudeBits negative hfinite
    · contradiction

end PrefixScript.Number
