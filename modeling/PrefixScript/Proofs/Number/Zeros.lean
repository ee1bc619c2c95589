import PrefixScript.Number.Layout
import PrefixScript.Number.Whole
import PrefixScript.Proofs.Number.Comparison

namespace PrefixScript.Number

open Float.Model Float.Model.UnpackedFloat

def Alike (x y : Float) : Prop :=
  x = y ∨ magnitudeBits x = 0 ∧ magnitudeBits y = 0

inductive AlikeApart : UnpackedFloat → UnpackedFloat → Prop
  | refl (u : UnpackedFloat) : AlikeApart u u
  | zeros (s t : Sign) : AlikeApart (.zero s) (.zero t)

section Alike

variable {x x' y y' : Float} {u u' v v' : UnpackedFloat}

theorem Alike.refl (x : Float) : Alike x x := .inl rfl

theorem exists_unpack_zero (h : magnitudeBits x = 0) : ∃ s, x.toModel.unpack = .zero s := by
  have hx : Unpacks (isNegative x) (magnitudeBits x) x.toModel.unpack := unpacks x
  generalize x.toModel.unpack = u at hx
  rw [h] at hx
  cases hx with
  | zero => exact ⟨_, rfl⟩
  | finite m e hm _ hparts => exact absurd (bits_pos_of_parts hparts hm) (by decide)
  | infinity h | notANumber h => exact absurd h (by decide)

theorem Alike.apart (h : Alike x y) : AlikeApart x.toModel.unpack y.toModel.unpack := by
  obtain rfl | ⟨hx, hy⟩ := h
  · exact .refl _
  · obtain ⟨s, hs⟩ := exists_unpack_zero hx
    obtain ⟨t, ht⟩ := exists_unpack_zero hy
    rw [hs, ht]
    exact .zeros s t

theorem AlikeApart.pack (h : AlikeApart u v) :
    Alike (.ofModel (Float.Model.pack u)) (.ofModel (Float.Model.pack v)) := by
  cases h with
  | refl u => exact .refl _
  | zeros s t => cases s <;> cases t <;> exact .inr ⟨rfl, rfl⟩

theorem Alike.isFinite_eq (h : Alike x y) : x.isFinite = y.isFinite := by
  have hfinite : ∀ {u v}, AlikeApart u v → u.isFinite = v.isFinite := by
    intro u v h
    cases h <;> rfl
  exact hfinite h.apart

theorem beq_iff_alike : (x == y) = true ↔ x.isNaN = false ∧ Alike x y := by
  constructor
  · intro h
    obtain ⟨hx, -, hplace⟩ := beq_iff.1 h
    exact ⟨hx, eq_or_zeros_of_place_eq hplace⟩
  · rintro ⟨hx, rfl | ⟨hzero, hzero'⟩⟩
    · exact beq_self hx
    · have hy : y.isNaN = false := by
        rw [← Bool.not_eq_true, isNaN_iff, hzero']
        decide
      exact beq_iff.2 ⟨hx, hy, by rw [place_eq_zero_iff.2 hzero, place_eq_zero_iff.2 hzero']⟩

namespace AlikeApart

theorem trans {w : UnpackedFloat} (h : AlikeApart u v) (h' : AlikeApart v w) : AlikeApart u w := by
  cases h with
  | refl => exact h'
  | zeros s t =>
    cases h' with
    | refl => exact .zeros _ _
    | zeros => exact .zeros _ _

/-- An operation keeps numbers alike if it does so when one operand is a zero and changes its
sign. -/
theorem map₂ {f : UnpackedFloat → UnpackedFloat → UnpackedFloat}
    (hleft : ∀ s t v, AlikeApart (f (.zero s) v) (f (.zero t) v))
    (hright : ∀ u s t, AlikeApart (f u (.zero s)) (f u (.zero t))) (hu : AlikeApart u u')
    (hv : AlikeApart v v') : AlikeApart (f u v) (f u' v') := by
  have hfirst : AlikeApart (f u v) (f u' v) := by
    cases hu with
    | refl => exact .refl _
    | zeros s t => exact hleft s t v
  have hsecond : AlikeApart (f u' v) (f u' v') := by
    cases hv with
    | refl => exact .refl _
    | zeros s t => exact hright u' s t
  exact hfirst.trans hsecond

theorem add (hu : AlikeApart u u') (hv : AlikeApart v v') :
    AlikeApart (UnpackedFloat.add .binary64 u v) (UnpackedFloat.add .binary64 u' v') := by
  refine map₂ (fun s t v => ?_) (fun u s t => ?_) hu hv
  · cases v with
    | zero r => cases r <;> cases s <;> cases t <;> exact .zeros _ _
    | infinity | notANumber | finite => exact .refl _
  · cases u with
    | zero r => cases r <;> cases s <;> cases t <;> exact .zeros _ _
    | infinity | notANumber | finite => exact .refl _

theorem sub (hu : AlikeApart u u') (hv : AlikeApart v v') :
    AlikeApart (UnpackedFloat.sub .binary64 u v) (UnpackedFloat.sub .binary64 u' v') := by
  refine map₂ (fun s t v => ?_) (fun u s t => ?_) hu hv
  · cases v with
    | zero r => cases r <;> cases s <;> cases t <;> exact .zeros _ _
    | infinity | notANumber | finite => exact .refl _
  · cases u with
    | zero r => cases r <;> cases s <;> cases t <;> exact .zeros _ _
    | infinity | notANumber | finite => exact .refl _

theorem mul (hu : AlikeApart u u') (hv : AlikeApart v v') :
    AlikeApart (UnpackedFloat.mul .binary64 u v) (UnpackedFloat.mul .binary64 u' v') := by
  refine map₂ (fun s t v => ?_) (fun u s t => ?_) hu hv
  · cases v with
    | zero | finite => exact .zeros _ _
    | infinity | notANumber => exact .refl _
  · cases u with
    | zero | finite => exact .zeros _ _
    | infinity | notANumber => exact .refl _

theorem div (hu : AlikeApart u u') (hv : ∀ s, v ≠ .zero s) :
    AlikeApart (UnpackedFloat.div .binary64 u v) (UnpackedFloat.div .binary64 u' v) := by
  cases hu with
  | refl u => exact .refl _
  | zeros s t =>
    cases v with
    | zero r => exact absurd rfl (hv r)
    | infinity | finite => exact .zeros _ _
    | notANumber => exact .refl _

end AlikeApart

theorem magnitudeBits_of_unpack_zero {s : Sign} (h : x.toModel.unpack = .zero s) :
    magnitudeBits x = 0 := by
  have hx : Unpacks (isNegative x) (magnitudeBits x) x.toModel.unpack := unpacks x
  rw [h] at hx
  cases hx with
  | zero hbits => exact hbits

theorem Binary.ofFloat?_zero (h : magnitudeBits x = 0) :
    ofFloat? x = some ⟨isNegative x, 0, leastExponent⟩ := by
  have hfinite : Finite x := by
    rw [Finite, h]
    decide
  rw [ofFloat?_of_finite hfinite, h]
  rfl

namespace Alike

theorem add (hx : Alike x x') (hy : Alike y y') : Alike (x + y) (x' + y') :=
  (hx.apart.add hy.apart).pack

theorem sub (hx : Alike x x') (hy : Alike y y') : Alike (x - y) (x' - y') :=
  (hx.apart.sub hy.apart).pack

theorem mul (hx : Alike x x') (hy : Alike y y') : Alike (x * y) (x' * y') :=
  (hx.apart.mul hy.apart).pack

theorem div (hx : Alike x x') (hy : magnitudeBits y ≠ 0) : Alike (x / y) (x' / y) :=
  (hx.apart.div fun _ h => hy (magnitudeBits_of_unpack_zero h)).pack

theorem remainder (hx : Alike x x') (y : Float) : Alike (remainder x y) (remainder x' y) := by
  obtain rfl | ⟨hzero, hzero'⟩ := hx
  · exact .refl _
  · have hbits : ∀ negative, magnitudeBits (ofMagnitudeBits negative 0) = 0 := fun negative =>
      magnitudeBits_ofMagnitudeBits negative (by decide)
    unfold Number.remainder
    rw [Binary.ofFloat?_zero hzero, Binary.ofFloat?_zero hzero']
    cases Binary.ofFloat? y with
    | none =>
      dsimp only
      split
      · exact .refl _
      · exact .inr ⟨hzero, hzero'⟩
    | some b =>
      simp only [Binary.ratio, Nat.zero_mul, Nat.zero_mod]
      split
      · exact .refl _
      · exact .inr ⟨hbits _, hbits _⟩

theorem place_eq (h : Alike x y) : place x = place y := by
  obtain rfl | ⟨hx, hy⟩ := h
  · rfl
  · rw [place_eq_zero_iff.2 hx, place_eq_zero_iff.2 hy]

theorem isNaN_eq (h : Alike x y) : x.isNaN = y.isNaN := by
  rw [Bool.eq_iff_iff, isNaN_iff, isNaN_iff]
  obtain rfl | ⟨hx, hy⟩ := h
  · rfl
  · rw [hx, hy]

theorem placed_iff {r : Int → Int → Prop} (hx : Alike x x') (hy : Alike y y') :
    Placed r x y ↔ Placed r x' y' := by
  rw [Placed, Placed, hx.isNaN_eq, hy.isNaN_eq, hx.place_eq, hy.place_eq]

theorem le_iff_le (hx : Alike x x') (hy : Alike y y') : x ≤ y ↔ x' ≤ y' := by
  rw [le_iff, le_iff, placed_iff hx hy]

theorem lt_iff_lt (hx : Alike x x') (hy : Alike y y') : x < y ↔ x' < y' := by
  rw [lt_iff, lt_iff, placed_iff hx hy]

theorem beq_eq_beq (hx : Alike x x') (hy : Alike y y') : (x == y) = (x' == y') := by
  rw [Bool.eq_iff_iff, beq_iff, beq_iff, placed_iff hx hy]

theorem write_eq {layout : Layout} (hlayout : layout.showsSignOfZero = false) (h : Alike x y) :
    layout.write x = layout.write y := by
  obtain rfl | ⟨hx, hy⟩ := h
  · rfl
  · simp [Layout.write, Binary.ofFloat?_zero hx, Binary.ofFloat?_zero hy, hlayout, Binary.shortest]

theorem toUInt64_eq (h : Alike x y) : x.toUInt64 = y.toUInt64 := by
  have hword : ∀ {u v}, AlikeApart u v → u.toUInt64 = v.toUInt64 := by
    intro u v h
    cases h <;> rfl
  exact hword h.apart

theorem fraction_eq (h : Alike x y) : fraction x = fraction y := by
  obtain rfl | ⟨hx, hy⟩ := h
  · rfl
  · simp [fraction, Binary.ofFloat?_zero hx, Binary.ofFloat?_zero hy, Binary.ratio]

end Alike

end Alike

end PrefixScript.Number
