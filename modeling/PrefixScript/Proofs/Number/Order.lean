import PrefixScript.Number.Order
import PrefixScript.Number.Whole
import PrefixScript.Proofs.Number.Comparison

namespace PrefixScript.Number

theorem rank_cases (w : UInt64) :
    signBit ≤ w.toNat ∧ rank w = (signBit : Int) - 1 - w.toNat ∨
      w.toNat < signBit ∧ rank w = w.toNat := by
  by_cases h : signBit ≤ w.toNat
  · exact .inl ⟨h, if_pos h⟩
  · exact .inr ⟨Nat.lt_of_not_le h, if_neg h⟩

theorem rank_injective : Function.Injective rank := by
  intro v w h
  apply UInt64.toNat_inj.1
  rcases rank_cases v with ⟨hv, hrv⟩ | ⟨hv, hrv⟩ <;>
    rcases rank_cases w with ⟨hw, hrw⟩ | ⟨hw, hrw⟩ <;> omega

section Float

variable {x y : Float}

theorem rank_toBits (x : Float) :
    rank x.toBits = if isNegative x then -(magnitudeBits x : Int) - 1 else magnitudeBits x := by
  have hlt := x.toBits.toNat_lt
  unfold isNegative magnitudeBits
  rcases rank_cases x.toBits with ⟨hsign, hrank⟩ | ⟨hsign, hrank⟩
  · rw [hrank, if_pos (decide_eq_true hsign)]
    simp only [signBit] at *
    omega
  · rw [hrank, if_neg (by simpa using hsign), Nat.mod_eq_of_lt hsign]

theorem place_eq_rank (x : Float) :
    place x = if isNegative x then rank x.toBits + 1 else rank x.toBits := by
  rw [rank_toBits]
  unfold place
  cases isNegative x <;> simp

theorem isNegative_iff_rank : isNegative x = true ↔ rank x.toBits < 0 := by
  rw [rank_toBits]
  split
  · simp_all
    omega
  · simp_all

theorem rank_lt_of_lt (h : x < y) : rank x.toBits < rank y.toBits := by
  obtain ⟨-, -, hplace⟩ := lt_iff.1 h
  rw [place_eq_rank, place_eq_rank] at hplace
  have hx := isNegative_iff_rank (x := x)
  have hy := isNegative_iff_rank (x := y)
  split at hplace <;> split at hplace <;> simp_all <;> omega

theorem place_le_of_rank_le (h : rank x.toBits ≤ rank y.toBits) : place x ≤ place y := by
  rw [place_eq_rank, place_eq_rank]
  have hx := isNegative_iff_rank (x := x)
  have hy := isNegative_iff_rank (x := y)
  split <;> split <;> simp_all <;> omega

end Float

def NegativeNaN (w : UInt64) : Prop :=
  signBit + infinityBits < w.toNat

def PositiveNaN (w : UInt64) : Prop :=
  infinityBits < w.toNat ∧ w.toNat < signBit

/-- A total order of the bits of all numbers, which extends the order of the host. It starts with the
NaN that have a sign, `-∞` behind them, has the negative zero before the other one, and ends with
the other NaN. -/
structure TotalOrder (r : UInt64 → UInt64 → Prop) : Prop where
  total : ∀ v w, r v w ∨ r w v
  trans : ∀ u v w, r u v → r v w → r u w
  antisymm : ∀ v w, r v w → r w v → v = w
  of_lt : ∀ x y : Float, x < y → r x.toBits y.toBits
  negative_nan_first : ∀ v w, NegativeNaN v → ¬ NegativeNaN w → r v w
  infinity_first : ∀ w, ¬ NegativeNaN w → r (-1 / 0 : Float).toBits w
  zeros : r (-0 : Float).toBits (0 : Float).toBits
  positive_nan_last : ∀ v w, ¬ PositiveNaN v → PositiveNaN w → r v w

theorem precedes_iff {v w : UInt64} : precedes v w = true ↔ rank v ≤ rank w := by
  rw [precedes, decide_eq_true_eq]

theorem totalOrder_precedes : TotalOrder fun v w => precedes v w = true where
  total v w := by
    rw [precedes_iff, precedes_iff]
    omega
  trans u v w := by
    rw [precedes_iff, precedes_iff, precedes_iff]
    omega
  antisymm v w h h' :=
    rank_injective (Int.le_antisymm (precedes_iff.1 h) (precedes_iff.1 h'))
  of_lt x y h := precedes_iff.2 (rank_lt_of_lt h).le
  negative_nan_first v w hv hw := by
    unfold NegativeNaN at hv hw
    rw [precedes_iff]
    rcases rank_cases v with ⟨_, hrv⟩ | ⟨_, hrv⟩ <;> rcases rank_cases w with ⟨_, hrw⟩ | ⟨_, hrw⟩ <;>
      omega
  infinity_first w hw := by
    have hrank : rank (-1 / 0 : Float).toBits = -infinityBits - 1 := rfl
    unfold NegativeNaN at hw
    rw [precedes_iff, hrank]
    rcases rank_cases w with ⟨_, hrw⟩ | ⟨_, hrw⟩ <;> omega
  zeros := rfl
  positive_nan_last v w hv hw := by
    unfold PositiveNaN at hv hw
    rw [precedes_iff]
    rcases rank_cases v with ⟨_, hrv⟩ | ⟨_, hrv⟩ <;> rcases rank_cases w with ⟨_, hrw⟩ | ⟨_, hrw⟩ <;>
      omega

section Sorting

variable {ws : List UInt64} {xs ys : List Float}

theorem sortBits_perm (ws : List UInt64) : (sortBits ws).Perm ws :=
  List.mergeSort_perm ws precedes

theorem pairwise_sortBits (ws : List UInt64) :
    (sortBits ws).Pairwise fun v w => precedes v w = true :=
  List.pairwise_mergeSort totalOrder_precedes.trans
    (fun v w => (Bool.or_eq_true ..).mpr (totalOrder_precedes.total v w)) ws

theorem map_ofBits_toBits (xs : List Float) : (xs.map Float.toBits).map Float.ofBits = xs := by
  rw [List.map_map]
  exact (List.map_congr_left fun x _ => ofBits_toBits x).trans (List.map_id xs)

theorem sort_perm (xs : List Float) : (sort xs).Perm xs := by
  have hperm := (sortBits_perm (xs.map Float.toBits)).map Float.ofBits
  rwa [map_ofBits_toBits] at hperm

@[simp] theorem mem_sort {x : Float} : x ∈ sort xs ↔ x ∈ xs :=
  (sort_perm xs).mem_iff

theorem map_toBits_sort (xs : List Float) :
    (sort xs).map Float.toBits = sortBits (xs.map Float.toBits) := by
  rw [sort, List.map_map]
  refine (List.map_congr_left fun w hw => ?_).trans (List.map_id _)
  obtain ⟨x, -, rfl⟩ := List.mem_map.1 ((sortBits_perm _).mem_iff.1 hw)
  exact congrArg Float.toBits (ofBits_toBits x)

theorem pairwise_sort (xs : List Float) :
    (sort xs).Pairwise fun x y => precedes x.toBits y.toBits = true := by
  have hbits := pairwise_sortBits (xs.map Float.toBits)
  rw [← map_toBits_sort] at hbits
  exact List.pairwise_map.1 hbits

end Sorting

end PrefixScript.Number
