import PrefixScript.Proofs.Builtins
import PrefixScript.Proofs.Number.Order
import PrefixScript.Proofs.Number.Values

namespace PrefixScript

/-- Whether a value stands for a number: it is the number, or a text that is a numeral of it. -/
inductive Value.Denotes : Value → Float → Prop
  | number (x : Float) : Denotes (.number x) x
  | text {s : String} {x : Float} (h : Number.ofText? s = some x) : Denotes (.text s) x

namespace Builtin

section Positions

variable {index : Float} {xs : Array Float} {n k : ℕ}

theorem outside_eq_false_iff (hn : n ≤ 2 ^ 53) :
    outside index n = false ↔ ∃ k < n, Number.value? index = some (k : ℚ) := by
  have hlength := Number.value?_toFloat hn
  have hzero : Number.value? 0 = some 0 := Number.value?_of_zero rfl
  have hsplit : outside index n = false ↔ (Number.fraction index == 0) = true ∧
      ¬ index < 0 ∧ ¬ n.toUInt64.toFloat ≤ index := by
    simp [outside, and_assoc, bne]
  rw [hsplit, Number.fraction_beq_zero_iff]
  constructor
  · rintro ⟨⟨z, hz⟩, hneg, hlt⟩
    rw [Number.lt_iff_value_lt hz hzero] at hneg
    rw [Number.le_iff_value_le hlength hz] at hlt
    have hneg' : ¬ z < 0 := by exact_mod_cast hneg
    have hlt' : ¬ (n : ℤ) ≤ z := by exact_mod_cast hlt
    obtain ⟨k, rfl⟩ := Int.eq_ofNat_of_zero_le (not_lt.1 hneg')
    rw [Int.cast_natCast] at hz
    exact ⟨k, by omega, hz⟩
  · rintro ⟨k, hk, hvalue⟩
    have hwhole : Number.value? index = some ((k : ℤ) : ℚ) := by
      rw [Int.cast_natCast, hvalue]
    have hneg : ¬ index < 0 := by
      rw [Number.lt_iff_value_lt hvalue hzero]
      simp
    have hlt : ¬ n.toUInt64.toFloat ≤ index := by
      rw [Number.le_iff_value_le hlength hvalue]
      simpa using hk
    exact ⟨⟨k, hwhole⟩, hneg, hlt⟩

theorem toNat_index_lt (hn : n ≤ 2 ^ 53) (h : outside index n = false) :
    index.toUInt64.toNat < n := by
  obtain ⟨k, hk, hvalue⟩ := (outside_eq_false_iff hn).1 h
  rwa [Number.toNat_toUInt64 hvalue (by omega)]

theorem get_at (hsize : xs.size ≤ 2 ^ 53) (hk : k < xs.size)
    (hvalue : Number.value? index = some (k : ℚ)) :
    get.apply [.list xs, .number index] = .ok (.number xs[k]) := by
  have hinside := (outside_eq_false_iff hsize).2 ⟨k, hk, hvalue⟩
  have hindex := Number.toNat_toUInt64 hvalue (by omega)
  change item xs (.number index) = _
  simp [item, hinside, hindex, hk]

theorem get_outside (hsize : xs.size ≤ 2 ^ 53)
    (h : ¬ ∃ k < xs.size, Number.value? index = some (k : ℚ)) :
    get.apply [.list xs, .number index] =
      .error (.outOfBounds (Value.numbers.write index) xs.size) := by
  rw [← outside_eq_false_iff hsize, Bool.not_eq_false] at h
  change item xs (.number index) = _
  simp [item, h]

end Positions

section Append

variable {xs : Array Float} {v : Value} {x : Float}

theorem apply_append (xs : Array Float) (v : Value) :
    append.apply [.list xs, v] = appendable v >>= fun x => .ok (.list (xs.push x)) :=
  rfl

theorem append_denoted (h : v.Denotes x) :
    append.apply [.list xs, v] = .ok (.list (xs.push x)) := by
  cases h with
  | number => rfl
  | text h =>
    rw [apply_append, appendable, h]
    rfl

theorem append_other (h : ∀ x, ¬ v.Denotes x) :
    ∃ cause, append.apply [.list xs, v] = .error cause ∧ cause.code = 400 := by
  cases v with
  | number x => exact absurd (.number x) (h x)
  | text s =>
    cases hread : Number.ofText? s with
    | some x => exact absurd (.text hread) (h x)
    | none =>
      refine ⟨.appendedText s, ?_, rfl⟩
      rw [apply_append, appendable, hread]
      rfl
  | null | list | closure | builtin => exact ⟨_, rfl, rfl⟩

theorem length_push (hsize : xs.size < 2 ^ 53) :
    ∃ n, length.apply [.list (xs.push x)] = .ok (.number n) ∧
      Number.value? n = some (xs.size + 1 : ℚ) := by
  refine ⟨_, rfl, ?_⟩
  rw [Array.size_push, Number.value?_toFloat hsize]
  push_cast
  rfl

theorem get_push (hsize : xs.size < 2 ^ 53) {index : Float} {k : ℕ} (hk : k < xs.size)
    (hvalue : Number.value? index = some (k : ℚ)) :
    get.apply [.list (xs.push x), .number index] = get.apply [.list xs, .number index] := by
  have hpush : k < (xs.push x).size := by
    rw [Array.size_push]
    omega
  rw [get_at hsize.le hk hvalue, get_at (by rwa [Array.size_push]) hpush hvalue,
    Array.getElem_push_lt hk]

theorem get_push_last (hsize : xs.size < 2 ^ 53) {index : Float}
    (hvalue : Number.value? index = some (xs.size : ℚ)) :
    get.apply [.list (xs.push x), .number index] = .ok (.number x) := by
  rw [get_at (by rwa [Array.size_push]) (by simp) hvalue, Array.getElem_push_eq]

end Append

theorem list_numbers (ys : List Float) :
    list.apply (ys.map .number) = .ok (.list ys.toArray) :=
  collect_numbers ys

theorem list_other (ys : List Float) {v : Value} (h : v.kind ≠ .number) (rest : List Value) :
    list.apply (ys.map .number ++ v :: rest) = .error (.itemKind (ys.length + 1) v.kind) := by
  change collect.go #[] _ = _
  rw [collect_go_numbers, collect_go_of_kind_ne h]
  simp

/-- What the builtins for lists do with a list, and how they make one. -/
structure Exact (xs : Array Float) : Prop where
  index_lt : ∀ index : Float, outside index xs.size = false → index.toUInt64.toNat < xs.size
  gets : ∀ (index : Float) (k : ℕ) (hk : k < xs.size), Number.value? index = some (k : ℚ) →
    get.apply [.list xs, .number index] = .ok (.number xs[k])
  misses : ∀ index : Float, (¬ ∃ k < xs.size, Number.value? index = some (k : ℚ)) →
    let cause := .outOfBounds (Value.numbers.write index) xs.size
    get.apply [.list xs, .number index] = .error cause ∧ cause.code = 402
  appends : ∀ (v : Value) (x : Float), v.Denotes x →
    ∃ ys, append.apply [.list xs, v] = .ok (.list ys) ∧
      (∃ n, length.apply [.list ys] = .ok (.number n) ∧
        Number.value? n = some (xs.size + 1 : ℚ)) ∧
      (∀ (index : Float) (k : ℕ), k < xs.size → Number.value? index = some (k : ℚ) →
        get.apply [.list ys, .number index] = get.apply [.list xs, .number index]) ∧
      ∀ index : Float, Number.value? index = some (xs.size : ℚ) →
        get.apply [.list ys, .number index] = .ok (.number x)
  refuses : ∀ v : Value, (∀ x, ¬ v.Denotes x) →
    ∃ cause, append.apply [.list xs, v] = .error cause ∧ cause.code = 400
  lists : ∀ ys : List Float, list.apply (ys.map .number) = .ok (.list ys.toArray)
  names : ∀ (ys : List Float) (v : Value) (rest : List Value), v.kind ≠ .number →
    let cause := .itemKind (ys.length + 1) v.kind
    list.apply (ys.map .number ++ v :: rest) = .error cause ∧ cause.code = 400

/-- The builtins for lists are exact, for every index and every value. -/
theorem lists_exact {xs : Array Float} (hsize : xs.size < 2 ^ 53) : Exact xs where
  index_lt _ := toNat_index_lt hsize.le
  gets _ _ := get_at hsize.le
  misses _ h := ⟨get_outside hsize.le h, rfl⟩
  appends _ x h := ⟨xs.push x, append_denoted h, length_push hsize, fun _ _ => get_push hsize,
    fun _ => get_push_last hsize⟩
  refuses _ := append_other
  lists := list_numbers
  names ys _ rest h := ⟨list_other ys h rest, rfl⟩

theorem lists_exact_negative_zero :
    (#[7, 8] : Array Float).size < 2 ^ 53 ∧
      get.apply [.list #[7, 8], .number (-0)] = .ok (.number 7) := by
  have hsize : (#[7, 8] : Array Float).size < 2 ^ 53 := by decide
  have hvalue : Number.value? (-0) = some ((0 : ℕ) : ℚ) := by
    rw [Nat.cast_zero]
    exact Number.value?_of_zero rfl
  exact ⟨hsize, (lists_exact hsize).gets (-0) 0 (by decide) hvalue⟩

end Builtin

end PrefixScript
