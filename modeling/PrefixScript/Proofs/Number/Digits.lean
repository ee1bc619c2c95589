import PrefixScript.Number.Layout
import PrefixScript.Number.Numeral
import Mathlib.Data.List.TakeDrop
import Mathlib.Tactic.Linarith
import Mathlib.Tactic.Ring

namespace PrefixScript.Number

def digitChar (n : ℕ) : Char :=
  Char.ofNat ('0'.toNat + n)

theorem isDigit_digitChar {n : ℕ} (h : n < 10) : (digitChar n).isDigit = true := by
  have : ∀ n < 10, (digitChar n).isDigit = true := by decide
  exact this n h

theorem digitValue_digitChar {n : ℕ} (h : n < 10) : digitValue (digitChar n) = n := by
  have : ∀ n < 10, digitValue (digitChar n) = n := by decide
  exact this n h

theorem digitChar_ne_zero {n : ℕ} (h : n < 10) (hpos : 0 < n) : digitChar n ≠ '0' := by
  have : ∀ n < 10, 0 < n → digitChar n ≠ '0' := by decide
  exact this n h hpos

theorem digitChars_go (after : List Char) (n : ℕ) :
    digitChars.go after n = digitChars n ++ after := by
  have hgo : ∀ (n : ℕ) (after : List Char),
      digitChars.go after n = digitChars.go [] n ++ after := by
    intro n
    induction n using Nat.strong_induction_on with
    | _ n ih =>
      intro after
      unfold digitChars.go
      by_cases hlt : n < 10
      · simp [hlt]
      · have hdiv : n / 10 < n := by omega
        simp only [hlt, if_false]
        rw [ih _ hdiv, ih _ hdiv [_]]
        simp
  exact hgo n after

theorem digitChars_of_lt {n : ℕ} (h : n < 10) : digitChars n = [digitChar n] := by
  rw [digitChars, digitChars.go]
  simp [h, digitChar, Nat.mod_eq_of_lt h]

theorem digitChars_of_le {n : ℕ} (h : 10 ≤ n) :
    digitChars n = digitChars (n / 10) ++ [digitChar (n % 10)] := by
  rw [digitChars, digitChars.go]
  simp [Nat.not_lt.2 h, digitChars_go, digitChar]

theorem digitChars_induction {motive : ℕ → List Char → Prop}
    (digit : ∀ n < 10, motive n [digitChar n])
    (snoc : ∀ n, 10 ≤ n → motive (n / 10) (digitChars (n / 10)) →
      motive n (digitChars (n / 10) ++ [digitChar (n % 10)])) (n : ℕ) :
    motive n (digitChars n) := by
  induction n using Nat.strong_induction_on with
  | _ n ih =>
    rcases Nat.lt_or_ge n 10 with h | h
    · rw [digitChars_of_lt h]
      exact digit n h
    · rw [digitChars_of_le h]
      exact snoc n h (ih _ (by omega))

theorem isDigit_of_mem_digitChars (n : ℕ) : ∀ c ∈ digitChars n, c.isDigit = true := by
  induction n using digitChars_induction with
  | digit n h => simpa using isDigit_digitChar h
  | snoc n h ih =>
    intro c hc
    rcases List.mem_append.1 hc with hc | hc
    · exact ih c hc
    · rw [List.mem_singleton.1 hc]
      exact isDigit_digitChar (Nat.mod_lt _ (by norm_num))

theorem digitChars_ne_nil (n : ℕ) : digitChars n ≠ [] := by
  induction n using digitChars_induction <;> simp

theorem dropWhile_digitChars_append {n : ℕ} (h : 0 < n) (cs : List Char) :
    (digitChars n ++ cs).dropWhile (· = '0') = digitChars n ++ cs := by
  induction n using digitChars_induction generalizing cs with
  | digit n hlt => simp [digitChar_ne_zero hlt h]
  | snoc n hle ih =>
    rw [List.append_assoc]
    exact ih (by omega) _

theorem length_digitChars_le {n k : ℕ} (h : n < 10 ^ (k + 1)) : (digitChars n).length ≤ k + 1 := by
  induction n using digitChars_induction generalizing k with
  | digit n hlt => simp
  | snoc n hle ih =>
    rw [List.length_append, List.length_singleton]
    cases k with
    | zero => omega
    | succ k =>
      have : n / 10 < 10 ^ (k + 1) := by
        rw [pow_succ] at h
        omega
      have := ih this
      omega

theorem ofDigits_concat (cs : List Char) (c : Char) :
    ofDigits (cs ++ [c]) = 10 * ofDigits cs + digitValue c := by
  simp [ofDigits]

@[simp] theorem ofDigits_digitChars (n : ℕ) : ofDigits (digitChars n) = n := by
  induction n using digitChars_induction with
  | digit n h => simpa [ofDigits] using digitValue_digitChar h
  | snoc n h ih =>
    rw [ofDigits_concat, ih, digitValue_digitChar (Nat.mod_lt _ (by norm_num))]
    omega

theorem ofDigits_append_zeros (cs : List Char) (k : ℕ) :
    ofDigits (cs ++ List.replicate k '0') = ofDigits cs * 10 ^ k := by
  induction k with
  | zero => simp
  | succ k ih =>
    rw [List.replicate_succ', ← List.append_assoc, ofDigits_concat, ih, pow_succ]
    have : digitValue '0' = 0 := rfl
    rw [this]
    ring

def StartsNoDigit (cs : List Char) : Prop :=
  ∀ c ∈ cs.head?, c.isDigit = false

theorem StartsNoDigit.nil : StartsNoDigit [] := by simp [StartsNoDigit]

theorem StartsNoDigit.cons {c : Char} (h : c.isDigit = false) (cs : List Char) :
    StartsNoDigit (c :: cs) := by
  simpa [StartsNoDigit] using h

theorem takeDigits_append {w tail : List Char} (hw : ∀ c ∈ w, c.isDigit = true)
    (htail : StartsNoDigit tail) : takeDigits (w ++ tail) = (w, tail) := by
  rw [takeDigits, List.span_eq_takeWhile_dropWhile, List.takeWhile_append_of_pos hw,
    List.dropWhile_append_of_pos hw]
  cases tail with
  | nil => simp
  | cons c cs =>
    have hc : c.isDigit = false := htail c rfl
    simp [hc]

theorem takeSign_append (negative : Bool) {w tail : List Char} (hw : ∀ c ∈ w, c.isDigit = true)
    (hne : w ≠ []) :
    takeSign ((if negative then ['-'] else []) ++ (w ++ tail)) = (negative, w ++ tail) := by
  cases negative with
  | true => rfl
  | false =>
    cases w with
    | nil => exact absurd rfl hne
    | cons c w =>
      have hc := hw c (by simp)
      change takeSign (c :: (w ++ tail)) = _
      unfold takeSign
      split
      · next heq =>
        obtain rfl := (List.cons.inj heq).1
        contradiction
      · next heq =>
        obtain rfl := (List.cons.inj heq).1
        contradiction
      · rfl

theorem Numeral.ofChars?_eq (negative : Bool) {w tail f rest : List Char} {x : ℤ}
    (hw : ∀ c ∈ w, c.isDigit = true) (hne : w ≠ []) (htail : StartsNoDigit tail)
    (hfraction : takeFraction tail = (f, rest)) (hx : exponent? rest = some x) :
    ofChars? ((if negative then ['-'] else []) ++ (w ++ tail)) =
      some (ofDigits negative (w ++ f) (x - f.length)) := by
  rw [ofChars?, takeSign_append negative hw hne]
  simp [takeDigits_append hw htail, hfraction, hne, hx]

end PrefixScript.Number
