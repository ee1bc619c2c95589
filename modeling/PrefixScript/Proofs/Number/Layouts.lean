import PrefixScript.Proofs.Number.Comparison
import PrefixScript.Proofs.Number.Writing

namespace PrefixScript.Number

theorem exponentOfDigits_concat (cs : List Char) (c : Char) :
    exponentOfDigits (cs ++ [c]) =
      if exponentOfDigits cs < fullExponent then 10 * exponentOfDigits cs + digitValue c
      else exponentOfDigits cs := by
  rw [exponentOfDigits, List.foldl_append]
  rfl

theorem exponentOfDigits_digitChars {n : ℕ} (h : n < fullExponent) :
    exponentOfDigits (digitChars n) = n := by
  induction n using digitChars_induction with
  | digit n hlt => simpa [exponentOfDigits, fullExponent] using digitValue_digitChar hlt
  | snoc n hle ih =>
    have hfirst : n / 10 < fullExponent := by omega
    rw [exponentOfDigits_concat, ih hfirst, if_pos hfirst,
      digitValue_digitChar (Nat.mod_lt _ (by norm_num))]
    omega

def exponentSign (x : ℤ) (showsPlus : Bool) : List Char :=
  if x < 0 then ['-'] else if showsPlus then ['+'] else []

theorem takeSign_exponentSign (x : ℤ) (showsPlus : Bool) (n : ℕ) :
    takeSign (exponentSign x showsPlus ++ digitChars n) = (decide (x < 0), digitChars n) := by
  have hdigits : takeSign (digitChars n ++ []) = (false, digitChars n ++ []) :=
    takeSign_append false (isDigit_of_mem_digitChars n) (digitChars_ne_nil n)
  rw [List.append_nil] at hdigits
  unfold exponentSign
  split
  · next h => simp [takeSign, h]
  · next h =>
    cases showsPlus with
    | true => simp [takeSign, h]
    | false => simpa [h] using hdigits

theorem exponent?_exponentSign {x : ℤ} (h : x.natAbs < fullExponent) (showsPlus : Bool) :
    exponent? ('e' :: (exponentSign x showsPlus ++ digitChars x.natAbs)) = some x := by
  have hall : (digitChars x.natAbs).all Char.isDigit = true :=
    List.all_eq_true.2 (isDigit_of_mem_digitChars x.natAbs)
  have hvalue : (if x < 0 then -(x.natAbs : ℤ) else x.natAbs) = x := by
    split <;> omega
  simpa [exponent?, takeSign_exponentSign, exponentOfDigits_digitChars h, hall, digitChars_ne_nil]
    using hvalue

theorem length_digitChars {n : ℕ} (h : 0 < n) : (digitChars n).length = digitCount n := by
  induction n using digitChars_induction with
  | digit n hlt =>
    rw [digitCount, if_neg (by omega), Nat.div_eq_of_lt hlt, digitCount]
    rfl
  | snoc n hle ih =>
    rw [digitCount, if_neg (by omega), List.length_append, ih (by omega)]
    rfl

namespace Decimal

variable {d : Decimal}

theorem exponentChars_eq (d : Decimal) (showsPlus : Bool) :
    ∃ c f, digitChars d.digits = c :: f ∧
      d.exponentChars showsPlus = [c] ++ ((if f = [] then [] else '.' :: f) ++
        'e' :: (exponentSign d.lead showsPlus ++ digitChars d.lead.natAbs)) := by
  obtain ⟨c, f, hdigits⟩ := List.exists_cons_of_ne_nil (digitChars_ne_nil d.digits)
  refine ⟨c, f, hdigits, ?_⟩
  simp [exponentChars, exponentSign, hdigits]

theorem readsBack_exponentChars (hpos : 0 < d.digits) (hd : d.digits < 10 ^ 18)
    (hlead : d.lead.natAbs < fullExponent) (showsPlus : Bool) :
    d.ReadsBack (d.exponentChars showsPlus) := by
  intro negative
  obtain ⟨c, f, hdigits, hchars⟩ := d.exponentChars_eq showsPlus
  set after := 'e' :: (exponentSign d.lead showsPlus ++ digitChars d.lead.natAbs) with hafter
  have hdigit : ∀ a ∈ c :: f, a.isDigit = true := hdigits ▸ isDigit_of_mem_digitChars d.digits
  rw [List.forall_mem_cons] at hdigit
  have hend : StartsNoDigit after := .cons rfl _
  have hfraction : StartsNoDigit ((if f = [] then [] else '.' :: f) ++ after) ∧
      takeFraction ((if f = [] then [] else '.' :: f) ++ after) = (f, after) := by
    split
    · next hnone =>
      subst hnone
      exact ⟨hend, rfl⟩
    · exact ⟨.cons rfl (f ++ after), takeDigits_append hdigit.2 hend⟩
  obtain ⟨digits, exponent, hn, hmagnitude, hread⟩ :=
    Numeral.ofDigits_zeros negative hpos hd 0 0 (d.lead - f.length)
  refine ⟨⟨negative, digits, exponent⟩, hn, rfl, ?_, ?_⟩
  · have hlength := length_digitChars hpos
    rw [hdigits, List.length_cons] at hlength
    rw [hmagnitude, value, lead, ← hlength]
    congr 2
    push_cast
    ring
  · rw [hchars, Numeral.ofChars?_eq negative (by simpa using hdigit.1) (by simp) hfraction.1
      hfraction.2 (exponent?_exponentSign hlead showsPlus), ← hread, hdigits]
    simp

theorem mem_exponentChars {showsPlus : Bool} {c : Char} (hc : c ∈ d.exponentChars showsPlus) :
    c.isDigit = true ∨ c ∈ ['.', 'e', '-', '+'] := by
  obtain ⟨a, f, hdigits, hchars⟩ := d.exponentChars_eq showsPlus
  have hdigit : ∀ b ∈ a :: f, b.isDigit = true := hdigits ▸ isDigit_of_mem_digitChars d.digits
  have hlead := isDigit_of_mem_digitChars d.lead.natAbs
  rw [hchars, exponentSign] at hc
  grind

end Decimal

theorem Binary.natAbs_lead_shortest {b : Binary} (hb : b.Canonical) (hpos : 0 < b.mantissa)
    (hfinite : b.bits < infinityBits) (tie : Tie) :
    (b.shortest tie).lead.natAbs < fullExponent := by
  obtain ⟨hdigits, -, hin⟩ := shortest_spec tie hb.mantissa_lt hpos
  obtain ⟨hlow, hhigh⟩ := magnitude_bounds hb hpos hfinite hin
  set d := b.shortest tie
  have hfar : -Numeral.farLead ≤ digitCount d.digits + d.exponent ∧
      digitCount d.digits + d.exponent ≤ Numeral.farLead :=
    Numeral.lead_bounds (n := ⟨false, d.digits, d.exponent⟩) hdigits hlow hhigh
  rw [Numeral.farLead] at hfar
  rw [Decimal.lead, fullExponent]
  omega

namespace Layout

variable {layout : Layout} {x : Float}

/-- What a number is once the layout has written it and it has been read again. -/
def reread (layout : Layout) (x : Float) : Float :=
  if x == 0 && !layout.showsSignOfZero then 0 else x

theorem Plain.reread_eq (h : layout.Plain) (x : Float) : layout.reread x = x := by
  simp [reread, h.showsSignOfZero]

theorem reread_beq (hx : Finite x) : (layout.reread x == x) = true := by
  unfold reread
  split
  · next hzero =>
    have hnone := beq_zero_iff.1 (Bool.and_eq_true_iff.1 hzero).1
    rw [← ofMagnitudeBits_magnitudeBits x, hnone]
    cases isNegative x <;> rfl
  · exact beq_self (isNaN_of_finite hx)

theorem toList_write (layout : Layout) (hx : Finite x) :
    let b := Binary.ofMagnitudeBits (isNegative x) (magnitudeBits x)
    (layout.write x).toList =
      (if isNegative x && (layout.showsSignOfZero || b.mantissa ≠ 0) then ['-'] else []) ++
        layout.decimalChars (b.shortest layout.tie) := by
  have hnegative : (Binary.ofMagnitudeBits (isNegative x) (magnitudeBits x)).negative =
      isNegative x := by
    unfold Binary.ofMagnitudeBits
    split <;> rfl
  simp [write, Binary.ofFloat?_of_finite hx, hnegative]

theorem mem_decimalChars (hfraction : layout.showsFraction = false) {d : Decimal} {c : Char}
    (hc : c ∈ layout.decimalChars d) : c.isDigit = true ∨ c ∈ ['.', 'e', '-', '+'] := by
  unfold decimalChars at hc
  split at hc
  · rw [hfraction] at hc
    exact (Decimal.mem_positionalChars hc).imp_right fun hc => by simp [hc]
  · exact Decimal.mem_exponentChars hc

theorem decimalChars_ne_nil (hfraction : layout.showsFraction = false) (d : Decimal) :
    layout.decimalChars d ≠ [] := by
  unfold decimalChars
  split
  · rw [hfraction]
    exact d.positionalChars_ne_nil
  · obtain ⟨c, f, -, hchars⟩ := d.exponentChars_eq layout.showsPlus
    simp [hchars]

theorem mem_write (hfraction : layout.showsFraction = false) (hx : Finite x) {c : Char}
    (hc : c ∈ (layout.write x).toList) : c.isDigit = true ∨ c ∈ ['.', 'e', '-', '+'] := by
  rw [layout.toList_write hx] at hc
  rcases List.mem_append.1 hc with hc | hc
  · split at hc
    · simp [List.mem_singleton.1 hc]
    · contradiction
  · exact mem_decimalChars hfraction hc

theorem write_ne_nil (hfraction : layout.showsFraction = false) (hx : Finite x) :
    (layout.write x).toList ≠ [] := by
  rw [layout.toList_write hx]
  exact List.append_ne_nil_of_right_ne_nil _ (decimalChars_ne_nil hfraction _)

theorem readsBack_decimalChars (hfraction : layout.showsFraction = false) {d : Decimal}
    (hpos : 0 < d.digits) (hd : d.digits < 10 ^ 18) (hlead : d.lead.natAbs < fullExponent) :
    d.ReadsBack (layout.decimalChars d) := by
  unfold decimalChars
  split
  · rw [hfraction]
    exact Decimal.readsBack_positionalChars hpos hd
  · exact Decimal.readsBack_exponentChars hpos hd hlead layout.showsPlus

theorem ofText?_write (hfraction : layout.showsFraction = false) (hx : Finite x) :
    ofText? (layout.write x) = some (layout.reread x) := by
  have hself := ofMagnitudeBits_magnitudeBits x
  have hb := Binary.canonical_ofMagnitudeBits (isNegative x) (magnitudeBits x)
  have hbits := Binary.bits_ofMagnitudeBits (isNegative x) (magnitudeBits x)
  have hmantissa := Binary.mantissa_eq_zero_iff (isNegative x) (magnitudeBits x)
  have hzero := beq_zero_iff (x := x)
  rw [ofText?, layout.toList_write hx]
  set b := Binary.ofMagnitudeBits (isNegative x) (magnitudeBits x)
  rcases Nat.eq_zero_or_pos b.mantissa with hnone | hpos
  · have hchars : layout.decimalChars (b.shortest layout.tie) =
        (⟨0, 0⟩ : Decimal).positionalChars false := by
      rw [Binary.shortest, if_pos hnone, decimalChars, hfraction]
      rfl
    have hmagnitude := hmantissa.1 hnone
    rw [hmagnitude] at hself
    rw [hchars, reread, hzero.2 hmagnitude, hnone]
    cases layout.showsSignOfZero with
    | true => simpa [hself] using Decimal.toFloat?_zero (isNegative x)
    | false =>
      have hplus : ofMagnitudeBits false 0 = 0 := rfl
      simpa [hplus] using Decimal.toFloat?_zero false
  · obtain ⟨hdigits, hfew, -⟩ := Binary.shortest_spec layout.tie hb.mantissa_lt hpos
    have hfinite : b.bits < infinityBits := by rwa [hbits]
    have hread := readsBack_decimalChars hfraction hdigits (by omega)
      (Binary.natAbs_lead_shortest hb hpos hfinite layout.tie)
    have hnot : ¬ (x == 0) = true := by
      rw [hzero, ← hmantissa]
      omega
    have hall := Binary.toFloat?_of_readsBack hb hpos hfinite hread (isNegative x)
    rw [hbits, hself] at hall
    simpa [reread, hnot, Nat.ne_of_gt hpos] using hall

end Layout

end PrefixScript.Number
