import PrefixScript.Number.Binary

/-!
# The shortest decimal that reads back

Every real number close enough to a binary number rounds to it. Of the decimals among them
`shortest` takes one with the fewest digits, and of those the one nearest to the number itself.
-/

namespace PrefixScript.Number

attribute [local instance (high)] instPowNat

structure Decimal where
  digits : Nat
  exponent : Int
  deriving DecidableEq, Repr

inductive Tie where
  | up
  | even
  deriving DecidableEq, Repr

def digitCount (n : Nat) : Nat :=
  if n = 0 then 0 else digitCount (n / 10) + 1

namespace Decimal

def trim (d : Decimal) : Decimal :=
  if d.digits ≠ 0 ∧ d.digits % 10 = 0 then trim ⟨d.digits / 10, d.exponent + 1⟩ else d
termination_by d.digits

def lead (d : Decimal) : Int :=
  digitCount d.digits + d.exponent - 1

end Decimal

def decimalOrder (n d : Nat) : Int :=
  if d ≤ n then digitCount (n / d) else 1 - (digitCount ((d - 1) / n) : Int)

/-- The reals that round to a mantissa, in quarters of its unit: from `low` to `high`, the ends
included or not. A full mantissa has its lower neighbour half as far away as its upper one, except
at the least exponent. -/
structure Interval where
  low : Nat
  middle : Nat
  high : Nat
  closed : Bool

def Binary.interval (b : Binary) : Interval where
  low := 4 * b.mantissa - if b.mantissa = fullMantissa ∧ leastExponent < b.exponent then 1 else 2
  middle := 4 * b.mantissa
  high := 4 * b.mantissa + 2
  closed := b.mantissa % 2 = 0

def Interval.holds (i : Interval) (unit point : Nat) : Bool :=
  if i.closed then i.low * unit ≤ point && point ≤ i.high * unit
  else i.low * unit < point && point < i.high * unit

/-- The decimal at `10 ^ exponent` that reads back as `b` and is nearest to it, if there is one:
one of the two neighbours of `b` on that grid. -/
def Binary.onGrid? (b : Binary) (tie : Tie) (exponent : Int) : Option Decimal :=
  let quarter := b.exponent - 2
  let unit := 2 ^ quarter.toNat * 10 ^ (-exponent).toNat
  let step := 2 ^ (-quarter).toNat * 10 ^ exponent.toNat
  let point := b.interval.middle * unit
  let below := point / step
  let above := below + 1
  match b.interval.holds unit (below * step), b.interval.holds unit (above * step) with
  | false, false => none
  | true, false => some ⟨below, exponent⟩
  | false, true => some ⟨above, exponent⟩
  | true, true =>
    match compare (point - below * step) (above * step - point) with
    | .lt => some ⟨below, exponent⟩
    | .gt => some ⟨above, exponent⟩
    | .eq => some ⟨if tie = .even && below % 2 = 0 then below else above, exponent⟩

def Binary.shortest (b : Binary) (tie : Tie) : Decimal :=
  if b.mantissa = 0 then
    ⟨0, 0⟩
  else
    let order := decimalOrder b.ratio.1 b.ratio.2
    let grids := (List.range 17).map fun (k : Nat) => order - 1 - (k : Int)
    ((grids.findSome? (b.onGrid? tie)).getD ⟨0, 0⟩).trim

end PrefixScript.Number
