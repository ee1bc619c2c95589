/-!
# Binary numbers, exactly

A finite number of the binary64 format is `± mantissa * 2 ^ exponent`. `Binary.ofFloat?` reads this
form off the bits of a number and `Binary.nearest` goes the other way: the number nearest to a
fraction, a tie going to the even mantissa. Numbers without their sign are ordered as their bits
are, so the format needs no other table.
-/

namespace PrefixScript.Number

-- Powers are those of the core library, also where a monoid offers its own.
attribute [local instance (high)] instPowNat

def divNearest (n d : Nat) : Nat :=
  match compare (2 * (n % d)) d with
  | .lt => n / d
  | .eq => n / d + n / d % 2
  | .gt => n / d + 1

def leastExponent : Int := -1074

def fullMantissa : Nat := 2 ^ (52 : Nat)

def signBit : Nat := 2 ^ (63 : Nat)

def infinityBits : Nat := 2047 * fullMantissa

def isNegative (x : Float) : Bool :=
  signBit ≤ x.toBits.toNat

def magnitudeBits (x : Float) : Nat :=
  x.toBits.toNat % signBit

def ofMagnitudeBits (negative : Bool) (bits : Nat) : Float :=
  Float.ofBits (UInt64.ofNat (if negative then signBit + bits else bits))

/-- A finite number as `± mantissa * 2 ^ exponent`. -/
structure Binary where
  negative : Bool
  mantissa : Nat
  exponent : Int
  deriving DecidableEq, Repr

namespace Binary

def ofMagnitudeBits (negative : Bool) (bits : Nat) : Binary :=
  if bits < fullMantissa then
    ⟨negative, bits, leastExponent⟩
  else
    ⟨negative, fullMantissa + bits % fullMantissa, bits / fullMantissa - 1 + leastExponent⟩

def ofFloat? (x : Float) : Option Binary :=
  if magnitudeBits x < infinityBits then
    some (ofMagnitudeBits (isNegative x) (magnitudeBits x))
  else
    none

def log2Ratio (n d : Nat) : Int :=
  let e : Int := (n.log2 : Int) - d.log2
  if n * 2 ^ (-e).toNat < d * 2 ^ e.toNat then e - 1 else e

/-- The bits, without a sign, of the number nearest to `n / d` for positive `n` and `d`. They
reach `infinityBits` when the fraction is too great for a finite number. The mantissa may round up
to twice `fullMantissa`, and then the sum carries into the exponent, as it should. -/
def nearestBits (n d : Nat) : Nat :=
  let q := max (log2Ratio n d - 52) leastExponent
  (q - leastExponent).toNat * fullMantissa + divNearest (n * 2 ^ (-q).toNat) (d * 2 ^ q.toNat)

def nearest? (negative : Bool) (n d : Nat) : Option Float :=
  if n = 0 then
    some (Number.ofMagnitudeBits negative 0)
  else if nearestBits n d < infinityBits then
    some (Number.ofMagnitudeBits negative (nearestBits n d))
  else
    none

def ratio (b : Binary) : Nat × Nat :=
  (b.mantissa * 2 ^ b.exponent.toNat, 2 ^ (-b.exponent).toNat)

end Binary

end PrefixScript.Number
