import PrefixScript.Number.Shortest

namespace PrefixScript.Number

attribute [local instance (high)] instPowNat

structure Numeral where
  negative : Bool
  digits : Nat
  exponent : Int
  deriving DecidableEq, Repr

def digitValue (c : Char) : Nat :=
  c.toNat - '0'.toNat

def ofDigits (cs : List Char) : Nat :=
  cs.foldl (fun n c => 10 * n + digitValue c) 0

def fullExponent : Nat := 2 ^ (16 : Nat)

def exponentOfDigits (cs : List Char) : Nat :=
  cs.foldl (fun n c => if n < fullExponent then 10 * n + digitValue c else n) 0

def takeSign : List Char → Bool × List Char
  | '-' :: cs => (true, cs)
  | '+' :: cs => (false, cs)
  | cs => (false, cs)

def takeDigits (cs : List Char) : List Char × List Char :=
  cs.span Char.isDigit

def takeFraction : List Char → List Char × List Char
  | '.' :: cs => takeDigits cs
  | cs => ([], cs)

def exponent? : List Char → Option Int
  | [] => some 0
  | c :: cs =>
    let (negative, digits) := takeSign cs
    if (c = 'e' || c = 'E') && !digits.isEmpty && digits.all Char.isDigit then
      some (if negative then -(exponentOfDigits digits : Int) else exponentOfDigits digits)
    else
      none

namespace Numeral

def maxDigits : Nat := 800

/-- The numeral `± cs * 10 ^ exponent`. Digits behind the first `maxDigits` significant ones only tell
whether there is more than those; unless all of them are zero, a single `1` stands for them. -/
def ofDigits (negative : Bool) (cs : List Char) (exponent : Int) : Numeral :=
  let significant := cs.dropWhile (· = '0')
  let kept := Number.ofDigits (significant.take maxDigits)
  let rest := significant.drop maxDigits
  if rest.all (· = '0') then ⟨negative, kept, exponent + rest.length⟩
  else ⟨negative, 10 * kept + 1, exponent + rest.length - 1⟩

def ofChars? (cs : List Char) : Option Numeral := do
  let (negative, cs) := takeSign cs
  let (whole, cs) := takeDigits cs
  let (fraction, cs) := takeFraction cs
  if whole.isEmpty && fraction.isEmpty then none
  else
    let exponent ← exponent? cs
    some (ofDigits negative (whole ++ fraction) (exponent - fraction.length))

def farLead : Int := 400

/-- The number that a numeral denotes, if it is finite. Numerals far from the range of the format
are decided by the position of their first digit, so that no power of ten grows without need. -/
def toFloat? (n : Numeral) : Option Float :=
  let lead := digitCount n.digits + n.exponent
  if n.digits = 0 || lead < -farLead then Binary.nearest? n.negative 0 1
  else if farLead < lead then none
  else Binary.nearest? n.negative (n.digits * 10 ^ n.exponent.toNat) (10 ^ (-n.exponent).toNat)

end Numeral

def ofText? (text : String) : Option Float :=
  Numeral.ofChars? text.toList >>= Numeral.toFloat?

end PrefixScript.Number
