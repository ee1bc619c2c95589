import PrefixScript.Number.Shortest

namespace PrefixScript.Number

structure Layout where
  tie : Tie
  positional : (lead : Int) → Bool
  showsFraction : Bool
  showsPlus : Bool
  showsSignOfZero : Bool
  nan : String
  infinity : String

def digitChars (n : Nat) : List Char :=
  go [] n
where
  go (after : List Char) (n : Nat) : List Char :=
    let digits := Char.ofNat ('0'.toNat + n % 10) :: after
    if n < 10 then digits else go digits (n / 10)

def Decimal.positionalChars (d : Decimal) (showsFraction : Bool) : List Char :=
  let digits := digitChars d.digits
  if 0 ≤ d.exponent then
    digits ++ List.replicate d.exponent.toNat '0' ++ if showsFraction then ['.', '0'] else []
  else if (-d.exponent).toNat < digits.length then
    let whole := digits.length - (-d.exponent).toNat
    digits.take whole ++ '.' :: digits.drop whole
  else
    '0' :: '.' :: List.replicate ((-d.exponent).toNat - digits.length) '0' ++ digits

def Decimal.exponentChars (d : Decimal) (showsPlus : Bool) : List Char :=
  let fraction := (digitChars d.digits).drop 1
  let sign := if d.lead < 0 then ['-'] else if showsPlus then ['+'] else []
  (digitChars d.digits).take 1 ++ (if fraction = [] then [] else '.' :: fraction) ++
    'e' :: sign ++ digitChars d.lead.natAbs

def Layout.decimalChars (layout : Layout) (d : Decimal) : List Char :=
  if d.digits = 0 || layout.positional d.lead then d.positionalChars layout.showsFraction
  else d.exponentChars layout.showsPlus

def Layout.write (layout : Layout) (x : Float) : String :=
  match Binary.ofFloat? x with
  | some b =>
    let sign := if b.negative && (layout.showsSignOfZero || b.mantissa ≠ 0) then ['-'] else []
    String.ofList (sign ++ layout.decimalChars (b.shortest layout.tie))
  | none => if x.isNaN then layout.nan else (if isNegative x then "-" else "") ++ layout.infinity

end PrefixScript.Number
