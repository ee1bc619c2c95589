import PrefixScript.Number.Layout

namespace PrefixScript

inductive Json where
  | null
  | bool (b : Bool)
  | nat (n : Nat)
  | number (x : Float)
  | text (s : String)
  | array (items : List Json)
  | object (fields : List (String × Json))

namespace Json

/-- Numbers show that they are not whole numbers of the host, and use an exponent with its sign
outside of `10 ^ -5 … 10 ^ 16`. JSON has no text for numbers that are not finite. -/
def numbers : Number.Layout where
  tie := .even
  positional lead := -5 ≤ lead && lead < 16
  showsFraction := true
  showsPlus := true
  showsSignOfZero := true
  nan := "null"
  infinity := "null"

def hexDigits (n : Nat) : List Char :=
  [n / 4096 % 16, n / 256 % 16, n / 16 % 16, n % 16].map Nat.digitChar

def escape (c : Char) : List Char :=
  match c with
  | '"' => ['\\', '"']
  | '\\' => ['\\', '\\']
  | '\n' => ['\\', 'n']
  | '\r' => ['\\', 'r']
  | '\t' => ['\\', 't']
  | '\x08' => ['\\', 'b']
  | '\x0c' => ['\\', 'f']
  | _ => if c.toNat < 0x20 then '\\' :: 'u' :: hexDigits c.toNat else [c]

def quote (s : String) : String :=
  String.ofList ('"' :: s.toList.flatMap escape ++ ['"'])

def numberText (x : Float) : String :=
  match Number.Binary.ofFloat? x with
  | some _ => numbers.write x
  | none => "null"

mutual

def writeTo (out : String) : Json → String
  | null => out ++ "null"
  | bool b => out ++ if b then "true" else "false"
  | nat n => out ++ Nat.repr n
  | number x => out ++ numberText x
  | text s => out ++ quote s
  | array [] => out ++ "[]"
  | array (j :: js) => itemsTo (j.writeTo (out ++ "[")) js ++ "]"
  | object [] => out ++ "\x7b\x7d"
  | object ((key, j) :: fields) =>
    fieldsTo (j.writeTo (out ++ "\x7b" ++ quote key ++ ":")) fields ++ "\x7d"

def itemsTo (out : String) : List Json → String
  | [] => out
  | j :: js => itemsTo (j.writeTo (out ++ ",")) js

def fieldsTo (out : String) : List (String × Json) → String
  | [] => out
  | (key, j) :: fields => fieldsTo (j.writeTo (out ++ "," ++ quote key ++ ":")) fields

end

def write (j : Json) : String :=
  j.writeTo ""

end Json

end PrefixScript
