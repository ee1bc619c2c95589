import PrefixScript.Number.Layout
import PrefixScript.Number.Numeral
import PrefixScript.Token

namespace PrefixScript

inductive Word where
  | text (s : String)
  | number (x : Float)
  | symbol (name : String)
  deriving DecidableEq, Repr

structure Atom where
  word : Word
  line : Nat
  deriving DecidableEq, Repr

namespace Word

def unquote? : List Char → Option (List Char)
  | '"' :: rest => if rest.getLast? = some '"' then some rest.dropLast else none
  | _ => none

def ofText (text : String) : Word :=
  match unquote? text.toList with
  | some inner => .text (String.ofList inner)
  | none =>
    match Number.ofText? text with
    | some x => .number x
    | none => .symbol text

/-- Numbers of a program text never have an exponent, and zero shows its sign. -/
def numbers : Number.Layout where
  tie := .up
  positional _ := true
  showsFraction := false
  showsPlus := false
  showsSignOfZero := true
  nan := "NaN"
  infinity := "inf"

def shown : Word → String
  | text s => "\"" ++ s ++ "\""
  | number x => numbers.write x
  | symbol name => name

end Word

namespace Atom

def ofToken (t : Token) : Atom :=
  ⟨.ofText t.text, t.line⟩

def symbol? (a : Atom) : Option String :=
  match a.word with
  | .symbol name => some name
  | _ => none

end Atom

end PrefixScript
