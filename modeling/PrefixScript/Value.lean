import PrefixScript.Expr
import PrefixScript.Arity
import PrefixScript.Text.Quoted

namespace PrefixScript

inductive Builtin where
  | add
  | sub
  | mul
  | div
  | mod
  | lessEq
  | greaterEq
  | less
  | greater
  | equal
  | concat
  | list
  | append
  | sort
  | length
  | get
  | type
  deriving DecidableEq, Repr

namespace Builtin

def all : List Builtin :=
  [add, sub, mul, div, mod, lessEq, greaterEq, less, greater, equal, concat, list, append, sort,
    length, get, type]

def name : Builtin → String
  | add => "+"
  | sub => "-"
  | mul => "*"
  | div => "/"
  | mod => "%"
  | lessEq => "<="
  | greaterEq => ">="
  | less => "<"
  | greater => ">"
  | equal => "=="
  | concat => "concat"
  | list => "list"
  | append => "append"
  | sort => "sort"
  | length => "length"
  | get => "get"
  | type => "type"

def label : Builtin → String
  | add => "Add"
  | sub => "Sub"
  | mul => "Mul"
  | div => "Div"
  | mod => "Mod"
  | lessEq => "LessEq"
  | greaterEq => "GreaterEq"
  | less => "Less"
  | greater => "Greater"
  | equal => "Equal"
  | concat => "Concat"
  | list => "List"
  | append => "Append"
  | sort => "Sort"
  | length => "Length"
  | get => "Get"
  | type => "Type"

def ofName? (name : String) : Option Builtin :=
  all.find? (·.name = name)

def arity : Builtin → Arity
  | concat | list => .atLeast 0
  | sort | length | type => .exactly 1
  | _ => .exactly 2

end Builtin

abbrev ScopeId := Nat

structure Closure where
  params : List String
  body : Expr
  scope : ScopeId
  mark : Nat
  deriving DecidableEq

inductive Value where
  | null
  | number (x : Float)
  | text (s : String)
  | list (xs : Array Float)
  | closure (c : Closure)
  | builtin (b : Builtin)

inductive Kind where
  | null
  | number
  | text
  | list
  | closure
  | builtin
  deriving DecidableEq, Repr

def Kind.name : Kind → String
  | null => "null"
  | number => "number"
  | text => "string"
  | list => "list"
  | closure => "closure"
  | builtin => "unknown"

namespace Value

def kind : Value → Kind
  | null => .null
  | number _ => .number
  | text _ => .text
  | list _ => .list
  | closure _ => .closure
  | builtin _ => .builtin

def isTrue : Value → Bool
  | null => false
  | number x => !(x == 0)
  | _ => true

/-- Whether two values are equal. Numbers are compared as numbers, so that zero has no sign and NaN
is equal to nothing; a closure is equal to itself only. -/
def equal : Value → Value → Bool
  | null, null => true
  | number x, number y => x == y
  | text s, text t => s = t
  | list xs, list ys => xs == ys
  | closure c, closure d => c = d
  | builtin a, builtin b => a = b
  | _, _ => false

def numbers : Number.Layout where
  tie := .up
  positional lead := -6 ≤ lead && lead < 21
  showsFraction := false
  showsPlus := true
  showsSignOfZero := false
  nan := "NaN"
  infinity := "inf"

def shown : Value → String
  | null => "null"
  | number x => numbers.write x
  | text s => s
  | list xs => "[" ++ " ".intercalate (xs.toList.map numbers.write) ++ "]"
  | closure _ => "<closure>"
  | builtin b => b.name

def debugNumbers : Number.Layout where
  tie := .up
  positional lead := -4 ≤ lead && lead < 16
  showsFraction := true
  showsPlus := false
  showsSignOfZero := true
  nan := "NaN"
  infinity := "inf"

def debug : Value → String
  | null => "Null"
  | number x => "Number(" ++ debugNumbers.write x ++ ")"
  | text s => "String(" ++ Text.Quoted.encode s ++ ")"
  | list xs => "List([" ++ ", ".intercalate (xs.toList.map debugNumbers.write) ++ "])"
  | closure c =>
    "Closure(Closure \x7b params: " ++ Text.Quoted.encodeAll c.params ++ ", body: " ++
      Text.Quoted.encode c.body.shown ++ ", .. \x7d)"
  | builtin b => "Builtin(" ++ b.label ++ ")"

end Value

end PrefixScript
