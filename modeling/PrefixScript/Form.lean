import PrefixScript.Arity

namespace PrefixScript

inductive Form where
  | set
  | lambda
  | choice
  | whileLoop
  | forLoop
  | begin
  | print
  | input
  | inc
  | dec
  deriving DecidableEq, Repr

namespace Form

def all : List Form :=
  [set, lambda, choice, whileLoop, forLoop, begin, print, input, inc, dec]

def name : Form → String
  | set => "set"
  | lambda => "lambda"
  | choice => "if"
  | whileLoop => "while"
  | forLoop => "for"
  | begin => "begin"
  | print => "print"
  | input => "input"
  | inc => "inc"
  | dec => "dec"

def ofName? (name : String) : Option Form :=
  all.find? (·.name = name)

def arity : Form → Arity
  | input => .exactly 0
  | print | inc | dec => .exactly 1
  | set | lambda | whileLoop => .exactly 2
  | choice | forLoop => .exactly 3
  | begin => .atLeast 1

end Form

end PrefixScript
