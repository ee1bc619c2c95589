import PrefixScript.Expr
import PrefixScript.Source

/-!
# Programs

A program is read from atoms in one pass. What has been read so far is a `Reader`: the finished
expressions, the brackets that are still open, and the statement that still waits for operands.
Brackets make lists; at the top level, outside of brackets, the symbols of `statementArities` start
a list that takes as many operands as the table says.
-/

namespace PrefixScript

inductive Bracket where
  | round
  | square
  deriving DecidableEq, Repr

namespace Bracket

def opener : Bracket → String
  | round => "("
  | square => "["

def closer : Bracket → String
  | round => ")"
  | square => "]"

end Bracket

inductive Role where
  | opens (b : Bracket)
  | closes (b : Bracket)
  | leaf
  deriving DecidableEq, Repr

def Atom.role (a : Atom) : Role :=
  match a.word with
  | .symbol "(" => .opens .round
  | .symbol "[" => .opens .square
  | .symbol ")" => .closes .round
  | .symbol "]" => .closes .square
  | _ => .leaf

/-- The symbols that can be written without brackets at the top level, with the number of operands
that each of them takes there. -/
def statementArities : List (String × Nat) :=
  [("set", 2), ("lambda", 2), ("if", 3), ("while", 2), ("for", 3), ("print", 1), ("input", 0),
    ("inc", 1), ("dec", 1),
    ("+", 2), ("-", 2), ("*", 2), ("/", 2), ("%", 2),
    ("<=", 2), (">=", 2), ("<", 2), (">", 2), ("==", 2),
    ("append", 2), ("sort", 1), ("length", 1), ("get", 2), ("type", 1)]

def statementArity? (name : String) : Option Nat :=
  statementArities.lookup name

def maxNesting : Nat := 1024

inductive ReadFault where
  | unexpected (found : Bracket) (line : Nat)
  | unclosed (bracket : Bracket) (line : Nat)
  | mismatched (bracket : Bracket) (openedAt : Nat) (found : Bracket) (line : Nat)
  | incomplete (name : String) (arity found : Nat) (line : Nat)
  | tooDeep (line : Nat)
  deriving DecidableEq, Repr

namespace ReadFault

def code : ReadFault → Nat
  | unexpected .. => 100
  | unclosed .. => 101
  | mismatched .. => 102
  | incomplete .. => 103
  | tooDeep .. => 104

def message : ReadFault → String
  | unexpected found _ => "unexpected '" ++ found.closer ++ "'"
  | unclosed bracket _ => "unclosed '" ++ bracket.opener ++ "'"
  | mismatched bracket openedAt found _ =>
    "expected '" ++ bracket.closer ++ "' to close '" ++ bracket.opener ++ "' from line " ++
      Nat.repr openedAt ++ ", found '" ++ found.closer ++ "'"
  | incomplete name arity found _ =>
    "'" ++ name ++ "' expects " ++ Nat.repr arity ++ " arguments, found " ++ Nat.repr found
  | tooDeep _ => "brackets nested deeper than " ++ Nat.repr maxNesting ++ " levels"

def line : ReadFault → Nat
  | unexpected _ line | unclosed _ line | mismatched _ _ _ line | incomplete _ _ _ line
  | tooDeep line => line

def report (f : ReadFault) : Report :=
  { code := f.code, message := f.message, line := some f.line }

end ReadFault

structure OpenList where
  bracket : Bracket
  line : Nat
  items : List Expr

def OpenList.close (o : OpenList) : Expr :=
  match o.bracket with
  | .round => .list o.items.reverse o.line
  | .square => .list (.symbol "list" o.line :: o.items.reverse) o.line

structure Statement where
  name : String
  line : Nat
  arity : Nat
  operands : List Expr

def Statement.close (s : Statement) : Expr :=
  .list (.symbol s.name s.line :: s.operands.reverse) s.line

structure Reader where
  finished : List Expr
  statement : Option Statement
  opened : List OpenList

namespace Reader

def start : Reader :=
  ⟨[], none, []⟩

def putStatement (r : Reader) (s : Statement) : Reader :=
  if s.operands.length = s.arity then { r with finished := s.close :: r.finished, statement := none }
  else { r with statement := some s }

def put (r : Reader) (e : Expr) : Reader :=
  match r.opened, r.statement with
  | o :: outer, _ => { r with opened := { o with items := e :: o.items } :: outer }
  | [], some s => r.putStatement { s with operands := e :: s.operands }
  | [], none => { r with finished := e :: r.finished }

def statementHere? (r : Reader) (a : Atom) : Option (String × Nat) :=
  match r.opened, r.statement, a.symbol? with
  | [], none, some name => (statementArity? name).map fun arity => (name, arity)
  | _, _, _ => none

def step (r : Reader) (a : Atom) : Except ReadFault Reader :=
  match a.role with
  | .opens b =>
    if maxNesting ≤ r.opened.length then .error (.tooDeep a.line)
    else .ok { r with opened := ⟨b, a.line, []⟩ :: r.opened }
  | .closes b =>
    match r.opened with
    | [] => .error (.unexpected b a.line)
    | o :: outer =>
      if o.bracket = b then .ok ({ r with opened := outer }.put o.close)
      else .error (.mismatched o.bracket o.line b a.line)
  | .leaf =>
    match r.statementHere? a with
    | some (name, arity) => .ok (r.putStatement ⟨name, a.line, arity, []⟩)
    | none => .ok (r.put (.atom a))

def finish (r : Reader) : Except ReadFault (List Expr) :=
  match r.opened, r.statement with
  | o :: _, _ => .error (.unclosed o.bracket o.line)
  | [], some s => .error (.incomplete s.name s.arity s.operands.length s.line)
  | [], none => .ok r.finished.reverse

def steps (r : Reader) (atoms : List Atom) : Except ReadFault Reader :=
  atoms.foldlM step r

end Reader

namespace Program

def ofAtoms (atoms : List Atom) : Except ReadFault (List Expr) := do
  (← Reader.start.steps atoms).finish

def ofSource (source : Source) : Except Report (List Expr) :=
  match ofAtoms ((Token.ofText source.text).map .ofToken) with
  | .ok program => .ok program
  | .error fault => .error (source.annotate fault.report)

end Program

end PrefixScript
