import PrefixScript.Form
import PrefixScript.Report
import PrefixScript.Value

namespace PrefixScript

inductive Cause where
  | undefined (name : String)
  | wrongCount (callee : String) (expected : Arity) (actual : Nat)
  | operandKinds (op : Builtin) (left right : Kind)
  | itemKind (position : Nat) (kind : Kind)
  | appendedText (text : String)
  | appendedKind (kind : Kind)
  | indexKind (kind : Kind)
  | listExpected (op : Builtin) (kind : Kind)
  | nameExpected (form : Form) (found : String)
  | numberExpected (form : Form) (name : String) (kind : Kind)
  | parameterExpected (found : String)
  | parametersExpected (found : String)
  | outOfBounds (index : String) (length : Nat)
  | divisionByZero (op : Builtin)
  | notFinite (op : Builtin)
  | emptyExpression
  | notCallable (kind : Kind)
  | tooDeep (limit : Nat)
  | inputFailed (why : String)
  deriving DecidableEq, Repr

namespace Cause

def code : Cause → Nat
  | undefined .. => 200
  | wrongCount .. => 300
  | operandKinds .. | itemKind .. | appendedText .. | appendedKind .. | indexKind ..
  | listExpected .. | nameExpected .. | numberExpected .. => 400
  | parameterExpected .. | parametersExpected .. => 401
  | outOfBounds .. => 402
  | divisionByZero .. => 500
  | notFinite .. => 501
  | emptyExpression => 600
  | notCallable .. => 601
  | tooDeep .. => 602
  | inputFailed .. => 700

def message : Cause → String
  | undefined name => "undefined variable '" ++ name ++ "'"
  | wrongCount callee expected actual =>
    "'" ++ callee ++ "' expects " ++ expected.text ++ " argument(s), got " ++ Nat.repr actual
  | operandKinds op left right =>
    "type mismatch: cannot apply '" ++ op.name ++ "' to " ++ left.name ++ " and " ++ right.name
  | itemKind position kind =>
    "type mismatch: 'list' element " ++ Nat.repr position ++ " is a " ++ kind.name ++
      ", expected a number"
  | appendedText text =>
    "type mismatch: 'append' cannot add non-numeric string \"" ++ text ++ "\" to a list"
  | appendedKind kind => "type mismatch: 'append' cannot add a " ++ kind.name ++ " to a list"
  | indexKind kind => "type mismatch: 'get' index must be a number, got " ++ kind.name
  | listExpected op kind => "type mismatch: '" ++ op.name ++ "' expects a list, got " ++ kind.name
  | nameExpected form found =>
    "type mismatch: '" ++ form.name ++ "' needs a variable name, got " ++ found
  | numberExpected form name kind =>
    "type mismatch: '" ++ form.name ++ "' needs a number, but '" ++ name ++ "' is a " ++ kind.name
  | parameterExpected found => "invalid parameter: expected a symbol, got " ++ found
  | parametersExpected found =>
    "invalid parameter: expected a symbol or parameter list, got " ++ found
  | outOfBounds index length =>
    "index " ++ index ++ " out of bounds for list of length " ++ Nat.repr length
  | divisionByZero op => "'" ++ op.name ++ "' by zero"
  | notFinite op => "'" ++ op.name ++ "' produced a non-finite result"
  | emptyExpression => "cannot evaluate an empty expression"
  | notCallable kind => "cannot call a " ++ kind.name ++ " value"
  | tooDeep limit => "maximum evaluation depth of " ++ Nat.repr limit ++ " exceeded"
  | inputFailed why => "input provider failed: " ++ why

end Cause

structure Fault where
  cause : Cause
  line : Nat
  deriving DecidableEq, Repr

def Fault.report (f : Fault) : Report :=
  { code := f.cause.code, message := f.cause.message, line := some f.line }

end PrefixScript
