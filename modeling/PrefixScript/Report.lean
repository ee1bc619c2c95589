import PrefixScript.Json

namespace PrefixScript

inductive Category where
  | parse
  | binding
  | arity
  | type
  | arithmetic
  | structural
  | input
  deriving DecidableEq, Repr

namespace Category

def name : Category → String
  | parse => "parse"
  | binding => "binding"
  | arity => "arity"
  | type => "type"
  | arithmetic => "arithmetic"
  | structural => "structural"
  | input => "input"

/-- The category of a code; codes outside all ranges are structural. -/
def ofCode (code : Nat) : Category :=
  match code / 100 with
  | 1 => parse
  | 2 => binding
  | 3 => arity
  | 4 => type
  | 5 => arithmetic
  | 7 => input
  | _ => structural

end Category

structure Report where
  code : Nat
  message : String
  line : Option Nat
  sourceLine : Option String := none
  deriving DecidableEq, Repr

namespace Report

def category (r : Report) : Category :=
  .ofCode r.code

def codeText (r : Report) : String :=
  "E" ++ Nat.repr r.code

def text (r : Report) : String :=
  let place := match r.line with
    | some n => "line " ++ Nat.repr n ++ ": "
    | none => ""
  place ++ r.codeText ++ " [" ++ r.category.name ++ "] " ++ r.message

def toJson (r : Report) : Json :=
  .object <|
    [("code", .nat r.code), ("category", .text r.category.name), ("message", .text r.message)] ++
      (r.line.map fun n => ("line", Json.nat n)).toList ++
      (r.sourceLine.map fun s => ("source_line", Json.text s)).toList

end Report

end PrefixScript
