import PrefixScript.Session

namespace PrefixScript.Playground

structure RunResult where
  output : List String
  inputsConsumed : Nat
  error : Option Report
  deriving DecidableEq, Repr

structure CheckResult where
  expressions : Nat
  error : Option Report
  deriving DecidableEq, Repr

def RunResult.success (r : RunResult) : Bool :=
  r.error.isNone

def CheckResult.success (r : CheckResult) : Bool :=
  r.error.isNone

def errorField (error : Option Report) : List (String × Json) :=
  (error.map fun r => ("error", r.toJson)).toList

def RunResult.toJson (r : RunResult) : Json :=
  .object <|
    [("success", .bool r.success), ("output", .array (r.output.map .text)),
      ("inputs_consumed", .nat r.inputsConsumed)] ++ errorField r.error

def CheckResult.toJson (r : CheckResult) : Json :=
  .object <|
    [("success", .bool r.success), ("expressions", .nat r.expressions)] ++ errorField r.error

def runWithin (steps : Nat) (source : String) (inputs : List String) (limit : Nat) :
    Option RunResult :=
  let (outcome, s) :=
    (Session.new (.scripted inputs) limit).runSourceWithin steps (.ofText source)
  match outcome with
  | .value _ => some ⟨s.console.output, s.console.served, none⟩
  | .failed report => some ⟨s.console.output, s.console.served, some report⟩
  | .unfinished => none

def run (source : String) (inputs : List String) (limit : Nat) : Option RunResult :=
  runWithin patience source inputs limit

def check (source : String) : CheckResult :=
  match Program.ofSource (.ofText source) with
  | .ok program => ⟨program.length, none⟩
  | .error report => ⟨0, some report⟩

def runJson (source : String) (inputs : List String) (limit : Nat) : String :=
  match run source inputs limit with
  | some r => r.toJson.write
  | none => Json.null.write

def checkJson (source : String) : String :=
  (check source).toJson.write

end PrefixScript.Playground
