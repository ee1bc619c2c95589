import PrefixScript.Machine
import PrefixScript.Program

namespace PrefixScript

def defaultLimit : Nat := 10000

/-- More steps than any machine can take. -/
def patience : Nat := 1 <<< 62

structure Session where
  store : Store
  console : Console
  globals : ScopeId
  limit : Nat
  depth : Nat

namespace Session

def new (console : Console) (limit : Nat) : Session :=
  let (store, globals) := Store.empty.newScope none
  ⟨store, console, globals, limit, 0⟩

def proceedWithin (steps : Nat) (s : Session) (control : Control) : Outcome Fault × Session :=
  match s with
  | ⟨store, console, globals, limit, depth⟩ =>
    let m := Machine.run steps ⟨store, console, depth, limit, control, []⟩
    (m.outcome, ⟨m.store, m.console, globals, limit, m.depth⟩)

def evaluateWithin (steps : Nat) (s : Session) (e : Expr) (scope : ScopeId) :
    Outcome Fault × Session :=
  s.proceedWithin steps (.evaluate e scope)

def applyWithin (steps : Nat) (s : Session) (callee : Value) (args : List Value) (line : Nat) :
    Outcome Fault × Session :=
  match s with
  | ⟨store, console, globals, limit, depth⟩ =>
    let (control, store) := callee.apply store args line
    proceedWithin steps ⟨store, console, globals, limit, depth⟩ control

def runAllWithin (steps : Nat) (s : Session) (last : Value) : List Expr → Outcome Fault × Session
  | [] => (.value last, s)
  | e :: rest =>
    let globals := s.globals
    match s.evaluateWithin steps e globals with
    | (.value v, s) => s.runAllWithin steps v rest
    | (outcome, s) => (outcome, s)

def runProgramWithin (steps : Nat) (s : Session) (program : List Expr) : Outcome Fault × Session :=
  s.runAllWithin steps .null program

def runSourceWithin (steps : Nat) (s : Session) (source : Source) : Outcome Report × Session :=
  match Program.ofSource source with
  | .error report => (.failed report, s)
  | .ok program =>
    let (outcome, s) := s.runProgramWithin steps program
    (outcome.mapError fun f => source.annotate f.report, s)

def evaluate (s : Session) (e : Expr) (scope : ScopeId) : Outcome Fault × Session :=
  s.evaluateWithin patience e scope

def apply (s : Session) (callee : Value) (args : List Value) (line : Nat) :
    Outcome Fault × Session :=
  s.applyWithin patience callee args line

def runProgram (s : Session) (program : List Expr) : Outcome Fault × Session :=
  s.runProgramWithin patience program

def runSource (s : Session) (source : Source) : Outcome Report × Session :=
  s.runSourceWithin patience source

def newScope (s : Session) (parent : Option ScopeId) : Session × ScopeId :=
  let (store, i) := s.store.newScope parent
  ({ s with store }, i)

def define (s : Session) (scope : ScopeId) (name : String) (value : Value) : Session :=
  { s with store := s.store.define scope name value }

def bindings (s : Session) : List (String × Value) :=
  (s.store.names s.globals).filterMap fun name =>
    (s.store.get? s.globals name).map fun v => (name, v)

end Session

end PrefixScript
