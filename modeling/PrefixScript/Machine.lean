import PrefixScript.Builtin
import PrefixScript.Console
import PrefixScript.Store

/-!
# Evaluation

Expressions are evaluated by a machine in small steps. Its control says what comes next: evaluate an
expression in a scope, hand a value to whoever waits for it, ask the console for input, print, or
give up with a fault. Evaluations that wait for the value of another one are frames on a stack, the
innermost first, and their number is the depth, which a limit bounds. A fault ends every waiting
evaluation in turn.

What an expression does first (`Expr.enter`) and what a waiting evaluation does with a value
(`Frame.resume`) are functions on the store alone; only `Machine.step` touches stack and console.
-/

namespace PrefixScript

inductive Control where
  | evaluate (e : Expr) (scope : ScopeId)
  | deliver (v : Value)
  | read (line : Nat)
  | print (text : String)
  | abandon (f : Fault)

/-- An evaluation that waits for a value, and what it will do with it. -/
inductive Frame where
  | callee (operands : List Expr) (line : Nat) (scope : ScopeId)
  | argument (callee : Value) (args : List Value) (operands : List Expr) (line : Nat)
      (scope : ScopeId)
  | result
  | set (name : String) (scope : ScopeId)
  | choice (yes no : Expr) (scope : ScopeId)
  | initial (test body : Expr) (scope : ScopeId)
  | test (test body : Expr) (last : Value) (scope : ScopeId)
  | round (test body : Expr) (scope : ScopeId)
  | sequence (rest : List Expr) (scope : ScopeId)
  | print

inductive Move where
  | leave (next : Control)
  | hold (frame : Frame) (next : Control)

namespace Move

def value (v : Value) : Move :=
  .leave (.deliver v)

def fault (cause : Cause) (line : Nat) : Move :=
  .leave (.abandon ⟨cause, line⟩)

end Move

def Value.ofInput (s : String) : Value :=
  match Number.ofText? s with
  | some x => .number x
  | none => .text s

def Value.apply (store : Store) (callee : Value) (args : List Value) (line : Nat) :
    Control × Store :=
  match callee with
  | .closure c =>
    if args.length = c.params.length then
      let (store, scope) := store.newScope (some c.scope)
      (.evaluate c.body scope, store.defineAll scope c.params args)
    else
      (.abandon ⟨.wrongCount "closure" (.exactly c.params.length) args.length, line⟩, store)
  | .builtin b =>
    match b.apply args with
    | .ok v => (.deliver v, store)
    | .error cause => (.abandon ⟨cause, line⟩, store)
  | v => (.abandon ⟨.notCallable v.kind, line⟩, store)

namespace Expr

/-- What a symbol means: its binding; without one, the builtin of that name; and `input` asks for
input. -/
def lookUp (store : Store) (name : String) (line : Nat) (scope : ScopeId) : Control :=
  match store.get? scope name with
  | some v => .deliver v
  | none =>
    match Builtin.ofName? name with
    | some b => .deliver (.builtin b)
    | none =>
      if Form.ofName? name = some .input then .read line else .abandon ⟨.undefined name, line⟩

def parameter (e : Expr) : Except Fault String :=
  match e.symbol? with
  | some name => .ok name
  | none => .error ⟨.parameterExpected e.shown, e.line⟩

def parameters (e : Expr) : Except Fault (List String) :=
  match e with
  | .atom ⟨.symbol name, _⟩ => .ok [name]
  | .list items _ => items.mapM parameter
  | e => .error ⟨.parametersExpected e.shown, e.line⟩

end Expr

namespace Form

def count (form : Form) (delta : Float) (store : Store) (target : Expr) (scope : ScopeId) :
    Move × Store :=
  match target.symbol? with
  | none => (.fault (.nameExpected form target.shown) target.line, store)
  | some name =>
    match store.get? scope name with
    | none => (.fault (.undefined name) target.line, store)
    | some (.number x) =>
      let v := .number (x + delta)
      (.value v, (store.assign scope name v).1)
    | some v => (.fault (.numberExpected form name v.kind) target.line, store)

def enter (form : Form) (store : Store) (operands : List Expr) (line : Nat) (scope : ScopeId) :
    Move × Store :=
  match form, operands with
  | set, [target, value] =>
    match target.symbol? with
    | some name => (.hold (.set name scope) (.evaluate value scope), store)
    | none => (.fault (.nameExpected set target.shown) target.line, store)
  | lambda, [params, body] =>
    match params.parameters with
    | .ok names =>
      let (store, c) := store.newClosure names body scope
      (.value (.closure c), store)
    | .error f => (.leave (.abandon f), store)
  | choice, [test, yes, no] => (.hold (.choice yes no scope) (.evaluate test scope), store)
  | whileLoop, [test, body] => (.hold (.test test body .null scope) (.evaluate test scope), store)
  | forLoop, [first, test, body] =>
    (.hold (.initial test body scope) (.evaluate first scope), store)
  | begin, e :: rest => (.hold (.sequence rest scope) (.evaluate e scope), store)
  | print, [e] => (.hold .print (.evaluate e scope), store)
  | input, [] => (.leave (.read line), store)
  | inc, [target] => inc.count 1 store target scope
  | dec, [target] => dec.count (-1) store target scope
  | _, _ => (.fault (.wrongCount form.name form.arity operands.length) line, store)

end Form

def Expr.enter (store : Store) (e : Expr) (scope : ScopeId) : Move × Store :=
  match e with
  | .atom ⟨.number x, _⟩ => (.value (.number x), store)
  | .atom ⟨.text s, _⟩ => (.value (.text s), store)
  | .atom ⟨.symbol name, line⟩ => (.leave (lookUp store name line scope), store)
  | .list [] line => (.fault .emptyExpression line, store)
  | .list (head :: operands) line =>
    match head.symbol?.bind Form.ofName? with
    | some form => form.enter store operands line scope
    | none => (.hold (.callee operands line scope) (.evaluate head scope), store)

namespace Frame

def call (store : Store) (callee : Value) (args : List Value) (operands : List Expr) (line : Nat)
    (scope : ScopeId) : Move × Store :=
  match operands with
  | e :: operands => (.hold (.argument callee args operands line scope) (.evaluate e scope), store)
  | [] =>
    let (next, store) := callee.apply store args.reverse line
    (.hold .result next, store)

def resume (store : Store) (frame : Frame) (v : Value) : Move × Store :=
  match frame with
  | callee operands line scope => call store v [] operands line scope
  | argument f args operands line scope => call store f (v :: args) operands line scope
  | result => (.value v, store)
  | set name scope => (.value .null, store.define scope name v)
  | choice yes no scope =>
    (.hold .result (.evaluate (if v.isTrue then yes else no) scope), store)
  | initial t body scope => (.hold (.test t body .null scope) (.evaluate t scope), store)
  | test t body last scope =>
    if v.isTrue then (.hold (.round t body scope) (.evaluate body scope), store)
    else (.value last, store)
  | round t body scope => (.hold (.test t body v scope) (.evaluate t scope), store)
  | sequence [] _ => (.value v, store)
  | sequence (e :: rest) scope => (.hold (.sequence rest scope) (.evaluate e scope), store)
  | print => (.leave (.print (String.ofList (Text.breakLines v.shown.toList))), store)

end Frame

structure Machine where
  store : Store
  console : Console
  depth : Nat
  limit : Nat
  control : Control
  stack : List Frame

namespace Machine

def go (store : Store) (console : Console) (depth limit : Nat) (stack : List Frame) :
    Move → Machine
  | .leave next => ⟨store, console, depth, limit, next, stack⟩
  | .hold frame next => ⟨store, console, depth + 1, limit, next, frame :: stack⟩

def step : Machine → Machine
  | ⟨store, console, depth, limit, .evaluate e scope, stack⟩ =>
    if limit ≤ depth then
      ⟨store, console, depth, limit, .abandon ⟨.tooDeep limit, e.line⟩, stack⟩
    else
      let (move, store) := e.enter store scope
      go store console depth limit stack move
  | ⟨store, console, depth, limit, .deliver v, frame :: stack⟩ =>
    let (move, store) := frame.resume store v
    go store console (depth - 1) limit stack move
  | ⟨store, console, depth, limit, .read line, stack⟩ =>
    match console.read with
    | (.ok s, console) => ⟨store, console, depth, limit, .deliver (.ofInput s), stack⟩
    | (.error why, console) =>
      ⟨store, console, depth, limit, .abandon ⟨.inputFailed why, line⟩, stack⟩
  | ⟨store, console, depth, limit, .print text, stack⟩ =>
    ⟨store, console.print text, depth, limit, .deliver .null, stack⟩
  | ⟨store, console, depth, limit, .abandon f, _ :: stack⟩ =>
    ⟨store, console, depth - 1, limit, .abandon f, stack⟩
  | m => m

def isDone (m : Machine) : Bool :=
  match m.control, m.stack with
  | .deliver _, [] | .abandon _, [] => true
  | _, _ => false

def run : Nat → Machine → Machine
  | 0, m => m
  | n + 1, m => if m.isDone then m else run n m.step

end Machine

inductive Outcome (ε : Type) where
  | value (v : Value)
  | failed (error : ε)
  | unfinished

namespace Outcome

def mapError {ε ε' : Type} (f : ε → ε') : Outcome ε → Outcome ε'
  | value v => .value v
  | failed e => .failed (f e)
  | unfinished => .unfinished

end Outcome

def Machine.outcome (m : Machine) : Outcome Fault :=
  match m.control, m.stack with
  | .deliver v, [] => .value v
  | .abandon f, [] => .failed f
  | _, _ => .unfinished

end PrefixScript
