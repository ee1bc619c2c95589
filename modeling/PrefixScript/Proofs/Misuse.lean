import PrefixScript.Proofs.Runs
import Mathlib.Data.List.Basic

namespace PrefixScript

theorem Form.ofName?_name (form : Form) : ofName? form.name = some form := by
  cases form <;> rfl

namespace Form

def countFault? (form : Form) (operands : List Expr) (line : Nat) : Option Fault :=
  if form.arity.admits operands.length then none
  else some ⟨.wrongCount form.name form.arity operands.length, line⟩

def targetFault? (form : Form) (operands : List Expr) : Option Fault :=
  match form, operands with
  | set, target :: _ | inc, target :: _ | dec, target :: _ =>
    match target.symbol? with
    | some _ => none
    | none => some ⟨.nameExpected form target.shown, target.line⟩
  | _, _ => none

def parameterFault? (form : Form) (operands : List Expr) : Option Fault :=
  match form, operands with
  | lambda, .list items _ :: _ =>
    (items.find? (·.symbol?.isNone)).map fun e => ⟨.parameterExpected e.shown, e.line⟩
  | lambda, params :: _ =>
    match params.symbol? with
    | some _ => none
    | none => some ⟨.parametersExpected params.shown, params.line⟩
  | _, _ => none

def variableFault? (form : Form) (store : Store) (operands : List Expr) (scope : ScopeId) :
    Option Fault :=
  match form, operands with
  | inc, target :: _ | dec, target :: _ =>
    target.symbol?.bind fun name =>
      match store.get? scope name with
      | none => some ⟨.undefined name, target.line⟩
      | some (.number _) => none
      | some v => some ⟨.numberExpected form name v.kind, target.line⟩
  | _, _ => none

/-- The first fault of a form with these operands, if it is misused. -/
def misuse? (form : Form) (store : Store) (operands : List Expr) (line : Nat) (scope : ScopeId) :
    Option Fault :=
  form.countFault? operands line <|> form.targetFault? operands <|>
    form.parameterFault? operands <|> form.variableFault? store operands scope

/-- The code of a fault goes with the check that has found it. -/
inductive Coded (form : Form) (store : Store) (operands : List Expr) (line : Nat) (scope : ScopeId)
    (f : Fault) : Prop
  | count : form.countFault? operands line = some f → f.cause.code = 300 → f.line = line → Coded ..
  | target : form.targetFault? operands = some f → f.cause.code = 400 → Coded ..
  | parameter : form.parameterFault? operands = some f → f.cause.code = 401 → Coded ..
  | unbound {name} : form.variableFault? store operands scope = some f →
      operands.head?.bind Expr.symbol? = some name → store.get? scope name = none →
      f.cause.code = 200 → Coded ..
  | noNumber {name v} : form.variableFault? store operands scope = some f →
      operands.head?.bind Expr.symbol? = some name → store.get? scope name = some v →
      v.kind ≠ .number → f.cause.code = 400 → Coded ..

/-- What a form does first if it does not count its operands and reads each of them by its
position; none if it asks for a position that is not there. -/
def start? (form : Form) (store : Store) (operands : List Expr) (line : Nat) (scope : ScopeId) :
    Option (Move × Store) :=
  match form with
  | set => do
    let target ← operands[0]?
    match target.symbol? with
    | none => return (.fault (.nameExpected set target.shown) target.line, store)
    | some name => return (.hold (.set name scope) (.evaluate (← operands[1]?) scope), store)
  | lambda => do
    let params ← operands[0]?
    let body ← operands[1]?
    match params.parameters with
    | .error f => return (.leave (.abandon f), store)
    | .ok names =>
      let (store, c) := store.newClosure names body scope
      return (.value (.closure c), store)
  | choice => do
    let test ← operands[0]?
    return (.hold (.choice (← operands[1]?) (← operands[2]?) scope) (.evaluate test scope), store)
  | whileLoop => do
    let test ← operands[0]?
    return (.hold (.test test (← operands[1]?) .null scope) (.evaluate test scope), store)
  | forLoop => do
    let first ← operands[0]?
    return (.hold (.initial (← operands[1]?) (← operands[2]?) scope) (.evaluate first scope), store)
  | begin => do
    return (.hold (.sequence operands.tail scope) (.evaluate (← operands[0]?) scope), store)
  | print => return (.hold .print (.evaluate (← operands[0]?) scope), store)
  | input => return (.leave (.read line), store)
  | inc => return inc.count 1 store (← operands[0]?) scope
  | dec => return dec.count (-1) store (← operands[0]?) scope

inductive Takes : Form → List Expr → Prop
  | set (target value : Expr) : Takes set [target, value]
  | lambda (params body : Expr) : Takes lambda [params, body]
  | choice (test yes no : Expr) : Takes choice [test, yes, no]
  | whileLoop (test body : Expr) : Takes whileLoop [test, body]
  | forLoop (first test body : Expr) : Takes forLoop [first, test, body]
  | begin (e : Expr) (rest : List Expr) : Takes begin (e :: rest)
  | print (e : Expr) : Takes print [e]
  | input : Takes input []
  | inc (target : Expr) : Takes inc [target]
  | dec (target : Expr) : Takes dec [target]

variable {form : Form} {operands : List Expr}

theorem takes_of_admits (h : form.arity.admits operands.length = true) : form.Takes operands := by
  cases form <;> simp only [arity, Arity.admits, decide_eq_true_eq] at h
  case set =>
    obtain ⟨target, value, rfl⟩ := List.length_eq_two.1 h.symm
    exact .set target value
  case lambda =>
    obtain ⟨params, body, rfl⟩ := List.length_eq_two.1 h.symm
    exact .lambda params body
  case choice =>
    obtain ⟨test, yes, no, rfl⟩ := List.length_eq_three.1 h.symm
    exact .choice test yes no
  case whileLoop =>
    obtain ⟨test, body, rfl⟩ := List.length_eq_two.1 h.symm
    exact .whileLoop test body
  case forLoop =>
    obtain ⟨first, test, body, rfl⟩ := List.length_eq_three.1 h.symm
    exact .forLoop first test body
  case begin =>
    obtain ⟨e, rest, rfl⟩ := List.exists_cons_of_length_pos h
    exact .begin e rest
  case print =>
    obtain ⟨e, rfl⟩ := List.length_eq_one_iff.1 h.symm
    exact .print e
  case input =>
    obtain rfl := List.length_eq_zero_iff.1 h.symm
    exact .input
  case inc =>
    obtain ⟨target, rfl⟩ := List.length_eq_one_iff.1 h.symm
    exact .inc target
  case dec =>
    obtain ⟨target, rfl⟩ := List.length_eq_one_iff.1 h.symm
    exact .dec target

variable (store : Store) (line : Nat) (scope : ScopeId)

theorem enter_of_not_admits (h : form.arity.admits operands.length = false) :
    form.enter store operands line scope =
      (.fault (.wrongCount form.name form.arity operands.length) line, store) := by
  unfold enter
  split
  case h_11 => rfl
  all_goals contradiction

theorem start?_of_takes (h : form.Takes operands) :
    form.start? store operands line scope = some (form.enter store operands line scope) := by
  cases h with
  | set target value =>
    simp only [start?, enter, List.getElem?_cons_zero, Option.bind_eq_bind, Option.bind_some]
    cases target.symbol? <;> rfl
  | lambda params body =>
    simp only [start?, enter, List.getElem?_cons_zero, List.getElem?_cons_succ,
      Option.bind_eq_bind, Option.bind_some]
    cases params.parameters <;> rfl
  | choice | whileLoop | forLoop | begin | print | input | inc | dec => rfl

end Form

theorem Expr.mapM_parameter (items : List Expr) :
    (∃ names, items.mapM parameter = .ok names ∧ items.find? (·.symbol?.isNone) = none) ∨
      ∃ e, items.mapM parameter = .error ⟨.parameterExpected e.shown, e.line⟩ ∧
        items.find? (·.symbol?.isNone) = some e := by
  induction items with
  | nil => exact .inl ⟨[], rfl, rfl⟩
  | cons e items ih =>
    rw [List.mapM_cons, List.find?_cons, parameter]
    cases hname : e.symbol? with
    | none => exact .inr ⟨e, rfl, rfl⟩
    | some name =>
      rcases ih with ⟨names, hok, hnone⟩ | ⟨d, herror, hsome⟩
      · exact .inl ⟨name :: names, by rw [hok]; rfl, hnone⟩
      · exact .inr ⟨d, by rw [herror]; rfl, hsome⟩

def Control.GoesOn : Control → Prop
  | .abandon _ => False
  | _ => True

namespace Form

variable (store : Store) (scope : ScopeId)

def Heeds (r : Move × Store) : Option Fault → Prop
  | some f => r = (.leave (.abandon f), store)
  | none => r.1.Meets Control.GoesOn fun _ => True

theorem heeds_count {form : Form} (hform : form = inc ∨ form = dec) (delta : Float)
    (target : Expr) :
    Heeds store (form.count delta store target scope)
      (form.targetFault? [target] <|> form.variableFault? store [target] scope) := by
  have htarget : form.targetFault? [target] =
      match target.symbol? with
      | some _ => none
      | none => some ⟨.nameExpected form target.shown, target.line⟩ := by
    rcases hform with rfl | rfl <;> rfl
  have hvariable : form.variableFault? store [target] scope =
      target.symbol?.bind fun name =>
        match store.get? scope name with
        | none => some ⟨.undefined name, target.line⟩
        | some (.number _) => none
        | some v => some ⟨.numberExpected form name v.kind, target.line⟩ := by
    rcases hform with rfl | rfl <;> rfl
  rw [htarget, hvariable, count]
  cases target.symbol? with
  | none => rfl
  | some name =>
    simp only [Option.bind_some]
    cases store.get? scope name with
    | none => rfl
    | some v =>
      cases v with
      | number x => trivial
      | null | text | list | closure | builtin => rfl

theorem heeds_parameters (params body : Expr) (line : Nat) :
    Heeds store (lambda.enter store [params, body] line scope)
      (lambda.parameterFault? [params, body]) := by
  cases params with
  | atom a =>
    obtain ⟨word, l⟩ := a
    cases word with
    | symbol name => trivial
    | text | number => rfl
  | list items l =>
    simp only [enter, Expr.parameters, parameterFault?]
    rcases Expr.mapM_parameter items with ⟨names, hok, hnone⟩ | ⟨e, herror, hsome⟩
    · rw [hok, hnone]
      trivial
    · rw [herror, hsome]
      rfl

theorem code_countFault? {form : Form} {operands : List Expr} {line : Nat} {f : Fault}
    (h : form.countFault? operands line = some f) : f.cause.code = 300 ∧ f.line = line := by
  unfold countFault? at h
  split at h
  · contradiction
  · obtain rfl := Option.some.inj h
    exact ⟨rfl, rfl⟩

theorem code_targetFault? {form : Form} {operands : List Expr} {f : Fault}
    (h : form.targetFault? operands = some f) : f.cause.code = 400 := by
  unfold targetFault? at h
  split at h
  case h_4 => contradiction
  all_goals
    split at h
    · contradiction
    · obtain rfl := Option.some.inj h
      rfl

theorem code_parameterFault? {form : Form} {operands : List Expr} {f : Fault}
    (h : form.parameterFault? operands = some f) : f.cause.code = 401 := by
  unfold parameterFault? at h
  split at h
  · obtain ⟨e, -, rfl⟩ := Option.map_eq_some_iff.1 h
    rfl
  · split at h
    · contradiction
    · obtain rfl := Option.some.inj h
      rfl
  · contradiction

theorem coded_of_variableFault? {form : Form} {operands : List Expr} {f : Fault}
    (h : form.variableFault? store operands scope = some f) (line : Nat) :
    form.Coded store operands line scope f := by
  have hfault := h
  unfold variableFault? at h
  split at h
  case h_3 => contradiction
  all_goals
    obtain ⟨name, hname, hvariable⟩ := Option.bind_eq_some_iff.1 h
    split at hvariable
    · next hnone =>
      obtain rfl := Option.some.inj hvariable
      exact .unbound hfault hname hnone rfl
    · contradiction
    · next v hnumber hv =>
      obtain rfl := Option.some.inj hvariable
      refine .noNumber hfault hname hv (fun hkind => ?_) rfl
      cases v with
      | number x => exact hnumber x rfl
      | null | text | list | closure | builtin => contradiction

theorem coded_of_misuse? {form : Form} {operands : List Expr} {line : Nat} {f : Fault}
    (h : form.misuse? store operands line scope = some f) :
    form.Coded store operands line scope f := by
  unfold misuse? at h
  cases hcount : form.countFault? operands line with
  | some g =>
    obtain rfl : g = f := by simpa [hcount] using h
    exact .count hcount (code_countFault? hcount).1 (code_countFault? hcount).2
  | none =>
    cases htarget : form.targetFault? operands with
    | some g =>
      obtain rfl : g = f := by simpa [hcount, htarget] using h
      exact .target htarget (code_targetFault? htarget)
    | none =>
      cases hparameter : form.parameterFault? operands with
      | some g =>
        obtain rfl : g = f := by simpa [hcount, htarget, hparameter] using h
        exact .parameter hparameter (code_parameterFault? hparameter)
      | none =>
        have hvariable : form.variableFault? store operands scope = some f := by
          simpa [hcount, htarget, hparameter] using h
        exact coded_of_variableFault? store scope hvariable line

theorem heeds_misuse? (form : Form) (operands : List Expr) (line : Nat) :
    Heeds store (form.enter store operands line scope)
      (form.misuse? store operands line scope) := by
  cases hcount : form.arity.admits operands.length with
  | false =>
    rw [enter_of_not_admits store line scope hcount, misuse?, countFault?, hcount]
    rfl
  | true =>
    have hnone : form.countFault? operands line = none := if_pos hcount
    rw [misuse?, hnone]
    cases takes_of_admits hcount with
    | set target value =>
      simp only [enter, targetFault?]
      cases target.symbol? with
      | none => rfl
      | some name => exact ⟨trivial, trivial⟩
    | lambda params body =>
      -- Only its parameters can be misused: it has no target and counts no variable.
      have honly : (none <|> lambda.targetFault? [params, body] <|>
          lambda.parameterFault? [params, body] <|>
            lambda.variableFault? store [params, body] scope) =
              lambda.parameterFault? [params, body] := by
        simp [targetFault?, variableFault?]
      rw [honly]
      exact heeds_parameters store scope params body line
    | inc target => exact heeds_count store scope (.inl rfl) 1 target
    | dec target => exact heeds_count store scope (.inr rfl) (-1) target
    | input => trivial
    | choice | whileLoop | forLoop | begin | print => exact ⟨trivial, trivial⟩

end Form

namespace Machine

def failing (m : Machine) (f : Fault) (n : Nat) : Machine :=
  { m with
    depth := m.depth - min n m.stack.length
    control := .abandon f
    stack := m.stack.drop n }

theorem run_failing (m : Machine) (f : Fault) (n : Nat) :
    (m.failing f 0).run n = m.failing f n := by
  induction n generalizing m with
  | zero => rfl
  | succ n ih =>
    obtain ⟨store, console, depth, limit, control, stack⟩ := m
    rw [run_succ]
    cases stack with
    | nil => exact (ih _).trans (by simp [failing])
    | cons frame stack =>
      refine (ih ⟨store, console, depth - 1, limit, control, stack⟩).trans ?_
      simp only [failing, List.length_cons, List.drop_succ_cons, Machine.mk.injEq, true_and,
        and_true]
      omega

/-- A special form that is misused fails with the first of its faults, whatever its operands are:
none of them is evaluated, and store and console stay as they are while the fault unwinds the
evaluations that wait. A form that is not misused goes on, and one with the right number of
operands finds every operand at its position. -/
theorem misused_form_fails {m : Machine} {form : Form} {head : Expr} {operands : List Expr}
    {line : Nat} {scope : ScopeId}
    (hcontrol : m.control = .evaluate (.list (head :: operands) line) scope)
    (hhead : head.symbol? = some form.name) (hdepth : m.depth < m.limit) :
    (∀ f, form.misuse? m.store operands line scope = some f →
        form.Coded m.store operands line scope f ∧ ∀ n, m.run (n + 1) = m.failing f n) ∧
      (form.misuse? m.store operands line scope = none → ∀ f, m.step.control ≠ .abandon f) ∧
      (form.arity.admits operands.length = true →
        ∃ move store, form.start? m.store operands line scope = some (move, store) ∧
          m.step = go store m.console m.depth m.limit m.stack move) := by
  obtain ⟨store, console, depth, limit, control, stack⟩ := m
  obtain rfl : control = _ := hcontrol
  have hform : head.symbol?.bind Form.ofName? = some form := by
    rw [hhead, Option.bind_some, Form.ofName?_name]
  have hstep : step ⟨store, console, depth, limit, .evaluate (.list (head :: operands) line) scope,
      stack⟩ = go (form.enter store operands line scope).2 console depth limit stack
        (form.enter store operands line scope).1 := by
    rw [← (Step.entered hdepth).eq, Expr.enter, hform]
  -- Entering the form, the machine gives up for the first misuse, or goes on if there is none.
  have hheeds := Form.heeds_misuse? store scope form operands line
  refine ⟨fun f hf => ⟨Form.coded_of_misuse? store scope hf, fun n => ?_⟩, fun hf f => ?_,
    fun hcount => ?_⟩
  · rw [hf] at hheeds
    rw [run_succ, hstep, hheeds]
    exact run_failing ⟨store, console, depth, limit, _, stack⟩ f n
  · rw [hf] at hheeds
    rw [hstep]
    intro hgives
    have hgoes : (go (form.enter store operands line scope).2 console depth limit stack
        (form.enter store operands line scope).1).control.GoesOn :=
      (Meets.go (S := fun _ => True) (F := fun _ => True) trivial hheeds fun _ _ => trivial).2.1
    rw [hgives] at hgoes
    exact hgoes
  · exact ⟨_, _, Form.start?_of_takes store line scope (Form.takes_of_admits hcount), hstep⟩

def setsText : Machine where
  store := (Store.empty.newScope none).1
  console := .scripted ["7"]
  depth := 1
  limit := 2
  control :=
    .evaluate (.list [.symbol "set" 1, .atom ⟨.text "x", 2⟩, .list [.symbol "input" 3] 3] 1) 0
  stack := [.print]

theorem misused_form_fails_set :
    setsText.depth < setsText.limit ∧
      setsText.run 3 = setsText.failing ⟨.nameExpected .set "\"x\"", 2⟩ 2 := by
  have hhead : (Expr.symbol "set" 1).symbol? = some Form.set.name := rfl
  have hdepth : setsText.depth < setsText.limit := by decide
  have hfails := (misused_form_fails rfl hhead hdepth).1
  exact ⟨hdepth, (hfails _ (by decide +kernel)).2 2⟩

end Machine

end PrefixScript
