import PrefixScript.Proofs.Builtins
import PrefixScript.Proofs.Calls
import PrefixScript.Proofs.Misuse
import PrefixScript.Proofs.Policy
import PrefixScript.Proofs.Positions
import PrefixScript.Proofs.Rendering

namespace PrefixScript

namespace Expr

variable (φ ψ : Nat → Nat)

def mapLines (φ : Nat → Nat) : Expr → Expr :=
  fold (fun a => .atom ⟨a.word, φ a.line⟩) fun parts line => .list parts (φ line)

@[simp] theorem mapLines_atom (word : Word) (line : Nat) :
    mapLines φ (.atom ⟨word, line⟩) = .atom ⟨word, φ line⟩ := rfl

@[simp] theorem mapLines_list (items : List Expr) (line : Nat) :
    mapLines φ (.list items line) = .list (items.map (mapLines φ)) (φ line) :=
  fold_list ..

@[simp] theorem line_mapLines (e : Expr) : (e.mapLines φ).line = φ e.line := by
  cases e with
  | atom a => rfl
  | list items l =>
    rw [mapLines_list]
    rfl

@[simp] theorem symbol?_mapLines (e : Expr) : (e.mapLines φ).symbol? = e.symbol? := by
  cases e with
  | atom a => rfl
  | list items l =>
    rw [mapLines_list]
    rfl

theorem lines_mapLines (e : Expr) : (e.mapLines φ).lines = e.lines.map φ := by
  induction e using induction with
  | atom a => rfl
  | list items line ih =>
    rw [mapLines_list, lines_list, lines_list, List.map_cons, List.flatMap_map, List.map_flatMap]
    congr 1
    exact List.flatMap_congr ih

theorem mapLines_mapLines (e : Expr) : (e.mapLines φ).mapLines ψ = e.mapLines (ψ ∘ φ) := by
  induction e using induction with
  | atom a => rfl
  | list items line ih =>
    rw [mapLines_list, mapLines_list, mapLines_list, List.map_map]
    congr 1
    exact List.map_congr_left ih

theorem mapLines_id (e : Expr) : e.mapLines id = e := by
  induction e using induction with
  | atom a => rfl
  | list items line ih =>
    rw [mapLines_list, List.map_congr_left ih, List.map_id']
    rfl

theorem chars_mapLines (e : Expr) : (e.mapLines φ).chars = e.chars := by
  induction e using induction with
  | atom a => rfl
  | list items line ih =>
    rw [mapLines_list, chars_list, chars_list, List.map_map]
    congr 3
    exact List.map_congr_left ih

@[simp] theorem shown_mapLines (e : Expr) : (e.mapLines φ).shown = e.shown := by
  apply String.toList_injective
  rw [toList_shown, toList_shown, chars_mapLines]

end Expr

namespace Value

variable (φ : Nat → Nat)

def mapLines (φ : Nat → Nat) : Value → Value
  | .closure c => .closure { c with body := c.body.mapLines φ }
  | v => v

theorem mapLines_of_ne_closure {v : Value} (h : ∀ c, v ≠ .closure c) : v.mapLines φ = v := by
  cases v with
  | closure c => exact absurd rfl (h c)
  | null | number | text | list | builtin => rfl

@[simp] theorem mapLines_number (x : Float) : mapLines φ (.number x) = .number x := rfl

@[simp] theorem mapLines_builtin (b : Builtin) : mapLines φ (.builtin b) = .builtin b := rfl

@[simp] theorem mapLines_closure (c : Closure) :
    mapLines φ (.closure c) = .closure { c with body := c.body.mapLines φ } := rfl

@[simp] theorem isTrue_mapLines (v : Value) : (v.mapLines φ).isTrue = v.isTrue := by
  cases v <;> rfl

@[simp] theorem shown_mapLines (v : Value) : (v.mapLines φ).shown = v.shown := by
  cases v <;> rfl

end Value

def Scope.mapLines (φ : Nat → Nat) (scope : Scope) : Scope :=
  { scope with bindings := scope.bindings.map fun b => (b.1, b.2.mapLines φ) }

namespace Bindings

variable (φ : Nat → Nat) (name : String) (bindings : Bindings)

theorem lookup_mapLines :
    (bindings.map fun b => (b.1, b.2.mapLines φ)).lookup name =
      (bindings.lookup name).map (·.mapLines φ) := by
  induction bindings with
  | nil => rfl
  | cons b rest ih =>
    obtain ⟨n, v⟩ := b
    by_cases h : name = n
    · simp [h]
    · simpa [List.lookup_cons, beq_eq_false_iff_ne.2 h] using ih

theorem insert_mapLines (v : Value) :
    (insert name v bindings).map (fun b => (b.1, b.2.mapLines φ)) =
      insert name (v.mapLines φ) (bindings.map fun b => (b.1, b.2.mapLines φ)) := by
  induction bindings with
  | nil => rfl
  | cons b rest ih =>
    obtain ⟨n, w⟩ := b
    by_cases h : n = name
    · simp [insert, h]
    · simp only [insert, h, if_false, List.map_cons]
      exact congrArg _ ih

end Bindings

namespace Store

variable (φ : Nat → Nat) (s : Store) (i : ScopeId) (name : String)

def mapLines (φ : Nat → Nat) (s : Store) : Store :=
  { s with scopes := s.scopes.map (·.mapLines φ) }

theorem bindings_mapLines :
    (s.mapLines φ).bindings i = (s.bindings i).map fun b => (b.1, b.2.mapLines φ) := by
  simp only [bindings, mapLines, Array.getElem?_map]
  cases s.scopes[i]? <;> rfl

theorem parent?_mapLines : (s.mapLines φ).parent? i = s.parent? i := by
  simp only [parent?, mapLines, Array.getElem?_map]
  cases s.scopes[i]? <;> rfl

theorem get?_mapLines : (s.mapLines φ).get? i name = (s.get? i name).map (·.mapLines φ) := by
  fun_induction get? s i name with
  | case1 i v hv =>
    rw [get?_eq, bindings_mapLines, Bindings.lookup_mapLines, hv]
    rfl
  | case2 i hv p hp ih =>
    rw [get?_eq, bindings_mapLines, Bindings.lookup_mapLines, hv, parent?_mapLines, hp]
    exact ih
  | case3 i hv hp =>
    rw [get?_eq, bindings_mapLines, Bindings.lookup_mapLines, hv, parent?_mapLines, hp]
    rfl

theorem define_mapLines (v : Value) :
    (s.mapLines φ).define i name (v.mapLines φ) = (s.define i name v).mapLines φ := by
  simp only [define, mapLines, mk.injEq, and_true]
  apply Array.ext_getElem?
  intro j
  simp only [Array.getElem?_modify, Array.getElem?_map]
  split
  · cases s.scopes[j]? with
    | none => rfl
    | some scope => simp [Scope.mapLines, Bindings.insert_mapLines]
  · rfl

theorem defineAll_mapLines (names : List String) (values : List Value) :
    (s.mapLines φ).defineAll i names (values.map (·.mapLines φ)) =
      (s.defineAll i names values).mapLines φ := by
  simp only [defineAll, List.zip_map_right]
  generalize names.zip values = bindings
  induction bindings generalizing s with
  | nil => rfl
  | cons b rest ih => simp [define_mapLines, ih]

theorem newScope_mapLines (parent : Option ScopeId) :
    (s.mapLines φ).newScope parent = ((s.newScope parent).1.mapLines φ, (s.newScope parent).2) := by
  simp [newScope, mapLines, Scope.mapLines]

theorem assign_mapLines (v : Value) :
    (s.mapLines φ).assign i name (v.mapLines φ) =
      ((s.assign i name v).1.mapLines φ, (s.assign i name v).2) := by
  fun_induction assign s i name v with
  | case1 i w hw =>
    rw [assign_eq, bindings_mapLines, Bindings.lookup_mapLines, hw]
    simp [define_mapLines]
  | case2 i hw p hp ih =>
    rw [assign_eq, bindings_mapLines, Bindings.lookup_mapLines, hw, parent?_mapLines, hp]
    exact ih
  | case3 i hw hp =>
    rw [assign_eq, bindings_mapLines, Bindings.lookup_mapLines, hw, parent?_mapLines, hp]
    rfl

end Store

namespace Builtin

variable (φ : Nat → Nat) (op : Builtin)

theorem collect_mapLines (xs : Array Float) (args : List Value) :
    collect.go xs (args.map (·.mapLines φ)) = collect.go xs args := by
  induction args generalizing xs with
  | nil => rfl
  | cons v args ih =>
    cases v with
    | number x => exact ih _
    | null | text | list | closure | builtin => rfl

theorem perform_mapLines (args : List Value) :
    op.perform (args.map (·.mapLines φ)) = op.perform args := by
  cases op with
  | concat => simp [perform, Function.comp_def]
  | list => exact collect_mapLines φ #[] args
  | _ =>
    match args with
    | [] => rfl
    | [v] => cases v <;> rfl
    | [v, w] => cases v <;> cases w <;> rfl
    | u :: v :: w :: rest => simp [perform]

theorem apply_mapLines (args : List Value) :
    op.apply (args.map (·.mapLines φ)) = op.apply args := by
  rw [apply, apply, List.length_map, perform_mapLines]

end Builtin

def Fault.mapLines (φ : Nat → Nat) (f : Fault) : Fault :=
  { f with line := φ f.line }

def Control.mapLines (φ : Nat → Nat) : Control → Control
  | .evaluate e scope => .evaluate (e.mapLines φ) scope
  | .deliver v => .deliver (v.mapLines φ)
  | .read line => .read (φ line)
  | .print text => .print text
  | .abandon f => .abandon (f.mapLines φ)

def Frame.mapLines (φ : Nat → Nat) : Frame → Frame
  | .callee operands line scope => .callee (operands.map (·.mapLines φ)) (φ line) scope
  | .argument f args operands line scope =>
    .argument (f.mapLines φ) (args.map (·.mapLines φ)) (operands.map (·.mapLines φ)) (φ line)
      scope
  | .result => .result
  | .set name scope => .set name scope
  | .choice yes no scope => .choice (yes.mapLines φ) (no.mapLines φ) scope
  | .initial t body scope => .initial (t.mapLines φ) (body.mapLines φ) scope
  | .test t body last scope =>
    .test (t.mapLines φ) (body.mapLines φ) (last.mapLines φ) scope
  | .round t body scope => .round (t.mapLines φ) (body.mapLines φ) scope
  | .sequence rest scope => .sequence (rest.map (·.mapLines φ)) scope
  | .print => .print

def Move.mapLines (φ : Nat → Nat) : Move → Move
  | .leave next => .leave (next.mapLines φ)
  | .hold frame next => .hold (frame.mapLines φ) (next.mapLines φ)

section Moves

variable (φ : Nat → Nat) (s : Store) (i : ScopeId)

theorem Value.apply_mapLines (callee : Value) (args : List Value) (line : Nat) :
    (callee.mapLines φ).apply (s.mapLines φ) (args.map (·.mapLines φ)) (φ line) =
      ((callee.apply s args line).1.mapLines φ, (callee.apply s args line).2.mapLines φ) := by
  cases callee with
  | closure c =>
    simp only [mapLines_closure, apply, List.length_map, Store.newScope_mapLines,
      Store.defineAll_mapLines]
    split <;> rfl
  | builtin b =>
    simp only [mapLines_builtin, apply, Builtin.apply_mapLines]
    cases h : b.apply args with
    | ok v =>
      have hsame := mapLines_of_ne_closure φ (Builtin.ne_closure_of_apply h)
      simp only [Control.mapLines, hsame]
    | error cause => rfl
  | null | number | text | list => rfl

theorem Expr.lookUp_mapLines (name : String) (line : Nat) :
    lookUp (s.mapLines φ) name (φ line) i = (lookUp s name line i).mapLines φ := by
  simp only [lookUp, Store.get?_mapLines]
  cases s.get? i name with
  | some v => rfl
  | none =>
    simp only [Option.map_none]
    split
    · rfl
    · split <;> rfl

theorem Expr.parameter_mapLines (e : Expr) :
    (e.mapLines φ).parameter = e.parameter.mapError (·.mapLines φ) := by
  simp only [parameter, symbol?_mapLines, shown_mapLines, line_mapLines]
  cases e.symbol? <;> rfl

theorem Expr.parameters_mapLines (e : Expr) :
    (e.mapLines φ).parameters = e.parameters.mapError (·.mapLines φ) := by
  cases e with
  | atom a =>
    obtain ⟨word, line⟩ := a
    cases word <;> rfl
  | list items line =>
    rw [mapLines_list]
    simp only [parameters]
    induction items with
    | nil => rfl
    | cons e items ih =>
      rw [List.map_cons, List.mapM_cons, List.mapM_cons, parameter_mapLines, ih]
      cases e.parameter with
      | error => rfl
      | ok name => cases items.mapM parameter <;> rfl

theorem Form.count_mapLines (form : Form) (delta : Float) (target : Expr) :
    form.count delta (s.mapLines φ) (target.mapLines φ) i =
      ((form.count delta s target i).1.mapLines φ, (form.count delta s target i).2.mapLines φ) := by
  simp only [count, Expr.symbol?_mapLines, Expr.shown_mapLines, Expr.line_mapLines,
    Store.get?_mapLines]
  cases target.symbol? with
  | none => rfl
  | some name =>
    dsimp only
    cases s.get? i name with
    | none => rfl
    | some v =>
      cases v with
      | number x =>
        have hassign := Store.assign_mapLines φ s i name (.number (x + delta))
        simp only [Option.map_some, Value.mapLines_number] at hassign ⊢
        rw [hassign]
        rfl
      | null | text | list | closure | builtin => rfl

theorem Form.enter_mapLines (form : Form) (operands : List Expr) (line : Nat) :
    form.enter (s.mapLines φ) (operands.map (·.mapLines φ)) (φ line) i =
      ((form.enter s operands line i).1.mapLines φ,
        (form.enter s operands line i).2.mapLines φ) := by
  cases hcount : form.arity.admits operands.length with
  | false =>
    have hcount' : form.arity.admits (operands.map (·.mapLines φ)).length = false := by
      rwa [List.length_map]
    rw [enter_of_not_admits s line i hcount, enter_of_not_admits _ (φ line) i hcount',
      List.length_map]
    rfl
  | true =>
    cases takes_of_admits hcount with
    | set target value =>
      simp only [List.map_cons, List.map_nil, enter, Expr.symbol?_mapLines, Expr.shown_mapLines,
        Expr.line_mapLines]
      cases target.symbol? <;> rfl
    | lambda params body =>
      simp only [List.map_cons, List.map_nil, enter, Expr.parameters_mapLines]
      cases params.parameters <;> rfl
    | inc target | dec target => exact count_mapLines φ s i _ _ target
    | choice | whileLoop | forLoop | begin | print | input => rfl

theorem Expr.enter_mapLines (e : Expr) :
    (e.mapLines φ).enter (s.mapLines φ) i =
      ((e.enter s i).1.mapLines φ, (e.enter s i).2.mapLines φ) := by
  cases e with
  | atom a =>
    obtain ⟨word, line⟩ := a
    cases word with
    | symbol name =>
      simp only [mapLines_atom, enter, lookUp_mapLines]
      rfl
    | text | number => rfl
  | list items line =>
    rw [mapLines_list]
    cases items with
    | nil => rfl
    | cons head operands =>
      simp only [List.map_cons, enter, symbol?_mapLines]
      cases head.symbol?.bind Form.ofName? with
      | some form => exact Form.enter_mapLines φ s i form operands line
      | none => rfl

theorem Frame.call_mapLines (callee : Value) (args : List Value) (operands : List Expr)
    (line : Nat) :
    call (s.mapLines φ) (callee.mapLines φ) (args.map (·.mapLines φ))
        (operands.map (·.mapLines φ)) (φ line) i =
      ((call s callee args operands line i).1.mapLines φ,
        (call s callee args operands line i).2.mapLines φ) := by
  cases operands with
  | nil =>
    simp only [call, List.map_nil, ← List.map_reverse, Value.apply_mapLines]
    rfl
  | cons e operands => rfl

theorem Frame.resume_mapLines (f : Frame) (v : Value) :
    (f.mapLines φ).resume (s.mapLines φ) (v.mapLines φ) =
      ((f.resume s v).1.mapLines φ, (f.resume s v).2.mapLines φ) := by
  cases f with
  | callee operands line scope => exact call_mapLines φ s scope v [] operands line
  | argument callee args operands line scope =>
    exact call_mapLines φ s scope callee (v :: args) operands line
  | set name scope =>
    simp only [mapLines, resume, Store.define_mapLines]
    rfl
  | choice yes no scope =>
    simp only [mapLines, resume, Value.isTrue_mapLines]
    split <;> rfl
  | test test body last scope =>
    simp only [mapLines, resume, Value.isTrue_mapLines]
    split <;> rfl
  | sequence rest scope => cases rest <;> rfl
  | print =>
    simp only [mapLines, resume, Value.shown_mapLines]
    rfl
  | initial | round | result => rfl

end Moves

def Outcome.mapLines (φ : Nat → Nat) : Outcome Fault → Outcome Fault
  | .value v => .value (v.mapLines φ)
  | .failed f => .failed (f.mapLines φ)
  | .unfinished => .unfinished

theorem Outcome.eq_value_of_mapLines {φ : Nat → Nat} {o : Outcome Fault} {v : Value}
    (h : o.mapLines φ = .value v) : ∃ w, o = .value w := by
  cases o with
  | value w => exact ⟨w, rfl⟩
  | failed | unfinished => contradiction

theorem Outcome.eq_failed_of_mapLines {φ : Nat → Nat} {o : Outcome Fault} {f : Fault}
    (h : o.mapLines φ = .failed f) : ∃ g, o = .failed g ∧ g.mapLines φ = f := by
  cases o with
  | failed g => exact ⟨g, rfl, Outcome.failed.inj h⟩
  | value | unfinished => contradiction

namespace Machine

variable (φ : Nat → Nat) (m : Machine)

def mapLines (φ : Nat → Nat) (m : Machine) : Machine :=
  { m with
    store := m.store.mapLines φ
    control := m.control.mapLines φ
    stack := m.stack.map (·.mapLines φ) }

theorem go_mapLines (store : Store) (console : Console) (depth limit : Nat) (stack : List Frame)
    (move : Move) :
    go (store.mapLines φ) console depth limit (stack.map (·.mapLines φ)) (move.mapLines φ) =
      (go store console depth limit stack move).mapLines φ := by
  cases move <;> rfl

theorem outcome_mapLines : (m.mapLines φ).outcome = m.outcome.mapLines φ := by
  obtain ⟨store, console, depth, limit, control, stack⟩ := m
  cases control <;> cases stack <;> rfl

theorem isDone_mapLines : (m.mapLines φ).isDone = m.isDone := by
  obtain ⟨store, console, depth, limit, control, stack⟩ := m
  cases control <;> cases stack <;> rfl

theorem step_mapLines : (m.mapLines φ).step = m.step.mapLines φ := by
  refine step_eq_of_step fun m' hm => ?_
  cases hm with
  | @refused store console depth limit e scope stack hfull =>
    have hrefused := @Step.refused (store.mapLines φ) console depth limit (e.mapLines φ) scope
      (stack.map (·.mapLines φ)) hfull
    rwa [Expr.line_mapLines] at hrefused
  | @entered store console depth limit e scope stack hfree =>
    have hentered := @Step.entered (store.mapLines φ) console depth limit (e.mapLines φ) scope
      (stack.map (·.mapLines φ)) hfree
    rwa [Expr.enter_mapLines, go_mapLines] at hentered
  | @resumed store console depth limit v frame stack =>
    have hresumed := @Step.resumed (store.mapLines φ) console depth limit (v.mapLines φ)
      (frame.mapLines φ) (stack.map (·.mapLines φ))
    rwa [Frame.resume_mapLines, go_mapLines] at hresumed
  | @answered store console depth limit line text stack htext =>
    have hanswered := @Step.answered (store.mapLines φ) console depth limit (φ line) text
      (stack.map (·.mapLines φ)) htext
    rwa [← Value.mapLines_of_ne_closure φ (Value.ofInput_ne_closure text)] at hanswered
  | unanswered hwhy => exact .unanswered hwhy
  | printed => exact .printed
  | unwound => exact .unwound
  | done hdone => exact .done ((isDone_mapLines φ m).trans hdone)

theorem run_mapLines (n : Nat) : (m.mapLines φ).run n = (m.run n).mapLines φ :=
  run_map (P := fun _ => True) (fun _ _ => trivial) (fun m _ => step_mapLines φ m) trivial n

end Machine

namespace Session

variable (φ : Nat → Nat) (s : Session) (steps : Nat)

def mapLines (φ : Nat → Nat) (s : Session) : Session :=
  { s with store := s.store.mapLines φ }

theorem proceedWithin_mapLines (control : Control) :
    (s.mapLines φ).proceedWithin steps (control.mapLines φ) =
      ((s.proceedWithin steps control).1.mapLines φ,
        (s.proceedWithin steps control).2.mapLines φ) := by
  have hstart : (s.mapLines φ).start (control.mapLines φ) = (s.start control).mapLines φ := rfl
  rw [proceedWithin_eq, proceedWithin_eq, hstart, Machine.run_mapLines, Machine.outcome_mapLines]
  rfl

theorem runAllWithin_mapLines (last : Value) (program : List Expr) :
    (s.mapLines φ).runAllWithin steps (last.mapLines φ) (program.map (·.mapLines φ)) =
      ((s.runAllWithin steps last program).1.mapLines φ,
        (s.runAllWithin steps last program).2.mapLines φ) := by
  refine runAll_map (fun _ => rfl) (fun _ _ => Outcome.eq_value_of_mapLines) (fun s e => ?_) last _
  exact proceedWithin_mapLines φ s steps (.evaluate e s.globals)

end Session

end PrefixScript
