import PrefixScript.Proofs.Stepping

namespace PrefixScript

namespace Expr

/-- The items of a list that its evaluation may come to: all but the name of a special form. -/
def active : Expr → List Expr
  | .atom _ | .list [] _ => []
  | .list (head :: operands) _ =>
    if (head.symbol?.bind Form.ofName?).isSome then operands else head :: operands

def names : Expr → List String
  | .atom a => a.symbol?.toList
  | .list items line => (active (.list items line)).filterMap symbol?

variable {head : Expr} {operands : List Expr}

theorem active_of_form {form : Form} (h : head.symbol?.bind Form.ofName? = some form) (line : Nat) :
    active (.list (head :: operands) line) = operands := by
  rw [active, h]
  rfl

theorem active_of_call (h : head.symbol?.bind Form.ofName? = none) (line : Nat) :
    active (.list (head :: operands) line) = head :: operands := by
  rw [active, h]
  rfl

theorem mem_of_mem_active {items : List Expr} {line : Nat} {e : Expr}
    (h : e ∈ active (.list items line)) : e ∈ items := by
  cases items with
  | nil => contradiction
  | cons head operands =>
    rw [active] at h
    split at h
    · exact List.mem_cons_of_mem _ h
    · exact h

theorem names_of_form {form : Form} (h : head.symbol?.bind Form.ofName? = some form) (line : Nat) :
    names (.list (head :: operands) line) = operands.filterMap symbol? := by
  rw [names, active_of_form h]

end Expr

def Control.expr? : Control → Option Expr
  | .evaluate e _ => some e
  | .deliver _ | .read _ | .print _ | .abandon _ => none

namespace Frame

def exprs : Frame → List Expr
  | .callee operands _ _ | .argument _ _ operands _ _ => operands
  | .choice yes no _ => [yes, no]
  | .initial t body _ | .test t body _ _ | .round t body _ => [t, body]
  | .sequence rest _ => rest
  | .result | .set .. | .print => []

def target? : Frame → Option String
  | .set name _ => some name
  | _ => none

def call? (v : Value) : Frame → Option (Value × List Value)
  | .callee [] _ _ => some (v, [])
  | .argument f args [] _ _ => some (f, (v :: args).reverse)
  | _ => none

end Frame

def Value.takes (args : List Value) : Value → Bool
  | .closure c => args.length = c.params.length
  | _ => false

def Frame.applies (v : Value) (f : Frame) : Bool :=
  (f.call? v).any fun call => call.1.takes call.2

theorem Move.Meets.and {C C' : Control → Prop} {F F' : Frame → Prop} {m : Move} (h : m.Meets C F)
    (h' : m.Meets C' F') : m.Meets (fun c => C c ∧ C' c) (fun f => F f ∧ F' f) := by
  cases m with
  | leave => exact ⟨h, h'⟩
  | hold => exact ⟨⟨h.1, h'.1⟩, h.2, h'.2⟩

theorem Move.Meets.mono {C C' : Control → Prop} {F F' : Frame → Prop} {m : Move}
    (h : m.Meets C F) (hc : ∀ c, C c → C' c) (hf : ∀ f, F f → F' f) : m.Meets C' F' := by
  cases m with
  | leave => exact hc _ h
  | hold => exact ⟨hf _ h.1, hc _ h.2⟩

section Moves

variable (s : Store) (i : ScopeId)

theorem Value.expr?_apply (callee : Value) (args : List Value) (line : Nat) :
    (callee.apply s args line).1.expr? = none ∨ callee.takes args = true := by
  cases callee with
  | closure c =>
    by_cases h : args.length = c.params.length
    · exact .inr (decide_eq_true h)
    · simp only [Value.apply, if_neg h]
      exact .inl rfl
  | builtin =>
    simp only [Value.apply]
    split <;> exact .inl rfl
  | null | number | text | list => exact .inl rfl

theorem Expr.expr?_lookUp (name : String) (line : Nat) : (lookUp s name line i).expr? = none := by
  unfold lookUp
  split
  · rfl
  · split
    · rfl
    · split <;> rfl

theorem Form.parts_count (form : Form) (delta : Float) (target : Expr) :
    (form.count delta s target i).1.Meets (·.expr? = none) fun _ => False := by
  simp only [count]
  split
  · rfl
  · split <;> rfl

theorem Form.parts_enter (form : Form) (operands : List Expr) (line : Nat) :
    (form.enter s operands line i).1.Meets (fun c => ∀ d ∈ c.expr?, d ∈ operands)
      fun f => (∀ d ∈ f.exprs, d ∈ operands) ∧
        ∀ name ∈ f.target?, name ∈ operands.filterMap Expr.symbol? := by
  unfold enter
  split
  case h_1 =>
    split
    · next hname => simp [Control.expr?, Frame.exprs, Frame.target?, hname]
    · simp [Control.expr?]
  case h_2 => split <;> simp [Control.expr?]
  case h_9 | h_10 => exact (parts_count ..).mono (fun c hc => by simp [hc]) fun _ => False.elim
  case h_6 e rest =>
    exact ⟨⟨fun d => List.mem_cons_of_mem e, nofun⟩, by simp [Control.expr?]⟩
  all_goals simp [Control.expr?, Frame.exprs, Frame.target?]

theorem Expr.parts_enter (e : Expr) :
    (e.enter s i).1.Meets (fun c => ∀ d ∈ c.expr?, d ∈ e.active)
      fun f => (∀ d ∈ f.exprs, d ∈ e.active) ∧ ∀ name ∈ f.target?, name ∈ e.names := by
  unfold enter
  split
  · simp [Control.expr?]
  · simp [Control.expr?]
  · simp [expr?_lookUp]
  · simp [Control.expr?]
  · next head operands line =>
    split
    · next form hform =>
      rw [active_of_form hform, names_of_form hform]
      exact Form.parts_enter ..
    · next hcall =>
      rw [active_of_call hcall]
      exact ⟨⟨fun d => List.mem_cons_of_mem head, nofun⟩, by simp [Control.expr?]⟩

theorem Frame.parts_call (callee : Value) (args : List Value) (operands : List Expr) (line : Nat) :
    (call s callee args operands line i).1.Meets
      (fun c => ∀ d ∈ c.expr?, d ∈ operands ∨ operands = [] ∧ callee.takes args.reverse = true)
      fun f => (∀ d ∈ f.exprs, d ∈ operands) ∧ f.target? = none := by
  cases operands with
  | nil =>
    refine ⟨⟨nofun, rfl⟩, fun d hd => .inr ⟨rfl, ?_⟩⟩
    refine (Value.expr?_apply s callee args.reverse line).resolve_left fun hnone => ?_
    exact Option.not_mem_none d (hnone ▸ hd)
  | cons e operands =>
    exact ⟨⟨fun d => List.mem_cons_of_mem e, rfl⟩, by simp [Control.expr?]⟩

/-- Only where a closure is applied does an expression come up that was not kept for this. -/
theorem Frame.parts_resume (f : Frame) (v : Value) :
    (f.resume s v).1.Meets (fun c => ∀ d ∈ c.expr?, d ∈ f.exprs ∨ f.applies v = true)
      fun g => (∀ d ∈ g.exprs, d ∈ f.exprs) ∧ g.target? = none := by
  cases f with
  | callee operands | argument _ _ operands =>
    refine (parts_call ..).mono (fun c hc d hd => (hc d hd).imp id ?_) fun _ => id
    rintro ⟨rfl, htakes⟩
    exact htakes
  | test =>
    simp only [resume]
    split <;> simp [Control.expr?, exprs, target?]
  | sequence rest =>
    cases rest with
    | nil => simp [resume, Control.expr?]
    | cons e rest =>
      exact ⟨⟨fun d => List.mem_cons_of_mem e, rfl⟩, by simp [Control.expr?, exprs]⟩
  | choice =>
    simp only [resume]
    split <;> simp [Control.expr?, exprs, target?]
  | result | set | initial | round | print => simp [resume, Control.expr?, exprs, target?]

end Moves

end PrefixScript
