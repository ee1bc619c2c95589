import PrefixScript.Proofs.Builtins
import PrefixScript.Proofs.Calls
import PrefixScript.Proofs.Policy
import PrefixScript.Proofs.Positions

namespace PrefixScript

def Cause.isOwn : Cause → Bool
  | .tooDeep _ | .inputFailed _ => false
  | _ => true

theorem bind_eq_error {ε α β : Type} {x : Except ε α} {f : α → Except ε β} {e : ε}
    (h : x >>= f = .error e) : x = .error e ∨ ∃ a, x = .ok a ∧ f a = .error e := by
  cases x with
  | ok a => exact .inr ⟨a, rfl, h⟩
  | error e' =>
    obtain rfl : e' = e := Except.error.inj h
    exact .inl rfl

namespace Builtin

variable {op : Builtin} {cause : Cause}

theorem isOwn_of_calculate {x y : Float} (h : op.calculate x y = .error cause) :
    cause.isOwn = true := by
  have hfinite : ∀ {z}, op.finite z = .error cause → cause.isOwn = true := by
    intro z hz
    unfold finite at hz
    split at hz
    · contradiction
    · rw [← Except.error.inj hz]
      rfl
  unfold calculate at h
  split at h
  case h_4 | h_5 =>
    split at h
    · rw [← Except.error.inj h]
      rfl
    · exact hfinite h
  case h_1 | h_2 | h_3 => exact hfinite h
  all_goals contradiction

theorem isOwn_of_collect {xs : Array Float} {args : List Value}
    (h : collect.go xs args = .error cause) : cause.isOwn = true := by
  induction args generalizing xs with
  | nil => contradiction
  | cons v args ih =>
    cases v with
    | number x => exact ih h
    | null | text | list | closure | builtin =>
      rw [← Except.error.inj h]
      rfl

theorem isOwn_of_appendable {v : Value} (h : appendable v = .error cause) : cause.isOwn = true := by
  unfold appendable at h
  split at h
  · contradiction
  · split at h
    · contradiction
    · rw [← Except.error.inj h]
      rfl
  · rw [← Except.error.inj h]
    rfl

theorem isOwn_of_item {xs : Array Float} {v : Value} (h : item xs v = .error cause) :
    cause.isOwn = true := by
  unfold item at h
  split at h
  · split at h
    · rw [← Except.error.inj h]
      rfl
    · split at h
      · contradiction
      · rw [← Except.error.inj h]
        rfl
  · rw [← Except.error.inj h]
    rfl

theorem isOwn_of_items {v : Value} (h : op.items v = .error cause) : cause.isOwn = true := by
  unfold items at h
  split at h
  · contradiction
  · rw [← Except.error.inj h]
    rfl

theorem isOwn_of_perform {args : List Value} (h : op.perform args = .error cause) :
    cause.isOwn = true := by
  unfold perform at h
  split at h
  case h_1 | h_5 => contradiction
  case h_2 => exact isOwn_of_collect h
  case h_3 | h_4 =>
    rcases bind_eq_error h with h | ⟨_, -, h⟩
    · exact isOwn_of_items h
    · contradiction
  case h_6 =>
    rcases bind_eq_error h with h | ⟨_, -, h⟩
    · exact isOwn_of_items h
    · rcases bind_eq_error h with h | ⟨_, -, h⟩
      · exact isOwn_of_appendable h
      · contradiction
  case h_7 =>
    rcases bind_eq_error h with h | ⟨_, -, h⟩
    · exact isOwn_of_items h
    · exact isOwn_of_item h
  case h_8 => exact isOwn_of_calculate h
  case h_9 | h_10 =>
    rw [← Except.error.inj h]
    rfl

theorem isOwn_of_apply {args : List Value} (h : op.apply args = .error cause) :
    cause.isOwn = true := by
  unfold apply at h
  split at h
  · exact isOwn_of_perform h
  · rw [← Except.error.inj h]
    rfl

end Builtin

/-- Whether a fault is on one of the lines, and the limit and the console have no part in it. -/
structure Fault.RaisedOn (L : Nat → Prop) (f : Fault) : Prop where
  line : L f.line
  own : f.cause.isOwn = true

@[simp] def Control.RaisesOn (L : Nat → Prop) : Control → Prop
  | .read line => L line
  | .abandon f => f.RaisedOn L
  | .evaluate _ _ | .deliver _ | .print _ => True

@[simp] def Frame.On (L : Nat → Prop) : Frame → Prop
  | .callee _ line _ | .argument _ _ _ line _ => L line
  | .result | .set _ _ | .choice _ _ _ | .initial _ _ _ | .test _ _ _ _ | .round _ _ _
  | .sequence _ _ | .print => True

section Moves

variable {L : Nat → Prop} (s : Store) (i : ScopeId)

theorem Value.raisesOn_apply (callee : Value) (args : List Value) {line : Nat} (h : L line) :
    (callee.apply s args line).1.RaisesOn L := by
  cases callee with
  | closure =>
    simp only [Value.apply]
    split
    · trivial
    · exact ⟨h, rfl⟩
  | builtin =>
    simp only [Value.apply]
    split
    · trivial
    · next hcause => exact ⟨h, Builtin.isOwn_of_apply hcause⟩
  | null | number | text | list => exact ⟨h, rfl⟩

theorem Expr.raisesOn_lookUp (name : String) {line : Nat} (h : L line) :
    (lookUp s name line i).RaisesOn L := by
  unfold lookUp
  split
  · trivial
  · split
    · trivial
    · split
      · exact h
      · exact ⟨h, rfl⟩

theorem Expr.raisedOn_of_parameter {e : Expr} (h : ∀ l ∈ e.lines, L l) {f : Fault}
    (hf : e.parameter = .error f) : f.RaisedOn L := by
  unfold parameter at hf
  split at hf
  · contradiction
  · rw [← Except.error.inj hf]
    exact ⟨h _ e.line_mem_lines, rfl⟩

theorem Expr.raisedOn_of_parameters {e : Expr} (h : ∀ l ∈ e.lines, L l) {f : Fault}
    (hf : e.parameters = .error f) : f.RaisedOn L := by
  unfold parameters at hf
  split at hf
  · contradiction
  · next items line =>
    have hitems : ∀ e ∈ items, ∀ l ∈ e.lines, L l := fun e he l hl =>
      h l (by rw [lines_list]; exact List.mem_cons_of_mem _ (List.mem_flatMap.2 ⟨e, he, hl⟩))
    clear h
    induction items generalizing f with
    | nil => contradiction
    | cons e items ih =>
      rw [List.forall_mem_cons] at hitems
      rw [List.mapM_cons] at hf
      rcases bind_eq_error hf with hf | ⟨_, -, hf⟩
      · exact raisedOn_of_parameter hitems.1 hf
      · rcases bind_eq_error hf with hf | ⟨_, -, hf⟩
        · exact ih hf hitems.2
        · contradiction
  · rw [← Except.error.inj hf]
    exact ⟨h _ e.line_mem_lines, rfl⟩

theorem Form.raisesOn_count (form : Form) (delta : Float) {target : Expr}
    (h : ∀ l ∈ target.lines, L l) :
    (form.count delta s target i).1.Meets (·.RaisesOn L) (·.On L) := by
  have hline := h _ target.line_mem_lines
  simp only [count]
  split
  · exact ⟨hline, rfl⟩
  · split
    · exact ⟨hline, rfl⟩
    · trivial
    · exact ⟨hline, rfl⟩

theorem Form.raisesOn_enter (form : Form) {operands : List Expr} {line : Nat} (h : L line)
    (ho : ∀ e ∈ operands, ∀ l ∈ e.lines, L l) :
    (form.enter s operands line i).1.Meets (·.RaisesOn L) (·.On L) := by
  unfold enter
  split
  case h_1 target value =>
    split
    · exact ⟨trivial, trivial⟩
    · exact ⟨ho target (by simp) _ target.line_mem_lines, rfl⟩
  case h_2 params body =>
    split
    · trivial
    · next hf => exact Expr.raisedOn_of_parameters (ho params (by simp)) hf
  case h_8 => exact h
  case h_9 target => exact raisesOn_count s i _ _ (ho target (by simp))
  case h_10 target => exact raisesOn_count s i _ _ (ho target (by simp))
  case h_11 => exact ⟨h, rfl⟩
  all_goals exact ⟨trivial, trivial⟩

theorem Expr.raisesOn_enter {e : Expr} (h : ∀ l ∈ e.lines, L l) :
    (e.enter s i).1.Meets (·.RaisesOn L) (·.On L) := by
  have hline := h _ e.line_mem_lines
  unfold enter
  split
  · trivial
  · trivial
  · exact raisesOn_lookUp s i _ hline
  · exact ⟨hline, rfl⟩
  · next head operands line =>
    split
    · refine Form.raisesOn_enter s i _ hline fun e he l hl => h l ?_
      rw [lines_list]
      exact List.mem_cons_of_mem _ (List.mem_flatMap.2 ⟨e, List.mem_cons_of_mem _ he, hl⟩)
    · exact ⟨hline, trivial⟩

theorem Frame.raisesOn_call (callee : Value) (args : List Value) (operands : List Expr) {line : Nat}
    (h : L line) :
    (Frame.call s callee args operands line i).1.Meets (·.RaisesOn L) (·.On L) := by
  cases operands with
  | nil => exact ⟨trivial, Value.raisesOn_apply s callee args.reverse h⟩
  | cons => exact ⟨h, trivial⟩

theorem Frame.raisesOn_resume {f : Frame} (h : f.On L) (v : Value) :
    (f.resume s v).1.Meets (·.RaisesOn L) (·.On L) := by
  cases f with
  | callee | argument => exact raisesOn_call s _ _ _ _ h
  | test =>
    simp only [resume]
    split
    · exact ⟨trivial, trivial⟩
    · trivial
  | sequence rest =>
    cases rest with
    | nil => trivial
    | cons => exact ⟨trivial, trivial⟩
  | choice | initial | round => exact ⟨trivial, trivial⟩
  | result | set | print => trivial

end Moves

@[simp] def Control.On (L : Nat → Prop) : Control → Prop
  | .read line => L line
  | .abandon f => L f.line
  | .evaluate _ _ | .deliver _ | .print _ => True

theorem Control.RaisesOn.on {L : Nat → Prop} {c : Control} (h : c.RaisesOn L) : c.On L := by
  cases c with
  | read => exact h
  | abandon => exact h.line
  | evaluate | deliver | print => trivial

def Policy.on (L : Nat → Prop) : Policy where
  expr e := ∀ l ∈ e.lines, L l
  scope _ := True
  value v := ∀ c, v = .closure c → ∀ l ∈ c.body.lines, L l

theorem Policy.on_sound (L : Nat → Prop) : (Policy.on L).Sound where
  item {items line e} h he l hl :=
    h l (by rw [Expr.lines_list]; exact List.mem_cons_of_mem _ (List.mem_flatMap.2 ⟨e, he, hl⟩))
  number _ := nofun
  text _ := nofun
  null := nofun
  builtin _ := nofun
  closure h _ := by rintro _ ⟨⟩; exact h
  body h := h _ rfl
  around _ := trivial
  apply _ h c hc := absurd hc (Builtin.ne_closure_of_apply h c)
  input s c hc := absurd hc (Value.ofInput_ne_closure s c)
  up _ := nofun
  down _ := nofun

theorem Machine.invariant_on (L : Nat → Prop) :
    Invariant (·.Obeys (.on L)) (fun c => c.Obeys (.on L) ∧ c.On L)
      (fun f => f.Obeys (.on L) ∧ f.On L) where
  enter {s e i} hs hc := by
    have hobeys := (Policy.on_sound L).expr_enter hs hc.1.1 hc.1.2
    have hraises := (Expr.raisesOn_enter s i hc.1.1).mono (fun _ => Control.RaisesOn.on) fun _ => id
    exact ⟨hobeys.1.and hraises, hobeys.2⟩
  resume {s f v} hs hf hc := by
    have hobeys := (Policy.on_sound L).resume hs hf.1 hc.1
    have hraises := (Frame.raisesOn_resume s hf.2 v).mono (fun _ => Control.RaisesOn.on) fun _ => id
    exact ⟨hobeys.1.and hraises, hobeys.2⟩
  refused {e _ _} hc := ⟨trivial, hc.1.1 _ e.line_mem_lines⟩
  answered _ := ⟨(Policy.on_sound L).input _, trivial⟩
  unanswered hc := ⟨trivial, hc.2⟩
  printed _ := ⟨(Policy.on_sound L).null, trivial⟩

theorem Machine.control_of_failed {m : Machine} {f : Fault} (h : m.outcome = .failed f) :
    m.control = .abandon f := by
  unfold outcome at h
  split at h
  · contradiction
  · next hc _ => rw [hc, Outcome.failed.inj h]
  · contradiction

namespace Session

theorem invariant_runAll {S : Store → Prop} {C : Control → Prop} {F : Frame → Prop}
    (inv : Machine.Invariant S C F) {s : Session} (hs : S s.store) (steps : Nat)
    {program : List Expr} (hp : ∀ e ∈ program, C (.evaluate e s.globals)) (last : Value) :
    S (s.runAllWithin steps last program).2.store ∧
      ∀ f, (s.runAllWithin steps last program).1 = .failed f → C (.abandon f) := by
  have hvalue : ∀ f : Fault, Outcome.value last = .failed f → C (.abandon f) := nofun
  suffices h : (s.runAllWithin steps last program).2.globals = s.globals ∧ _ from h.2
  refine runAll_preserves (R := fun r => r.2.globals = s.globals ∧ S r.2.store ∧
    ∀ f, r.1 = .failed f → C (.abandon f)) (fun e he v t ht => ?_) ⟨rfl, hs, hvalue⟩
  obtain ⟨hglobals, ht, -⟩ := ht
  have hrun := inv.run (m := t.start (.evaluate e t.globals))
    ⟨ht, hglobals ▸ hp e he, by simp [start]⟩ steps
  exact ⟨hglobals, hrun.1, fun f hf => Machine.control_of_failed hf ▸ hrun.2.1⟩

theorem on_runAll {L : Nat → Prop} {s : Session} (hs : s.store.Obeys (.on L)) (steps : Nat)
    {program : List Expr} (hp : ∀ e ∈ program, ∀ l ∈ e.lines, L l) (last : Value) :
    (s.runAllWithin steps last program).2.store.Obeys (.on L) ∧
      ∀ f, (s.runAllWithin steps last program).1 = .failed f → L f.line := by
  have h := invariant_runAll (Machine.invariant_on L) hs steps
    (fun e he => ⟨⟨hp e he, trivial⟩, trivial⟩) last
  exact ⟨h.1, fun f hf => (h.2 f hf).2⟩

end Session

end PrefixScript
