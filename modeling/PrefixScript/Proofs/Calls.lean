import PrefixScript.Proofs.Runs

namespace PrefixScript

inductive Call where
  | evaluate (e : Expr) (scope : ScopeId)
  | apply (callee : Value) (args : List Value) (line : Nat)
  | program (program : List Expr)
  | source (source : Source)

inductive Failure where
  | fault (f : Fault)
  | report (r : Report)

def Fault.TooDeep (f : Fault) : Prop :=
  ∃ limit, f.cause = .tooDeep limit

theorem Fault.tooDeep_iff {f : Fault} : f.TooDeep ↔ f.report.code = 602 := by
  obtain ⟨cause, line⟩ := f
  constructor
  · rintro ⟨limit, rfl⟩
    rfl
  · intro h
    cases cause with
    | tooDeep limit => exact ⟨limit, rfl⟩
    | _ => simp [Fault.report, Cause.code] at h

def Failure.TooDeep : Failure → Prop
  | fault f => f.TooDeep
  | report r => r.code = 602

namespace Outcome

variable {ε ε' : Type}

def Finished (o : Outcome ε) : Prop :=
  o ≠ .unfinished

def error? : Outcome ε → Option ε
  | value _ | unfinished => none
  | failed e => some e

theorem error?_eq_some_iff {o : Outcome ε} {e : ε} : o.error? = some e ↔ o = .failed e := by
  cases o <;> simp [error?]

@[simp] theorem finished_mapError (f : ε → ε') (o : Outcome ε) :
    (o.mapError f).Finished ↔ o.Finished := by
  cases o <;> simp [Finished, mapError]

theorem mapError_eq_value {f : ε → ε'} {o : Outcome ε} {v : Value}
    (h : o.mapError f = .value v) : o = .value v := by
  cases o with
  | value w => exact congrArg value (Outcome.value.inj h)
  | failed | unfinished => contradiction

theorem mapError_eq_failed {f : ε → ε'} {o : Outcome ε} {e' : ε'}
    (h : o.mapError f = .failed e') : ∃ e, o = .failed e ∧ f e = e' := by
  cases o with
  | failed e => exact ⟨e, rfl, Outcome.failed.inj h⟩
  | value | unfinished => contradiction

end Outcome

theorem Machine.finished_outcome_iff {m : Machine} : m.outcome.Finished ↔ m.isDone = true := by
  rw [Outcome.Finished, Ne, outcome_eq_unfinished_iff, Bool.not_eq_false]

theorem Machine.outcome_of_abandon {m : Machine} {f : Fault} (h : m.control = .abandon f)
    (hfinished : m.outcome.Finished) : m.outcome = .failed f := by
  obtain ⟨store, console, depth, limit, control, stack⟩ := m
  obtain rfl : control = .abandon f := h
  cases stack with
  | nil => rfl
  | cons => exact absurd rfl hfinished

namespace Session

variable (s : Session) (steps : Nat)

theorem grows_proceed (control : Control) :
    s.console.Grows (s.proceedWithin steps control).2.console :=
  (s.start control).grows_run steps

variable {s steps}

theorem runAll_cons (last : Value) (e : Expr) (rest : List Expr) :
    (∃ v t, s.proceedWithin steps (.evaluate e s.globals) = (.value v, t) ∧
        s.runAllWithin steps last (e :: rest) = t.runAllWithin steps v rest) ∨
      (∀ v, (s.proceedWithin steps (.evaluate e s.globals)).1 ≠ .value v) ∧
        s.runAllWithin steps last (e :: rest) = s.proceedWithin steps (.evaluate e s.globals) := by
  simp only [runAllWithin, evaluateWithin]
  obtain ⟨o, t⟩ := s.proceedWithin steps (.evaluate e s.globals)
  cases o with
  | value v => exact .inl ⟨v, t, rfl, rfl⟩
  | failed | unfinished => exact .inr ⟨nofun, rfl⟩

theorem runAll_of_value {last v : Value} {e : Expr} {t : Session}
    (h : s.proceedWithin steps (.evaluate e s.globals) = (.value v, t)) (rest : List Expr) :
    s.runAllWithin steps last (e :: rest) = t.runAllWithin steps v rest := by
  rcases runAll_cons last e rest with ⟨w, u, hu, heq⟩ | ⟨hne, -⟩
  · rw [h] at hu
    obtain ⟨⟨⟩, rfl⟩ := hu
    exact heq
  · exact absurd (congrArg Prod.fst h) (hne v)

theorem runAll_of_ne_value {last : Value} {e : Expr}
    (h : ∀ v, (s.proceedWithin steps (.evaluate e s.globals)).1 ≠ .value v) (rest : List Expr) :
    s.runAllWithin steps last (e :: rest) = s.proceedWithin steps (.evaluate e s.globals) := by
  rcases runAll_cons last e rest with ⟨w, u, hu, -⟩ | ⟨-, heq⟩
  · exact absurd (congrArg Prod.fst hu) (h w)
  · exact heq

theorem runAll_of_eq {last : Value} {e : Expr} {o : Outcome Fault} {t : Session}
    (h : s.proceedWithin steps (.evaluate e s.globals) = (o, t)) (hne : ∀ v, o ≠ .value v)
    (rest : List Expr) : s.runAllWithin steps last (e :: rest) = (o, t) :=
  (runAll_of_ne_value (by rwa [h]) rest).trans h

theorem runAll_preserves {R : Outcome Fault × Session → Prop} {program : List Expr} {last : Value}
    (he : ∀ e ∈ program, ∀ v t, R (.value v, t) →
      R (t.proceedWithin steps (.evaluate e t.globals)))
    (h : R (.value last, s)) : R (s.runAllWithin steps last program) := by
  induction program generalizing s last with
  | nil => exact h
  | cons e rest ih =>
    rw [List.forall_mem_cons] at he
    have hfirst := he.1 last s h
    rcases runAll_cons last e rest with ⟨v, t, ht, heq⟩ | ⟨-, heq⟩
    · rw [ht] at hfirst
      rw [heq]
      exact ih he.2 hfirst
    · rwa [heq]

theorem runAll_map {g : Session → Session} {γ : Expr → Expr} {ω : Value → Value}
    {η : Outcome Fault → Outcome Fault} (hvalue : ∀ v, η (.value v) = .value (ω v))
    (hη : ∀ o v, η o = .value v → ∃ w, o = .value w)
    (he : ∀ s e, (g s).proceedWithin steps (.evaluate (γ e) (g s).globals) =
      (s.proceedWithin steps (.evaluate e s.globals)).map η g)
    (last : Value) (program : List Expr) :
    (g s).runAllWithin steps (ω last) (program.map γ) =
      (s.runAllWithin steps last program).map η g := by
  induction program generalizing s last with
  | nil => exact Prod.ext (hvalue last).symm rfl
  | cons e rest ih =>
    have hfirst := he s e
    rw [List.map_cons]
    rcases runAll_cons last e rest with ⟨v, t, ht, heq⟩ | ⟨hne, heq⟩
    · rw [ht, Prod.map_apply, hvalue] at hfirst
      rw [heq, ← ih]
      exact runAll_of_value hfirst _
    · rw [heq]
      refine runAll_of_eq hfirst (fun v hv => ?_) _
      obtain ⟨w, hw⟩ := hη _ v hv
      exact hne w hw

theorem runAll_mapStore {S : Store → Prop} {C : Control → Prop} {F : Frame → Prop}
    {g : Store → Store} (hg : Machine.Unnoticed S C F g) (inv : Machine.Invariant S C F)
    {program : List Expr} (hs : S s.store) (hp : ∀ e ∈ program, C (.evaluate e s.globals))
    (last : Value) :
    (s.mapStore g).runAllWithin steps last program =
      ((s.runAllWithin steps last program).1,
        (s.runAllWithin steps last program).2.mapStore g) := by
  induction program generalizing s last with
  | nil => rfl
  | cons e rest ih =>
    rw [List.forall_mem_cons] at hp
    have hstart : (s.start (.evaluate e s.globals)).Meets S C F := ⟨hs, hp.1, by simp [start]⟩
    have hfirst := proceedWithin_mapStore hg inv hstart steps
    rcases runAll_cons last e rest with ⟨v, t, ht, heq⟩ | ⟨hne, heq⟩
    · have hkept : S t.store ∧ t.globals = s.globals := by
        have hrun := (inv.run hstart steps).1
        rw [proceedWithin_eq] at ht
        obtain ⟨-, rfl⟩ := Prod.mk.inj ht
        exact ⟨hrun, rfl⟩
      rw [ht] at hfirst
      rw [heq, ← ih hkept.1 (hkept.2 ▸ hp.2)]
      exact runAll_of_value hfirst _
    · rw [heq]
      exact runAll_of_eq hfirst hne _

theorem grows_runAll (last : Value) (program : List Expr) :
    s.console.Grows (s.runAllWithin steps last program).2.console :=
  runAll_preserves (R := fun r => s.console.Grows r.2.console)
    (fun _ _ _ t ht => ht.trans (t.grows_proceed steps _)) (.refl _)

theorem grows_runAll_cons (last : Value) (e : Expr) (rest : List Expr) :
    (s.proceedWithin steps (.evaluate e s.globals)).2.console.Grows
      (s.runAllWithin steps last (e :: rest)).2.console := by
  rcases runAll_cons last e rest with ⟨v, t, ht, heq⟩ | ⟨-, heq⟩
  · rw [heq, ht]
    exact grows_runAll v rest
  · rw [heq]
    exact .refl _

theorem finished_of_runAll_cons {last : Value} {e : Expr} {rest : List Expr}
    (h : (s.runAllWithin steps last (e :: rest)).1.Finished) :
    (s.proceedWithin steps (.evaluate e s.globals)).1.Finished := by
  rcases runAll_cons last e rest with ⟨v, t, ht, -⟩ | ⟨-, heq⟩
  · rw [ht]
    nofun
  · rwa [← heq]

/-- How work compares with the same work that came to an end, perhaps in another number of steps: it
came to the same end or has not come so far. -/
structure Settled {ε : Type} (r r' : Outcome ε × Session) : Prop where
  same : r.1.Finished → r = r'
  grows : r.2.console.Grows r'.2.console

variable {steps' : Nat}

theorem settled_proceed (steps : Nat) {control : Control}
    (h : (s.proceedWithin steps' control).1.Finished) :
    Settled (s.proceedWithin steps control) (s.proceedWithin steps' control) := by
  rw [proceedWithin_eq] at h ⊢
  rw [proceedWithin_eq]
  have hdone := Machine.finished_outcome_iff.1 h
  refine ⟨fun hfinished => ?_, Machine.grows_run_of_isDone hdone steps⟩
  rw [Machine.run_eq_run (Machine.finished_outcome_iff.1 hfinished) hdone]

theorem settled_runAll (steps : Nat) {last : Value} {program : List Expr}
    (h : (s.runAllWithin steps' last program).1.Finished) :
    Settled (s.runAllWithin steps last program) (s.runAllWithin steps' last program) := by
  induction program generalizing s last with
  | nil => exact ⟨fun _ => rfl, .refl _⟩
  | cons e rest ih =>
    have he := settled_proceed steps (finished_of_runAll_cons h)
    by_cases hsteps : (s.proceedWithin steps (.evaluate e s.globals)).1.Finished
    · have hsame := he.same hsteps
      rcases runAll_cons last e rest with ⟨v, t, ht, heq⟩ | ⟨hne, heq⟩
      · rw [heq]
        rw [hsame] at ht
        rw [runAll_of_value ht rest] at h ⊢
        exact ih h
      · rw [heq, runAll_of_ne_value (hsame ▸ hne) rest, hsame]
        exact ⟨fun _ => rfl, .refl _⟩
    · have hne : ∀ v, (s.proceedWithin steps (.evaluate e s.globals)).1 ≠ .value v :=
        fun v hv => hsteps (by rw [hv]; nofun)
      rw [runAll_of_ne_value hne]
      exact ⟨fun hf => absurd hf hsteps, he.grows.trans (grows_runAll_cons last e rest)⟩

theorem Settled.map {ε ε' : Type} {r r' : Outcome ε × Session} (h : Settled r r') (f : ε → ε') :
    Settled (r.map (·.mapError f) id) (r'.map (·.mapError f) id) where
  same hfinished := by rw [h.same ((Outcome.finished_mapError f r.1).1 hfinished)]
  grows := h.grows

def callWithin (steps : Nat) (s : Session) : Call → Outcome Failure × Session
  | .evaluate e scope => (s.evaluateWithin steps e scope).map (·.mapError .fault) id
  | .apply callee args line => (s.applyWithin steps callee args line).map (·.mapError .fault) id
  | .program program => (s.runProgramWithin steps program).map (·.mapError .fault) id
  | .source source => (s.runSourceWithin steps source).map (·.mapError .report) id

theorem runSourceWithin_of_ok {source : Source} {program : List Expr}
    (h : Program.ofSource source = .ok program) (s : Session) (steps : Nat) :
    s.runSourceWithin steps source =
      (s.runProgramWithin steps program).map (·.mapError fun f => source.annotate f.report) id := by
  simp only [runSourceWithin, h]
  rfl

theorem runSourceWithin_of_error {source : Source} {report : Report}
    (h : Program.ofSource source = .error report) (s : Session) (steps : Nat) :
    s.runSourceWithin steps source = (.failed report, s) := by
  simp only [runSourceWithin, h]

theorem settled_runSource (steps : Nat) {source : Source}
    (h : (s.runSourceWithin steps' source).1.Finished) :
    Settled (s.runSourceWithin steps source) (s.runSourceWithin steps' source) := by
  cases hp : Program.ofSource source with
  | error report =>
    rw [runSourceWithin_of_error hp, runSourceWithin_of_error hp]
    exact ⟨fun _ => rfl, .refl _⟩
  | ok program =>
    rw [runSourceWithin_of_ok hp] at h ⊢
    rw [runSourceWithin_of_ok hp]
    exact (settled_runAll steps ((Outcome.finished_mapError _ _).1 h)).map _

theorem settled_call (steps : Nat) {call : Call} (h : (s.callWithin steps' call).1.Finished) :
    Settled (s.callWithin steps call) (s.callWithin steps' call) := by
  cases call with
  | evaluate e scope =>
    exact (settled_proceed steps ((Outcome.finished_mapError _ _).1 h)).map _
  | apply callee args line =>
    have happly : (s.applyWithin steps' callee args line).1.Finished :=
      (Outcome.finished_mapError _ _).1 h
    rw [applyWithin_eq] at happly
    exact (settled_proceed steps happly).map _
  | program program =>
    exact (settled_runAll steps ((Outcome.finished_mapError _ _).1 h)).map _
  | source source =>
    exact (settled_runSource steps ((Outcome.finished_mapError _ _).1 h)).map _

end Session

end PrefixScript
