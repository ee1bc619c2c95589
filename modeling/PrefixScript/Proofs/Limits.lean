import PrefixScript.Proofs.Calls

namespace PrefixScript

namespace Machine

variable {m : Machine} {limit : Nat}

def withLimit (limit : Nat) (m : Machine) : Machine :=
  { m with limit }

def Refuses (m : Machine) : Prop :=
  ∃ e scope, m.control = .evaluate e scope ∧ m.limit ≤ m.depth

theorem withLimit_go (store : Store) (console : Console) (depth old : Nat) (stack : List Frame)
    (move : Move) :
    (go store console depth old stack move).withLimit limit =
      go store console depth limit stack move := by
  cases move <;> rfl

theorem step_withLimit (hle : m.limit ≤ limit) (h : ¬ m.Refuses) :
    (m.withLimit limit).step = m.step.withLimit limit := by
  refine step_eq_of_step fun m' hm => ?_
  cases hm with
  | refused hfull => exact absurd ⟨_, _, rfl, hfull⟩ h
  | entered hfree =>
    rw [withLimit_go]
    exact .entered (Nat.lt_of_lt_of_le hfree hle)
  | resumed =>
    rw [withLimit_go]
    exact .resumed
  | answered htext => exact .answered htext
  | unanswered hwhy => exact .unanswered hwhy
  | printed => exact .printed
  | unwound => exact .unwound
  | done hdone => exact .done hdone

theorem run_of_refuses (h : m.Refuses) (n : Nat) :
    (∃ line, (m.run (n + 1)).control = .abandon ⟨.tooDeep m.limit, line⟩) ∧
      (m.run (n + 1)).console = m.console := by
  obtain ⟨e, scope, hcontrol, hfull⟩ := h
  have hstep : { m with control := .abandon ⟨.tooDeep m.limit, e.line⟩ } = m.step := by
    obtain ⟨store, console, depth, limit, control, stack⟩ := m
    obtain rfl : control = .evaluate e scope := hcontrol
    exact Step.eq (.refused hfull)
  have hrun := run_of_abandon (congrArg control hstep).symm n
  rw [run_succ]
  exact ⟨⟨_, hrun.1⟩, hrun.2.1.trans (congrArg console hstep).symm⟩

theorem run_withLimit (hle : m.limit ≤ limit) (n : Nat) :
    (m.withLimit limit).run n = (m.run n).withLimit limit ∨
      ∃ k < n, (m.run k).Refuses ∧ (m.withLimit limit).run k = (m.run k).withLimit limit :=
  run_map_or (P := (·.limit ≤ limit)) (g := withLimit limit)
    (fun m hm => by rwa [m.step_spec.limit]) (fun _ => step_withLimit) hle n

theorem run_lockstep (hle : m.limit ≤ limit) (n : Nat) :
    ((m.run n).outcome.Finished → (∀ f, (m.run n).outcome = .failed f → ¬ f.TooDeep) →
        (m.withLimit limit).run n = (m.run n).withLimit limit) ∧
      (m.run n).console.Grows ((m.withLimit limit).run n).console := by
  rcases run_withLimit hle n with hsame | ⟨k, hk, hrefuses, hsame⟩
  · rw [hsame]
    exact ⟨fun _ _ => rfl, .refl _⟩
  · obtain ⟨j, rfl⟩ : ∃ j, n = k + (j + 1) := ⟨n - k - 1, by omega⟩
    obtain ⟨⟨line, hcontrol⟩, hconsole⟩ := run_of_refuses hrefuses j
    rw [← run_add] at hcontrol hconsole
    constructor
    · intro hfinished hdeep
      have hfailed := outcome_of_abandon hcontrol hfinished
      exact absurd ⟨_, rfl⟩ (hdeep _ hfailed)
    · have hgrows := grows_run ((m.withLimit limit).run k) (j + 1)
      rwa [← run_add, hsame, withLimit, ← hconsole] at hgrows

end Machine

namespace Session

def withLimit (limit : Nat) (s : Session) : Session :=
  { s with limit }

/-- How the same work compares under a limit and a higher one, after the same number of steps:
unless the lower limit was hit, the result is the same; and in any case the console has gone through
no less. -/
structure Lockstep {ε : Type} (limit : Nat) (deep : ε → Prop) (r r' : Outcome ε × Session) :
    Prop where
  same : r.1.Finished → (∀ e, r.1 = .failed e → ¬ deep e) → r' = (r.1, r.2.withLimit limit)
  grows : r.2.console.Grows r'.2.console

theorem Lockstep.map {ε ε' : Type} {limit : Nat} {deep : ε → Prop} {deep' : ε' → Prop}
    {r r' : Outcome ε × Session} (h : Lockstep limit deep r r') {f : ε → ε'}
    (hdeep : ∀ e, deep e → deep' (f e)) :
    Lockstep limit deep' (r.map (·.mapError f) id) (r'.map (·.mapError f) id) where
  same hfinished hshallow := by
    have hsame := h.same ((Outcome.finished_mapError f r.1).1 hfinished) fun e he hd =>
      hshallow (f e) (congrArg (Outcome.mapError f) he) (hdeep e hd)
    rw [hsame]
    rfl
  grows := h.grows

section Raised

variable {s : Session} {limit : Nat} (hle : s.limit ≤ limit) (steps : Nat)
include hle

theorem lockstep_proceed (control : Control) :
    Lockstep limit Fault.TooDeep (s.proceedWithin steps control)
      ((s.withLimit limit).proceedWithin steps control) := by
  have hstart : (s.withLimit limit).start control = (s.start control).withLimit limit := rfl
  have h := Machine.run_lockstep (m := s.start control) hle steps
  rw [proceedWithin_eq, proceedWithin_eq, hstart]
  refine ⟨fun hfinished hdeep => ?_, h.2⟩
  rw [h.1 hfinished hdeep]
  rfl

theorem lockstep_runAll (last : Value) (program : List Expr) :
    Lockstep limit Fault.TooDeep (s.runAllWithin steps last program)
      ((s.withLimit limit).runAllWithin steps last program) := by
  induction program generalizing s last with
  | nil => exact ⟨fun _ _ => rfl, .refl _⟩
  | cons e rest ih =>
    have he := lockstep_proceed hle steps (.evaluate e s.globals)
    rcases runAll_cons last e rest with ⟨v, t, ht, heq⟩ | ⟨hne, heq⟩
    · have hlimit : t.limit = s.limit := congrArg (·.2.limit) ht.symm
      rw [ht] at he
      rw [heq, runAll_of_value (he.same nofun nofun)]
      exact ih (by rwa [hlimit]) v
    · rw [heq]
      exact ⟨fun hfinished hdeep => runAll_of_eq (he.same hfinished hdeep) hne rest,
        he.grows.trans (grows_runAll_cons last e rest)⟩

theorem lockstep_call (call : Call) :
    Lockstep limit Failure.TooDeep (s.callWithin steps call)
      ((s.withLimit limit).callWithin steps call) := by
  have hfault : ∀ f, Fault.TooDeep f → (Failure.fault f).TooDeep := fun _ h => h
  cases call with
  | evaluate e scope => exact (lockstep_proceed hle steps _).map hfault
  | apply callee args line =>
    let t : Session := { s with store := (callee.apply s.store args line).2 }
    exact (lockstep_proceed (s := t) hle steps (callee.apply s.store args line).1).map hfault
  | program program => exact (lockstep_runAll hle steps _ _).map hfault
  | source source =>
    simp only [callWithin]
    cases hp : Program.ofSource source with
    | error report =>
      rw [runSourceWithin_of_error hp, runSourceWithin_of_error hp]
      exact ⟨fun _ _ => rfl, .refl _⟩
    | ok program =>
      rw [runSourceWithin_of_ok hp, runSourceWithin_of_ok hp]
      have hreport : ∀ f, Fault.TooDeep f → (source.annotate f.report).code = 602 :=
        fun _ hdeep => Fault.tooDeep_iff.1 hdeep
      have hprogram : Lockstep limit (fun r : Report => r.code = 602) _ _ :=
        (lockstep_runAll hle steps .null program).map hreport
      exact hprogram.map fun _ h => h

/-- A limit that is not hit does not matter: under a higher one the call ends with the same value or
failure and leaves the same session. If the call ends under the higher limit, then under the lower
one, hit or not, it has printed no more and read no more. -/
theorem raised_limit (call : Call) :
    ((s.callWithin steps call).1.Finished →
        (∀ e, (s.callWithin steps call).1 = .failed e → ¬ e.TooDeep) →
        (s.withLimit limit).callWithin steps call =
          ((s.callWithin steps call).1, (s.callWithin steps call).2.withLimit limit)) ∧
      ∀ steps', ((s.withLimit limit).callWithin steps' call).1.Finished →
        (s.callWithin steps call).2.console.output <+:
            ((s.withLimit limit).callWithin steps' call).2.console.output ∧
          (s.callWithin steps call).2.console.served ≤
            ((s.withLimit limit).callWithin steps' call).2.console.served := by
  have h := lockstep_call hle steps call
  refine ⟨h.same, fun steps' hfinished => ?_⟩
  have hgrows := h.grows.trans (settled_call steps hfinished).grows
  exact ⟨hgrows.output, hgrows.served⟩

end Raised

def printsTwice : Call :=
  let print (s : String) : Expr := .list [.symbol "print" 1, .atom ⟨.text s, 1⟩] 1
  .program [.list [.symbol "begin" 1, print "a", .list [.symbol "begin" 1, print "b"] 1] 1]

theorem raised_limit_printsTwice :
    (Session.new (.scripted []) 3).limit ≤ 4 ∧
      ((Session.new (.scripted []) 3).callWithin 20 printsTwice).1 =
        .failed (.fault ⟨.tooDeep 3, 1⟩) ∧
      (((Session.new (.scripted []) 3).withLimit 4).callWithin 20 printsTwice).1 = .value .null ∧
      ((Session.new (.scripted []) 3).callWithin 20 printsTwice).2.console.output <+:
        (((Session.new (.scripted []) 3).withLimit 4).callWithin 20 printsTwice).2.console.output :=
  have hfinished : (Outcome.value .null : Outcome Failure).Finished := nofun
  have hle : (Session.new (.scripted []) 3).limit ≤ 4 := by decide
  ⟨hle, rfl, rfl, ((raised_limit hle 20 printsTwice).2 20 hfinished).1⟩

end Session

end PrefixScript
