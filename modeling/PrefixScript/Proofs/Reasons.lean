import PrefixScript.Proofs.Requests

namespace PrefixScript

def Response.withReason (why : String) : Response → Response
  | .text s => .text s
  | .failure _ => .failure why

def Console.withReason (why : String) (c : Console) : Console :=
  { c with upcoming := c.upcoming.map (·.withReason why), ended := why }

def Cause.withReason (why : String) : Cause → Cause
  | .inputFailed _ => .inputFailed why
  | cause => cause

def Fault.withReason (why : String) (f : Fault) : Fault :=
  { f with cause := f.cause.withReason why }

/-- The report with another message if it is about input. -/
def Report.withReason (why : String) (r : Report) : Report :=
  if r.code = 700 then { r with message := (Cause.inputFailed why).message } else r

def Control.withReason (why : String) : Control → Control
  | .abandon f => .abandon (f.withReason why)
  | control => control

variable (why : String)

theorem Cause.withReason_of_isOwn {cause : Cause} (h : cause.isOwn = true) :
    cause.withReason why = cause := by
  cases cause <;> first | rfl | contradiction

theorem Fault.report_withReason (f : Fault) :
    (f.withReason why).report = f.report.withReason why := by
  obtain ⟨cause, line⟩ := f
  cases cause <;> rfl

theorem Report.withReason_of_ne {r : Report} (h : r.code ≠ 700) : r.withReason why = r :=
  if_neg h

theorem Source.annotate_withReason (s : Source) (r : Report) :
    s.annotate (r.withReason why) = (s.annotate r).withReason why := by
  obtain ⟨code, message, line, sourceLine⟩ := r
  by_cases h : code = 700 <;> cases sourceLine <;> simp [annotate, Report.withReason, h]

theorem Control.withReason_of_raisesOn {L : Nat → Prop} {control : Control}
    (h : control.RaisesOn L) : control.withReason why = control := by
  cases control with
  | abandon f =>
    obtain ⟨cause, line⟩ := f
    rw [withReason, Fault.withReason, Cause.withReason_of_isOwn why h.own]
  | evaluate | deliver | read | print => rfl

theorem Frame.on_true (f : Frame) : f.On fun _ => True := by
  cases f <;> trivial

theorem Console.read_withReason (c : Console) :
    (c.withReason why).read =
      c.read.map (fun answer => answer.mapError fun _ => why) (·.withReason why) := by
  obtain ⟨upcoming, ended, events⟩ := c
  cases upcoming with
  | nil => rfl
  | cons response upcoming => cases response <;> rfl

namespace Machine

variable (m : Machine)

def withReason (why : String) (m : Machine) : Machine :=
  { m with console := m.console.withReason why, control := m.control.withReason why }

theorem go_withReason {L : Nat → Prop} {F : Frame → Prop} {store : Store} {console : Console}
    {depth limit : Nat} {stack : List Frame} {move : Move} (h : move.Meets (·.RaisesOn L) F) :
    go store (console.withReason why) depth limit stack move =
      (go store console depth limit stack move).withReason why := by
  cases move with
  | leave next => rw [go, go, withReason, Control.withReason_of_raisesOn why h]
  | hold frame next => rw [go, go, withReason, Control.withReason_of_raisesOn why h.2]

theorem isDone_withReason : (m.withReason why).isDone = m.isDone := by
  obtain ⟨store, console, depth, limit, control, stack⟩ := m
  cases control <;> cases stack <;> rfl

theorem outcome_withReason :
    (m.withReason why).outcome = m.outcome.mapError (·.withReason why) := by
  obtain ⟨store, console, depth, limit, control, stack⟩ := m
  cases control <;> cases stack <;> rfl

theorem step_withReason : (m.withReason why).step = m.step.withReason why := by
  refine step_eq_of_step fun m' hm => ?_
  -- only a refused request mentions the reason; other steps give up for causes of their own
  cases hm with
  | refused hfull => exact .refused hfull
  | @entered store console depth limit e scope stack hfree =>
    have hentered := @Step.entered store (console.withReason why) depth limit e scope stack hfree
    have hraises := Expr.raisesOn_enter (L := fun _ => True) store scope (e := e) fun _ _ => trivial
    rwa [go_withReason why hraises] at hentered
  | @resumed store console depth limit v frame stack =>
    have hresumed := @Step.resumed store (console.withReason why) depth limit v frame stack
    have hraises := Frame.raisesOn_resume store frame.on_true v
    rwa [go_withReason why hraises] at hresumed
  | @answered store console depth limit line text stack htext =>
    have hread := Console.read_withReason why console
    have hanswered := @Step.answered store (console.withReason why) depth limit line text stack
    rw [hread] at hanswered
    exact hanswered (by rw [Prod.map_fst, htext]; rfl)
  | @unanswered store console depth limit line why' stack hwhy =>
    have hread := Console.read_withReason why console
    have hunanswered := @Step.unanswered store (console.withReason why) depth limit line why stack
    rw [hread] at hunanswered
    exact hunanswered (by rw [Prod.map_fst, hwhy]; rfl)
  | printed => exact .printed
  | unwound => exact .unwound
  | done hdone => exact .done ((isDone_withReason why m).trans hdone)

theorem run_withReason (n : Nat) : (m.withReason why).run n = (m.run n).withReason why :=
  run_map (P := fun _ => True) (fun _ _ => trivial) (fun m _ => step_withReason why m) trivial n

end Machine

namespace Session

variable (s : Session) (steps : Nat)

def withReason (why : String) (s : Session) : Session :=
  { s with console := s.console.withReason why }

theorem proceedWithin_withReason {control : Control} (h : control.withReason why = control) :
    (s.withReason why).proceedWithin steps control =
      (s.proceedWithin steps control).map (·.mapError (·.withReason why)) (·.withReason why) := by
  have hstart : (s.withReason why).start control = (s.start control).withReason why := by
    rw [Machine.withReason, start, start, h]
    rfl
  rw [proceedWithin_eq, proceedWithin_eq, hstart, Machine.run_withReason,
    Machine.outcome_withReason]
  rfl

theorem runAllWithin_withReason (last : Value) (program : List Expr) :
    (s.withReason why).runAllWithin steps last program =
      (s.runAllWithin steps last program).map (·.mapError (·.withReason why))
        (·.withReason why) := by
  have he : ∀ (s : Session) (e : Expr),
      (s.withReason why).proceedWithin steps (.evaluate (id e) (s.withReason why).globals) =
        (s.proceedWithin steps (.evaluate e s.globals)).map (·.mapError (·.withReason why))
          (·.withReason why) :=
    fun s e => proceedWithin_withReason why s steps rfl
  have hrun := runAll_map (s := s) (ω := id) (fun _ => rfl)
    (fun _ v h => ⟨v, Outcome.mapError_eq_value h⟩) he last program
  rwa [List.map_id] at hrun

theorem runSourceWithin_withReason (source : Source) :
    (s.withReason why).runSourceWithin steps source =
      (s.runSourceWithin steps source).map (·.mapError (·.withReason why)) (·.withReason why) := by
  cases hprogram : Program.ofSource source with
  | error report =>
    obtain ⟨fault, -, rfl⟩ := Program.fault_ofSource hprogram
    have hcode : (source.annotate fault.report).code ≠ 700 := fault.code_ne_700
    rw [runSourceWithin_of_error hprogram, runSourceWithin_of_error hprogram, Prod.map_apply,
      Outcome.mapError, Report.withReason_of_ne why hcode]
  | ok program =>
    rw [runSourceWithin_of_ok hprogram, runSourceWithin_of_ok hprogram, runProgramWithin,
      runProgramWithin, runAllWithin_withReason]
    obtain ⟨o, t⟩ := s.runAllWithin steps .null program
    cases o with
    | failed f =>
      simp only [Prod.map_apply, Outcome.mapError, Fault.report_withReason,
        Source.annotate_withReason, id]
    | value | unfinished => rfl

end Session

end PrefixScript
