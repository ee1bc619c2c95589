import PrefixScript.Proofs.Relabelling

namespace PrefixScript

def Value.unlined (v : Value) : Value :=
  v.mapLines fun _ => 0

def Store.unlined (s : Store) : Store :=
  s.mapLines fun _ => 0

namespace Outcome

inductive SameButLines : Outcome Fault → Outcome Fault → Prop
  | value {v v'} : v.unlined = v'.unlined → SameButLines (.value v) (.value v')
  | failed {f f'} : f.cause = f'.cause → SameButLines (.failed f) (.failed f')
  | unfinished : SameButLines .unfinished .unfinished

theorem sameButLines_of_mapLines {o o' : Outcome Fault}
    (h : o.mapLines (fun _ => 0) = o'.mapLines fun _ => 0) : o.SameButLines o' := by
  cases o with
  | value v =>
    cases o' with
    | value v' => exact .value (Outcome.value.inj h)
    | failed | unfinished => contradiction
  | failed f =>
    cases o' with
    | failed f' =>
      have hfault : f.mapLines (fun _ => 0) = f'.mapLines fun _ => 0 := Outcome.failed.inj h
      have hcause := congrArg Fault.cause hfault
      exact .failed hcause
    | value | unfinished => contradiction
  | unfinished =>
    cases o' with
    | unfinished => exact .unfinished
    | value | failed => contradiction

theorem SameButLines.finished_iff {o o' : Outcome Fault} (h : o.SameButLines o') :
    o.Finished ↔ o'.Finished := by
  cases h <;> simp [Finished]

end Outcome

namespace Session

def unlined (s : Session) : Session :=
  s.mapLines fun _ => 0

structure SameButLines (r r' : Outcome Fault × Session) : Prop where
  outcome : r.1.SameButLines r'.1
  console : r.2.console = r'.2.console
  store : r.2.store.unlined = r'.2.store.unlined

variable {s s' : Session} {program program' : List Expr}

theorem sameButLines_runProgram (hs : s.unlined = s'.unlined)
    (hprogram : program.map Expr.unlined = program'.map Expr.unlined) (steps : Nat) :
    SameButLines (s.runProgramWithin steps program) (s'.runProgramWithin steps program') := by
  -- without lines the two runs are one
  have hsame : s.mapLines (fun _ => 0) = s'.mapLines fun _ => 0 := hs
  have hsame' : (program.map fun e => e.mapLines fun _ => 0) =
      program'.map fun e => e.mapLines fun _ => 0 := hprogram
  have hrun := runAllWithin_mapLines (fun _ => 0) s steps .null program
  rw [hsame, hsame', runAllWithin_mapLines] at hrun
  obtain ⟨houtcome, hsession⟩ := Prod.mk.inj hrun.symm
  have hconsole := congrArg Session.console hsession
  have hstore := congrArg Session.store hsession
  exact ⟨Outcome.sameButLines_of_mapLines houtcome, hconsole, hstore⟩

/-- Programs that differ in lines only, run in sessions that differ in lines only, both end or both
do not. If they do, the values they end with differ in lines only or the faults have the same cause,
and so the same code and message; they have printed and read the same, and the bindings they leave
differ in lines only. -/
theorem lines_never_matter (hs : s.unlined = s'.unlined)
    (hprogram : program.map Expr.unlined = program'.map Expr.unlined) :
    ((∃ steps, (s.runProgramWithin steps program).1.Finished) ↔
        ∃ steps, (s'.runProgramWithin steps program').1.Finished) ∧
      ∀ steps steps', (s.runProgramWithin steps program).1.Finished →
        (s'.runProgramWithin steps' program').1.Finished →
        SameButLines (s.runProgramWithin steps program) (s'.runProgramWithin steps' program') := by
  have hsame := sameButLines_runProgram hs hprogram
  refine ⟨exists_congr fun steps => (hsame steps).outcome.finished_iff, ?_⟩
  intro steps steps' hfinished hfinished'
  have hlockstep := hsame steps
  have hsettled : Settled (s'.runProgramWithin steps program')
      (s'.runProgramWithin steps' program') := settled_runAll steps hfinished'
  rwa [hsettled.same (hlockstep.outcome.finished_iff.1 hfinished)] at hlockstep

def divider (line : Nat) : Session :=
  let body : Expr := .list [.symbol "/" line, .symbol "x" line, .atom ⟨.number 0, line⟩] line
  (new (.scripted []) 10).define 0 "f" (.closure ⟨["x"], body, 0, 0⟩)

theorem lines_never_matter_divider :
    let program (line : Nat) : List Expr :=
      [.list [.symbol "f" line, .atom ⟨.number 1, line⟩] line]
    (divider 2).unlined = (divider 5).unlined ∧
      (program 7).map Expr.unlined = (program 9).map Expr.unlined ∧
      ((divider 2).runProgramWithin 20 (program 7)).1 = .failed ⟨.divisionByZero .div, 2⟩ ∧
      ((divider 5).runProgramWithin 30 (program 9)).1 = .failed ⟨.divisionByZero .div, 5⟩ ∧
      SameButLines ((divider 2).runProgramWithin 20 (program 7))
        ((divider 5).runProgramWithin 30 (program 9)) := by
  intro program
  have hs : (divider 2).unlined = (divider 5).unlined := by
    simp [divider, unlined, mapLines, define, ← Store.define_mapLines, Expr.symbol]
  have hprogram : (program 7).map Expr.unlined = (program 9).map Expr.unlined := rfl
  have hfirst : ((divider 2).runProgramWithin 20 (program 7)).1 =
      .failed ⟨.divisionByZero .div, 2⟩ :=
    Outcome.error?_eq_some_iff.1 (by decide +kernel)
  have hsecond : ((divider 5).runProgramWithin 30 (program 9)).1 =
      .failed ⟨.divisionByZero .div, 5⟩ :=
    Outcome.error?_eq_some_iff.1 (by decide +kernel)
  have hsame := (lines_never_matter hs hprogram).2 20 30 (by simp [hfirst, Outcome.Finished])
    (by simp [hsecond, Outcome.Finished])
  exact ⟨hs, hprogram, hfirst, hsecond, hsame⟩

end Session

end PrefixScript
