import PrefixScript.Proofs.Causality

namespace PrefixScript

theorem Cause.category_ne_parse (c : Cause) : Category.ofCode c.code ≠ .parse := by
  cases c <;> simp [code, Category.ofCode]

theorem ReadFault.category_eq_parse (f : ReadFault) : f.report.category = .parse := by
  cases f <;> simp [report, Report.category, code, Category.ofCode]

theorem Program.category_of_ofSource {source : Source} {report : Report}
    (h : ofSource source = .error report) : report.category = .parse := by
  obtain ⟨fault, -, rfl⟩ := fault_ofSource h
  exact fault.category_eq_parse

namespace Session

variable {source : Source} {report : Report}

theorem category_runSource_of_ok {program : List Expr} (h : Program.ofSource source = .ok program)
    (s : Session) (steps : Nat) (hreport : (s.runSourceWithin steps source).1 = .failed report) :
    report.category ≠ .parse := by
  rw [runSourceWithin_of_ok h, Prod.map_fst] at hreport
  obtain ⟨fault, -, rfl⟩ := Outcome.mapError_eq_failed hreport
  exact fault.cause.category_ne_parse

theorem runSource_parse_iff (s : Session) (steps : Nat) :
    (∃ report, (s.runSourceWithin steps source).1 = .failed report ∧ report.category = .parse) ↔
      ∃ report, Program.ofSource source = .error report := by
  refine ⟨fun ⟨report, hreport, hparse⟩ => ?_, fun ⟨report, h⟩ => ?_⟩
  · cases h : Program.ofSource source with
    | error report => exact ⟨report, rfl⟩
    | ok program => exact absurd hparse (category_runSource_of_ok h s steps hreport)
  · refine ⟨report, ?_, Program.category_of_ofSource h⟩
    rw [runSourceWithin_of_error h]

end Session

namespace Playground

theorem check_error_iff {source : String} {report : Report} :
    (check source).error = some report ↔ Program.ofSource (.ofText source) = .error report := by
  unfold check
  cases Program.ofSource (.ofText source) <;> simp

theorem check_success_iff {source : String} :
    (check source).success = false ↔
      ∃ report, Program.ofSource (.ofText source) = .error report := by
  simp_rw [CheckResult.success, Option.isNone_eq_false_iff, Option.isSome_iff_exists,
    check_error_iff]

/-- What a check reports, every run of the source reports before it prints or reads anything, and a
session that runs the source is left as it was. A run that ends reports a fault of reading exactly
if the check fails. -/
theorem check_predicts_run (source : String) :
    (∀ report, (check source).error = some report →
        (∀ steps inputs limit, runWithin steps source inputs limit = some ⟨[], 0, some report⟩) ∧
          ∀ (s : Session) (steps : Nat),
            s.runSourceWithin steps (.ofText source) = (.failed report, s)) ∧
      ∀ steps inputs limit r, runWithin steps source inputs limit = some r →
        ((check source).success = false ↔
          ∃ report, r.error = some report ∧ report.category = .parse) := by
  refine ⟨fun report hcheck => ?_, fun steps inputs limit r hr => ?_⟩
  · have hread := check_error_iff.1 hcheck
    refine ⟨fun steps inputs limit => ?_, fun s steps => Session.runSourceWithin_of_error hread s _⟩
    have hwork : work steps source inputs limit =
        (.failed report, Session.new (.scripted inputs) limit) :=
      Session.runSourceWithin_of_error hread _ steps
    rw [runWithin_eq_some_iff, hwork]
    exact ⟨nofun, rfl⟩
  · obtain ⟨-, rfl⟩ := runWithin_eq_some_iff.1 hr
    simp_rw [check_success_iff, Outcome.error?_eq_some_iff]
    exact (Session.runSource_parse_iff _ steps).symm

end Playground

end PrefixScript
