import PrefixScript.Proofs.Requests

/-!
# The first failure

An evaluation that others wait for goes on as if nobody waited. When it fails, the others are
unwound one by one, and nothing else happens any more: no expression is evaluated, nothing is bound,
read or printed, and the fault is that of the whole program.
-/

namespace PrefixScript

namespace Machine

variable {m m' : Machine} {outer : List Frame}

def alone (m : Machine) : Machine :=
  { m with stack := [] }

def inside (outer : List Frame) (m : Machine) : Machine :=
  { m with stack := m.stack ++ outer }

@[simp] theorem inside_alone (m : Machine) : m.alone.inside m.stack = m :=
  rfl

theorem inside_go (store : Store) (console : Console) (depth limit : Nat) (stack : List Frame)
    (move : Move) :
    (go store console depth limit stack move).inside outer =
      go store console depth limit (stack ++ outer) move := by
  cases move <;> rfl

theorem step_inside (h : m.isDone = false) : (m.inside outer).step = m.step.inside outer := by
  refine step_eq_of_step fun m' hm => ?_
  cases hm with
  | refused hfull => exact .refused hfull
  | entered hfree =>
    rw [inside_go]
    exact .entered hfree
  | resumed =>
    rw [inside_go]
    exact .resumed
  | answered htext => exact .answered htext
  | unanswered hwhy => exact .unanswered hwhy
  | printed => exact .printed
  | unwound => exact .unwound
  | done hdone => exact absurd hdone (by simp [h])

theorem exists_run_inside (m : Machine) (outer : List Frame) (n : Nat) :
    ∃ k ≤ n, (m.inside outer).run k = (m.run n).inside outer := by
  induction n generalizing m with
  | zero => exact ⟨0, Nat.le_refl 0, rfl⟩
  | succ n ih =>
    cases hdone : m.isDone with
    | true =>
      refine ⟨0, Nat.zero_le _, ?_⟩
      rw [run_of_isDone hdone]
      rfl
    | false =>
      obtain ⟨k, hk, hsame⟩ := ih m.step
      refine ⟨k + 1, Nat.succ_le_succ hk, ?_⟩
      rw [run_succ, run_succ, step_inside hdone, hsame]

/-- Whether a machine passes on the fault with which an evaluation has failed, and has done nothing
since. -/
structure PassesOn (m : Machine) (f : Fault) (failed : Machine) : Prop where
  control : m.control = .abandon f
  store : m.store = failed.store
  console : m.console = failed.console

theorem PassesOn.run {f : Fault} {failed : Machine} (h : m.PassesOn f failed) (n : Nat) :
    (m.run n).PassesOn f failed := by
  obtain ⟨hcontrol, hconsole, hstore⟩ := run_of_abandon h.control n
  exact ⟨hcontrol, hstore.trans h.store, hconsole.trans h.console⟩

theorem exists_passesOn {f : Fault} {k : Nat} (h : (m.alone.run k).outcome = .failed f) :
    ∃ j ≤ k, ∀ n ≥ j, (m.run n).PassesOn f (m.alone.run k) := by
  obtain ⟨j, hj, hsame⟩ := exists_run_inside m.alone m.stack k
  rw [inside_alone] at hsame
  have hfailed : (m.run j).PassesOn f (m.alone.run k) := by
    rw [hsame]
    have hcontrol := control_of_failed h
    exact ⟨hcontrol, rfl, rfl⟩
  refine ⟨j, hj, fun n hn => ?_⟩
  obtain ⟨l, rfl⟩ := Nat.exists_eq_add_of_le hn
  rw [run_add]
  exact hfailed.run l

theorem isDone_run_of_abandon {f : Fault} (h : m.control = .abandon f) :
    (m.run m.stack.length).isDone = true := by
  obtain ⟨store, console, depth, limit, control, stack⟩ := m
  obtain rfl : control = .abandon f := h
  induction stack generalizing depth with
  | nil => rfl
  | cons frame stack ih =>
    rw [List.length_cons, run_succ]
    exact ih _

def trace : Nat → Machine → List Machine
  | 0, m => [m]
  | n + 1, m => m :: if m.isDone then [] else m.step.trace n

theorem trace_eq_cons (m : Machine) (n : Nat) : ∃ later, m.trace n = m :: later := by
  cases n <;> exact ⟨_, rfl⟩

theorem exists_trace_of_append {n : Nat} {before after : List Machine}
    (h : m.trace n = before ++ m' :: after) :
    (∃ i, m' = m.run i) ∧ ∃ q, m' :: after = m'.trace q := by
  induction before generalizing m n with
  | nil =>
    obtain ⟨later, hlater⟩ := m.trace_eq_cons n
    obtain ⟨rfl, -⟩ := List.cons.inj (hlater.symm.trans h)
    exact ⟨⟨0, rfl⟩, n, h.symm⟩
  | cons b before ih =>
    cases n with
    | zero => simp [trace] at h
    | succ n =>
      rw [trace, List.cons_append, List.cons.injEq] at h
      obtain ⟨-, h⟩ := h
      split at h
      · simp at h
      · obtain ⟨⟨i, hi⟩, hq⟩ := ih h
        exact ⟨⟨i + 1, hi.trans (run_succ m i).symm⟩, hq⟩

theorem exists_run_of_mem_drop {n i : Nat} (h : m' ∈ (m.trace n).drop i) :
    ∃ l ≥ i, m' = m.run l := by
  induction n generalizing m i with
  | zero =>
    cases i with
    | zero => exact ⟨0, Nat.le_refl 0, List.mem_singleton.1 h⟩
    | succ i => simp [trace] at h
  | succ n ih =>
    rw [trace] at h
    -- Beyond the first machine the trace is that of the next one.
    have hlater : ∀ j, m' ∈ (if m.isDone then [] else m.step.trace n).drop j →
        ∃ l ≥ j + 1, m' = m.run l := by
      intro j hj
      split at hj
      · simp at hj
      · obtain ⟨l, hl, heq⟩ := ih hj
        exact ⟨l + 1, Nat.succ_le_succ hl, heq.trans (run_succ m l).symm⟩
    cases i with
    | zero =>
      rcases List.mem_cons.1 h with rfl | h
      · exact ⟨0, Nat.le_refl 0, rfl⟩
      · obtain ⟨l, -, heq⟩ := hlater 0 h
        exact ⟨l, Nat.zero_le l, heq⟩
    | succ i => exact hlater i h

theorem passesOn_of_trace {start : Machine} {n k : Nat} {before after : List Machine} {f : Fault}
    (htrace : start.trace n = before ++ m :: after) (h : (m.alone.run k).outcome = .failed f) :
    (∀ m' ∈ after.drop k, m'.PassesOn f (m.alone.run k)) ∧
      ∃ i, ∀ n ≥ i, (start.run n).PassesOn f (m.alone.run k) := by
  obtain ⟨⟨i, hi⟩, q, hq⟩ := exists_trace_of_append htrace
  obtain ⟨j, hj, hpasses⟩ := exists_passesOn h
  constructor
  · intro m' hm'
    have hdrop : m' ∈ (m.trace q).drop (k + 1) := by rwa [← hq, List.drop_succ_cons]
    obtain ⟨l, hl, rfl⟩ := exists_run_of_mem_drop hdrop
    exact hpasses l (by omega)
  · refine ⟨i + j, fun n hn => ?_⟩
    obtain ⟨l, rfl⟩ := Nat.exists_eq_add_of_le hn
    rw [Nat.add_assoc, run_add, ← hi]
    exact hpasses _ (Nat.le_add_right j l)

end Machine

namespace Session

variable {s : Session} {steps : Nat}

def trace (steps : Nat) (s : Session) : List Expr → List Machine
  | [] => []
  | e :: rest =>
    (s.start (.evaluate e s.globals)).trace steps ++
      match s.proceedWithin steps (.evaluate e s.globals) with
      | (.value _, t) => t.trace steps rest
      | _ => []

theorem trace_of_ne_value {e : Expr}
    (h : ∀ v, (s.proceedWithin steps (.evaluate e s.globals)).1 ≠ .value v) (rest : List Expr) :
    s.trace steps (e :: rest) = (s.start (.evaluate e s.globals)).trace steps := by
  rw [trace]
  split
  · next heq => exact absurd (congrArg Prod.fst heq) (h _)
  · exact List.append_nil _

theorem proceed_of_le {control : Control} {n : Nat}
    (h : (s.proceedWithin steps control).1.Finished) (hle : steps ≤ n) :
    s.proceedWithin n control = s.proceedWithin steps control := by
  rw [proceedWithin_eq] at h
  rw [proceedWithin_eq, proceedWithin_eq,
    Machine.run_of_le (Machine.finished_outcome_iff.1 h) hle]

/-- Whether work has failed with a fault and has left what an evaluation left that failed. -/
structure FailsAs (r : Outcome Fault × Session) (f : Fault) (failed : Machine) : Prop where
  outcome : r.1 = .failed f
  store : r.2.store = failed.store
  console : r.2.console = failed.console

theorem failsAs_proceed {control : Control} {f : Fault} {failed : Machine} {i : Nat}
    (h : ∀ n ≥ i, ((s.start control).run n).PassesOn f failed) :
    ∃ enough, ∀ n ≥ enough, FailsAs (s.proceedWithin n control) f failed := by
  have hdone := Machine.isDone_run_of_abandon (h i (Nat.le_refl i)).control
  rw [← Machine.run_add] at hdone
  refine ⟨i + ((s.start control).run i).stack.length, fun n hn => ?_⟩
  rw [proceedWithin_eq, Machine.run_of_le hdone hn]
  have hpasses := h _ (Nat.le_add_right i ((s.start control).run i).stack.length)
  exact ⟨Machine.outcome_of_abandon hpasses.control (Machine.finished_outcome_iff.2 hdone),
    hpasses.store, hpasses.console⟩

theorem failsAs_runAll {program : List Expr} {before after : List Machine} {m : Machine} {k : Nat}
    {f : Fault} (htrace : s.trace steps program = before ++ m :: after)
    (hfailed : (m.alone.run k).outcome = .failed f) (last : Value) :
    (∀ m' ∈ after.drop k, m'.PassesOn f (m.alone.run k)) ∧
      ∃ enough, ∀ n ≥ enough, FailsAs (s.runAllWithin n last program) f (m.alone.run k) := by
  induction program generalizing s before last with
  | nil => simp [trace] at htrace
  | cons e rest ih =>
    by_cases hvalue : ∃ v t, s.proceedWithin steps (.evaluate e s.globals) = (.value v, t)
    · obtain ⟨v, t, ht⟩ := hvalue
      have hsame : ∀ {n}, steps ≤ n →
          s.proceedWithin n (.evaluate e s.globals) = (.value v, t) := fun hn =>
        (proceed_of_le (by rw [ht]; nofun) hn).trans ht
      have hlater : ∀ before, t.trace steps rest = before ++ m :: after →
          (∀ m' ∈ after.drop k, m'.PassesOn f (m.alone.run k)) ∧
            ∃ enough, ∀ n ≥ enough,
              FailsAs (s.runAllWithin n last (e :: rest)) f (m.alone.run k) := by
        intro before hrest
        obtain ⟨hpasses, enough, henough⟩ := ih hrest v
        refine ⟨hpasses, max steps enough, fun n hn => ?_⟩
        rw [runAll_of_value (hsame (Nat.le_trans (Nat.le_max_left ..) hn))]
        exact henough n (Nat.le_trans (Nat.le_max_right ..) hn)
      rw [trace, ht] at htrace
      rcases List.append_eq_append_iff.1 htrace with ⟨_, -, hrest⟩ | ⟨first, hfirst, hrest⟩
      · exact hlater _ hrest
      · rcases List.cons_eq_append_iff.1 hrest with ⟨-, hrest⟩ | ⟨_, rfl, -⟩
        · exact hlater [] hrest
        · -- An evaluation that has a value does not contain one that fails.
          obtain ⟨-, i, hi⟩ := Machine.passesOn_of_trace hfirst hfailed
          obtain ⟨enough, henough⟩ := failsAs_proceed hi
          have hfails := henough _ (Nat.le_max_right steps enough)
          rw [hsame (Nat.le_max_left ..)] at hfails
          exact absurd hfails.outcome nofun
    · have hne : ∀ v, (s.proceedWithin steps (.evaluate e s.globals)).1 ≠ .value v :=
        fun v hv => hvalue ⟨v, _, Prod.ext hv rfl⟩
      rw [trace_of_ne_value hne] at htrace
      obtain ⟨hpasses, i, hi⟩ := Machine.passesOn_of_trace htrace hfailed
      obtain ⟨enough, henough⟩ := failsAs_proceed hi
      refine ⟨hpasses, enough, fun n hn => ?_⟩
      have hfails := henough n hn
      rwa [runAll_of_ne_value (by rw [hfails.outcome]; nofun)]

/-- The first failure ends everything: those that wait for an evaluation that fails pass on its
fault and do nothing else, and the source fails with it. So in a session whose console has had no
event, only the last event can be a failed request, and exactly then the source fails with failed
input. -/
theorem first_failure_ends (source : Source) :
    (∀ (s : Session) steps program before m after k f, Program.ofSource source = .ok program →
        s.trace steps program = before ++ m :: after → (m.alone.run k).outcome = .failed f →
        (∀ m' ∈ after.drop k, m'.PassesOn f (m.alone.run k)) ∧
          ∃ enough, ∀ n ≥ enough,
            (s.runSourceWithin n source).1 = .failed (source.annotate f.report) ∧
              (s.runSourceWithin n source).2.store = (m.alone.run k).store ∧
              (s.runSourceWithin n source).2.console = (m.alone.run k).console) ∧
      ∀ responses ended limit steps,
        let r := (Session.new ⟨responses, ended, []⟩ limit).runSourceWithin steps source
        (∀ before e after, r.2.console.log = before ++ e :: after → e.isFailure = true →
            after = []) ∧
          (r.1.Finished → ((∃ report, r.1 = .failed report ∧ report.code = 700) ↔
            ∃ e, r.2.console.log.getLast? = some e ∧ e.isFailure = true)) := by
  constructor
  · intro s steps program before m after k f hprogram htrace hfailed
    obtain ⟨hpasses, enough, henough⟩ := failsAs_runAll htrace hfailed .null
    refine ⟨hpasses, enough, fun n hn => ?_⟩
    obtain ⟨houtcome, hstore, hconsole⟩ := henough n hn
    rw [runSourceWithin_of_ok hprogram]
    exact ⟨congrArg (Outcome.mapError _) houtcome, hstore, hconsole⟩
  · intro responses ended limit steps
    have hanswered : (Session.new ⟨responses, ended, []⟩ limit).console.Answered :=
      List.forall_mem_nil _
    have hattentive := attentive_runSource hanswered steps source
    refine ⟨fun before e after hlog hfailure => ?_, hattentive.refusal_iff⟩
    exact Console.eq_nil_of_log hattentive.console hlog hfailure

end Session

end PrefixScript
