import PrefixScript.Proofs.Faults

namespace PrefixScript

def Event.isFailure : Event → Bool
  | .readFailed | .readEnded => true
  | .read _ | .printed _ => false

def Fault.OfInput (f : Fault) : Prop :=
  ∃ why, f.cause = .inputFailed why

theorem Fault.ofInput_iff {f : Fault} : f.OfInput ↔ f.report.code = 700 := by
  obtain ⟨cause, line⟩ := f
  constructor
  · rintro ⟨why, rfl⟩
    rfl
  · intro h
    cases cause with
    | inputFailed why => exact ⟨why, rfl⟩
    | _ => simp [Fault.report, Cause.code] at h

theorem Fault.not_ofInput_of_isOwn {f : Fault} (h : f.cause.isOwn = true) : ¬ f.OfInput := by
  rintro ⟨why, hwhy⟩
  rw [hwhy] at h
  contradiction

theorem Fault.not_ofInput_tooDeep (limit line : Nat) : ¬ OfInput ⟨.tooDeep limit, line⟩ := by
  rintro ⟨why, hwhy⟩
  contradiction

theorem ReadFault.code_ne_700 (f : ReadFault) : f.code ≠ 700 := by
  cases f <;> simp [code]

namespace Console

structure Stable (P : Console → Prop) : Prop where
  read : ∀ {c : Console}, P c → P c.read.2
  print : ∀ {c : Console} s, P c → P (c.print s)

theorem read_ok {c : Console} {text : String} (h : c.read.1 = .ok text) :
    c.read.2.events = .read text :: c.events := by
  obtain ⟨upcoming, ended, events⟩ := c
  cases upcoming with
  | nil => contradiction
  | cons response upcoming =>
    cases response with
    | text s =>
      obtain rfl := Except.ok.inj h
      rfl
    | failure => contradiction

theorem read_error {c : Console} {why : String} (h : c.read.1 = .error why) :
    ∃ e, e.isFailure = true ∧ c.read.2.events = e :: c.events := by
  obtain ⟨upcoming, ended, events⟩ := c
  cases upcoming with
  | nil => exact ⟨.readEnded, rfl, rfl⟩
  | cons response upcoming =>
    cases response with
    | text => contradiction
    | failure => exact ⟨.readFailed, rfl, rfl⟩

def Answered (c : Console) : Prop :=
  ∀ e ∈ c.events, e.isFailure = false

def Refused (c : Console) : Prop :=
  ∃ e older, c.events = e :: older ∧ e.isFailure = true ∧ ∀ e ∈ older, e.isFailure = false

theorem Answered.read {c : Console} {text : String} (h : c.Answered) (hread : c.read.1 = .ok text) :
    c.read.2.Answered := by
  rw [Answered, read_ok hread, List.forall_mem_cons]
  exact ⟨rfl, h⟩

theorem Answered.refused {c : Console} {why : String} (h : c.Answered)
    (hread : c.read.1 = .error why) : c.read.2.Refused := by
  obtain ⟨e, he, hevents⟩ := read_error hread
  exact ⟨e, c.events, hevents, he, h⟩

theorem Answered.print {c : Console} (h : c.Answered) (s : String) : (c.print s).Answered :=
  List.forall_mem_cons.2 ⟨rfl, h⟩

theorem Answered.getLast?_log {c : Console} (h : c.Answered) {e : Event}
    (he : c.log.getLast? = some e) : e.isFailure = false := by
  have hmem := List.mem_of_getLast? he
  rw [log, List.mem_reverse] at hmem
  exact h e hmem

theorem Refused.getLast?_log {c : Console} (h : c.Refused) :
    ∃ e, c.log.getLast? = some e ∧ e.isFailure = true := by
  obtain ⟨e, older, hevents, he, -⟩ := h
  exact ⟨e, by simp [log, hevents], he⟩

theorem eq_nil_of_log {c : Console} (h : c.Answered ∨ c.Refused) {before after : List Event}
    {e : Event} (hlog : c.log = before ++ e :: after) (he : e.isFailure = true) : after = [] := by
  have hevents : c.events = after.reverse ++ e :: before.reverse := by
    rw [← List.reverse_reverse c.events, ← log, hlog]
    simp
  rcases h with h | ⟨e', older, hcons, -, holder⟩
  · have hnot := h e (by simp [hevents])
    rw [he] at hnot
    contradiction
  · rw [hcons] at hevents
    cases hafter : after.reverse with
    | nil => simpa using hafter
    | cons d ds =>
      rw [hafter, List.cons_append, List.cons.injEq] at hevents
      have hnot := holder e (by simp [hevents.2])
      rw [he] at hnot
      contradiction

end Console

def Control.Attentive (console : Console) : Control → Prop
  | .abandon f => console.Answered ∧ ¬ f.OfInput ∨ console.Refused ∧ f.OfInput
  | .evaluate _ _ | .deliver _ | .read _ | .print _ => console.Answered

theorem Control.Attentive.of_raises {L : Nat → Prop} {console : Console} {c : Control}
    (h : console.Answered) (hc : c.RaisesOn L) : c.Attentive console := by
  cases c with
  | abandon f => exact .inl ⟨h, Fault.not_ofInput_of_isOwn hc.own⟩
  | evaluate | deliver | read | print => exact h

namespace Machine

variable {m m' : Machine}

theorem Step.stable {P : Console → Prop} (hP : Console.Stable P) (h : Step m m')
    (hm : P m.console) : P m'.console := by
  cases h with
  | entered | resumed => rwa [console_go]
  | answered | unanswered => exact hP.read hm
  | printed => exact hP.print _ hm
  | refused | unwound | done => exact hm

theorem stable_run {P : Console → Prop} (hP : Console.Stable P) (hm : P m.console) (n : Nat) :
    P (m.run n).console :=
  run_preserves (P := fun m => P m.console) (fun m => m.step_spec.stable hP) hm n

/-- A machine gives up for a failed request if and only if the last request failed, and then it has
done nothing since. -/
def Attentive (m : Machine) : Prop :=
  m.control.Attentive m.console

theorem Attentive.go {store : Store} {console : Console} {depth limit : Nat} {stack : List Frame}
    {move : Move} (hconsole : console.Answered)
    (hmove : move.Meets (·.RaisesOn fun _ => True) (·.On fun _ => True)) :
    (go store console depth limit stack move).Attentive := by
  cases move with
  | leave next => exact .of_raises hconsole hmove
  | hold frame next => exact .of_raises hconsole hmove.2

theorem Step.attentive (h : Step m m') (hm : m.Attentive) : m'.Attentive := by
  cases h with
  | refused => exact .inl ⟨hm, Fault.not_ofInput_tooDeep _ _⟩
  | @entered store _ _ _ e scope =>
    exact .go hm (Expr.raisesOn_enter store scope fun _ _ => trivial)
  | @resumed store _ _ _ v frame =>
    have hframe : frame.On fun _ => True := by cases frame <;> trivial
    exact .go hm (Frame.raisesOn_resume store hframe v)
  | answered hread => exact Console.Answered.read hm hread
  | unanswered hread => exact .inr ⟨Console.Answered.refused hm hread, _, rfl⟩
  | printed => exact Console.Answered.print hm _
  | unwound | done => exact hm

theorem Attentive.run (h : m.Attentive) (n : Nat) : (m.run n).Attentive :=
  run_preserves (P := Attentive) (fun m => m.step_spec.attentive) h n

end Machine

inductive Outcome.Attentive {ε : Type} (refusal : ε → Prop) (c : Console) : Outcome ε → Prop
  | answered {o} : c.Answered → (∀ e, o = .failed e → ¬ refusal e) → Attentive refusal c o
  | refused {e} : c.Refused → refusal e → Attentive refusal c (.failed e)
  | unfinished : c.Refused → Attentive refusal c .unfinished

namespace Outcome.Attentive

variable {ε ε' : Type} {refusal : ε → Prop} {refusal' : ε' → Prop} {c : Console} {o : Outcome ε}

theorem map (h : o.Attentive refusal c) {f : ε → ε'} (hf : ∀ e, refusal' (f e) ↔ refusal e) :
    (o.mapError f).Attentive refusal' c := by
  cases h with
  | answered hconsole hnot =>
    refine .answered hconsole fun e' he' hrefusal => ?_
    obtain ⟨e, he, rfl⟩ := mapError_eq_failed he'
    exact hnot e he ((hf e).1 hrefusal)
  | refused hconsole hrefusal => exact .refused hconsole ((hf _).2 hrefusal)
  | unfinished hconsole => exact .unfinished hconsole

theorem console (h : o.Attentive refusal c) : c.Answered ∨ c.Refused := by
  cases h with
  | answered hconsole => exact .inl hconsole
  | refused hconsole | unfinished hconsole => exact .inr hconsole

theorem refusal_iff (h : o.Attentive refusal c) (hfinished : o.Finished) :
    (∃ e, o = .failed e ∧ refusal e) ↔ ∃ e, c.log.getLast? = some e ∧ e.isFailure = true := by
  cases h with
  | answered hconsole hnot =>
    constructor
    · rintro ⟨e, he, hrefusal⟩
      exact absurd hrefusal (hnot e he)
    · rintro ⟨e, he, hfailure⟩
      rw [hconsole.getLast?_log he] at hfailure
      contradiction
  | refused hconsole hrefusal =>
    exact ⟨fun _ => hconsole.getLast?_log, fun _ => ⟨_, rfl, hrefusal⟩⟩
  | unfinished => exact absurd rfl hfinished

end Outcome.Attentive

theorem Machine.Attentive.outcome {m : Machine} (h : m.Attentive) :
    m.outcome.Attentive Fault.OfInput m.console := by
  obtain ⟨store, console, depth, limit, control, stack⟩ := m
  cases control with
  | abandon f =>
    rcases h with ⟨hconsole, hnot⟩ | ⟨hconsole, hinput⟩
    · refine .answered hconsole fun f' hf' => ?_
      obtain ⟨⟩ := control_of_failed hf'
      exact hnot
    · cases stack with
      | nil => exact .refused hconsole hinput
      | cons => exact .unfinished hconsole
  | evaluate | deliver | read | print =>
    refine .answered h fun f hf => ?_
    have hcontrol := control_of_failed hf
    contradiction

namespace Session

variable {s : Session}

theorem attentive_proceed (hs : s.console.Answered) (steps : Nat) (e : Expr) (scope : ScopeId) :
    (s.proceedWithin steps (.evaluate e scope)).1.Attentive Fault.OfInput
      (s.proceedWithin steps (.evaluate e scope)).2.console := by
  have hstart : (s.start (.evaluate e scope)).Attentive := hs
  exact (hstart.run steps).outcome

theorem attentive_runAll (hs : s.console.Answered) (steps : Nat) (last : Value)
    (program : List Expr) :
    (s.runAllWithin steps last program).1.Attentive Fault.OfInput
      (s.runAllWithin steps last program).2.console := by
  have hvalue : ∀ f : Fault, Outcome.value last = .failed f → ¬ f.OfInput := nofun
  refine runAll_preserves (R := fun r => r.1.Attentive Fault.OfInput r.2.console)
    (fun e _ v t ht => ?_) (.answered hs hvalue)
  cases ht with
  | answered hconsole => exact attentive_proceed hconsole steps e t.globals

theorem attentive_runSource (hs : s.console.Answered) (steps : Nat) (source : Source) :
    (s.runSourceWithin steps source).1.Attentive (fun report => report.code = 700)
      (s.runSourceWithin steps source).2.console := by
  cases hprogram : Program.ofSource source with
  | error report =>
    obtain ⟨fault, -, rfl⟩ := Program.fault_ofSource hprogram
    rw [runSourceWithin_of_error hprogram]
    refine .answered hs ?_
    rintro _ ⟨⟩ hcode
    exact fault.code_ne_700 hcode
  | ok program =>
    rw [runSourceWithin_of_ok hprogram]
    have hreport : ∀ f : Fault, (source.annotate f.report).code = 700 ↔ f.OfInput :=
      fun _ => Fault.ofInput_iff.symm
    exact (attentive_runAll hs steps .null program).map hreport

theorem stable_runAll {P : Console → Prop} (hP : Console.Stable P) (hs : P s.console) (steps : Nat)
    (last : Value) (program : List Expr) :
    P (s.runAllWithin steps last program).2.console :=
  runAll_preserves (R := fun r => P r.2.console)
    (fun _ _ _ t ht => Machine.stable_run (m := t.start _) hP ht steps) hs

theorem stable_runSource {P : Console → Prop} (hP : Console.Stable P) (hs : P s.console)
    (steps : Nat) (source : Source) : P (s.runSourceWithin steps source).2.console := by
  cases hprogram : Program.ofSource source with
  | error report => rwa [runSourceWithin_of_error hprogram]
  | ok program =>
    rw [runSourceWithin_of_ok hprogram]
    exact stable_runAll hP hs steps .null program

end Session

end PrefixScript
