import PrefixScript.Playground
import PrefixScript.Proofs.Requests

namespace PrefixScript

namespace Console

def redirect (n : Nat) (more : List Response) (c : Console) : Console :=
  { c with upcoming := c.upcoming.take (c.upcoming.length - n) ++ more }

variable {n : Nat} {more : List Response} {c d : Console}

theorem read_redirect (more : List Response) (h : n < c.upcoming.length) :
    (c.redirect n more).read = (c.read.1, c.read.2.redirect n more) := by
  obtain ⟨upcoming, ended, events⟩ := c
  cases upcoming with
  | nil => exact absurd h (Nat.not_lt_zero n)
  | cons response upcoming =>
    have hcut : upcoming.length + 1 - n = upcoming.length - n + 1 :=
      Nat.succ_sub (Nat.le_of_lt_succ h)
    cases response <;> simp [redirect, read, hcut]

theorem length_read (h : c.upcoming ≠ []) : c.read.2.upcoming.length < c.upcoming.length := by
  obtain ⟨upcoming, ended, events⟩ := c
  cases upcoming with
  | nil => exact absurd rfl h
  | cons response => cases response <;> exact Nat.lt_succ_self _

theorem read_nil (h : c.upcoming = []) :
    c.read = (.error c.ended, { c with events := .readEnded :: c.events }) := by
  obtain ⟨upcoming, ended, events⟩ := c
  obtain rfl : upcoming = [] := h
  rfl

theorem read_text {s : String} {rest : List Response} (h : c.upcoming = .text s :: rest) :
    c.read = (.ok s, { c with upcoming := rest, events := .read s :: c.events }) := by
  obtain ⟨upcoming, ended, events⟩ := c
  obtain rfl : upcoming = .text s :: rest := h
  rfl

theorem served_text (c : Console) (s : String) (rest : List Response) :
    served { c with upcoming := rest, events := .read s :: c.events } = c.served + 1 := by
  simp [served, log, Event.read?]

theorem served_print (c : Console) (s : String) : (c.print s).served = c.served := by
  simp [served, log, Console.print, Event.read?]

theorem output_readEnded (c : Console) :
    output { c with events := .readEnded :: c.events } = c.output := by
  simp [output, log, Event.printed?]

theorem served_readEnded (c : Console) :
    served { c with events := .readEnded :: c.events } = c.served := by
  simp [served, log, Event.read?]

theorem Grows.length_le (h : c.Grows d) : d.upcoming.length ≤ c.upcoming.length :=
  h.upcoming.length_le

/-- How far a console has come that had nothing but the inputs as its responses. -/
structure ScriptedBy (inputs : List String) (c : Console) : Prop where
  upcoming : c.upcoming = (inputs.drop c.served).map .text
  served : c.served ≤ inputs.length
  spent : ∀ e ∈ c.events, e.isFailure = true → c.upcoming = []

theorem scriptedBy_scripted (inputs : List String) : (scripted inputs).ScriptedBy inputs :=
  ⟨rfl, Nat.zero_le _, fun _ h => absurd h List.not_mem_nil⟩

theorem ScriptedBy.read {inputs : List String} (h : c.ScriptedBy inputs) :
    c.read.2.ScriptedBy inputs := by
  cases hnext : c.upcoming with
  | nil =>
    rw [read_nil hnext]
    refine ⟨?_, ?_, fun _ _ _ => hnext⟩
    · rw [served_readEnded]
      exact h.upcoming
    · rw [served_readEnded]
      exact h.served
  | cons response rest =>
    obtain ⟨s, inputs', hdrop, rfl, rfl⟩ := List.map_eq_cons_iff.1 (h.upcoming.symm.trans hnext)
    have hlength : inputs.length - c.served = inputs'.length + 1 := by
      rw [← List.length_drop, hdrop, List.length_cons]
    rw [read_text hnext]
    refine ⟨?_, ?_, fun e he hfailure => ?_⟩
    · rw [served_text, ← List.tail_drop, hdrop, List.tail_cons]
    · rw [served_text]
      omega
    · rcases List.mem_cons.1 he with rfl | he
      · contradiction
      · have hspent := h.spent e he hfailure
        rw [hnext] at hspent
        contradiction

theorem ScriptedBy.print {inputs : List String} (h : c.ScriptedBy inputs) (s : String) :
    (c.print s).ScriptedBy inputs := by
  refine ⟨?_, ?_, fun e he hfailure => ?_⟩
  · rw [served_print]
    exact h.upcoming
  · rw [served_print]
    exact h.served
  · rcases List.mem_cons.1 he with rfl | he
    · contradiction
    · exact h.spent e he hfailure

theorem stable_scriptedBy (inputs : List String) : Stable (ScriptedBy inputs) :=
  ⟨ScriptedBy.read, fun s h => h.print s⟩

end Console

namespace Machine

variable {n : Nat} {more : List Response} {m : Machine}

def redirect (n : Nat) (more : List Response) (m : Machine) : Machine :=
  { m with console := m.console.redirect n more }

def ReadsPast (n : Nat) (m : Machine) : Prop :=
  ∃ line, m.control = .read line ∧ m.console.upcoming.length ≤ n

theorem redirect_go (store : Store) (console : Console) (depth limit : Nat) (stack : List Frame)
    (move : Move) :
    (go store console depth limit stack move).redirect n more =
      go store (console.redirect n more) depth limit stack move := by
  cases move <;> rfl

theorem step_redirect (h : ¬ m.ReadsPast n) :
    (m.redirect n more).step = m.step.redirect n more := by
  refine step_eq_of_step fun m' hm => ?_
  cases hm with
  | refused hfull => exact .refused hfull
  | entered hfree =>
    rw [redirect_go]
    exact .entered hfree
  | resumed =>
    rw [redirect_go]
    exact .resumed
  | @answered store console depth limit line text stack htext =>
    have hread := Console.read_redirect more (Nat.lt_of_not_le fun hle => h ⟨line, rfl, hle⟩)
    have hanswered := @Step.answered store (console.redirect n more) depth limit line text stack
      (by rw [hread]; exact htext)
    rwa [hread] at hanswered
  | @unanswered store console depth limit line why stack hwhy =>
    have hread := Console.read_redirect more (Nat.lt_of_not_le fun hle => h ⟨line, rfl, hle⟩)
    have hunanswered := @Step.unanswered store (console.redirect n more) depth limit line why stack
      (by rw [hread]; exact hwhy)
    rwa [hread] at hunanswered
  | printed => exact .printed
  | unwound => exact .unwound
  | done hdone => exact .done hdone

theorem console_step_of_read {line : Nat} (h : m.control = .read line) :
    m.step.console = m.console.read.2 := by
  obtain ⟨store, console, depth, limit, control, stack⟩ := m
  obtain rfl : control = .read line := h
  cases hread : console.read.1 with
  | ok text => exact congrArg Machine.console (Step.answered hread).eq.symm
  | error why => exact congrArg Machine.console (Step.unanswered hread).eq.symm

theorem run_of_starved {line : Nat} (h : m.control = .read line) (hnil : m.console.upcoming = [])
    (l : Nat) :
    (m.run (l + 1)).console = { m.console with events := .readEnded :: m.console.events } := by
  have hread := Console.read_nil hnil
  have hstep : m.step.control = .abandon ⟨.inputFailed m.console.ended, line⟩ := by
    obtain ⟨store, console, depth, limit, control, stack⟩ := m
    obtain rfl : control = .read line := h
    exact congrArg Machine.control (Step.unanswered (congrArg Prod.fst hread)).eq.symm
  rw [run_succ, (run_of_abandon hstep l).2.1, console_step_of_read h, hread]

theorem run_redirect (more : List Response) {j : Nat}
    (hn : n ≤ (m.run j).console.upcoming.length) :
    (m.redirect n more).run j = (m.run j).redirect n more ∨
      ∃ k < j, (∃ line, (m.run k).control = .read line) ∧ (m.run k).console.upcoming = [] ∧
        (m.redirect n more).run k = (m.run k).redirect n more := by
  have hrun := run_map_or (P := fun _ => True) (g := redirect n more) (fun _ _ => trivial)
    (fun _ _ => step_redirect) (m := m) trivial j
  refine hrun.imp_right ?_
  rintro ⟨k, hk, ⟨line, hcontrol, hpast⟩, hsame⟩
  refine ⟨k, hk, ⟨line, hcontrol⟩, ?_, hsame⟩
  -- A request that is met takes a response, and then fewer than `n` are left.
  by_contra hne
  have hless := Console.length_read hne
  obtain ⟨l, rfl⟩ : ∃ l, j = k + (l + 1) := ⟨j - k - 1, by omega⟩
  have hlater := (grows_run (m.run k).step l).length_le
  rw [← run_succ, ← run_add, console_step_of_read hcontrol] at hlater
  omega

end Machine

namespace Session

variable {n : Nat} {more : List Response} {s : Session} {steps : Nat}

def redirect (n : Nat) (more : List Response) (s : Session) : Session :=
  { s with console := s.console.redirect n more }

/-- How the same work compares with the responses at hand and with others in place of the last `n`,
after the same number of steps: unless a request failed it is the same, and in any case it has
printed and read no less with the others. -/
structure Redirected {ε : Type} (n : Nat) (more : List Response) (r r' : Outcome ε × Session) :
    Prop where
  same : r.2.console.Answered → r' = (r.1, r.2.redirect n more)
  output : r.2.console.output <+: r'.2.console.output
  served : r.2.console.served ≤ r'.2.console.served

theorem Redirected.refl {ε : Type} (o : Outcome ε) (s : Session) :
    Redirected n more (o, s) (o, s.redirect n more) :=
  ⟨fun _ => rfl, List.prefix_refl _, Nat.le_refl _⟩

theorem Redirected.map {ε ε' : Type} {r r' : Outcome ε × Session} (h : Redirected n more r r')
    (f : ε → ε') :
    Redirected n more (r.map (·.mapError f) id) (r'.map (·.mapError f) id) where
  same hanswered := by
    rw [h.same hanswered]
    rfl
  output := h.output
  served := h.served

theorem redirected_proceed (more : List Response) {control : Control}
    (hn : n ≤ (s.proceedWithin steps control).2.console.upcoming.length) :
    Redirected n more (s.proceedWithin steps control)
      ((s.redirect n more).proceedWithin steps control) := by
  have hstart : (s.redirect n more).start control = (s.start control).redirect n more := rfl
  rw [proceedWithin_eq] at hn
  rw [proceedWithin_eq, proceedWithin_eq, hstart]
  rcases Machine.run_redirect more hn with hsame | ⟨k, hk, ⟨line, hcontrol⟩, hnil, hsame⟩
  · rw [hsame]
    exact .refl _ _
  · obtain ⟨l, rfl⟩ : ∃ l, steps = k + (l + 1) := ⟨steps - k - 1, by omega⟩
    have hstarved := Machine.run_of_starved hcontrol hnil l
    have hgrows := Machine.grows_run (((s.start control).redirect n more).run k) (l + 1)
    rw [← Machine.run_add] at hstarved hgrows
    rw [hsame] at hgrows
    refine ⟨fun hanswered => ?_, ?_, ?_⟩
    · have hended : Event.isFailure .readEnded = false := by
        refine hanswered .readEnded ?_
        rw [resume, hstarved]
        exact List.mem_cons_self
      contradiction
    · have houtput := hgrows.output
      rwa [resume, hstarved, Console.output_readEnded]
    · have hserved := hgrows.served
      rwa [resume, hstarved, Console.served_readEnded]

theorem redirected_runAll (more : List Response) (hs : s.console.Answered) {last : Value}
    {program : List Expr}
    (hn : n ≤ (s.runAllWithin steps last program).2.console.upcoming.length) :
    Redirected n more (s.runAllWithin steps last program)
      ((s.redirect n more).runAllWithin steps last program) := by
  induction program generalizing s last with
  | nil => exact .refl _ _
  | cons e rest ih =>
    have hgrows : (s.proceedWithin steps (.evaluate e s.globals)).2.console.Grows
        (s.runAllWithin steps last (e :: rest)).2.console := grows_runAll_cons last e rest
    have he := redirected_proceed more (Nat.le_trans hn hgrows.length_le)
    rcases runAll_cons last e rest with ⟨v, t, ht, heq⟩ | ⟨hne, heq⟩
    · have hattentive := attentive_proceed hs steps e s.globals
      rw [ht] at he hattentive
      rw [heq] at hn ⊢
      cases hattentive with
      | answered hanswered =>
        rw [runAll_of_value (he.same hanswered)]
        exact ih hanswered hn
    · rw [heq]
      let t := s.redirect n more
      have hlater : (t.proceedWithin steps (.evaluate e t.globals)).2.console.Grows
          (t.runAllWithin steps last (e :: rest)).2.console := grows_runAll_cons last e rest
      exact ⟨fun hanswered => runAll_of_eq (he.same hanswered) hne rest,
        he.output.trans hlater.output, Nat.le_trans he.served hlater.served⟩

theorem redirected_runSource (more : List Response) (hs : s.console.Answered) {source : Source}
    (hn : n ≤ (s.runSourceWithin steps source).2.console.upcoming.length) :
    Redirected n more (s.runSourceWithin steps source)
      ((s.redirect n more).runSourceWithin steps source) := by
  cases hprogram : Program.ofSource source with
  | error report =>
    rw [runSourceWithin_of_error hprogram, runSourceWithin_of_error hprogram]
    exact .refl _ _
  | ok program =>
    rw [runSourceWithin_of_ok hprogram] at hn ⊢
    rw [runSourceWithin_of_ok hprogram]
    exact (redirected_runAll more hs hn).map _

end Session

namespace Outcome.Attentive

variable {ε : Type} {refusal : ε → Prop} {c : Console} {o : Outcome ε}

theorem answered_of_error? (h : o.Attentive refusal c) (hfinished : o.Finished)
    (hnot : ∀ e, o.error? = some e → ¬ refusal e) : c.Answered := by
  cases h with
  | answered hconsole => exact hconsole
  | refused _ hrefusal => exact absurd hrefusal (hnot _ rfl)
  | unfinished => exact absurd rfl hfinished

theorem refused_of_error? (h : o.Attentive refusal c) {e : ε} (he : o.error? = some e)
    (hrefusal : refusal e) : c.Refused := by
  cases h with
  | @answered o hconsole hnot =>
    cases o with
    | failed e' =>
      obtain rfl : e' = e := Option.some.inj he
      exact absurd hrefusal (hnot e' rfl)
    | value | unfinished => contradiction
  | refused hconsole | unfinished hconsole => exact hconsole

end Outcome.Attentive

theorem Console.ScriptedBy.served_eq {inputs : List String} {c : Console} (h : c.ScriptedBy inputs)
    (hrefused : c.Refused) : c.served = inputs.length := by
  obtain ⟨e, older, hevents, hfailure, -⟩ := hrefused
  have hspent := h.spent e (by simp [hevents]) hfailure
  rw [h.upcoming, List.map_eq_nil_iff, List.drop_eq_nil_iff] at hspent
  exact Nat.le_antisymm h.served hspent

theorem Console.ScriptedBy.length_upcoming {inputs : List String} {c : Console}
    (h : c.ScriptedBy inputs) : c.upcoming.length = inputs.length - c.served := by
  rw [h.upcoming, List.length_map, List.length_drop]

namespace Playground

variable {steps limit : Nat} {source : String} {inputs : List String} {r : RunResult}

def work (steps : Nat) (source : String) (inputs : List String) (limit : Nat) :
    Outcome Report × Session :=
  (Session.new (.scripted inputs) limit).runSourceWithin steps (.ofText source)

theorem runWithin_eq_some_iff :
    runWithin steps source inputs limit = some r ↔
      let w := work steps source inputs limit
      w.1.Finished ∧ r = ⟨w.2.console.output, w.2.console.served, w.1.error?⟩ := by
  rw [runWithin, work]
  obtain ⟨o, s⟩ := (Session.new (.scripted inputs) limit).runSourceWithin steps (.ofText source)
  cases o <;> simp [Outcome.Finished, Outcome.error?, eq_comm]

theorem redirected_work {n : Nat} (more : List String)
    (hn : n ≤ (work steps source inputs limit).2.console.upcoming.length) :
    Session.Redirected n (more.map .text) (work steps source inputs limit)
      (work steps source (inputs.take (inputs.length - n) ++ more) limit) := by
  have hs : (Session.new (.scripted inputs) limit).console.Answered := List.forall_mem_nil _
  have hnew : (Session.new (.scripted inputs) limit).redirect n (more.map .text) =
      Session.new (.scripted (inputs.take (inputs.length - n) ++ more)) limit := by
    simp [Session.redirect, Session.new, Console.redirect, Console.scripted]
  have hredirected := Session.redirected_runSource (more.map .text) hs hn
  rwa [hnew] at hredirected

/-- A run depends on what it has read and on nothing else that there is to read. If it does not fail
for want of input, it is the same with any other inputs that begin with those it has read. If it
does, it has read them all, and with more of them it prints and reads no less. -/
theorem input_causal (h : runWithin steps source inputs limit = some r) :
    r.inputsConsumed ≤ inputs.length ∧
      ((∀ report, r.error = some report → report.code ≠ 700) →
        ∀ inputs', inputs.take r.inputsConsumed <+: inputs' →
          runWithin steps source inputs' limit = some r) ∧
      ∀ report, r.error = some report → report.code = 700 →
        r.inputsConsumed = inputs.length ∧
          ∀ more steps' r', runWithin steps' source (inputs ++ more) limit = some r' →
            r.output <+: r'.output ∧ inputs.length ≤ r'.inputsConsumed := by
  obtain ⟨hfinished, rfl⟩ := runWithin_eq_some_iff.1 h
  have hs : (Session.new (.scripted inputs) limit).console.Answered := List.forall_mem_nil _
  have hattentive : (work steps source inputs limit).1.Attentive (·.code = 700)
      (work steps source inputs limit).2.console := Session.attentive_runSource hs steps _
  have hscripted : (work steps source inputs limit).2.console.ScriptedBy inputs :=
    Session.stable_runSource (Console.stable_scriptedBy inputs)
      (Console.scriptedBy_scripted inputs) steps _
  refine ⟨hscripted.served, fun hcode inputs' hprefix => ?_, fun report hreport hcode => ?_⟩
  · -- The run never asks beyond the responses that the other list has as well.
    obtain ⟨more, rfl⟩ := hprefix
    have hanswered := hattentive.answered_of_error? hfinished hcode
    have hleft := Nat.le_of_eq hscripted.length_upcoming.symm
    have hsame := (redirected_work more hleft).same hanswered
    rw [Nat.sub_sub_self hscripted.served] at hsame
    rw [runWithin_eq_some_iff, hsame]
    exact ⟨hfinished, rfl⟩
  · -- The run on more responses does the same until this one is refused, and then goes on.
    have hserved := hscripted.served_eq (hattentive.refused_of_error? hreport hcode)
    refine ⟨hserved, fun more steps' r' h' => ?_⟩
    obtain ⟨hfinished', rfl⟩ := runWithin_eq_some_iff.1 h'
    have hmore := @redirected_work steps limit source inputs 0 more (Nat.zero_le _)
    rw [Nat.sub_zero, List.take_length] at hmore
    have hgrows := (Session.settled_runSource steps hfinished').grows
    refine ⟨hmore.output.trans hgrows.output, ?_⟩
    rw [← hserved]
    exact Nat.le_trans hmore.served hgrows.served

theorem input_causal_reads_two :
    let source := "print input\nprint input"
    let ended : Report := ⟨700, "input provider failed: no more scripted input", some 2,
      some "print input"⟩
    runWithin 10 source ["a", "b", "c"] 10 = some ⟨["a", "b"], 2, none⟩ ∧
      runWithin 10 source ["a", "b", "d", "e"] 10 = some ⟨["a", "b"], 2, none⟩ ∧
      runWithin 10 source ["a"] 10 = some ⟨["a"], 1, some ended⟩ ∧ ["a"] <+: ["a", "b"] ∧ 1 ≤ 2 :=
  have h : runWithin 10 "print input\nprint input" ["a", "b", "c"] 10 =
      some ⟨["a", "b"], 2, none⟩ := by decide +kernel
  have hended : runWithin 10 "print input\nprint input" ["a"] 10 =
      some ⟨["a"], 1, some ⟨700, "input provider failed: no more scripted input", some 2,
        some "print input"⟩⟩ := by decide +kernel
  have hmore := ((input_causal hended).2.2 _ rfl rfl).2 ["b", "c"] 10 _ h
  ⟨h, (input_causal h).2.1 nofun _ ⟨["d", "e"], rfl⟩, hended, hmore⟩

end Playground

end PrefixScript
