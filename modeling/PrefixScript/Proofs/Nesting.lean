import PrefixScript.Proofs.Calls

namespace PrefixScript

def Control.isActing : Control → Bool
  | .read _ | .print _ => true
  | .evaluate _ _ | .deliver _ | .abandon _ => false

def Move.Calm : Move → Prop
  | .leave _ => True
  | .hold _ next => next.isActing = false

section Moves

variable (s : Store) (i : ScopeId)

theorem Value.isActing_apply (callee : Value) (args : List Value) (line : Nat) :
    (callee.apply s args line).1.isActing = false := by
  cases callee with
  | closure =>
    simp only [Value.apply]
    split <;> rfl
  | builtin =>
    simp only [Value.apply]
    split <;> rfl
  | null | number | text | list => rfl

theorem Form.calm_count (form : Form) (delta : Float) (target : Expr) :
    (form.count delta s target i).1.Calm := by
  simp only [Form.count]
  split
  · trivial
  · split <;> trivial

theorem Form.calm_enter (form : Form) (operands : List Expr) (line : Nat) :
    (form.enter s operands line i).1.Calm := by
  unfold Form.enter
  split
  case h_1 => split <;> trivial
  case h_2 => split <;> trivial
  case h_9 => exact calm_count ..
  case h_10 => exact calm_count ..
  all_goals trivial

theorem Expr.calm_enter (e : Expr) : (e.enter s i).1.Calm := by
  unfold Expr.enter
  split
  case h_5 =>
    split
    · exact Form.calm_enter ..
    · rfl
  all_goals trivial

theorem Frame.calm_call (callee : Value) (args : List Value) (operands : List Expr) (line : Nat) :
    (Frame.call s callee args operands line i).1.Calm := by
  cases operands with
  | nil => exact Value.isActing_apply ..
  | cons => rfl

theorem Frame.calm_resume (f : Frame) (v : Value) : (f.resume s v).1.Calm := by
  cases f with
  | callee | argument => exact calm_call ..
  | test =>
    simp only [Frame.resume]
    split
    · rfl
    · trivial
  | sequence rest =>
    cases rest with
    | nil => trivial
    | cons => rfl
  | result | set | print => trivial
  | choice | initial | round => rfl

end Moves

namespace Machine

/-- The evaluations that have begun and not ended: those that wait, and one that is let in, asks or
prints. -/
def nesting (m : Machine) : Nat :=
  match m.control with
  | .evaluate _ _ => if m.depth < m.limit then m.depth + 1 else m.depth
  | .read _ | .print _ => m.depth + 1
  | .deliver _ | .abandon _ => m.depth

structure Balanced (m : Machine) : Prop where
  depth : m.depth = m.stack.length
  nesting : m.nesting ≤ m.limit

variable {m m' : Machine}

theorem nesting_le_succ (m : Machine) : m.nesting ≤ m.depth + 1 := by
  unfold nesting
  split
  · split <;> omega
  · exact Nat.le_refl _
  · exact Nat.le_refl _
  · exact Nat.le_succ _
  · exact Nat.le_succ _

theorem nesting_le_limit (h : m.control.isActing = false) (hle : m.depth ≤ m.limit) :
    m.nesting ≤ m.limit := by
  obtain ⟨store, console, depth, limit, control, stack⟩ := m
  cases control with
  | evaluate =>
    simp only [nesting] at hle ⊢
    split <;> omega
  | deliver | abandon => exact hle
  | read | print => contradiction

theorem Balanced.go {store : Store} {console : Console} {limit : Nat} {stack : List Frame}
    {move : Move} (hmove : move.Calm) (hlt : stack.length < limit) :
    (go store console stack.length limit stack move).Balanced := by
  cases move with
  | leave next => exact ⟨rfl, Nat.le_trans (nesting_le_succ _) hlt⟩
  | hold frame next => exact ⟨rfl, nesting_le_limit hmove hlt⟩

theorem Step.balanced (h : Step m m') (hm : m.Balanced) : m'.Balanced := by
  obtain ⟨hdepth, hnesting⟩ := hm
  cases h with
  | refused hfull =>
    simp only [nesting, if_neg (Nat.not_lt_of_le hfull)] at hnesting
    exact ⟨hdepth, hnesting⟩
  | @entered _ _ depth _ _ _ stack hfree =>
    obtain rfl : depth = stack.length := hdepth
    exact .go (Expr.calm_enter ..) hfree
  | @resumed _ _ depth _ _ _ stack =>
    obtain rfl : depth = stack.length + 1 := hdepth
    exact .go (Frame.calm_resume ..) hnesting
  | answered | unanswered | printed => exact ⟨hdepth, Nat.le_of_succ_le hnesting⟩
  | @unwound _ _ depth _ _ _ stack =>
    obtain rfl : depth = stack.length + 1 := hdepth
    exact ⟨rfl, Nat.le_of_succ_le hnesting⟩
  | done => exact ⟨hdepth, hnesting⟩

theorem Balanced.run (h : m.Balanced) (n : Nat) : (m.run n).Balanced :=
  run_preserves (P := Balanced) (fun m => m.step_spec.balanced) h n

theorem stack_eq_nil_of_isDone (h : m.isDone = true) : m.stack = [] := by
  obtain ⟨store, console, depth, limit, control, stack⟩ := m
  cases stack with
  | nil => rfl
  | cons => cases control <;> contradiction

theorem Balanced.depth_eq_zero (h : m.Balanced) (hdone : m.isDone = true) : m.depth = 0 := by
  rw [h.depth, stack_eq_nil_of_isDone hdone, List.length_nil]

end Machine

namespace Session

/-- The machines that a call goes through. -/
inductive Moment : Session → Call → Machine → Prop
  | evaluate {s e scope} (k : Nat) :
    Moment s (.evaluate e scope) ((s.start (.evaluate e scope)).run k)
  | apply {s callee args line} (k : Nat) :
    Moment s (.apply callee args line)
      (({ s with store := (callee.apply s.store args line).2 }.start
        (callee.apply s.store args line).1).run k)
  | first {s e rest} (k : Nat) :
    Moment s (.program (e :: rest)) ((s.start (.evaluate e s.globals)).run k)
  | later {s e rest steps v t m} : s.proceedWithin steps (.evaluate e s.globals) = (.value v, t) →
    Moment t (.program rest) m → Moment s (.program (e :: rest)) m
  | source {s source program m} : Program.ofSource source = .ok program →
    Moment s (.program program) m → Moment s (.source source) m

/-- The sessions that a host has at hand who begins with a new one: it has made calls, which came to
an end in one way or another, and between them it has done with scopes and console as it likes. -/
inductive Hosted (limit : Nat) : Session → Prop
  | new (console : Console) : Hosted limit (.new console limit)
  | call {s steps call} : Hosted limit s → (s.callWithin steps call).1.Finished →
    Hosted limit (s.callWithin steps call).2
  | host {s} (store : Store) (console : Console) : Hosted limit s →
    Hosted limit { s with store, console }

def renewed (console : Console) (limit : Nat) (store : Store) (globals : ScopeId) : Session :=
  { new console limit with store, globals }

structure Idle (limit : Nat) (s : Session) : Prop where
  depth : s.depth = 0
  limit : s.limit = limit

variable {limit : Nat} {s : Session}

theorem Idle.eq_renewed (h : s.Idle limit) :
    s = renewed s.console limit s.store s.globals := by
  obtain ⟨store, console, globals, _, _⟩ := s
  obtain ⟨rfl, rfl⟩ := h
  rfl

theorem Idle.host (h : s.Idle limit) (store : Store) (console : Console) :
    Idle limit { s with store, console } :=
  ⟨h.depth, h.limit⟩

theorem Idle.balanced (h : s.Idle limit) {control : Control} (hcontrol : control.isActing = false) :
    (s.start control).Balanced := by
  have hdepth : (s.start control).depth = 0 := h.depth
  exact ⟨hdepth, Machine.nesting_le_limit hcontrol (hdepth ▸ Nat.zero_le _)⟩

theorem Idle.nesting_le (h : s.Idle limit) {control : Control} (hcontrol : control.isActing = false)
    (k : Nat) : ((s.start control).run k).nesting ≤ limit := by
  have hnesting := ((h.balanced hcontrol).run k).nesting
  rwa [Machine.limit_run, show (s.start control).limit = limit from h.limit] at hnesting

variable {steps : Nat}

theorem Idle.proceed (h : s.Idle limit) {control : Control} (hcontrol : control.isActing = false)
    (hfinished : (s.proceedWithin steps control).1.Finished) :
    (s.proceedWithin steps control).2.Idle limit where
  depth := ((h.balanced hcontrol).run steps).depth_eq_zero
    (Machine.finished_outcome_iff.1 hfinished)
  limit := h.limit

theorem Idle.runAll (h : s.Idle limit) {last : Value} {program : List Expr}
    (hfinished : (s.runAllWithin steps last program).1.Finished) :
    (s.runAllWithin steps last program).2.Idle limit :=
  runAll_preserves (R := fun r => r.1.Finished → r.2.Idle limit)
    (fun _ _ _ _ ht => (ht nofun).proceed rfl) (fun _ => h) hfinished

theorem Idle.call (h : s.Idle limit) {call : Call}
    (hfinished : (s.callWithin steps call).1.Finished) :
    (s.callWithin steps call).2.Idle limit := by
  cases call with
  | evaluate e scope => exact h.proceed rfl ((Outcome.finished_mapError _ _).1 hfinished)
  | apply callee args line =>
    have happlied := h.host (callee.apply s.store args line).2 s.console
    have hcontrol := Value.isActing_apply s.store callee args line
    exact happlied.proceed hcontrol ((Outcome.finished_mapError _ _).1 hfinished)
  | program program => exact h.runAll ((Outcome.finished_mapError _ _).1 hfinished)
  | source source =>
    simp only [callWithin] at hfinished ⊢
    cases hp : Program.ofSource source with
    | error report =>
      rw [runSourceWithin_of_error hp]
      exact h
    | ok program =>
      rw [runSourceWithin_of_ok hp] at hfinished ⊢
      have hprogram := (Outcome.finished_mapError _ _).1 hfinished
      exact h.runAll ((Outcome.finished_mapError _ _).1 hprogram)

theorem Hosted.idle (h : s.Hosted limit) : s.Idle limit := by
  induction h with
  | new => exact ⟨rfl, rfl⟩
  | call _ hfinished ih => exact ih.call hfinished
  | host store console _ ih => exact ih.host store console

theorem Moment.nesting_le {call : Call} {m : Machine} (hm : s.Moment call m) (h : s.Idle limit) :
    m.nesting ≤ limit := by
  induction hm with
  | evaluate k | first k => exact h.nesting_le rfl k
  | @apply s callee args line k =>
    have happlied := h.host (callee.apply s.store args line).2 s.console
    exact happlied.nesting_le (Value.isActing_apply ..) k
  | @later s e _ steps v t _ hv _ ih =>
    have hfinished : (s.proceedWithin steps (.evaluate e s.globals)).1.Finished := by
      rw [hv]
      nofun
    have ht := h.proceed rfl hfinished
    rw [hv] at ht
    exact ih ht
  | source _ _ ih => exact ih h

/-- Whatever a host has done with a session: the limit holds at every moment of the next call, no
evaluation waits when the call ends, and the call ends as it does in a new session that is given the
same global scope and the same console. -/
theorem leaves_no_residue (h : s.Hosted limit) (call : Call) :
    (∀ m, s.Moment call m → m.nesting ≤ limit) ∧
      (∀ steps, (s.callWithin steps call).1.Finished →
        (s.callWithin steps call).2.depth = 0) ∧
      ∀ steps, s.callWithin steps call =
        (renewed s.console limit s.store s.globals).callWithin steps call := by
  refine ⟨fun m hm => hm.nesting_le h.idle, fun steps hf => (h.idle.call hf).depth, fun steps => ?_⟩
  rw [← h.idle.eq_renewed]

def callsText : Call :=
  .program [.list [.list [.list [.atom ⟨.text "a", 1⟩] 1] 1] 1]

theorem leaves_no_residue_callsText :
    let s := ((Session.new (.scripted []) 4).callWithin 20 callsText).2
    s.Hosted 4 ∧
      ((Session.new (.scripted []) 4).callWithin 20 callsText).1 =
        .failed (.fault ⟨.notCallable .text, 1⟩) ∧
      (s.callWithin 20 callsText).1 = .failed (.fault ⟨.notCallable .text, 1⟩) ∧
      (s.callWithin 20 callsText).2.depth = 0 :=
  have hs := Hosted.call (.new (.scripted []) : Hosted 4 _)
    (show ((Session.new (.scripted []) 4).callWithin 20 callsText).1.Finished from nofun)
  ⟨hs, rfl, rfl, (leaves_no_residue hs callsText).2.1 20 nofun⟩

end Session

end PrefixScript
