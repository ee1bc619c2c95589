import PrefixScript.Session

namespace PrefixScript

attribute [simp] Move.value Move.fault

namespace Machine

inductive Step : Machine → Machine → Prop
  | refused {store console depth limit e scope stack} : limit ≤ depth →
    Step ⟨store, console, depth, limit, .evaluate e scope, stack⟩
      ⟨store, console, depth, limit, .abandon ⟨.tooDeep limit, e.line⟩, stack⟩
  | entered {store console depth limit e scope stack} : depth < limit →
    Step ⟨store, console, depth, limit, .evaluate e scope, stack⟩
      (go (e.enter store scope).2 console depth limit stack (e.enter store scope).1)
  | resumed {store console depth limit v frame stack} :
    Step ⟨store, console, depth, limit, .deliver v, frame :: stack⟩
      (go (frame.resume store v).2 console (depth - 1) limit stack (frame.resume store v).1)
  | answered {store console depth limit line text stack} : console.read.1 = .ok text →
    Step ⟨store, console, depth, limit, .read line, stack⟩
      ⟨store, console.read.2, depth, limit, .deliver (.ofInput text), stack⟩
  | unanswered {store console depth limit line why stack} : console.read.1 = .error why →
    Step ⟨store, console, depth, limit, .read line, stack⟩
      ⟨store, console.read.2, depth, limit, .abandon ⟨.inputFailed why, line⟩, stack⟩
  | printed {store console depth limit text stack} :
    Step ⟨store, console, depth, limit, .print text, stack⟩
      ⟨store, console.print text, depth, limit, .deliver .null, stack⟩
  | unwound {store console depth limit f frame stack} :
    Step ⟨store, console, depth, limit, .abandon f, frame :: stack⟩
      ⟨store, console, depth - 1, limit, .abandon f, stack⟩
  | done {m} : m.isDone = true → Step m m

variable {m m' : Machine}

theorem step_of_isDone (h : m.isDone = true) : m.step = m := by
  obtain ⟨store, console, depth, limit, control, stack⟩ := m
  cases stack with
  | nil => cases control <;> first | rfl | contradiction
  | cons => cases control <;> contradiction

theorem Step.eq (h : Step m m') : m' = m.step := by
  cases h with
  | refused h => simp only [step, if_pos h]
  | entered h => simp only [step, if_neg (Nat.not_le_of_lt h)]
  | resumed | printed | unwound => rfl
  | @answered _ console _ _ _ text _ h =>
    have hread : console.read = (.ok text, console.read.2) := Prod.ext h rfl
    rw [step, hread]
  | @unanswered _ console _ _ _ why _ h =>
    have hread : console.read = (.error why, console.read.2) := Prod.ext h rfl
    rw [step, hread]
  | done h => exact (step_of_isDone h).symm

theorem step_spec (m : Machine) : Step m m.step := by
  suffices h : ∃ m', Step m m' by
    obtain ⟨m', hm⟩ := h
    exact hm.eq ▸ hm
  obtain ⟨store, console, depth, limit, control, stack⟩ := m
  cases control with
  | evaluate e scope =>
    rcases Nat.lt_or_ge depth limit with h | h
    · exact ⟨_, .entered h⟩
    · exact ⟨_, .refused h⟩
  | deliver v =>
    cases stack with
    | nil => exact ⟨_, .done rfl⟩
    | cons => exact ⟨_, .resumed⟩
  | read line =>
    cases h : console.read.1 with
    | ok => exact ⟨_, .answered h⟩
    | error => exact ⟨_, .unanswered h⟩
  | print text => exact ⟨_, .printed⟩
  | abandon f =>
    cases stack with
    | nil => exact ⟨_, .done rfl⟩
    | cons => exact ⟨_, .unwound⟩

theorem run_of_isDone (h : m.isDone = true) (n : Nat) : m.run n = m := by
  cases n with
  | zero => rfl
  | succ n => rw [run, if_pos h]

theorem run_succ (m : Machine) (n : Nat) : m.run (n + 1) = m.step.run n := by
  rw [run]
  split
  · next h => rw [step_of_isDone h, run_of_isDone h]
  · rfl

theorem run_preserves {P : Machine → Prop} (hstep : ∀ m, P m → P m.step) (h : P m) (n : Nat) :
    P (m.run n) := by
  induction n generalizing m with
  | zero => exact h
  | succ n ih =>
    rw [run_succ]
    exact ih (hstep m h)

theorem step_eq_of_step {g : Machine → Machine} (h : ∀ m', Step m m' → Step (g m) (g m')) :
    (g m).step = g m.step :=
  (h m.step m.step_spec).eq.symm

/-- A change of the machine that the next step does not notice unless it halts is noticed by no run
before the first step that does. -/
theorem run_map_or {P H : Machine → Prop} {g : Machine → Machine} (hP : ∀ m, P m → P m.step)
    (hg : ∀ m, P m → ¬ H m → (g m).step = g m.step) (h : P m) (n : Nat) :
    (g m).run n = g (m.run n) ∨ ∃ k < n, H (m.run k) ∧ (g m).run k = g (m.run k) := by
  induction n generalizing m with
  | zero => exact .inl rfl
  | succ n ih =>
    by_cases hm : H m
    · exact .inr ⟨0, Nat.succ_pos n, hm, rfl⟩
    · have hstep := hg m h hm
      rcases ih (hP m h) with hsame | ⟨k, hk, hH, hsame⟩
      · left
        rw [run_succ, run_succ, hstep, hsame]
      · refine .inr ⟨k + 1, Nat.succ_lt_succ hk, ?_, ?_⟩
        · rwa [run_succ]
        · rw [run_succ, run_succ, hstep, hsame]

theorem run_map {P : Machine → Prop} {g : Machine → Machine} (hP : ∀ m, P m → P m.step)
    (hg : ∀ m, P m → (g m).step = g m.step) (h : P m) (n : Nat) : (g m).run n = g (m.run n) := by
  rcases run_map_or (H := fun _ => False) hP (fun m hm _ => hg m hm) h n with h | ⟨_, _, hF, _⟩
  · exact h
  · exact absurd hF id

end Machine

@[simp] def Move.Meets (C : Control → Prop) (F : Frame → Prop) : Move → Prop
  | .leave next => C next
  | .hold frame next => F frame ∧ C next

namespace Machine

structure Invariant (S : Store → Prop) (C : Control → Prop) (F : Frame → Prop) : Prop where
  enter : ∀ {s e i}, S s → C (.evaluate e i) →
    (e.enter s i).1.Meets C F ∧ S (e.enter s i).2
  resume : ∀ {s f v}, S s → F f → C (.deliver v) →
    (f.resume s v).1.Meets C F ∧ S (f.resume s v).2
  refused : ∀ {e i limit}, C (.evaluate e i) → C (.abandon ⟨.tooDeep limit, e.line⟩)
  answered : ∀ {line text}, C (.read line) → C (.deliver (.ofInput text))
  unanswered : ∀ {line why}, C (.read line) → C (.abandon ⟨.inputFailed why, line⟩)
  printed : ∀ {text}, C (.print text) → C (.deliver .null)

def Meets (S : Store → Prop) (C : Control → Prop) (F : Frame → Prop) (m : Machine) : Prop :=
  S m.store ∧ C m.control ∧ ∀ f ∈ m.stack, F f

variable {S : Store → Prop} {C : Control → Prop} {F : Frame → Prop} {m : Machine}

theorem Meets.go {store : Store} {console : Console} {depth limit : Nat} {stack : List Frame}
    {move : Move} (hs : S store) (hm : move.Meets C F) (hf : ∀ f ∈ stack, F f) :
    (go store console depth limit stack move).Meets S C F := by
  cases move with
  | leave next => exact ⟨hs, hm, hf⟩
  | hold frame next => exact ⟨hs, hm.2, by simpa [Machine.go] using ⟨hm.1, hf⟩⟩

theorem Invariant.step (inv : Invariant S C F) (h : m.Meets S C F) :
    m.step.Meets S C F := by
  have hstep := m.step_spec
  generalize m.step = m' at hstep
  obtain ⟨hs, hc, hf⟩ := h
  cases hstep with
  | refused => exact ⟨hs, inv.refused hc, hf⟩
  | entered =>
    have he := inv.enter hs hc
    exact Meets.go he.2 he.1 hf
  | resumed =>
    rw [List.forall_mem_cons] at hf
    have hr := inv.resume hs hf.1 hc
    exact Meets.go hr.2 hr.1 hf.2
  | answered => exact ⟨hs, inv.answered hc, hf⟩
  | unanswered => exact ⟨hs, inv.unanswered hc, hf⟩
  | printed => exact ⟨hs, inv.printed hc, hf⟩
  | unwound => exact ⟨hs, hc, (List.forall_mem_cons.1 hf).2⟩
  | done => exact ⟨hs, hc, hf⟩

theorem Invariant.run (inv : Invariant S C F) (h : m.Meets S C F) (n : Nat) :
    (m.run n).Meets S C F :=
  run_preserves (P := Meets S C F) (fun _ => inv.step) h n

def mapStore (g : Store → Store) (m : Machine) : Machine :=
  { m with store := g m.store }

/-- A change of the store that nothing notices: what comes next is the same with it and without it,
and the change stays. -/
structure Unnoticed (S : Store → Prop) (C : Control → Prop) (F : Frame → Prop)
    (g : Store → Store) : Prop where
  enter : ∀ {s e i}, S s → C (.evaluate e i) →
    e.enter (g s) i = ((e.enter s i).1, g (e.enter s i).2)
  resume : ∀ {s f v}, S s → F f → C (.deliver v) →
    f.resume (g s) v = ((f.resume s v).1, g (f.resume s v).2)

variable {g : Store → Store}

theorem mapStore_go (store : Store) (console : Console) (depth limit : Nat) (stack : List Frame)
    (move : Move) :
    go (g store) console depth limit stack move =
      (go store console depth limit stack move).mapStore g := by
  cases move <;> rfl

theorem Unnoticed.step (hg : Unnoticed S C F g) (h : m.Meets S C F) :
    (m.mapStore g).step = m.step.mapStore g := by
  refine step_eq_of_step fun m' hstep => ?_
  obtain ⟨hs, hc, hf⟩ := h
  cases hstep with
  | refused hfull => exact .refused hfull
  | @entered store console depth limit e scope stack hfree =>
    have hentered := @Step.entered (g store) console depth limit e scope stack hfree
    rwa [hg.enter hs hc, mapStore_go] at hentered
  | @resumed store console depth limit v frame stack =>
    have hresumed := @Step.resumed (g store) console depth limit v frame stack
    rwa [hg.resume hs (hf frame List.mem_cons_self) hc, mapStore_go] at hresumed
  | answered htext => exact .answered htext
  | unanswered hwhy => exact .unanswered hwhy
  | printed => exact .printed
  | unwound => exact .unwound
  | done hdone => exact .done hdone

theorem Unnoticed.run (hg : Unnoticed S C F g) (inv : Invariant S C F) (h : m.Meets S C F)
    (n : Nat) : (m.mapStore g).run n = (m.run n).mapStore g :=
  run_map (P := Meets S C F) (fun _ => inv.step) (fun _ => hg.step) h n

end Machine

namespace Session

def start (s : Session) (control : Control) : Machine :=
  ⟨s.store, s.console, s.depth, s.limit, control, []⟩

def resume (s : Session) (m : Machine) : Session :=
  { s with store := m.store, console := m.console, depth := m.depth }

theorem proceedWithin_eq (s : Session) (steps : Nat) (control : Control) :
    s.proceedWithin steps control =
      (((s.start control).run steps).outcome, s.resume ((s.start control).run steps)) :=
  rfl

theorem applyWithin_eq (s : Session) (steps : Nat) (callee : Value) (args : List Value)
    (line : Nat) :
    s.applyWithin steps callee args line =
      { s with store := (callee.apply s.store args line).2 }.proceedWithin steps
        (callee.apply s.store args line).1 :=
  rfl

def mapStore (g : Store → Store) (s : Session) : Session :=
  { s with store := g s.store }

theorem proceedWithin_mapStore {S : Store → Prop} {C : Control → Prop} {F : Frame → Prop}
    {g : Store → Store} (hg : Machine.Unnoticed S C F g) (inv : Machine.Invariant S C F)
    {s : Session} {control : Control} (h : (s.start control).Meets S C F) (steps : Nat) :
    (s.mapStore g).proceedWithin steps control =
      ((s.proceedWithin steps control).1, (s.proceedWithin steps control).2.mapStore g) := by
  have hstart : (s.mapStore g).start control = (s.start control).mapStore g := rfl
  rw [proceedWithin_eq, hstart, hg.run inv h]
  rfl

end Session

end PrefixScript
