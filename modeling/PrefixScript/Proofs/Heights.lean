import PrefixScript.Proofs.Faults
import PrefixScript.Proofs.Nesting
import PrefixScript.Proofs.Termination
import PrefixScript.Proofs.Trees

namespace PrefixScript

namespace Expr

def height : Expr → Nat :=
  fold (fun _ => 1) fun parts _ => parts.foldr max 0 + 1

theorem height_list_le_iff {items : List Expr} {line n : Nat} :
    height (.list items line) ≤ n + 1 ↔ ∀ e ∈ items, e.height ≤ n := by
  rw [height, fold_list, Nat.add_le_add_iff_right]
  induction items with
  | nil => simp
  | cons e es ih => rw [List.map_cons, List.foldr_cons, Nat.max_le, ih, List.forall_mem_cons]

theorem height_pos (e : Expr) : 0 < e.height := by
  cases e with
  | atom => exact Nat.one_pos
  | list =>
    rw [height, fold_list]
    exact Nat.succ_pos _

theorem height_le_of_mem_active {e d : Expr} {n : Nat} (h : e.height ≤ n + 1) (hd : d ∈ e.active) :
    d.height ≤ n := by
  cases e with
  | atom => contradiction
  | list => exact height_list_le_iff.1 h d (mem_of_mem_active hd)

theorem height_le_nesting (e : Expr) : e.height ≤ e.nesting + 1 := by
  induction e using induction with
  | atom => exact Nat.le_refl 1
  | list items line ih =>
    obtain ⟨-, hitems⟩ := nesting_list_le_iff.1 (Nat.le_refl (0 + nesting (.list items line)))
    refine height_list_le_iff.2 fun e he => Nat.le_trans (ih e he) ?_
    simpa [Nat.add_comm] using hitems e he

end Expr

theorem ReadFault.code_ne_602 (f : ReadFault) : f.code ≠ 602 := by
  cases f <;> simp [code]

theorem Inner.nesting_le {as : List Atom} {es : List Expr} (h : Inner as es) {n : Nat}
    (hroom : Reader.Room n as) : ∀ e ∈ es, n + e.nesting ≤ maxNesting := by
  induction h generalizing n with
  | nil => nofun
  | @leaf a as es ha _ ih =>
    have htail : Reader.Room n as :=
      .tail [a] hroom (by simp [Atom.opens_leaf ha, Atom.closes_leaf ha])
    exact List.forall_mem_cons.2 ⟨hroom.le, ih htail⟩
  | @brackets b m k as es bs fs hin _ ihin ih =>
    obtain ⟨hinside, hafter⟩ := hroom.brackets hin.count_opens
    refine List.forall_mem_cons.2 ⟨?_, ih hafter⟩
    cases b with
    | round => exact Expr.nesting_list_le_iff.2 ⟨hinside.le, ihin hinside⟩
    | square =>
      exact Expr.nesting_list_le_iff.2
        ⟨hinside.le, List.forall_mem_cons.2 ⟨hinside.le, ihin hinside⟩⟩

theorem Derives.height_le {as : List Atom} {es : List Expr} (h : Derives as es)
    (hroom : Reader.Room 0 as) : ∀ e ∈ es, e.height ≤ maxNesting + 2 := by
  have hinner : ∀ {as es}, Inner as es → Reader.Room 0 as → ∀ e ∈ es, e.height ≤ maxNesting + 1 :=
    fun {as es} h hroom e he => by
      have hnesting := h.nesting_le hroom e he
      rw [Nat.zero_add] at hnesting
      exact Nat.le_trans e.height_le_nesting (Nat.succ_le_succ hnesting)
  induction h with
  | nil => nofun
  | @statement name line as es bs fs harity hin _ ih =>
    have hleaf := Reader.not_isBracket_of_mem harity line
    have hbehind : Reader.Room 0 (as ++ bs) :=
      .tail [⟨.symbol name, line⟩] hroom (by simp [Atom.opens_leaf hleaf, Atom.closes_leaf hleaf])
    have hitems := hinner hin (hbehind.head bs)
    refine List.forall_mem_cons.2 ⟨Expr.height_list_le_iff.2 ?_, ih (.tail as hbehind ?_)⟩
    · exact List.forall_mem_cons.2 ⟨Nat.succ_le_succ (Nat.zero_le _), hitems⟩
    · simp [hin.count_opens]
  | @inner as e bs fs hin _ _ ih =>
    refine List.forall_mem_cons.2 ⟨?_, ih (.tail as hroom (by simp [hin.count_opens]))⟩
    exact Nat.le_succ_of_le (hinner hin (hroom.head bs) e List.mem_cons_self)

theorem Program.height_le {source : Source} {program : List Expr}
    (h : ofSource source = .ok program) : ∀ e ∈ program, e.height ≤ maxNesting + 2 := by
  obtain ⟨hderives, hshallow⟩ := derives_of_ofAtoms ((ofSource_eq_ok_iff source).1 h)
  exact hderives.height_le hshallow

def Machine.applies (m : Machine) : Bool :=
  match m.control, m.stack with
  | .deliver v, frame :: _ => frame.applies v
  | _, _ => false

def Control.UpTo (n : Nat) (c : Control) : Prop :=
  ∀ e ∈ c.expr?, e.height ≤ n

def Frame.UpTo (n : Nat) (f : Frame) : Prop :=
  ∀ e ∈ f.exprs, e.height ≤ n

theorem Control.UpTo.mono {n k : Nat} {c : Control} (h : c.UpTo n) (hle : n ≤ k) : c.UpTo k :=
  fun e he => Nat.le_trans (h e he) hle

section Moves

variable {n : Nat} (s : Store)

theorem Expr.upTo_enter (i : ScopeId) {e : Expr} (h : e.height ≤ n + 1) :
    (e.enter s i).1.Meets (·.UpTo n) (·.UpTo n) :=
  (e.parts_enter s i).mono (fun _ hc d hd => height_le_of_mem_active h (hc d hd))
    fun _ hf d hd => height_le_of_mem_active h (hf.1 d hd)

theorem Frame.upTo_resume {f : Frame} {v : Value} (h : f.UpTo n) (hcalm : f.applies v = false) :
    (f.resume s v).1.Meets (·.UpTo n) (·.UpTo n) := by
  refine (f.parts_resume s v).mono (fun c hc d hd => ?_) fun g hg d hd => h d (hg.1 d hd)
  rcases hc d hd with hmem | happlies
  · exact h d hmem
  · exact absurd happlies (by simp [hcalm])

end Moves

namespace Machine

/-- Waiting evaluations, innermost first, so that a level is left for each level of what they may
still come to. -/
inductive Roomy (limit : Nat) : Nat → List Frame → Prop
  | nil {depth} : Roomy limit depth []
  | cons {depth frame stack} : frame.UpTo (limit - (depth + 1)) → Roomy limit depth stack →
    Roomy limit (depth + 1) (frame :: stack)

/-- A machine that cannot hit the limit as long as it applies no closure. -/
structure HasRoom (m : Machine) : Prop where
  control : m.control.UpTo (m.limit - m.depth)
  stack : Roomy m.limit m.depth m.stack
  fault : ∀ f, m.control = .abandon f → ¬ f.TooDeep

theorem not_tooDeep_of_raisesOn {L : Nat → Prop} {c : Control} (h : c.RaisesOn L) (f : Fault)
    (hf : c = .abandon f) : ¬ f.TooDeep := by
  rintro ⟨limit, hcause⟩
  subst hf
  have hown := h.own
  rw [hcause] at hown
  contradiction

variable {m m' : Machine}

theorem HasRoom.go {L : Nat → Prop} {store : Store} {console : Console} {depth limit : Nat}
    {stack : List Frame} {move : Move} (hstack : Roomy limit depth stack)
    (hmove : move.Meets (·.UpTo (limit - (depth + 1))) (·.UpTo (limit - (depth + 1))))
    (hraises : move.Meets (·.RaisesOn L) (·.On L)) :
    (go store console depth limit stack move).HasRoom := by
  cases move with
  | leave next =>
    have hle : limit - (depth + 1) ≤ limit - depth := Nat.sub_le_sub_left (Nat.le_succ depth) limit
    have hnext : next.UpTo (limit - (depth + 1)) := hmove
    exact ⟨hnext.mono hle, hstack, not_tooDeep_of_raisesOn hraises⟩
  | hold frame next => exact ⟨hmove.2, .cons hmove.1 hstack, not_tooDeep_of_raisesOn hraises.2⟩

theorem Step.hasRoom (h : Step m m') (hm : m.HasRoom) (hcalm : m.applies = false) :
    m'.HasRoom := by
  obtain ⟨hcontrol, hstack, hfault⟩ := hm
  have hon : ∀ f : Frame, f.On fun _ => True := fun f => by cases f <;> trivial
  cases h with
  | @refused _ _ depth limit e _ _ hfull =>
    have hheight : e.height ≤ limit - depth := hcontrol e rfl
    have := e.height_pos
    omega
  | @entered store _ depth limit e i _ hfree =>
    have hheight : e.height ≤ limit - (depth + 1) + 1 := by
      have : e.height ≤ limit - depth := hcontrol e rfl
      omega
    exact .go hstack (e.upTo_enter store i hheight)
      (Expr.raisesOn_enter (L := fun _ => True) store i fun _ _ => trivial)
  | @resumed store _ _ _ v frame =>
    cases hstack with
    | cons hframe hstack =>
      exact .go hstack (Frame.upTo_resume store hframe hcalm)
        (Frame.raisesOn_resume store (hon frame) v)
  | answered | printed =>
    exact ⟨nofun, hstack, not_tooDeep_of_raisesOn (L := fun _ => True) trivial⟩
  | @unanswered _ _ _ _ line why =>
    refine ⟨nofun, hstack, fun f hf => ?_⟩
    obtain rfl : ⟨.inputFailed why, line⟩ = f := Control.abandon.inj hf
    rintro ⟨limit, hcause⟩
    contradiction
  | unwound =>
    cases hstack with
    | cons _ hstack => exact ⟨nofun, hstack, hfault⟩
  | done => exact ⟨hcontrol, hstack, hfault⟩

theorem HasRoom.run (h : m.HasRoom) (n : Nat) :
    (m.run n).HasRoom ∨ ∃ k, (m.run k).applies = true := by
  induction n generalizing m with
  | zero => exact .inl h
  | succ n ih =>
    cases hm : m.applies with
    | true => exact .inr ⟨0, hm⟩
    | false =>
      rw [run_succ]
      refine (ih (m.step_spec.hasRoom h hm)).imp id fun ⟨k, hk⟩ => ⟨k + 1, ?_⟩
      rwa [run_succ]

theorem applies_of_isDone (h : m.isDone = true) : m.applies = false := by
  obtain ⟨store, console, depth, limit, control, stack⟩ := m
  obtain rfl := stack_eq_nil_of_isDone h
  cases control <;> rfl

theorem applies_run {n : Nat} (hdone : (m.run n).isDone = true)
    (h : ∀ k < n, (m.run k).applies = false) (k : Nat) : (m.run k).applies = false := by
  rcases Nat.lt_or_ge k n with hk | hk
  · exact h k hk
  · rw [run_of_le hdone hk]
    exact applies_of_isDone hdone

end Machine

namespace Session

def Applies (s : Session) (call : Call) : Prop :=
  ∃ m, s.Moment call m ∧ m.applies = true

variable {s : Session} {steps : Nat}

theorem applies_of_tooDeep {e : Expr} {scope : ScopeId} (hroom : s.depth + e.height ≤ s.limit)
    {f : Fault} (hf : (s.proceedWithin steps (.evaluate e scope)).1 = .failed f)
    (hdeep : f.TooDeep) : ∃ k, ((s.start (.evaluate e scope)).run k).applies = true := by
  have hstart : (s.start (.evaluate e scope)).HasRoom := by
    refine ⟨fun d hd => ?_, .nil, Machine.not_tooDeep_of_raisesOn (L := fun _ => True) trivial⟩
    obtain rfl : e = d := Option.some.inj hd
    exact Nat.le_sub_of_add_le' hroom
  refine (hstart.run steps).resolve_left fun h => ?_
  exact h.fault f (Machine.control_of_failed hf) hdeep

theorem applies_of_tooDeep_runAll {limit : Nat} {program : List Expr} (hs : s.Idle limit)
    (hprogram : ∀ e ∈ program, e.height ≤ limit) {last : Value} {f : Fault}
    (hf : (s.runAllWithin steps last program).1 = .failed f) (hdeep : f.TooDeep) :
    s.Applies (.program program) := by
  induction program generalizing s last with
  | nil => contradiction
  | cons e rest ih =>
    rw [List.forall_mem_cons] at hprogram
    rcases runAll_cons last e rest with ⟨v, t, ht, heq⟩ | ⟨-, heq⟩
    · have hfinished : (s.proceedWithin steps (.evaluate e s.globals)).1.Finished := by
        rw [ht]
        nofun
      have hidle := hs.proceed rfl hfinished
      rw [ht] at hidle
      rw [heq] at hf
      obtain ⟨m, hm, happlies⟩ := ih hidle hprogram.2 hf
      exact ⟨m, .later ht hm, happlies⟩
    · rw [heq] at hf
      have hroom : s.depth + e.height ≤ s.limit := by
        rw [hs.depth, hs.limit, Nat.zero_add]
        exact hprogram.1
      obtain ⟨k, hk⟩ := applies_of_tooDeep hroom hf hdeep
      exact ⟨_, .first k, hk⟩

/-- Where no closure is applied, a limit of 1026 suffices for every source that is accepted. In
general the limit is not hit by the evaluation of an expression that is no higher than the levels
that are left, unless a closure is applied in its course. -/
theorem depth_suffices :
    (∀ (console : Console) (limit : Nat) (source : Source), 1026 ≤ limit →
      ¬ (new console limit).Applies (.source source) → ∀ steps report,
      ((new console limit).runSourceWithin steps source).1 = .failed report → report.code ≠ 602) ∧
    ∀ (s : Session) (e : Expr) (scope : ScopeId), s.depth + e.height ≤ s.limit → ∀ steps f,
      (s.evaluateWithin steps e scope).1 = .failed f → f.TooDeep →
      s.Applies (.evaluate e scope) := by
  constructor
  · intro console limit source hlimit hcalm steps report hreport hcode
    cases hp : Program.ofSource source with
    | error r =>
      rw [runSourceWithin_of_error hp] at hreport
      obtain rfl := Outcome.failed.inj hreport
      obtain ⟨fault, -, rfl⟩ := (Program.ofSource_eq_error_iff source).1 hp
      exact fault.code_ne_602 hcode
    | ok program =>
      rw [runSourceWithin_of_ok hp] at hreport
      obtain ⟨f, hf, rfl⟩ := Outcome.mapError_eq_failed hreport
      have hheight : ∀ e ∈ program, e.height ≤ limit := fun e he =>
        Nat.le_trans (Program.height_le hp e he) hlimit
      have hidle : (new console limit).Idle limit := ⟨rfl, rfl⟩
      obtain ⟨m, hm, happlies⟩ :=
        applies_of_tooDeep_runAll hidle hheight hf (Fault.tooDeep_iff.2 hcode)
      exact hcalm ⟨m, .source hp hm, happlies⟩
  · intro s e scope hroom steps f hf hdeep
    obtain ⟨k, hk⟩ := applies_of_tooDeep hroom hf hdeep
    exact ⟨_, .evaluate k, hk⟩

def lists : Expr :=
  .list [.symbol "list" 1, .list [.symbol "list" 1] 1] 1

theorem not_applies_lists :
    ¬ (new (.scripted []) 1026).Applies (.source (.ofText "[[]]")) := by
  have hsource : Program.ofSource (.ofText "[[]]") = .ok [lists] := by decide +kernel
  have hcalm := Machine.applies_run (n := 12)
    (m := (new (.scripted []) 1026).start (.evaluate lists 0)) (by decide +kernel)
    (by decide +kernel)
  rintro ⟨m, hm, happlies⟩
  cases hm with
  | source hp hm =>
    obtain rfl := Except.ok.inj (hp.symm.trans hsource)
    cases hm with
    | first k =>
      exact Bool.false_ne_true ((hcalm k).symm.trans happlies)
    | later _ hm => cases hm

theorem depth_suffices_lists :
    (1026 ≤ 1026 ∧ ¬ (new (.scripted []) 1026).Applies (.source (.ofText "[[]]")) ∧
      ∃ report, ((new (.scripted []) 1026).runSourceWithin 12 (.ofText "[[]]")).1 =
        .failed report ∧ report.code ≠ 602) ∧
    recursive.depth + (callsF "f").height ≤ recursive.limit ∧
      (recursive.evaluateWithin 100 (callsF "f") 0).1 = .failed ⟨.tooDeep 10, 1⟩ ∧
      recursive.Applies (.evaluate (callsF "f") 0) := by
  have hrefused :
      ((new (.scripted []) 1026).runSourceWithin 12 (.ofText "[[]]")).1.error?.isSome = true := by
    decide +kernel
  obtain ⟨report, hreport⟩ := Option.isSome_iff_exists.1 hrefused
  rw [Outcome.error?_eq_some_iff] at hreport
  have hlimit : recursive.depth + (callsF "f").height ≤ recursive.limit := by decide +kernel
  have hfails : (recursive.evaluateWithin 100 (callsF "f") 0).1 = .failed ⟨.tooDeep 10, 1⟩ :=
    Outcome.error?_eq_some_iff.1 (by decide +kernel)
  refine ⟨⟨Nat.le_refl _, not_applies_lists, report, hreport, ?_⟩, hlimit, hfails, ?_⟩
  · exact depth_suffices.1 _ _ _ (Nat.le_refl _) not_applies_lists 12 report hreport
  · exact depth_suffices.2 _ _ _ hlimit 100 _ hfails ⟨10, rfl⟩

end Session

end PrefixScript
