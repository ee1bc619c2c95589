import PrefixScript.Proofs.Isolation
import PrefixScript.Proofs.Limits
import PrefixScript.Proofs.Trees

/-!
# Only loops run forever

What waits at one depth becomes less with every step, unless it is a loop; what is evaluated a level
deeper may be the body of any closure, but the limit ends the levels. So with frames that weigh more
the less deep they are, every step of a machine without loops makes it lighter. The weight does not
depend on what the console answers.
-/

namespace PrefixScript

namespace Expr

inductive Loopless : Expr → Prop
  | atom {a} : Loopless (.atom a)
  | list {items line} : (∀ e ∈ items, Loopless e) →
    (∀ name ∈ items.head?.bind symbol?, name ≠ "while" ∧ name ≠ "for") →
    Loopless (.list items line)

def breadth : Expr → Nat :=
  fold (fun _ => 0) fun parts _ => parts.foldr max parts.length

theorem breadth_list_le_iff {items : List Expr} {line n : Nat} :
    breadth (.list items line) ≤ n ↔ items.length ≤ n ∧ ∀ e ∈ items, e.breadth ≤ n := by
  have hfoldr : ∀ (parts : List Nat) (k : Nat),
      parts.foldr max k ≤ n ↔ k ≤ n ∧ ∀ part ∈ parts, part ≤ n := by
    intro parts k
    induction parts with
    | nil => simp
    | cons part parts ih => rw [List.foldr_cons, Nat.max_le, ih, List.forall_mem_cons, and_left_comm]
  rw [breadth, fold_list, hfoldr, List.length_map, List.forall_mem_map]

def width : Expr → Nat
  | .atom _ => 0
  | .list items _ => items.length

theorem width_le_breadth (e : Expr) : e.width ≤ e.breadth := by
  cases e with
  | atom => exact Nat.zero_le _
  | list => exact (breadth_list_le_iff.1 (Nat.le_refl _)).1

end Expr

def Control.weight : Control → Nat
  | .evaluate e _ => e.width + 2
  | .read _ | .print _ => 1
  | .deliver _ | .abandon _ => 0

def Frame.weight : Frame → Nat
  | .callee operands _ _ | .argument _ _ operands _ _ => operands.length + 2
  | .sequence rest _ => rest.length + 1
  | .choice .. | .print => 2
  | .result | .set .. | .initial .. | .test .. | .round .. => 1

def Frame.isLoop : Frame → Bool
  | .initial .. | .test .. | .round .. => true
  | _ => false

def Move.Lighter (w : Nat) : Move → Prop
  | .leave next => next.weight < w
  | .hold frame _ => frame.weight < w ∧ frame.isLoop = false

theorem Frame.weight_pos (f : Frame) : 0 < f.weight := by
  cases f <;> exact Nat.succ_pos _

section Moves

variable (s : Store) (i : ScopeId)

theorem Expr.weight_lookUp (name : String) (line : Nat) :
    (Expr.lookUp s name line i).weight < 2 := by
  unfold lookUp
  split
  · exact Nat.two_pos
  · split
    · exact Nat.two_pos
    · split
      · exact Nat.one_lt_two
      · exact Nat.two_pos

theorem Form.lighter_count (form : Form) (delta : Float) (target : Expr) {w : Nat} (hw : 0 < w) :
    (form.count delta s target i).1.Lighter w := by
  simp only [count]
  split
  · exact hw
  · split <;> exact hw

theorem Form.lighter_enter {form : Form} (hwhile : form ≠ .whileLoop) (hfor : form ≠ .forLoop)
    (operands : List Expr) (line : Nat) :
    (form.enter s operands line i).1.Lighter (operands.length + 3) := by
  unfold enter
  split
  case h_1 =>
    split
    · exact ⟨Nat.lt_add_of_pos_left (Nat.succ_pos 3), rfl⟩
    · exact Nat.succ_pos _
  case h_2 => split <;> exact Nat.succ_pos _
  case h_4 => exact absurd rfl hwhile
  case h_5 => exact absurd rfl hfor
  case h_6 e rest =>
    refine ⟨?_, rfl⟩
    change rest.length + 1 < rest.length + 1 + 3
    omega
  case h_9 | h_10 => exact lighter_count s i _ _ _ (Nat.succ_pos _)
  case h_3 => exact ⟨Nat.lt_add_of_pos_left (Nat.succ_pos 3), rfl⟩
  case h_7 => exact ⟨Nat.lt_add_of_pos_left (Nat.succ_pos 1), rfl⟩
  case h_8 => exact Nat.one_lt_succ_succ 1
  case h_11 => exact Nat.succ_pos _

theorem Form.name_of_ofName? {name : String} {form : Form} (h : ofName? name = some form) :
    form.name = name := by
  simpa using List.find?_some h

theorem Expr.lighter_enter {e : Expr} (h : e.Loopless) :
    (e.enter s i).1.Lighter (e.width + 2) := by
  unfold enter
  split
  · exact Nat.two_pos
  · exact Nat.two_pos
  · exact weight_lookUp s i _ _
  · exact Nat.two_pos
  · next head operands line =>
    cases h with
    | list _ hhead =>
      split
      · next form hform =>
        obtain ⟨name, hname, hofName⟩ := Option.bind_eq_some_iff.1 hform
        have hloop := hhead name hname
        rw [← Form.name_of_ofName? hofName] at hloop
        refine Form.lighter_enter s i ?_ ?_ operands line
        · rintro rfl
          exact hloop.1 rfl
        · rintro rfl
          exact hloop.2 rfl
      · exact ⟨Nat.lt_succ_self _, rfl⟩

theorem Frame.lighter_call (callee : Value) (args : List Value) (operands : List Expr)
    (line : Nat) : (Frame.call s callee args operands line i).1.Lighter (operands.length + 2) := by
  cases operands with
  | nil => exact ⟨Nat.one_lt_two, rfl⟩
  | cons e operands => exact ⟨Nat.lt_succ_self _, rfl⟩

theorem Frame.lighter_resume {f : Frame} (h : f.isLoop = false) (v : Value) :
    (f.resume s v).1.Lighter f.weight := by
  cases f with
  | callee | argument => exact lighter_call ..
  | result | set => exact Nat.one_pos
  | choice => exact ⟨Nat.one_lt_two, rfl⟩
  | initial | test | round => contradiction
  | sequence rest scope =>
    cases rest with
    | nil => exact Nat.one_pos
    | cons e rest => exact ⟨Nat.lt_succ_self _, rfl⟩
  | print => exact Nat.one_lt_two

end Moves

namespace Machine

/-- The weight of the frames of a stack. Each level outward counts `base` times as much. -/
def pending (base limit : Nat) : (depth : Nat) → List Frame → Nat
  | _, [] => 0
  | depth, f :: stack =>
    f.weight * base ^ (limit - (depth - 1)) + pending base limit (depth - 1) stack

def work (base : Nat) (m : Machine) : Nat :=
  m.control.weight * base ^ (m.limit - m.depth) + pending base m.limit m.depth m.stack

def WithinLimit (m : Machine) : Prop :=
  m.stack ≠ [] → m.depth - 1 < m.limit

variable {m m' : Machine} {base : Nat}

theorem withinLimit_go {store : Store} {console : Console} {depth limit : Nat} {stack : List Frame}
    {move : Move} (h : depth < limit) : (go store console depth limit stack move).WithinLimit := by
  cases move with
  | leave => exact fun _ => Nat.lt_of_le_of_lt (Nat.sub_le _ _) h
  | hold => exact fun _ => h

theorem Step.withinLimit (h : Step m m') (hm : m.WithinLimit) : m'.WithinLimit := by
  cases h with
  | entered hfree => exact withinLimit_go hfree
  | resumed => exact withinLimit_go (hm (List.cons_ne_nil _ _))
  | unwound => exact fun _ => Nat.lt_of_le_of_lt (Nat.sub_le _ _) (hm (List.cons_ne_nil _ _))
  | refused | answered | unanswered | printed | done => exact hm

theorem work_go_lt {store : Store} {console : Console} {depth limit : Nat} {stack : List Frame}
    {move : Move} {w : Nat} (hfree : depth < limit) (hlighter : move.Lighter w)
    (hnext : move.Meets (·.weight < base) fun _ => True) :
    (go store console depth limit stack move).work base <
      w * base ^ (limit - depth) + pending base limit depth stack := by
  cases move with
  | leave next =>
    have hbase : 0 < base := Nat.zero_lt_of_lt hnext
    refine Nat.add_lt_add_right ?_ _
    exact Nat.mul_lt_mul_of_pos_right hlighter (Nat.pow_pos hbase)
  | hold frame next =>
    obtain ⟨hframe, -⟩ := hlighter
    have hbase : 0 < base := Nat.zero_lt_of_lt hnext.2
    have hlevel : limit - depth = limit - (depth + 1) + 1 := by omega
    have hless : next.weight * base ^ (limit - (depth + 1)) +
        frame.weight * base ^ (limit - depth) < w * base ^ (limit - depth) :=
      calc next.weight * base ^ (limit - (depth + 1)) + frame.weight * base ^ (limit - depth)
          < base * base ^ (limit - (depth + 1)) + frame.weight * base ^ (limit - depth) :=
            Nat.add_lt_add_right (Nat.mul_lt_mul_of_pos_right hnext.2 (Nat.pow_pos hbase)) _
        _ = (frame.weight + 1) * base ^ (limit - depth) := by
            rw [hlevel, Nat.pow_succ]
            ring
        _ ≤ w * base ^ (limit - depth) := Nat.mul_le_mul_right _ hframe
    change _ + (_ + pending base limit depth stack) < _
    rw [← Nat.add_assoc]
    exact Nat.add_lt_add_right hless _

end Machine

def Policy.bodies (E : Expr → Prop) (A : ScopeId → Prop) : Policy where
  expr := E
  scope := A
  value v := ∀ c, v = .closure c → E c.body ∧ A c.scope

theorem Policy.bodies_closed {E : Expr → Prop} (hactive : ∀ {e d}, E e → d ∈ e.active → E d)
    (A : ScopeId → Prop) : (Policy.bodies E A).Closed where
  active := hactive
  number _ := nofun
  text _ := nofun
  null := nofun
  builtin _ := nofun
  closure he hi := by
    rintro _ ⟨⟩
    exact ⟨he, hi⟩
  body h := (h _ rfl).1
  around h := (h _ rfl).2
  apply _ h c hc := absurd hc (Builtin.ne_closure_of_apply h c)
  input s c hc := absurd hc (Value.ofInput_ne_closure s c)
  up _ := nofun
  down _ := nofun

theorem Policy.bodies_sound {E : Expr → Prop}
    (hitem : ∀ {items line e}, E (.list items line) → e ∈ items → E e) (A : ScopeId → Prop) :
    (Policy.bodies E A).Sound :=
  { bodies_closed (active_of_item (P := .bodies E A) hitem) A with item := hitem }

theorem Store.obeys_bodies {E : Expr → Prop} {s : Store} {roots : ScopeId → Prop}
    (h : ∀ i name c, s.Reachable roots i → (s.bindings i).lookup name = some (.closure c) →
      E c.body) : s.Obeys (.bodies E (s.Within roots)) := by
  have honly := s.obeys_within roots
  refine ⟨fun {i name v} hi hv c hc => ⟨?_, honly.bound hi hv c hc⟩, honly.outward, honly.fresh⟩
  subst hc
  rcases hi with hi | hi
  · exact h i name c hi hv
  · rw [Store.bindings_of_size_le hi] at hv
    contradiction

def Policy.loopless (n : Nat) (A : ScopeId → Prop) : Policy :=
  .bodies (fun e => e.Loopless ∧ e.breadth ≤ n) A

theorem Policy.loopless_sound (n : Nat) (A : ScopeId → Prop) : (Policy.loopless n A).Sound := by
  refine bodies_sound (fun {items line e} h he => ?_) A
  obtain ⟨hloopless, hbreadth⟩ := h
  cases hloopless with
  | list hitems => exact ⟨hitems e he, (Expr.breadth_list_le_iff.1 hbreadth).2 e he⟩

namespace Machine

variable {n : Nat} {A : ScopeId → Prop} {m m' : Machine}

theorem invariant_loopless (n : Nat) (A : ScopeId → Prop) :
    Invariant (·.Obeys (.loopless n A)) (·.Obeys (.loopless n A))
      (fun f => f.Obeys (.loopless n A) ∧ f.isLoop = false) := by
  have sound := (Policy.loopless_sound n A).invariant
  have hand : ∀ {move : Move} {w : Nat}, move.Obeys (.loopless n A) → move.Lighter w →
      move.Meets (·.Obeys (.loopless n A)) fun f => f.Obeys (.loopless n A) ∧ f.isLoop = false := by
    intro move w hobeys hlighter
    cases move with
    | leave => exact hobeys
    | hold => exact ⟨⟨hobeys.1, hlighter.2⟩, hobeys.2⟩
  refine ⟨fun {s e i} hs hc => ?_, fun {s f v} hs hf hv => ?_, sound.refused, sound.answered,
    sound.unanswered, sound.printed⟩
  · have henter := sound.enter hs hc
    exact ⟨hand henter.1 (Expr.lighter_enter s i hc.1.1), henter.2⟩
  · have hresume := sound.resume hs hf.1 hv
    exact ⟨hand hresume.1 (Frame.lighter_resume s hf.2 v), hresume.2⟩

structure Loopless (n : Nat) (A : ScopeId → Prop) (m : Machine) : Prop where
  meets : m.Meets (·.Obeys (.loopless n A)) (·.Obeys (.loopless n A))
    fun f => f.Obeys (.loopless n A) ∧ f.isLoop = false
  within : m.WithinLimit

theorem Loopless.step (h : m.Loopless n A) : m.step.Loopless n A :=
  ⟨(invariant_loopless n A).step h.meets, m.step_spec.withinLimit h.within⟩

theorem weight_lt_of_obeys {c : Control} (h : c.Obeys (.loopless n A)) : c.weight < n + 3 := by
  cases c with
  | evaluate e =>
    have hwidth := Nat.le_trans e.width_le_breadth h.1.2
    exact Nat.add_lt_add_of_le_of_lt hwidth (Nat.lt_succ_self 2)
  | deliver | read | print | abandon => simp [Control.weight]

theorem meets_weight_of_obeys {move : Move} (h : move.Obeys (.loopless n A)) :
    move.Meets (·.weight < n + 3) fun _ => True := by
  cases move with
  | leave => exact weight_lt_of_obeys h
  | hold => exact ⟨trivial, weight_lt_of_obeys h.2⟩

theorem Step.work_lt (hstep : Step m m') (h : m.Loopless n A) (hdone : m.isDone = false) :
    m'.work (n + 3) < m.work (n + 3) := by
  obtain ⟨⟨hs, hc, hf⟩, hwithin⟩ := h
  have hpos : ∀ k, 0 < (n + 3) ^ k := fun k => Nat.pow_pos (Nat.succ_pos _)
  have hsound := Policy.loopless_sound n A
  cases hstep with
  | refused | answered | unanswered | printed =>
    refine Nat.add_lt_add_right (Nat.mul_lt_mul_of_pos_right ?_ (hpos _)) _
    exact Nat.succ_pos _
  | @entered store console depth limit e scope stack hfree =>
    have henter := hsound.expr_enter hs hc.1 hc.2
    exact work_go_lt hfree (Expr.lighter_enter store scope hc.1.1) (meets_weight_of_obeys henter.1)
  | @resumed store console depth limit v frame stack =>
    rw [List.forall_mem_cons] at hf
    have hresume := hsound.resume hs hf.1.1 hc
    have hlighter := Frame.lighter_resume store hf.1.2 v
    refine Nat.lt_of_lt_of_eq
      (work_go_lt (hwithin (List.cons_ne_nil _ _)) hlighter (meets_weight_of_obeys hresume.1)) ?_
    simp [work, pending, Control.weight]
  | @unwound store console depth limit f frame stack =>
    have hframe := Nat.mul_pos frame.weight_pos (hpos (limit - (depth - 1)))
    simp only [work, pending, Control.weight, Nat.zero_mul, Nat.zero_add]
    exact Nat.lt_add_of_pos_left hframe
  | done h =>
    rw [hdone] at h
    contradiction

theorem Loopless.isDone_run (h : m.Loopless n A) {steps : Nat} (hsteps : m.work (n + 3) ≤ steps) :
    (m.run steps).isDone = true := by
  induction steps generalizing m with
  | zero =>
    cases hdone : m.isDone with
    | true => exact hdone
    | false =>
      have hless := m.step_spec.work_lt h hdone
      omega
  | succ steps ih =>
    cases hdone : m.isDone with
    | true => rwa [run_of_isDone hdone]
    | false =>
      have hless := m.step_spec.work_lt h hdone
      rw [run_succ]
      exact ih h.step (by omega)

end Machine

theorem Bindings.exists_breadth (bs : Bindings) :
    ∃ n, ∀ name c, (name, .closure c) ∈ bs → c.body.breadth ≤ n := by
  induction bs with
  | nil => exact ⟨0, by simp⟩
  | cons b bs ih =>
    obtain ⟨n, hn⟩ := ih
    obtain ⟨other, v⟩ := b
    cases v with
    | closure d =>
      refine ⟨n + d.body.breadth, fun name c hc => ?_⟩
      rcases List.mem_cons.1 hc with heq | hc
      · cases heq
        exact Nat.le_add_left _ _
      · exact Nat.le_trans (hn name c hc) (Nat.le_add_right _ _)
    | null | number | text | list | builtin =>
      refine ⟨n, fun name c hc => hn name c ?_⟩
      simpa using hc

theorem Store.exists_breadth (s : Store) :
    ∃ n, ∀ i name c, (s.bindings i).lookup name = some (.closure c) → c.body.breadth ≤ n := by
  obtain ⟨n, hn⟩ := Bindings.exists_breadth (s.scopes.toList.flatMap (·.bindings))
  refine ⟨n, fun i name c hc => hn name c ?_⟩
  have hbound : (name, .closure c) ∈ s.bindings i := by
    obtain ⟨before, after, heq, -⟩ := List.lookup_eq_some_iff.1 hc
    simp [heq]
  unfold bindings at hbound
  split at hbound
  · next scope hscope =>
    exact List.mem_flatMap.2 ⟨scope, by simpa using Array.mem_of_getElem? hscope, hbound⟩
  · contradiction

namespace Session

variable {s : Session} {program : List Expr}

theorem finished_proceed {n : Nat} {A : ScopeId → Prop} (hs : s.store.Obeys (.loopless n A))
    {e : Expr} (he : e.Loopless ∧ e.breadth ≤ n) {scope : ScopeId} (hscope : A scope) {steps : Nat}
    (hsteps : (n + 3) ^ (s.limit + 1) ≤ steps) :
    (s.proceedWithin steps (.evaluate e scope)).1.Finished := by
  have hstart : (s.start (.evaluate e scope)).Loopless n A :=
    ⟨⟨hs, ⟨he, hscope⟩, by simp [start]⟩, fun h => absurd rfl h⟩
  refine Machine.finished_outcome_iff.2 (hstart.isDone_run (Nat.le_trans ?_ hsteps))
  have hwidth := Nat.le_trans e.width_le_breadth he.2
  calc (s.start (.evaluate e scope)).work (n + 3)
      = (e.width + 2) * (n + 3) ^ (s.limit - s.depth) := rfl
    _ ≤ (n + 3) * (n + 3) ^ s.limit :=
        Nat.mul_le_mul (by omega) (Nat.pow_le_pow_right (Nat.succ_pos _) (Nat.sub_le _ _))
    _ = (n + 3) ^ (s.limit + 1) := (Nat.pow_succ').symm

theorem finished_runAll {n : Nat} {A : ScopeId → Prop} (hs : s.store.Obeys (.loopless n A))
    (hprogram : ∀ e ∈ program, e.Loopless ∧ e.breadth ≤ n) (hglobals : A s.globals) {steps : Nat}
    (hsteps : (n + 3) ^ (s.limit + 1) ≤ steps) (last : Value) :
    (s.runAllWithin steps last program).1.Finished := by
  let R (r : Outcome Fault × Session) : Prop := r.1.Finished ∧ r.2.store.Obeys (.loopless n A) ∧
    r.2.globals = s.globals ∧ r.2.limit = s.limit
  suffices h : R (s.runAllWithin steps last program) from h.1
  refine runAll_preserves (R := R) (fun e he v t ht => ?_) ⟨nofun, hs, rfl, rfl⟩
  obtain ⟨-, ht, hglobals', hlimit⟩ := ht
  have hscope : A t.globals := hglobals'.symm ▸ hglobals
  have hsteps' : (n + 3) ^ (t.limit + 1) ≤ steps := hlimit.symm ▸ hsteps
  have hstart : (Control.evaluate e t.globals).Obeys (.loopless n A) := ⟨hprogram e he, hscope⟩
  exact ⟨finished_proceed ht (hprogram e he) hscope hsteps',
    ((Policy.loopless_sound n A).proceed ht steps hstart).2, hglobals', hlimit⟩

/-- A program without loops, run where no closure in reach has any, comes to an end. The steps that
suffice for it do not depend on the console, so nothing that is answered to its requests keeps it
going. It ends because the limit was hit, or it never nests that deep and does the same under every
higher limit: recursion without end of its own ends at the limit. -/
theorem only_loops_run_forever (hprogram : ∀ e ∈ program, e.Loopless)
    (hs : ∀ i name c, s.store.Reachable (· = s.globals) i →
      (s.store.bindings i).lookup name = some (.closure c) → c.body.Loopless) :
    ∃ steps, ∀ console : Console,
      let t := { s with console }
      let r := t.runProgramWithin steps program
      r.1.Finished ∧
        ((∃ f, r.1 = .failed f ∧ f.TooDeep) ∨
          ∀ limit, s.limit ≤ limit →
            (t.withLimit limit).runProgramWithin steps program = (r.1, r.2.withLimit limit)) := by
  obtain ⟨n, hn⟩ := s.store.exists_breadth
  let k := n + (program.map Expr.breadth).sum
  let A := s.store.Within (· = s.globals)
  have hobeys : s.store.Obeys (.loopless k A) := by
    have honly := s.store.obeys_within (· = s.globals)
    refine ⟨fun {i name v} hi hv c hc => ⟨?_, honly.bound hi hv c hc⟩, honly.outward, honly.fresh⟩
    subst hc
    refine ⟨?_, Nat.le_trans (hn i name c hv) (Nat.le_add_right _ _)⟩
    rcases hi with hi | hi
    · exact hs i name c hi hv
    · rw [Store.bindings_of_size_le hi] at hv
      contradiction
  have hbreadth : ∀ e ∈ program, e.Loopless ∧ e.breadth ≤ k := fun e he =>
    ⟨hprogram e he, Nat.le_trans (List.le_sum_of_mem (List.mem_map_of_mem he)) (Nat.le_add_left _ _)⟩
  refine ⟨(k + 3) ^ (s.limit + 1), fun console => ?_⟩
  let t := { s with console }
  have hfinished := finished_runAll (s := t) hobeys hbreadth (.inl (.root rfl)) (Nat.le_refl _) .null
  refine ⟨hfinished, or_iff_not_imp_left.2 fun hshallow limit hle => ?_⟩
  have hlockstep := lockstep_runAll (s := t) hle ((k + 3) ^ (s.limit + 1)) .null program
  exact hlockstep.same hfinished fun f hf hdeep => hshallow ⟨f, hf, hdeep⟩

def callsF (name : String) : Expr :=
  .list [.symbol "f" 1, .symbol name 1] 1

theorem loopless_callsF (name : String) : (callsF name).Loopless := by
  refine .list (fun e he => ?_) (by simp [Expr.symbol?, Expr.symbol, Atom.symbol?])
  simp only [List.mem_cons, List.not_mem_nil, or_false] at he
  rcases he with rfl | rfl <;> exact .atom

def recursive : Session :=
  { new (.scripted []) 10 with
    store := ⟨#[⟨[("f", .closure ⟨["x"], callsF "x", 0, 0⟩)], none⟩], 1⟩ }

theorem only_loops_run_forever_recursive :
    (∀ e ∈ [callsF "f"], e.Loopless) ∧
      (∀ i name c, recursive.store.Reachable (· = recursive.globals) i →
        (recursive.store.bindings i).lookup name = some (.closure c) → c.body.Loopless) ∧
      (∃ steps, ∀ console : Console,
        ({ recursive with console }.runProgramWithin steps [callsF "f"]).1.Finished) ∧
      (recursive.runProgramWithin 100 [callsF "f"]).1 = .failed ⟨.tooDeep 10, 1⟩ := by
  have hprogram : ∀ e ∈ [callsF "f"], e.Loopless :=
    List.forall_mem_singleton.2 (loopless_callsF "f")
  have hs : ∀ i name c, recursive.store.Reachable (· = recursive.globals) i →
      (recursive.store.bindings i).lookup name = some (.closure c) → c.body.Loopless := by
    intro i name c _ hc
    match i with
    | 0 =>
      simp only [Store.bindings, recursive, List.getElem?_toArray, List.getElem?_cons_zero,
        List.lookup_cons] at hc
      split at hc
      · obtain rfl := Value.closure.inj (Option.some.inj hc)
        exact loopless_callsF "x"
      · contradiction
    | i + 1 => simp [Store.bindings, recursive] at hc
  obtain ⟨steps, hsteps⟩ := only_loops_run_forever hprogram hs
  exact ⟨hprogram, hs, ⟨steps, fun console => (hsteps console).1⟩,
    Outcome.error?_eq_some_iff.1 (by decide +kernel)⟩

end Session

end PrefixScript
