import PrefixScript.Proofs.Chains

namespace PrefixScript

section Only

variable {A B : ScopeId → Prop} (hle : ∀ i, A i → B i)
include hle

theorem Value.only_mono {v : Value} (h : (Policy.only A).value v) : (Policy.only B).value v :=
  fun c hc => hle _ (h c hc)

theorem Control.Obeys.only_mono {c : Control} (h : c.Obeys (.only A)) : c.Obeys (.only B) := by
  cases c with
  | evaluate => exact ⟨trivial, hle _ h.2⟩
  | deliver => exact Value.only_mono hle h
  | read | print | abandon => trivial

theorem Frame.Obeys.only_mono {f : Frame} (h : f.Obeys (.only A)) : f.Obeys (.only B) := by
  cases f with
  | callee | sequence => exact ⟨h.1, hle _ h.2⟩
  | argument =>
    obtain ⟨hcallee, hargs, ho, hi⟩ := h
    exact ⟨Value.only_mono hle hcallee, fun v hv => Value.only_mono hle (hargs v hv), ho, hle _ hi⟩
  | set => exact hle _ h
  | choice | initial | round => exact ⟨h.1, h.2.1, hle _ h.2.2⟩
  | test =>
    obtain ⟨ht, hbody, hlast, hi⟩ := h
    exact ⟨ht, hbody, Value.only_mono hle hlast, hle _ hi⟩
  | result | print => trivial

end Only

namespace Store.Grounded

variable {s : Store} (h : s.Grounded) {i : ScopeId}

theorem empty : Store.empty.Grounded where
  link i p hp := by simp [Store.link, Store.empty] at hp
  bound i name v hv := by simp [Store.bindings, Store.empty] at hv

include h

theorem get? {name : String} {v : Value} (hv : s.get? i name = some v) : s.known.value v := by
  obtain ⟨j, hj, -⟩ := exists_assign_eq_define hv v
  exact h.bound j name v hj

theorem newScope {parent : Option ScopeId} (hparent : ∀ p, parent = some p → p < s.scopes.size) :
    (s.newScope parent).1.Grounded where
  link i p hlink := by
    rcases of_link_newScope hlink with hp | ⟨rfl, hp⟩
    · exact h.link i p hp
    · exact hparent p hp
  bound i name v hv := by
    rw [bindings_newScope] at hv
    refine Value.only_mono (fun j hj => ?_) (h.bound i name v hv)
    rw [size_newScope]
    exact Nat.lt_succ_of_lt hj

theorem define (i : ScopeId) (name : String) {v : Value} (hv : s.known.value v) :
    (s.define i name v).Grounded where
  link j p hp := h.link j p (by simpa using hp)
  bound j other w hw := by
    rw [known, size_define]
    by_cases hhere : j = i ∧ other = name
    · obtain ⟨rfl, rfl⟩ := hhere
      have hlt := lt_size_of_lookup hw
      rw [lookup_define_self (by simpa using hlt)] at hw
      exact Option.some.inj hw ▸ hv
    · rw [lookup_define_of_ne _ _ (Decidable.not_and_iff_or_not.1 hhere)] at hw
      exact h.bound j other w hw

theorem defineAll (i : ScopeId) (names : List String) {values : List Value}
    (hv : ∀ v ∈ values, s.known.value v) :
    (s.defineAll i names values).Grounded ∧
      (s.defineAll i names values).scopes.size = s.scopes.size := by
  have hzip : ∀ b ∈ names.zip values, s.known.value b.2 := fun b hb => hv _ (List.of_mem_zip hb).2
  simp only [Store.defineAll]
  generalize names.zip values = bindings at hzip
  clear hv
  induction bindings generalizing s with
  | nil => exact ⟨h, rfl⟩
  | cons b rest ih =>
    rw [List.forall_mem_cons] at hzip
    have hrest := ih (h.define i b.1 hzip.1)
    rw [known, size_define] at hrest
    exact hrest hzip.2

theorem assign (i : ScopeId) (name : String) {v : Value} (hv : s.known.value v) :
    (s.assign i name v).1.Grounded ∧ (s.assign i name v).1.scopes.size = s.scopes.size := by
  rw [assign_eq_home]
  split
  · exact ⟨h.define _ name hv, size_define ..⟩
  · exact ⟨h, rfl⟩

theorem newClosure (params : List String) (body : Expr) (i : ScopeId) :
    (s.newClosure params body i).1.Grounded :=
  ⟨h.link, h.bound⟩

end Store.Grounded

/-- What comes of something done to a store: no scope is lost, and what is to be done next refers to
scopes that there are. -/
structure Store.Yields {α : Type} (Obeys : Policy → α → Prop) (s : Store) (r : α × Store) :
    Prop where
  size : s.scopes.size ≤ r.2.scopes.size
  grounded : r.2.Grounded
  next : Obeys r.2.known r.1

theorem Store.known_number (s : Store) (x : Float) : s.known.value (.number x) := nofun

namespace Store.Grounded

variable {s : Store} (h : s.Grounded) {i : ScopeId}
include h

theorem yields_self {α : Type} {Obeys : Policy → α → Prop} {next : α} (hnext : Obeys s.known next) :
    s.Yields Obeys (next, s) :=
  ⟨Nat.le_refl _, h, hnext⟩

theorem value_apply {callee : Value} {args : List Value} (line : Nat)
    (hcallee : s.known.value callee) (hargs : ∀ v ∈ args, s.known.value v) :
    s.Yields Control.Obeys (callee.apply s args line) := by
  cases callee with
  | closure c =>
    simp only [Value.apply]
    split
    · have hscope : c.scope < s.scopes.size := hcallee c rfl
      have hnew := h.newScope fun p hp => Option.some.inj hp ▸ hscope
      have hsize := s.size_newScope (some c.scope)
      have hlt : s.scopes.size < (s.newScope (some c.scope)).1.scopes.size :=
        hsize ▸ Nat.lt_succ_self _
      obtain ⟨hgrounded, hkept⟩ := hnew.defineAll s.scopes.size c.params fun v hv =>
        Value.only_mono (fun j hj => Nat.lt_trans hj hlt) (hargs v hv)
      have hfresh := Nat.lt_of_lt_of_eq hlt hkept.symm
      exact ⟨Nat.le_of_lt hfresh, hgrounded, trivial, hfresh⟩
    · exact h.yields_self trivial
  | builtin b =>
    simp only [Value.apply]
    split
    · next hv => exact h.yields_self fun c hc => absurd hc (Builtin.ne_closure_of_apply hv c)
    · exact h.yields_self trivial
  | null | number | text | list => exact h.yields_self trivial

theorem lookUp (name : String) (line : Nat) (i : ScopeId) :
    (Expr.lookUp s name line i).Obeys s.known := by
  simp only [Expr.lookUp]
  split
  · next hv => exact h.get? hv
  · split
    · nofun
    · split <;> trivial

theorem count (form : Form) (delta : Float) (target : Expr) (i : ScopeId) :
    s.Yields Move.Obeys (form.count delta s target i) := by
  simp only [Form.count]
  split
  · exact h.yields_self trivial
  · next name _ =>
    split
    · exact h.yields_self trivial
    · next x _ =>
      have hvalue := s.known_number (x + delta)
      obtain ⟨hgrounded, hkept⟩ := h.assign i name hvalue
      exact ⟨hkept.ge, hgrounded, Store.known_number _ _⟩
    · exact h.yields_self trivial

theorem form_enter (form : Form) (operands : List Expr) (line : Nat) (hi : i < s.scopes.size) :
    s.Yields Move.Obeys (form.enter s operands line i) := by
  unfold Form.enter
  split
  case h_2 _ _ params body =>
    split
    · next names _ =>
      refine ⟨Nat.le_refl _, h.newClosure names body i, ?_⟩
      rintro _ ⟨⟩
      exact hi
    · exact h.yields_self trivial
  case h_9 => exact h.count ..
  case h_10 => exact h.count ..
  case h_1 => split <;> exact h.yields_self (by simp [Policy.only, hi])
  all_goals exact h.yields_self (by simp [Policy.only, hi])

theorem expr_enter (e : Expr) (hi : i < s.scopes.size) : s.Yields Move.Obeys (e.enter s i) := by
  unfold Expr.enter
  split
  · exact h.yields_self (s.known_number _)
  · exact h.yields_self nofun
  · exact h.yields_self (h.lookUp ..)
  · exact h.yields_self trivial
  · split
    · exact h.form_enter _ _ _ hi
    · exact h.yields_self ⟨⟨fun _ _ => trivial, hi⟩, trivial, hi⟩

theorem call {callee : Value} {args : List Value} (operands : List Expr) (line : Nat)
    (hcallee : s.known.value callee) (hargs : ∀ v ∈ args, s.known.value v)
    (hi : i < s.scopes.size) :
    s.Yields Move.Obeys (Frame.call s callee args operands line i) := by
  cases operands with
  | nil =>
    have hreverse : ∀ v ∈ args.reverse, s.known.value v := by simpa using hargs
    have happly := h.value_apply line hcallee hreverse
    exact ⟨happly.size, happly.grounded, trivial, happly.next⟩
  | cons e operands =>
    exact h.yields_self ⟨⟨hcallee, hargs, fun _ _ => trivial, hi⟩, trivial, hi⟩

theorem resume {f : Frame} {v : Value} (hf : f.Obeys s.known) (hv : s.known.value v) :
    s.Yields Move.Obeys (f.resume s v) := by
  cases f with
  | callee => exact h.call _ _ hv (by simp) hf.2
  | argument =>
    obtain ⟨hcallee, hargs, -, hi⟩ := hf
    exact h.call _ _ hcallee (List.forall_mem_cons.2 ⟨hv, hargs⟩) hi
  | result => exact h.yields_self hv
  | set name i => exact ⟨(s.size_define ..).ge, h.define i name hv, nofun⟩
  | choice yes no i => exact h.yields_self ⟨trivial, trivial, hf.2.2⟩
  | initial =>
    obtain ⟨-, -, hi⟩ := hf
    exact h.yields_self ⟨⟨trivial, trivial, nofun, hi⟩, trivial, hi⟩
  | test =>
    obtain ⟨-, -, hlast, hi⟩ := hf
    simp only [Frame.resume]
    split
    · exact h.yields_self ⟨⟨trivial, trivial, hi⟩, trivial, hi⟩
    · exact h.yields_self hlast
  | round =>
    obtain ⟨-, -, hi⟩ := hf
    exact h.yields_self ⟨⟨trivial, trivial, hv, hi⟩, trivial, hi⟩
  | sequence rest i =>
    cases rest with
    | nil => exact h.yields_self hv
    | cons => exact h.yields_self ⟨⟨fun _ _ => trivial, hf.2⟩, trivial, hf.2⟩
  | print => exact h.yields_self trivial

end Store.Grounded

namespace Machine

def Grounded (m : Machine) : Prop :=
  m.Meets Store.Grounded (·.Obeys m.store.known) (·.Obeys m.store.known)

variable {m : Machine}

theorem Grounded.go {s store : Store} {console : Console} {depth limit : Nat} {stack : List Frame}
    {move : Move} (hmove : s.Yields Move.Obeys (move, store)) (hf : ∀ f ∈ stack, f.Obeys s.known) :
    (go store console depth limit stack move).Grounded := by
  have hstack : ∀ f ∈ stack, f.Obeys store.known := fun f hmem =>
    Frame.Obeys.only_mono (fun j hj => Nat.lt_of_lt_of_le hj hmove.size) (hf f hmem)
  cases move with
  | leave => exact Meets.go hmove.grounded hmove.next hstack
  | hold => exact Meets.go hmove.grounded hmove.next hstack

theorem Grounded.step (h : m.Grounded) : m.step.Grounded := by
  have hstep := m.step_spec
  generalize m.step = m' at hstep
  obtain ⟨hs, hc, hf⟩ := h
  cases hstep with
  | refused => exact ⟨hs, trivial, hf⟩
  | entered => exact Grounded.go (hs.expr_enter _ hc.2) hf
  | resumed =>
    rw [List.forall_mem_cons] at hf
    exact Grounded.go (hs.resume hf.1 hc) hf.2
  | answered => exact ⟨hs, fun c hv => absurd hv (Value.ofInput_ne_closure _ c), hf⟩
  | unanswered => exact ⟨hs, trivial, hf⟩
  | printed => exact ⟨hs, nofun, hf⟩
  | unwound => exact ⟨hs, trivial, (List.forall_mem_cons.1 hf).2⟩
  | done => exact ⟨hs, hc, hf⟩

theorem Grounded.run (h : m.Grounded) (n : Nat) : (m.run n).Grounded :=
  run_preserves (P := Grounded) (fun _ => Grounded.step) h n

theorem Grounded.mapStore (h : m.Grounded) {g : Store → Store} (hg : (g m.store).Grounded)
    (hsize : m.store.scopes.size ≤ (g m.store).scopes.size) : (m.mapStore g).Grounded := by
  have hle : ∀ i, i < m.store.scopes.size → i < (g m.store).scopes.size :=
    fun i hi => Nat.lt_of_lt_of_le hi hsize
  exact ⟨hg, h.2.1.only_mono hle, fun f hf => (h.2.2 f hf).only_mono hle⟩

/-- What can happen to a machine and its store: a scope is made, alone or inside another one; a name
is defined in a scope, or assigned to; a session on the store sets a machine to work on an expression
or a call; or the machine takes a step. Scopes, and closures that are handed over, are some that there
are. -/
inductive Change (m : Machine) : Machine → Prop
  | newScope : Change m (m.mapStore fun s => (s.newScope none).1)
  | child {i} : i < m.store.scopes.size → Change m (m.mapStore fun s => (s.newScope (some i)).1)
  | define {i v} (name) : i < m.store.scopes.size → m.store.known.value v →
    Change m (m.mapStore fun s => s.define i name v)
  | assign {i v} (name) : i < m.store.scopes.size → m.store.known.value v →
    Change m (m.mapStore fun s => (s.assign i name v).1)
  | evaluate {s : Session} {i} (e) : s.store = m.store → i < m.store.scopes.size →
    Change m (s.start (.evaluate e i))
  | apply {s : Session} {callee args} (line) : s.store = m.store → m.store.known.value callee →
    (∀ v ∈ args, m.store.known.value v) →
    Change m ({ s with store := (callee.apply s.store args line).2 }.start
      (callee.apply s.store args line).1)
  | step : Change m m.step

abbrev Later (m : Machine) : Machine → Prop :=
  Relation.ReflTransGen Change m

def idle (console : Console) (limit : Nat) : Machine :=
  ⟨.empty, console, 0, limit, .deliver .null, []⟩

theorem later_run (m : Machine) (n : Nat) : m.Later (m.run n) := by
  induction n generalizing m with
  | zero => exact .refl
  | succ n ih =>
    rw [run_succ]
    exact .head .step (ih m.step)

theorem later_evaluate {s : Session} {i : ScopeId} (hs : s.store = m.store)
    (hi : i < m.store.scopes.size) (e : Expr) (steps : Nat) :
    m.Later ((s.start (.evaluate e i)).run steps) :=
  .head (.evaluate e hs hi) (later_run _ steps)

theorem grounded_idle (console : Console) (limit : Nat) : (idle console limit).Grounded :=
  ⟨.empty, nofun, nofun⟩

theorem Change.grounded {m' : Machine} (h : m.Grounded) (hchange : Change m m') : m'.Grounded := by
  cases hchange with
  | newScope => exact h.mapStore (h.1.newScope nofun) (by simp)
  | child hi => exact h.mapStore (h.1.newScope fun p hp => Option.some.inj hp ▸ hi) (by simp)
  | define name _ hv => exact h.mapStore (h.1.define _ name hv) (by simp)
  | assign name _ hv =>
    obtain ⟨hgrounded, hkept⟩ := h.1.assign _ name hv
    exact h.mapStore hgrounded hkept.ge
  | @evaluate s i e hs hi =>
    have hstore : s.store.Grounded := hs ▸ h.1
    rw [← hs] at hi
    exact ⟨hstore, ⟨trivial, hi⟩, nofun⟩
  | @apply s callee args line hs hcallee hargs =>
    have hstore : s.store.Grounded := hs ▸ h.1
    rw [← hs] at hcallee hargs
    have happly := hstore.value_apply line hcallee hargs
    exact ⟨happly.grounded, happly.next, nofun⟩
  | step => exact h.step

theorem Later.grounded {m' : Machine} (h : m.Grounded) (hlater : m.Later m') : m'.Grounded := by
  induction hlater with
  | refl => exact h
  | tail _ hchange ih => exact hchange.grounded ih

/-- Whatever has happened, the way outward from every scope ends, and with it looking up and
assigning. So it is for the scopes of the closures that are bound, and for those that the machine
will go on in or hold in its values. -/
theorem chains_end {console : Console} {limit : Nat} {m : Machine}
    (h : (idle console limit).Later m) :
    (∀ i < m.store.scopes.size, m.store.Founded i) ∧
    (∀ i name v, (m.store.bindings i).lookup name = some v →
      (Policy.only m.store.Founded).value v) ∧
    m.control.Obeys (.only m.store.Founded) ∧ ∀ f ∈ m.stack, f.Obeys (.only m.store.Founded) := by
  obtain ⟨hs, hc, hf⟩ := Later.grounded (grounded_idle console limit) h
  have hfounded : ∀ i < m.store.scopes.size, m.store.Founded i := fun _ => hs.founded
  exact ⟨hfounded, fun i name v hv => Value.only_mono hfounded (hs.bound i name v hv),
    hc.only_mono hfounded, fun f hmem => (hf f hmem).only_mono hfounded⟩

def circular : Machine :=
  let function := Expr.list [.symbol "lambda" 1, .symbol "x" 1, .symbol "f" 1] 1
  ((Session.new (.scripted []) 10).start
    (.evaluate (.list [.symbol "set" 1, .symbol "f" 1, function] 1) 0)).run 3

def calling : Machine :=
  (((Session.new (.scripted []) 10).resume circular).start
    (.evaluate (.list [.symbol "f" 2, .symbol "f" 2] 2) 0)).run 5

theorem chains_end_calling :
    (idle (.scripted []) 10).Later circular ∧
      circular.store = ⟨#[⟨[("f", .closure ⟨["x"], .symbol "f" 1, 0, 0⟩)], none⟩], 1⟩ ∧
      circular.store.Founded 0 ∧
      (idle (.scripted []) 10).Later calling ∧ calling.store.link 1 = some 0 ∧
      calling.store.Founded 1 := by
  have hglobals : (idle (.scripted []) 10).Later _ := .single .newScope
  have hcircular : (idle (.scripted []) 10).Later circular :=
    hglobals.trans (later_evaluate (s := .new (.scripted []) 10) rfl (by decide) _ 3)
  have hcalling : (idle (.scripted []) 10).Later calling :=
    hcircular.trans (later_evaluate rfl (by decide +kernel) _ 5)
  exact ⟨hcircular, rfl, (chains_end hcircular).1 0 (by decide +kernel), hcalling,
    by decide +kernel, (chains_end hcalling).1 1 (by decide +kernel)⟩

end Machine

end PrefixScript
