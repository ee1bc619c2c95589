import PrefixScript.Proofs.Parts
import PrefixScript.Proofs.Stores

/-!
# What a machine handles

Every expression that a machine evaluates is a part of one that it was given or of the body of a
closure that it was given; its scopes are those it was given, those around them, those of closures
and new ones; its values come from bindings, literals, input and builtins. A policy says which
expressions, scopes and values are admitted. If it is closed, what is made of admitted things is
admitted, and a machine that starts with such things never leaves them.
-/

namespace PrefixScript

theorem Value.ofInput_ne_closure (s : String) (c : Closure) : ofInput s ≠ .closure c := by
  unfold ofInput
  split <;> nofun

structure Policy where
  expr : Expr → Prop
  scope : ScopeId → Prop
  value : Value → Prop

structure Policy.Closed (P : Policy) : Prop where
  active : ∀ {e d}, P.expr e → d ∈ e.active → P.expr d
  number : ∀ {x line}, P.expr (.atom ⟨.number x, line⟩) → P.value (.number x)
  text : ∀ s, P.value (.text s)
  null : P.value .null
  builtin : ∀ b, P.value (.builtin b)
  closure : ∀ {params body scope mark}, P.expr body → P.scope scope →
    P.value (.closure ⟨params, body, scope, mark⟩)
  body : ∀ {c}, P.value (.closure c) → P.expr c.body
  around : ∀ {c}, P.value (.closure c) → P.scope c.scope
  apply : ∀ {b args v}, (∀ w ∈ args, P.value w) → Builtin.apply b args = .ok v → P.value v
  input : ∀ s, P.value (.ofInput s)
  up : ∀ {x}, P.value (.number x) → P.value (.number (x + 1))
  down : ∀ {x}, P.value (.number x) → P.value (.number (x + -1))

theorem Policy.active_of_item {P : Policy}
    (item : ∀ {items line e}, P.expr (.list items line) → e ∈ items → P.expr e) {e d : Expr}
    (he : P.expr e) (hd : d ∈ e.active) : P.expr d := by
  cases e with
  | atom => contradiction
  | list => exact item he (Expr.mem_of_mem_active hd)

/-- Whatever evaluation makes of admitted things is admitted, and so is every item of a list. -/
structure Policy.Sound (P : Policy) : Prop extends P.Closed where
  item : ∀ {items line e}, P.expr (.list items line) → e ∈ items → P.expr e
  active := Policy.active_of_item item

/-- From admitted scopes only admitted scopes and values are found, and new scopes are admitted. -/
structure Store.Obeys (P : Policy) (s : Store) : Prop where
  bound : ∀ {i name v}, P.scope i → (s.bindings i).lookup name = some v → P.value v
  outward : ∀ {i p}, P.scope i → s.parent? i = some p → P.scope p
  fresh : ∀ {i}, s.scopes.size ≤ i → P.scope i

namespace Store.Obeys

variable {P : Policy} {s : Store} {i : ScopeId}

theorem get? (h : s.Obeys P) (hi : P.scope i) {name : String} {v : Value}
    (hv : s.get? i name = some v) : P.value v := by
  fun_induction Store.get? s i name with
  | case1 i w hw =>
    obtain rfl := Option.some.inj hv
    exact h.bound hi hw
  | case2 i _ p hp ih => exact ih (h.outward hi hp) hv
  | case3 => contradiction

theorem define (h : s.Obeys P) (i : ScopeId) (name : String) {v : Value} (hv : P.value v) :
    (s.define i name v).Obeys P where
  bound {j other w} hj hw := by
    by_cases hij : j = i
    · subst hij
      have hlt := lt_size_of_lookup hw
      rw [size_define] at hlt
      rw [bindings_define_self hlt] at hw
      by_cases hn : other = name
      · subst hn
        rw [Bindings.lookup_insert_self] at hw
        obtain rfl := Option.some.inj hw
        exact hv
      · rw [Bindings.lookup_insert_of_ne hn] at hw
        exact h.bound hj hw
    · rw [bindings_define_of_ne _ _ _ hij] at hw
      exact h.bound hj hw
  outward hj hp := h.outward hj (by simpa using hp)
  fresh hj := h.fresh (by simpa using hj)

theorem defineAll (h : s.Obeys P) (i : ScopeId) (names : List String) {values : List Value}
    (hv : ∀ v ∈ values, P.value v) : (s.defineAll i names values).Obeys P := by
  have hzip : ∀ b ∈ names.zip values, P.value b.2 := fun b hb => hv _ (List.of_mem_zip hb).2
  simp only [Store.defineAll]
  generalize names.zip values = bindings at hzip
  induction bindings generalizing s with
  | nil => exact h
  | cons b rest ih =>
    rw [List.forall_mem_cons] at hzip
    exact ih (h.define i b.1 hzip.1) hzip.2

theorem newScope (h : s.Obeys P) {p : ScopeId} (hp : P.scope p) :
    (s.newScope (some p)).1.Obeys P where
  bound hi hv := h.bound hi (by simpa using hv)
  outward {i q} hi hq := by
    rcases Nat.lt_trichotomy i s.scopes.size with hlt | rfl | hgt
    · rw [parent?_eq, link_newScope_of_lt _ _ hlt, ← parent?_eq] at hq
      exact h.outward hi hq
    · rw [parent?_eq, link_newScope_self] at hq
      obtain ⟨-, rfl⟩ : p < s.scopes.size ∧ p = q := by simpa using hq
      exact hp
    · rw [parent?_eq, link_of_size_le (by rwa [size_newScope])] at hq
      contradiction
  fresh hi := h.fresh (Nat.le_of_succ_le (by simpa using hi))

theorem newClosure (h : s.Obeys P) (params : List String) (body : Expr) (i : ScopeId) :
    (s.newClosure params body i).1.Obeys P :=
  ⟨h.bound, h.outward, h.fresh⟩

theorem assign (h : s.Obeys P) {name : String} {old v : Value} (hold : s.get? i name = some old)
    (hv : P.value v) : (s.assign i name v).1.Obeys P := by
  obtain ⟨j, -, he⟩ := exists_assign_eq_define hold v
  rw [he]
  exact h.define j name hv

end Store.Obeys

@[simp] def Control.Obeys (P : Policy) : Control → Prop
  | .evaluate e scope => P.expr e ∧ P.scope scope
  | .deliver v => P.value v
  | .read _ | .print _ | .abandon _ => True

@[simp] def Frame.Obeys (P : Policy) : Frame → Prop
  | .callee operands _ scope => (∀ e ∈ operands, P.expr e) ∧ P.scope scope
  | .argument f args operands _ scope =>
    P.value f ∧ (∀ v ∈ args, P.value v) ∧ (∀ e ∈ operands, P.expr e) ∧ P.scope scope
  | .set _ scope => P.scope scope
  | .choice yes no scope => P.expr yes ∧ P.expr no ∧ P.scope scope
  | .initial t body scope | .round t body scope => P.expr t ∧ P.expr body ∧ P.scope scope
  | .test t body last scope => P.expr t ∧ P.expr body ∧ P.value last ∧ P.scope scope
  | .sequence rest scope => (∀ e ∈ rest, P.expr e) ∧ P.scope scope
  | .result | .print => True

abbrev Move.Obeys (P : Policy) (m : Move) : Prop :=
  m.Meets (·.Obeys P) (·.Obeys P)

theorem Form.count_obeys {P : Policy} {s : Store} (hs : s.Obeys P) {i : ScopeId} (form : Form)
    {delta : Float} (hdelta : ∀ {x}, P.value (.number x) → P.value (.number (x + delta)))
    (target : Expr) (hi : P.scope i) :
    (form.count delta s target i).1.Obeys P ∧ (form.count delta s target i).2.Obeys P := by
  simp only [Form.count]
  split
  · exact ⟨trivial, hs⟩
  · split
    · exact ⟨trivial, hs⟩
    · next hx =>
      have hv := hdelta (hs.get? hi hx)
      exact ⟨hv, hs.assign hx hv⟩
    · exact ⟨trivial, hs⟩

namespace Policy.Closed

variable {P : Policy} (closed : P.Closed) {s : Store} (hs : s.Obeys P) {i : ScopeId}
include closed hs

theorem value_apply {callee : Value} {args : List Value} (line : Nat) (hcallee : P.value callee)
    (hargs : ∀ v ∈ args, P.value v) :
    (callee.apply s args line).1.Obeys P ∧ (callee.apply s args line).2.Obeys P := by
  cases callee with
  | closure c =>
    simp only [Value.apply]
    split
    · exact ⟨⟨closed.body hcallee, hs.fresh (Nat.le_refl _)⟩,
        (hs.newScope (closed.around hcallee)).defineAll _ _ hargs⟩
    · exact ⟨trivial, hs⟩
  | builtin b =>
    simp only [Value.apply]
    split
    · next hv => exact ⟨closed.apply hargs hv, hs⟩
    · exact ⟨trivial, hs⟩
  | null | number | text | list => exact ⟨trivial, hs⟩

theorem lookUp (name : String) (line : Nat) (hi : P.scope i) :
    (Expr.lookUp s name line i).Obeys P := by
  simp only [Expr.lookUp]
  split
  · next hv => exact hs.get? hi hv
  · split
    · exact closed.builtin _
    · split <;> trivial

theorem form_enter (form : Form) {operands : List Expr} (line : Nat)
    (ho : ∀ e ∈ operands, P.expr e) (hi : P.scope i) :
    (form.enter s operands line i).1.Obeys P ∧ (form.enter s operands line i).2.Obeys P := by
  unfold Form.enter
  split
  case h_2 _ _ params body =>
    split
    · next names _ => exact ⟨closed.closure (ho _ (by simp)) hi, hs.newClosure names body i⟩
    · exact ⟨trivial, hs⟩
  case h_9 => exact Form.count_obeys hs _ closed.up _ hi
  case h_10 => exact Form.count_obeys hs _ closed.down _ hi
  case h_1 => split <;> exact ⟨by simp_all, hs⟩
  all_goals exact ⟨by simp_all [closed.null], hs⟩

theorem expr_enter {e : Expr} (he : P.expr e) (hi : P.scope i) :
    (e.enter s i).1.Obeys P ∧ (e.enter s i).2.Obeys P := by
  unfold Expr.enter
  split
  · exact ⟨closed.number he, hs⟩
  · exact ⟨closed.text _, hs⟩
  · exact ⟨closed.lookUp hs _ _ hi, hs⟩
  · exact ⟨trivial, hs⟩
  · next head operands line =>
    have hactive : ∀ d ∈ Expr.active (.list (head :: operands) line), P.expr d :=
      fun d hd => closed.active he hd
    split
    · next hform =>
      rw [Expr.active_of_form hform] at hactive
      exact closed.form_enter hs _ _ hactive hi
    · next hcall =>
      rw [Expr.active_of_call hcall, List.forall_mem_cons] at hactive
      exact ⟨⟨⟨hactive.2, hi⟩, hactive.1, hi⟩, hs⟩

theorem call {callee : Value} {args : List Value} {operands : List Expr} (line : Nat)
    (hcallee : P.value callee) (hargs : ∀ v ∈ args, P.value v) (ho : ∀ e ∈ operands, P.expr e)
    (hi : P.scope i) :
    (Frame.call s callee args operands line i).1.Obeys P ∧
      (Frame.call s callee args operands line i).2.Obeys P := by
  cases operands with
  | nil =>
    have hreverse : ∀ v ∈ args.reverse, P.value v := by simpa using hargs
    have h := closed.value_apply hs line hcallee hreverse
    exact ⟨⟨trivial, h.1⟩, h.2⟩
  | cons e operands =>
    rw [List.forall_mem_cons] at ho
    exact ⟨⟨⟨hcallee, hargs, ho.2, hi⟩, ho.1, hi⟩, hs⟩

theorem resume {f : Frame} {v : Value} (hf : f.Obeys P) (hv : P.value v) :
    (f.resume s v).1.Obeys P ∧ (f.resume s v).2.Obeys P := by
  cases f with
  | callee => exact closed.call hs _ hv (by simp) hf.1 hf.2
  | argument =>
    obtain ⟨hcallee, hargs, ho, hi⟩ := hf
    exact closed.call hs _ hcallee (List.forall_mem_cons.2 ⟨hv, hargs⟩) ho hi
  | result => exact ⟨hv, hs⟩
  | set name i => exact ⟨closed.null, hs.define i name hv⟩
  | choice yes no i =>
    obtain ⟨hyes, hno, hi⟩ := hf
    refine ⟨⟨trivial, ?_, hi⟩, hs⟩
    split <;> assumption
  | initial =>
    obtain ⟨htest, hbody, hi⟩ := hf
    exact ⟨⟨⟨htest, hbody, closed.null, hi⟩, htest, hi⟩, hs⟩
  | test =>
    obtain ⟨htest, hbody, hlast, hi⟩ := hf
    simp only [Frame.resume]
    split
    · exact ⟨⟨⟨htest, hbody, hi⟩, hbody, hi⟩, hs⟩
    · exact ⟨hlast, hs⟩
  | round =>
    obtain ⟨htest, hbody, hi⟩ := hf
    exact ⟨⟨⟨htest, hbody, hv, hi⟩, htest, hi⟩, hs⟩
  | sequence rest i =>
    obtain ⟨hrest, hi⟩ := hf
    cases rest with
    | nil => exact ⟨hv, hs⟩
    | cons e rest =>
      rw [List.forall_mem_cons] at hrest
      exact ⟨⟨⟨hrest.2, hi⟩, hrest.1, hi⟩, hs⟩
  | print => exact ⟨trivial, hs⟩

omit hs in
theorem invariant : Machine.Invariant (·.Obeys P) (·.Obeys P) (·.Obeys P) where
  enter hs hc := closed.expr_enter hs hc.1 hc.2
  resume hs hf hv := closed.resume hs hf hv
  refused _ := trivial
  answered _ := closed.input _
  unanswered _ := trivial
  printed _ := closed.null

end Policy.Closed

/-- A change of stores that look-ups of the given names from a scope do not show, and that is
carried along by what may be done in that scope with these names. -/
structure Store.Carried (g : Store → Store) (s : Store) (i : ScopeId) (names : List String) :
    Prop where
  get? : ∀ name ∈ names, (g s).get? i name = s.get? i name
  assign : ∀ name ∈ names, ∀ v,
    (g s).assign i name v = (g (s.assign i name v).1, (s.assign i name v).2)
  newClosure : ∀ params body,
    (g s).newClosure params body i =
      (g (s.newClosure params body i).1, (s.newClosure params body i).2)

namespace Store.Carried

variable {g : Store → Store} {s : Store} {i : ScopeId}

theorem lookUp {name : String} (h : Carried g s i [name]) (line : Nat) :
    Expr.lookUp (g s) name line i = Expr.lookUp s name line i := by
  simp only [Expr.lookUp, h.get? name List.mem_cons_self]

theorem count {target : Expr} (h : Carried g s i ([target].filterMap Expr.symbol?)) (form : Form)
    (delta : Float) :
    form.count delta (g s) target i =
      ((form.count delta s target i).1, g (form.count delta s target i).2) := by
  simp only [Form.count]
  split
  · rfl
  · next name hname =>
    have hmem : name ∈ [target].filterMap Expr.symbol? := by simp [hname]
    rw [h.get? name hmem]
    split
    · rfl
    · rw [h.assign name hmem]
    · rfl

theorem form_enter {operands : List Expr} (h : Carried g s i (operands.filterMap Expr.symbol?))
    (form : Form) (line : Nat) :
    form.enter (g s) operands line i =
      ((form.enter s operands line i).1, g (form.enter s operands line i).2) := by
  unfold Form.enter
  split
  case h_1 => split <;> rfl
  case h_2 =>
    split
    · rw [h.newClosure]
    · rfl
  case h_9 | h_10 => exact h.count ..
  all_goals rfl

theorem expr_enter {e : Expr} (h : Carried g s i e.names) :
    e.enter (g s) i = ((e.enter s i).1, g (e.enter s i).2) := by
  unfold Expr.enter
  split
  · rfl
  · rfl
  · rw [lookUp h]
  · rfl
  · split
    · next hform =>
      rw [Expr.names_of_form hform] at h
      exact h.form_enter ..
    · rfl

end Store.Carried

section Carried

variable {g : Store → Store} {s : Store}

theorem Store.defineAll_carried {i : ScopeId}
    (hdefine : ∀ t name v, (g t).define i name v = g (t.define i name v)) (names : List String)
    (values : List Value) : (g s).defineAll i names values = g (s.defineAll i names values) := by
  simp only [Store.defineAll]
  generalize names.zip values = bindings
  induction bindings generalizing s with
  | nil => rfl
  | cons b rest ih =>
    rw [List.foldl_cons, List.foldl_cons, hdefine]
    exact ih

theorem Value.apply_carried
    (hnew : ∀ p, (g s).newScope (some p) = (g (s.newScope (some p)).1, (s.newScope (some p)).2))
    (hdefine : ∀ t name v,
      (g t).define s.scopes.size name v = g (t.define s.scopes.size name v))
    (callee : Value) (args : List Value) (line : Nat) :
    callee.apply (g s) args line =
      ((callee.apply s args line).1, g (callee.apply s args line).2) := by
  cases callee with
  | closure c =>
    simp only [Value.apply]
    split
    · rw [hnew]
      simp only [Store.newScope_snd, Store.defineAll_carried hdefine]
    · rfl
  | builtin b =>
    simp only [Value.apply]
    split <;> rfl
  | null | number | text | list => rfl

theorem Frame.resume_carried {f : Frame} (v : Value)
    (hdefine : ∀ name i, f = .set name i → (g s).define i name v = g (s.define i name v))
    (happly : ∀ (callee : Value) args line,
      callee.apply (g s) args line =
        ((callee.apply s args line).1, g (callee.apply s args line).2)) :
    f.resume (g s) v = ((f.resume s v).1, g (f.resume s v).2) := by
  cases f with
  | callee operands | argument _ _ operands =>
    cases operands with
    | nil => simp only [Frame.resume, Frame.call, happly]
    | cons => rfl
  | set name i => simp only [Frame.resume, hdefine name i rfl]
  | test =>
    simp only [Frame.resume]
    split <;> rfl
  | sequence rest =>
    cases rest <;> rfl
  | result | choice | initial | round | print => rfl

end Carried

structure Policy.Carries (P : Policy) (g : Store → Store) : Prop where
  get? : ∀ {s i name}, s.Obeys P → P.scope i → (g s).get? i name = s.get? i name
  define : ∀ {s i name v}, P.scope i → (g s).define i name v = g (s.define i name v)
  assign : ∀ {s i name v}, s.Obeys P → P.scope i →
    (g s).assign i name v = (g (s.assign i name v).1, (s.assign i name v).2)
  newScope : ∀ {s p}, s.Obeys P →
    (g s).newScope (some p) = (g (s.newScope (some p)).1, (s.newScope (some p)).2)
  newClosure : ∀ {s params body i},
    (g s).newClosure params body i =
      (g (s.newClosure params body i).1, (s.newClosure params body i).2)

namespace Policy.Carries

variable {P : Policy} {g : Store → Store} (carries : P.Carries g) {s : Store}
include carries

theorem value_apply (hs : s.Obeys P) (callee : Value) (args : List Value) (line : Nat) :
    callee.apply (g s) args line =
      ((callee.apply s args line).1, g (callee.apply s args line).2) :=
  Value.apply_carried (fun _ => carries.newScope hs)
    (fun _ _ _ => carries.define (hs.fresh (Nat.le_refl _))) callee args line

theorem carried (hs : s.Obeys P) {i : ScopeId} (hi : P.scope i) (names : List String) :
    Store.Carried g s i names where
  get? _ _ := carries.get? hs hi
  assign _ _ _ := carries.assign hs hi
  newClosure _ _ := carries.newClosure

theorem unnoticed : Machine.Unnoticed (·.Obeys P) (·.Obeys P) (·.Obeys P) g where
  enter hs hc := (carries.carried hs hc.2 _).expr_enter
  resume hs hf _ :=
    Frame.resume_carried _ (by rintro name i rfl; exact carries.define hf) (carries.value_apply hs)

end Policy.Carries

@[simp] def Outcome.Meets {ε : Type} (V : Value → Prop) : Outcome ε → Prop
  | .value v => V v
  | .failed _ | .unfinished => True

@[simp] theorem Outcome.meets_mapError {ε ε' : Type} {V : Value → Prop} (f : ε → ε')
    (o : Outcome ε) : (o.mapError f).Meets V ↔ o.Meets V := by
  cases o <;> rfl

theorem Machine.meets_outcome {P : Policy} {m : Machine} (h : m.control.Obeys P) :
    m.outcome.Meets P.value := by
  unfold Machine.outcome
  split
  · next hc _ => rwa [hc] at h
  · trivial
  · trivial

namespace Policy.Closed

variable {P : Policy} (closed : P.Closed) {s : Session} (hs : s.store.Obeys P) (steps : Nat)
include closed hs

theorem proceed {control : Control} (hc : control.Obeys P) :
    (s.proceedWithin steps control).1.Meets P.value ∧
      (s.proceedWithin steps control).2.store.Obeys P := by
  have h := closed.invariant.run (m := s.start control) ⟨hs, hc, by simp [Session.start]⟩ steps
  exact ⟨Machine.meets_outcome h.2.1, h.1⟩

theorem runAll {program : List Expr} (hp : ∀ e ∈ program, P.expr e) (hg : P.scope s.globals)
    {last : Value} (hlast : P.value last) :
    (s.runAllWithin steps last program).1.Meets P.value ∧
      (s.runAllWithin steps last program).2.store.Obeys P := by
  induction program generalizing s last with
  | nil => exact ⟨hlast, hs⟩
  | cons e rest ih =>
    rw [List.forall_mem_cons] at hp
    have hstart : (Control.evaluate e s.globals).Obeys P := ⟨hp.1, hg⟩
    have he := closed.proceed hs steps hstart
    simp only [Session.runAllWithin, Session.evaluateWithin]
    split
    · next v t heq =>
      rw [heq] at he
      rw [Session.proceedWithin_eq] at heq
      obtain ⟨-, rfl⟩ := Prod.mk.inj heq
      exact ih he.2 hp.2 hg he.1
    · next heq =>
      rwa [heq] at he

end Policy.Closed

end PrefixScript
