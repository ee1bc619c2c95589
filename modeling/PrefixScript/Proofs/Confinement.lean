import PrefixScript.Proofs.Stepping
import PrefixScript.Proofs.Stores

namespace PrefixScript

/-- What may become of the scopes of `s` on the way to `t` when names are bound in the scopes of
`inner` only. -/
structure Store.Disciplined (inner : ScopeId → Prop) (s t : Store) : Prop where
  size : s.scopes.size ≤ t.scopes.size
  link : ∀ i < s.scopes.size, t.link i = s.link i
  names : ∀ i < s.scopes.size, ¬ inner i → t.names i = s.names i
  kept : ∀ i < s.scopes.size, ∀ name ∈ s.names i, name ∈ t.names i
  counted : ∀ i < s.scopes.size, ¬ inner i → ∀ name v w, (s.bindings i).lookup name = some v →
    (t.bindings i).lookup name = some w → v ≠ w →
      v.kind = .number ∧ w.kind = .number

namespace Store.Disciplined

variable {inner : ScopeId → Prop} {s t u : Store}

theorem refl (inner : ScopeId → Prop) (s : Store) : s.Disciplined inner s where
  size := Nat.le_refl _
  link _ _ := rfl
  names _ _ _ := rfl
  kept _ _ _ h := h
  counted _ _ _ _ _ _ hv hw hne := absurd (Option.some.inj (hv.symm.trans hw)) hne

theorem trans (h : s.Disciplined inner t) (h' : t.Disciplined inner u) :
    s.Disciplined inner u where
  size := Nat.le_trans h.size h'.size
  link i hi := (h'.link i (Nat.lt_of_lt_of_le hi h.size)).trans (h.link i hi)
  names i hi hn := (h'.names i (Nat.lt_of_lt_of_le hi h.size) hn).trans (h.names i hi hn)
  kept i hi name hm := h'.kept i (Nat.lt_of_lt_of_le hi h.size) name (h.kept i hi name hm)
  counted i hi hn name v x hv hx hne := by
    have hi' := Nat.lt_of_lt_of_le hi h.size
    have hbound : name ∈ t.names i :=
      h.kept i hi name (Bindings.mem_names_iff.2 (Bindings.mem_keys_iff.2 ⟨v, hv⟩))
    obtain ⟨w, hw⟩ := Bindings.mem_keys_iff.1 (Bindings.mem_names_iff.1 hbound)
    -- If the first half keeps the value, the second half changes it.
    by_cases hvw : v = w
    · subst hvw
      exact h'.counted i hi' hn name v x hw hx hne
    · have hfirst := h.counted i hi hn name v w hv hw hvw
      by_cases hwx : w = x
      · subst hwx; exact hfirst
      · exact ⟨hfirst.1, (h'.counted i hi' hn name w x hw hx hwx).2⟩

theorem of_bindings (hsize : s.scopes.size ≤ t.scopes.size)
    (hlink : ∀ i < s.scopes.size, t.link i = s.link i)
    (hkeys : ∀ i, ¬ inner i → (t.bindings i).keys = (s.bindings i).keys)
    (hkept : ∀ i, ∀ name ∈ (s.bindings i).keys, name ∈ (t.bindings i).keys)
    (hcounted : ∀ i, ¬ inner i → ∀ name v w, (s.bindings i).lookup name = some v →
      (t.bindings i).lookup name = some w → v ≠ w → v.kind = .number ∧ w.kind = .number) :
    s.Disciplined inner t where
  size := hsize
  link := hlink
  names i _ hn := by
    have hsame : (t.bindings i).map (·.1) = (s.bindings i).map (·.1) := hkeys i hn
    rw [Store.names, Store.names, Bindings.names, Bindings.names, hsame]
  kept i _ name h := Bindings.mem_names_iff.2 (hkept i name (Bindings.mem_names_iff.1 h))
  counted i _ hn := hcounted i hn

theorem of_bindings_eq (hsize : s.scopes.size ≤ t.scopes.size)
    (hlink : ∀ i < s.scopes.size, t.link i = s.link i) (h : ∀ i, t.bindings i = s.bindings i) :
    s.Disciplined inner t := by
  apply of_bindings hsize hlink
  · intro i _; rw [h]
  · intro i name hm; rwa [h]
  · intro i _ name v w hv hw hne
    rw [h, hv] at hw
    exact absurd (Option.some.inj hw) hne

theorem newScope (s : Store) (parent : Option ScopeId) :
    s.Disciplined inner (s.newScope parent).1 :=
  of_bindings_eq (by simp) (fun _ hi => link_newScope_of_lt s parent hi) (by simp)

theorem newClosure (s : Store) (params : List String) (body : Expr) (scope : ScopeId) :
    s.Disciplined inner (s.newClosure params body scope).1 :=
  of_bindings_eq (Nat.le_refl _) (fun _ _ => rfl) (fun _ => rfl)

theorem keys_define (s : Store) (i : ScopeId) (name : String) (value : Value) (j : ScopeId)
    {other : String} (h : other ∈ (s.bindings j).keys) :
    other ∈ ((s.define i name value).bindings j).keys := by
  by_cases hj : j = i
  · subst hj
    obtain ⟨v, hv⟩ := Bindings.mem_keys_iff.1 h
    rw [bindings_define_self (lt_size_of_lookup hv)]
    exact Bindings.mem_keys_insert value h
  · rwa [bindings_define_of_ne _ _ _ hj]

theorem define {i : ScopeId} (hi : inner i) (name : String) (value : Value) :
    s.Disciplined inner (s.define i name value) := by
  have hother : ∀ j, ¬ inner j → (s.define i name value).bindings j = s.bindings j :=
    fun j hj => bindings_define_of_ne _ _ _ fun h => hj (h ▸ hi)
  apply of_bindings
  · simp
  · simp
  · intro j hj; rw [hother j hj]
  · intro j other hm; exact keys_define s i name value j hm
  · intro j hj other v w hv hw hne
    rw [hother j hj, hv] at hw
    exact absurd (Option.some.inj hw) hne

theorem defineAll {i : ScopeId} (hi : inner i) (names : List String) (values : List Value) :
    s.Disciplined inner (s.defineAll i names values) := by
  simp only [Store.defineAll]
  generalize names.zip values = bindings
  induction bindings generalizing s with
  | nil => exact refl inner s
  | cons b rest ih => exact (define hi b.1 b.2).trans ih

theorem assign {i : ScopeId} {name : String} {x : Float} (h : s.get? i name = some (.number x))
    (y : Float) : s.Disciplined inner (s.assign i name (.number y)).1 := by
  obtain ⟨k, hk, he⟩ := exists_assign_eq_define h (.number y)
  rw [he]
  have hself := bindings_define_self (lt_size_of_lookup hk) name (.number y)
  have hother : ∀ j, j ≠ k → (s.define k name (.number y)).bindings j = s.bindings j :=
    fun j hj => bindings_define_of_ne _ _ _ hj
  apply of_bindings
  · simp
  · simp
  · intro j _
    by_cases hj : j = k
    · subst hj; rw [hself, Bindings.keys_insert_of_lookup hk]
    · rw [hother j hj]
  · intro j other hm; exact keys_define s k name _ j hm
  · intro j _ other v w hv hw hne
    by_cases hj : j = k
    · subst hj
      rw [hself] at hw
      by_cases hn : other = name
      · subst hn
        rw [Bindings.lookup_insert_self] at hw
        obtain rfl : Value.number y = w := by simpa using hw
        obtain rfl : Value.number x = v := by simpa [hk] using hv
        exact ⟨rfl, rfl⟩
      · rw [Bindings.lookup_insert_of_ne hn, hv] at hw
        exact absurd (Option.some.inj hw) hne
    · rw [hother j hj, hv] at hw
      exact absurd (Option.some.inj hw) hne

end Store.Disciplined

@[simp] def Control.Within (inner : ScopeId → Prop) : Control → Prop
  | .evaluate _ scope => inner scope
  | _ => True

@[simp] def Frame.Within (inner : ScopeId → Prop) : Frame → Prop
  | .callee _ _ scope | .argument _ _ _ _ scope | .set _ scope | .choice _ _ scope
  | .initial _ _ scope | .test _ _ _ scope | .round _ _ scope | .sequence _ scope => inner scope
  | .result | .print => True

abbrev Move.Within (inner : ScopeId → Prop) (m : Move) : Prop :=
  m.Meets (·.Within inner) (·.Within inner)

section Moves

variable {inner : ScopeId → Prop} {s : Store} {i : ScopeId}

theorem Value.apply_disciplined (hnew : ∀ i, s.scopes.size ≤ i → inner i) (callee : Value)
    (args : List Value) (line : Nat) :
    (callee.apply s args line).1.Within inner ∧
      s.Disciplined inner (callee.apply s args line).2 := by
  have hstay : ∀ f, (Control.abandon f).Within inner ∧ s.Disciplined inner s :=
    fun f => ⟨trivial, .refl inner s⟩
  cases callee with
  | closure c =>
    simp only [Value.apply]
    split
    · have hi : inner s.scopes.size := hnew _ (Nat.le_refl _)
      exact ⟨hi,
        (Store.Disciplined.newScope s _).trans (.defineAll hi _ _)⟩
    · exact hstay _
  | builtin b =>
    simp only [Value.apply]
    split
    · exact ⟨trivial, .refl inner s⟩
    · exact hstay _
  | null | number | text | list => exact hstay _

theorem Expr.lookUp_within (s : Store) (name : String) (line : Nat) (i : ScopeId) :
    (Expr.lookUp s name line i).Within inner := by
  simp only [Expr.lookUp]
  split
  · trivial
  · split
    · trivial
    · split <;> trivial

theorem Form.count_disciplined (form : Form) (delta : Float) (s : Store) (target : Expr)
    (i : ScopeId) :
    (form.count delta s target i).1.Within inner ∧
      s.Disciplined inner (form.count delta s target i).2 := by
  simp only [Form.count]
  split
  · exact ⟨trivial, .refl inner s⟩
  · split
    · exact ⟨trivial, .refl inner s⟩
    · next x hx =>
      exact ⟨trivial, .assign hx _⟩
    · exact ⟨trivial, .refl inner s⟩

theorem Form.enter_disciplined (form : Form) (operands : List Expr) (line : Nat) (hi : inner i) :
    (form.enter s operands line i).1.Within inner ∧
      s.Disciplined inner (form.enter s operands line i).2 := by
  unfold Form.enter
  split
  case h_2 _ _ params body =>
    split
    · next names _ => exact ⟨trivial, .newClosure s names body i⟩
    · exact ⟨trivial, .refl inner s⟩
  case h_9 => exact Form.count_disciplined _ _ s _ i
  case h_10 => exact Form.count_disciplined _ _ s _ i
  case h_1 => split <;> exact ⟨by simp [hi], .refl inner s⟩
  all_goals exact ⟨by simp [hi], .refl inner s⟩

theorem Expr.enter_disciplined (e : Expr) (hi : inner i) :
    (e.enter s i).1.Within inner ∧ s.Disciplined inner (e.enter s i).2 := by
  unfold Expr.enter
  split
  · exact ⟨trivial, .refl inner s⟩
  · exact ⟨trivial, .refl inner s⟩
  · exact ⟨Expr.lookUp_within s _ _ i, .refl inner s⟩
  · exact ⟨trivial, .refl inner s⟩
  · split
    · exact Form.enter_disciplined _ _ _ hi
    · exact ⟨⟨hi, hi⟩, .refl inner s⟩

theorem Frame.call_disciplined (hnew : ∀ i, s.scopes.size ≤ i → inner i) (callee : Value)
    (args : List Value) (operands : List Expr) (line : Nat) (hi : inner i) :
    (Frame.call s callee args operands line i).1.Within inner ∧
      s.Disciplined inner (Frame.call s callee args operands line i).2 := by
  cases operands with
  | nil =>
    have h := Value.apply_disciplined hnew callee args.reverse line
    exact ⟨⟨trivial, h.1⟩, h.2⟩
  | cons e operands => exact ⟨⟨hi, hi⟩, .refl inner s⟩

theorem Frame.resume_disciplined (hnew : ∀ i, s.scopes.size ≤ i → inner i) (f : Frame) (v : Value)
    (hf : f.Within inner) :
    (f.resume s v).1.Within inner ∧ s.Disciplined inner (f.resume s v).2 := by
  cases f with
  | callee | argument => exact Frame.call_disciplined hnew _ _ _ _ hf
  | set name i => exact ⟨trivial, .define hf name v⟩
  | test =>
    simp only [Frame.resume]
    split
    · exact ⟨⟨hf, hf⟩, .refl inner s⟩
    · exact ⟨trivial, .refl inner s⟩
  | sequence rest =>
    cases rest with
    | nil => exact ⟨trivial, .refl inner s⟩
    | cons => exact ⟨⟨hf, hf⟩, .refl inner s⟩
  | choice => exact ⟨⟨trivial, hf⟩, .refl inner s⟩
  | initial | round => exact ⟨⟨hf, hf⟩, .refl inner s⟩
  | result | print => exact ⟨trivial, .refl inner s⟩

end Moves

/-- The scopes in which names may be bound: the given ones and all that are not there yet. -/
def Store.Inner (s : Store) (own : ScopeId → Prop) (i : ScopeId) : Prop :=
  own i ∨ s.scopes.size ≤ i

theorem Machine.invariant_disciplined (s : Store) (own : ScopeId → Prop) :
    Invariant (s.Disciplined (s.Inner own)) (·.Within (s.Inner own)) (·.Within (s.Inner own)) where
  enter hs hc :=
    have h := Expr.enter_disciplined _ hc
    ⟨h.1, hs.trans h.2⟩
  resume hs hf _ :=
    have h := Frame.resume_disciplined (fun _ hi => .inr (Nat.le_trans hs.size hi)) _ _ hf
    ⟨h.1, hs.trans h.2⟩
  refused _ := trivial
  answered _ := trivial
  unanswered _ := trivial
  printed _ := trivial

theorem Store.Disciplined.of_inner {s t : Store} {own : ScopeId → Prop}
    (h : s.Disciplined (s.Inner own) t) : s.Disciplined own t where
  size := h.size
  link := h.link
  names i hi hn := h.names i hi fun hin => hin.elim hn (Nat.not_le_of_lt hi)
  kept := h.kept
  counted i hi hn := h.counted i hi fun hin => hin.elim hn (Nat.not_le_of_lt hi)

theorem Session.proceed_disciplined (steps : Nat) {before : Store} {own : ScopeId → Prop}
    (s : Session) (control : Control) (hs : before.Disciplined (before.Inner own) s.store)
    (hc : control.Within (before.Inner own)) :
    before.Disciplined own (s.proceedWithin steps control).2.store :=
  ((Machine.invariant_disciplined before own).run ⟨hs, hc, by simp⟩ steps).1.of_inner

/-- Whatever becomes of an evaluation, and at every moment of it: a scope that was there before and
is not its own binds the same names as before, and what changed in it are numbers; its own scope
loses no name; and all parent links are as they were. For a call, no scope that was there before is
its own. -/
theorem Session.evaluation_confined (s : Session) (steps : Nat) :
    (∀ e scope, s.store.Disciplined (· = scope) (s.evaluateWithin steps e scope).2.store) ∧
      ∀ callee args line,
        s.store.Disciplined (fun _ => False) (s.applyWithin steps callee args line).2.store := by
  constructor
  · intro e scope
    exact s.proceed_disciplined steps _ (.refl _ _) (.inl rfl)
  · intro callee args line
    have hnew : ∀ i, s.store.scopes.size ≤ i → s.store.Inner (fun _ => False) i :=
      fun _ hi => .inr hi
    have h := Value.apply_disciplined hnew callee args line
    exact Session.proceed_disciplined steps
      ⟨(callee.apply s.store args line).2, s.console, s.globals, s.limit, s.depth⟩ _ h.2 h.1

end PrefixScript
