import PrefixScript.Proofs.Confinement
import PrefixScript.Proofs.Lookups
import PrefixScript.Proofs.Termination

namespace PrefixScript

namespace Expr

/-- The name does not occur as a symbol, unless as that of a special form at the head of a list. -/
inductive Unread (name : String) : Expr → Prop
  | atom {a} : a.symbol? ≠ some name → Unread name (.atom a)
  | list {items line} : (∀ e ∈ items, Unread name e) → Unread name (.list items line)
  | form {head operands line} : head.symbol? = some name → Form.ofName? name ≠ none →
    (∀ e ∈ operands, Unread name e) → Unread name (.list (head :: operands) line)

namespace Unread

variable {name : String} {e d : Expr}

theorem symbol? (h : e.Unread name) : e.symbol? ≠ some name := by
  cases h with
  | atom h => exact h
  | list | form => nofun

theorem active (h : e.Unread name) (hd : d ∈ e.active) : d.Unread name := by
  cases h with
  | atom => contradiction
  | list hitems => exact hitems d (mem_of_mem_active hd)
  | @form head _ _ hhead hname hoperands =>
    obtain ⟨form, hform⟩ := Option.ne_none_iff_exists'.1 hname
    have hbind : head.symbol?.bind Form.ofName? = some form := by
      rw [hhead, Option.bind_some, hform]
    rw [active_of_form hbind] at hd
    exact hoperands d hd

theorem notMem_names (h : e.Unread name) : name ∉ e.names := by
  cases e with
  | atom a =>
    intro hmem
    exact h.symbol? (Option.mem_toList.1 hmem)
  | list items line =>
    intro hmem
    obtain ⟨d, hd, hname⟩ := List.mem_filterMap.1 hmem
    exact (h.active hd).symbol? hname

end Unread

end Expr

namespace Bindings

def without (name : String) (bindings : Bindings) : Bindings :=
  bindings.filter (·.1 ≠ name)

theorem without_insert_self (name : String) (value : Value) (bindings : Bindings) :
    (bindings.insert name value).without name = bindings.without name := by
  induction bindings with
  | nil => simp [insert, without]
  | cons b rest ih =>
    obtain ⟨n, v⟩ := b
    by_cases h : n = name
    · subst h; simp [insert, without]
    · simpa [insert, without, h] using ih

theorem without_insert_of_ne {name other : String} (h : other ≠ name) (value : Value)
    (bindings : Bindings) :
    (bindings.insert other value).without name = (bindings.without name).insert other value := by
  induction bindings with
  | nil => simp [insert, without, h]
  | cons b rest ih =>
    obtain ⟨n, v⟩ := b
    by_cases hn : n = other
    · subst hn; simp [insert, without, h]
    · by_cases hname : n = name
      · subst hname; simpa [insert, without, hn] using ih
      · simpa [insert, without, hn, hname] using ih

theorem lookup_without_of_ne {name other : String} (h : other ≠ name) (bindings : Bindings) :
    (bindings.without name).lookup other = bindings.lookup other := by
  induction bindings with
  | nil => rfl
  | cons b rest ih =>
    obtain ⟨n, v⟩ := b
    by_cases hn : n = name
    · subst hn; simpa [without, List.lookup_cons, beq_eq_false_iff_ne.2 h] using ih
    · simp only [without, ne_eq, hn, not_false_eq_true, decide_true, List.filter_cons_of_pos,
        List.lookup_cons]
      rw [← ih]
      rfl

end Bindings

namespace Store

def forget (s : Store) (i : ScopeId) (name : String) : Store :=
  s.replace i ((s.bindings i).without name)

theorem sameBut_replace {s : Store} {i : ScopeId} {name : String} {b : Bindings}
    (h : ∀ other, other ≠ name → b.lookup other = (s.bindings i).lookup other) :
    SameBut i name s (s.replace i b) where
  size := s.size_replace b
  closures := rfl
  link := s.link_replace b
  lookup j other hne := by
    by_cases hj : j = i
    · subst hj
      by_cases hlt : j < s.scopes.size
      · rw [bindings_replace_self b hlt, h other (hne.resolve_left fun h => h rfl)]
      · have hle := Nat.le_of_not_lt hlt
        rw [bindings_of_size_le hle, bindings_of_size_le (by rwa [size_replace])]
    · rw [bindings_replace_of_ne s b hj]

section Forget

variable (s : Store) (i : ScopeId) (name : String)

theorem sameBut_forget : SameBut i name s (s.forget i name) :=
  sameBut_replace fun _ hne => Bindings.lookup_without_of_ne hne _

theorem newScope_forget {i : ScopeId} (h : i < s.scopes.size) (parent : Option ScopeId) :
    (s.forget i name).newScope parent =
      ((s.newScope parent).1.forget i name, (s.newScope parent).2) := by
  rw [forget, newScope_replace s _ h, forget, bindings_newScope]

theorem define_forget_of_scope_ne {i j : ScopeId} (h : j ≠ i) (other : String) (value : Value) :
    (s.forget i name).define j other value = (s.define j other value).forget i name := by
  rw [forget, define_replace s _ h, forget, bindings_define_of_ne _ _ _ (Ne.symm h)]

theorem define_forget {i : ScopeId} {name other : String} (hi : i < s.scopes.size)
    (hne : other ≠ name) (j : ScopeId) (value : Value) :
    (s.forget i name).define j other value = (s.define j other value).forget i name := by
  by_cases hj : j = i
  · subst hj
    rw [define_eq_replace, forget, bindings_replace_self _ hi, replace_replace, forget,
      bindings_define_self hi, Bindings.without_insert_of_ne hne, define_eq_replace,
      replace_replace]
  · exact s.define_forget_of_scope_ne name hj other value

theorem forget_define {i : ScopeId} (hi : i < s.scopes.size) (value : Value) :
    (s.define i name value).forget i name = s.forget i name := by
  rw [forget, bindings_define_self hi, Bindings.without_insert_self, define_eq_replace,
    replace_replace, forget]

theorem define_of_size_le {s : Store} {i : ScopeId} (h : s.scopes.size ≤ i) (name : String)
    (value : Value) : s.define i name value = s := by
  refine ext_scopes (fun k => ?_) rfl
  simp only [define, Array.getElem?_modify]
  split
  · next hk =>
    rw [← hk, Array.getElem?_eq_none h]
    rfl
  · rfl

theorem assign_forget {i : ScopeId} {name other : String} (hi : i < s.scopes.size)
    (hne : other ≠ name) (j : ScopeId) (value : Value) :
    (s.forget i name).assign j other value =
      ((s.assign j other value).1.forget i name, (s.assign j other value).2) := by
  rw [assign_eq_home, assign_eq_home s, (s.sameBut_forget i name).home? hne]
  cases s.home? j other with
  | none => rfl
  | some k => exact Prod.ext (s.define_forget hi hne k value) rfl

theorem sameBut_of_forget {s t : Store} {i : ScopeId} {name : String}
    (h : t.forget i name = s.forget i name) : SameBut i name s t :=
  (s.sameBut_forget i name).trans (h ▸ (t.sameBut_forget i name).symm)

end Forget

end Store

def Policy.unread (name : String) (A : ScopeId → Prop) : Policy :=
  .bodies (·.Unread name) A

theorem Policy.unread_closed (name : String) (A : ScopeId → Prop) :
    (Policy.unread name A).Closed :=
  bodies_closed Expr.Unread.active A

section Moves

variable {s : Store} {i : ScopeId}

theorem Expr.size_enter (e : Expr) : s.scopes.size ≤ (e.enter s i).2.scopes.size := by
  have h : _ ∧ s.Disciplined (fun _ => True) (e.enter s i).2 := e.enter_disciplined trivial
  exact h.2.size

theorem Frame.size_resume (f : Frame) (v : Value) :
    s.scopes.size ≤ (f.resume s v).2.scopes.size := by
  have h : _ ∧ s.Disciplined (fun _ => True) (f.resume s v).2 :=
    Frame.resume_disciplined (fun _ _ => trivial) f v (by cases f <;> trivial)
  exact h.2.size

end Moves

namespace Machine

variable (name : String) (g : ScopeId) (A : ScopeId → Prop)

theorem invariant_unread :
    Invariant (fun s => s.Obeys (.unread name A) ∧ g < s.scopes.size) (·.Obeys (.unread name A))
      (fun f => f.Obeys (.unread name A) ∧ f.target? ≠ some name) := by
  have closed := (Policy.unread_closed name A).invariant
  refine ⟨fun {s e i} hs hc => ?_, fun {s f v} hs hf hv => ?_, closed.refused, closed.answered,
    closed.unanswered, closed.printed⟩
  · have henter := closed.enter hs.1 hc
    have htarget : ∀ f : Frame, (∀ other ∈ f.target?, other ∈ e.names) → f.target? ≠ some name :=
      fun f hf h => hc.1.notMem_names (hf name h)
    exact ⟨(henter.1.and (e.parts_enter s i)).mono (fun _ h => h.1)
        fun f h => ⟨h.1, htarget f h.2.2⟩,
      henter.2, Nat.lt_of_lt_of_le hs.2 e.size_enter⟩
  · have hresume := closed.resume hs.1 hf.1 hv
    exact ⟨(hresume.1.and (f.parts_resume s v)).mono (fun _ h => h.1)
        fun f h => ⟨h.1, by simp [h.2.2]⟩,
      hresume.2, Nat.lt_of_lt_of_le hs.2 (f.size_resume v)⟩

theorem unnoticed_forget :
    Unnoticed (fun s => s.Obeys (.unread name A) ∧ g < s.scopes.size) (·.Obeys (.unread name A))
      (fun f => f.Obeys (.unread name A) ∧ f.target? ≠ some name) (·.forget g name) where
  enter {s e i} hs hc := by
    have hne : ∀ other ∈ e.names, other ≠ name :=
      fun other hother h => hc.1.notMem_names (h ▸ hother)
    have hcarried : Store.Carried (·.forget g name) s i e.names := {
      get? := fun other hother => (s.sameBut_forget g name).get? (hne other hother) i
      assign := fun other hother => s.assign_forget hs.2 (hne other hother) i
      newClosure := fun _ _ => rfl }
    exact hcarried.expr_enter
  resume {s f v} hs hf _ := by
    have hnew : s.scopes.size ≠ g := Nat.ne_of_gt hs.2
    refine Frame.resume_carried (g := (·.forget g name)) v ?_ ?_
    · rintro other i rfl
      exact s.define_forget hs.2 (fun h => hf.2 (congrArg some h)) i v
    · exact Value.apply_carried (fun p => s.newScope_forget name hs.2 (some p))
        fun t other w => t.define_forget_of_scope_ne name hnew other w

end Machine

namespace Session

variable {s : Session} {name : String} {program : List Expr}

theorem runAll_forget {A : ScopeId → Prop} (hs : s.store.Obeys (.unread name A))
    (hglobals : s.globals < s.store.scopes.size) (hA : A s.globals)
    (hprogram : ∀ e ∈ program, e.Unread name) (steps : Nat) (last : Value) :
    (s.mapStore (·.forget s.globals name)).runAllWithin steps last program =
      ((s.runAllWithin steps last program).1,
        (s.runAllWithin steps last program).2.mapStore (·.forget s.globals name)) :=
  runAll_mapStore (Machine.unnoticed_forget name s.globals A)
    (Machine.invariant_unread name s.globals A) ⟨hs, hglobals⟩
    (fun e he => ⟨hprogram e he, hA⟩) last

structure SameBut (i : ScopeId) (name : String) (s t : Session) : Prop where
  store : s.store.SameBut i name t.store
  console : t.console = s.console
  globals : t.globals = s.globals
  limit : t.limit = s.limit
  depth : t.depth = s.depth

theorem sameBut_of_forget {s t : Session} {i : ScopeId} {name : String}
    (h : t.mapStore (·.forget i name) = s.mapStore (·.forget i name)) : SameBut i name s t := by
  obtain ⟨hstore, hconsole, hglobals, hlimit, hdepth⟩ := Session.mk.inj h
  exact ⟨Store.sameBut_of_forget hstore, hconsole, hglobals, hlimit, hdepth⟩

/-- A program that does not look up a name, where no closure in reach from the global scope or the
value does, runs the same after the name is bound to the value in the global scope as it does
without: it ends in the same way, reads and prints the same, and leaves the same behind, but for
that binding. The name of a special form may head lists, and what the parameters of closures are
called does not matter. -/
theorem unread_ignored (hprogram : ∀ e ∈ program, e.Unread name) {value : Value}
    (hvalue : ∀ c, value = .closure c → c.body.Unread name)
    (hreach : ∀ i other c,
      s.store.Reachable (fun j => j = s.globals ∨ capturedBy [value] j) i →
      (s.store.bindings i).lookup other = some (.closure c) → c.body.Unread name)
    (steps : Nat) :
    let r := s.runProgramWithin steps program
    let r' := (s.define s.globals name value).runProgramWithin steps program
    r'.1 = r.1 ∧ r.2.SameBut s.globals name r'.2 := by
  by_cases hlt : s.globals < s.store.scopes.size
  · let A := s.store.Within fun j => j = s.globals ∨ capturedBy [value] j
    have hobeys : s.store.Obeys (.unread name A) := Store.obeys_bodies hreach
    have hadmitted : (Policy.unread name A).value value := fun c hc =>
      ⟨hvalue c hc, .inl (.root (.inr ⟨c, hc ▸ List.mem_cons_self, rfl⟩))⟩
    have hroot : A s.globals := .inl (.root (.inl rfl))
    -- Both runs are, but for the binding, the run in which the name is not bound at all.
    have hwithout := runAll_forget hobeys hlt hroot hprogram steps .null
    have hwith := runAll_forget (s := s.define s.globals name value)
      (hobeys.define s.globals name hadmitted) (by simpa [define] using hlt) hroot hprogram
      steps .null
    have hglobals : (s.define s.globals name value).globals = s.globals := rfl
    have hsame : (s.define s.globals name value).mapStore (·.forget s.globals name) =
        s.mapStore (·.forget s.globals name) := by
      simp only [mapStore, define, Store.forget_define s.store name hlt]
    rw [hglobals, hsame] at hwith
    obtain ⟨houtcome, hsession⟩ := Prod.mk.inj (hwith.symm.trans hwithout)
    exact ⟨houtcome, sameBut_of_forget hsession⟩
  · have hdefine : s.define s.globals name value = s := by
      rw [define, Store.define_of_size_le (Nat.le_of_not_lt hlt)]
    rw [hdefine]
    exact ⟨rfl, .refl _ _ _, rfl, rfl, rfl, rfl⟩

def setsY (name : String) : Expr :=
  .list [.symbol "set" 1, .symbol "y" 1, .symbol name 1] 1

theorem unread_setsY : (setsY "x").Unread "set" := by
  refine .form rfl (by decide) fun e he => ?_
  simp only [List.mem_cons, List.not_mem_nil, or_false] at he
  rcases he with rfl | rfl <;> exact .atom (by decide)

def assigning : Session :=
  { new (.scripted []) 10 with
    store := ⟨#[⟨[("f", .closure ⟨["x"], setsY "x", 0, 0⟩)], none⟩], 1⟩ }

theorem unread_assigning {i : ScopeId} {other : String} {c : Closure}
    (h : (assigning.store.bindings i).lookup other = some (.closure c)) : c.body.Unread "set" := by
  cases i with
  | zero =>
    simp only [Store.bindings, assigning, List.getElem?_toArray, List.getElem?_cons_zero,
      List.lookup_cons] at h
    split at h
    · obtain rfl := Value.closure.inj (Option.some.inj h)
      exact unread_setsY
    · contradiction
  | succ i => simp [Store.bindings, assigning] at h

theorem unread_ignored_set :
    (∀ e ∈ [callsF "f"], e.Unread "set") ∧
      (∀ c, Value.null = .closure c → c.body.Unread "set") ∧
      (∀ i other c,
        assigning.store.Reachable (fun j => j = assigning.globals ∨ capturedBy [.null] j) i →
        (assigning.store.bindings i).lookup other = some (.closure c) → c.body.Unread "set") ∧
      ((assigning.define 0 "set" .null).runProgramWithin 100 [callsF "f"]).1 =
        (assigning.runProgramWithin 100 [callsF "f"]).1 := by
  have hprogram : ∀ e ∈ [callsF "f"], e.Unread "set" := by
    refine List.forall_mem_singleton.2 (.list fun e he => ?_)
    simp only [List.mem_cons, List.not_mem_nil, or_false] at he
    rcases he with rfl | rfl <;> exact .atom (by decide)
  have hvalue : ∀ c, Value.null = .closure c → c.body.Unread "set" :=
    fun _ h => Value.noConfusion h
  have hreach : ∀ i other c,
      assigning.store.Reachable (fun j => j = assigning.globals ∨ capturedBy [.null] j) i →
      (assigning.store.bindings i).lookup other = some (.closure c) → c.body.Unread "set" :=
    fun _ _ _ _ h => unread_assigning h
  exact ⟨hprogram, hvalue, hreach, (unread_ignored hprogram hvalue hreach 100).1⟩

end Session

end PrefixScript
