import PrefixScript.Proofs.Builtins
import PrefixScript.Proofs.Policy

/-!
# Scopes out of reach

An evaluation reaches its scope, the scopes around a scope that it reaches and the scopes of the
closures bound there. All else it neither reads nor writes: with other bindings in a scope out of
reach it does the same, and leaves them as they are.
-/

namespace PrefixScript

namespace Store

def replace (s : Store) (i : ScopeId) (bindings : Bindings) : Store :=
  { s with scopes := s.scopes.modify i fun scope => { scope with bindings } }

/-- The scopes that are reached from `roots` by way of parents and of the closures bound in them. -/
inductive Reachable (s : Store) (roots : ScopeId → Prop) : ScopeId → Prop
  | root {i} : roots i → Reachable s roots i
  | outward {i p} : Reachable s roots i → s.parent? i = some p → Reachable s roots p
  | captured {i name c} : Reachable s roots i →
    (s.bindings i).lookup name = some (.closure c) → Reachable s roots c.scope

theorem Reachable.mem {s : Store} {roots A : ScopeId → Prop} (hroots : ∀ i, roots i → A i)
    (houtward : ∀ i p, A i → s.parent? i = some p → A p)
    (hcaptured : ∀ i name c, A i → (s.bindings i).lookup name = some (.closure c) → A c.scope)
    {i : ScopeId} (h : s.Reachable roots i) : A i := by
  induction h with
  | root hi => exact hroots _ hi
  | outward _ hp ih => exact houtward _ _ ih hp
  | captured _ hc ih => exact hcaptured _ _ _ ih hc

theorem ext_scopes {s t : Store} (h : ∀ i : ScopeId, s.scopes[i]? = t.scopes[i]?)
    (hclosures : s.closures = t.closures) : s = t := by
  cases s
  cases t
  obtain rfl := Array.ext_getElem? h
  obtain rfl := hclosures
  rfl

section Replace

variable (s : Store) {i : ScopeId} (b : Bindings)

@[simp] theorem size_replace : (s.replace i b).scopes.size = s.scopes.size := by
  simp [replace]

theorem getElem?_replace_of_ne {j : ScopeId} (h : j ≠ i) :
    (s.replace i b).scopes[j]? = s.scopes[j]? := by
  simp [replace, Array.getElem?_modify, Ne.symm h]

theorem bindings_replace_of_ne {j : ScopeId} (h : j ≠ i) :
    (s.replace i b).bindings j = s.bindings j := by
  rw [bindings, bindings, getElem?_replace_of_ne s b h]

theorem bindings_replace_self {s : Store} {i : ScopeId} (h : i < s.scopes.size) :
    (s.replace i b).bindings i = b := by
  have hi : s.scopes[i]? = some s.scopes[i] := Array.getElem?_eq_getElem h
  simp only [replace, bindings, Array.getElem?_modify, if_true, hi, Option.map_some]

@[simp] theorem link_replace (j : ScopeId) : (s.replace i b).link j = s.link j := by
  simp only [replace, link, Array.getElem?_modify]
  split
  · cases s.scopes[j]? <;> rfl
  · rfl

@[simp] theorem parent?_replace (j : ScopeId) : (s.replace i b).parent? j = s.parent? j := by
  rw [parent?_eq, parent?_eq, link_replace]

theorem replace_replace (c : Bindings) : (s.replace i b).replace i c = s.replace i c := by
  refine ext_scopes (fun k => ?_) rfl
  simp only [replace, Array.getElem?_modify]
  split
  · cases s.scopes[k]? <;> rfl
  · rfl

theorem replace_bindings (i : ScopeId) : s.replace i (s.bindings i) = s := by
  refine ext_scopes (fun j => ?_) rfl
  simp only [replace, Array.getElem?_modify]
  split
  · next h =>
    subst h
    rw [bindings]
    cases s.scopes[i]? <;> rfl
  · rfl

theorem define_eq_replace (i : ScopeId) (name : String) (value : Value) :
    s.define i name value = s.replace i ((s.bindings i).insert name value) := by
  refine ext_scopes (fun k => ?_) rfl
  simp only [define, replace, bindings, Array.getElem?_modify]
  split
  · next h =>
    subst h
    cases s.scopes[i]? <;> rfl
  · rfl

theorem define_replace {j : ScopeId} (h : j ≠ i) (name : String) (value : Value) :
    (s.replace i b).define j name value = (s.define j name value).replace i b := by
  refine ext_scopes (fun k => ?_) rfl
  simp only [replace, define, Array.getElem?_modify]
  by_cases hi : i = k
  · subst hi
    simp [h]
  · simp [hi]

theorem newScope_replace (h : i < s.scopes.size) (parent : Option ScopeId) :
    (s.replace i b).newScope parent =
      ((s.newScope parent).1.replace i b, (s.newScope parent).2) := by
  apply Prod.ext
  · refine ext_scopes (fun k => ?_) rfl
    simp only [replace, newScope, Array.getElem?_modify, Array.getElem?_push, Array.size_modify]
    by_cases hi : i = k
    · subst hi
      simp [Nat.ne_of_lt h]
    · simp [hi]
  · simp

end Replace

end Store

def Policy.only (A : ScopeId → Prop) : Policy where
  expr _ := True
  scope := A
  value v := ∀ c, v = .closure c → A c.scope

theorem Policy.only_sound (A : ScopeId → Prop) : (Policy.only A).Sound where
  item _ _ := trivial
  number _ := nofun
  text _ := nofun
  null := nofun
  builtin _ := nofun
  closure _ hi := by rintro _ ⟨⟩; exact hi
  body _ := trivial
  around h := h _ rfl
  apply _ h c hc := absurd hc (Builtin.ne_closure_of_apply h c)
  input s c hc := absurd hc (Value.ofInput_ne_closure s c)
  up _ := nofun
  down _ := nofun

section Unnoticed

variable {P : Policy} {f : ScopeId} (hf : ¬ P.scope f) (b : Bindings)
include hf

theorem Store.get?_replace {s : Store} (hs : s.Obeys P) {i : ScopeId} (hi : P.scope i)
    (name : String) : (s.replace f b).get? i name = s.get? i name := by
  induction i using Nat.strong_induction_on with
  | _ i ih =>
    have hne : i ≠ f := fun h => hf (h ▸ hi)
    rw [Store.get?_eq, Store.get?_eq s, bindings_replace_of_ne s b hne, parent?_replace]
    cases hp : s.parent? i with
    | none => rfl
    | some p =>
      simp only [Option.bind_some]
      rw [ih p (lt_of_parent?_eq_some hp) (hs.outward hi hp)]

theorem Store.assign_replace {s : Store} (hs : s.Obeys P) {i : ScopeId} (hi : P.scope i)
    (name : String) (v : Value) :
    (s.replace f b).assign i name v =
      ((s.assign i name v).1.replace f b, (s.assign i name v).2) := by
  induction i using Nat.strong_induction_on with
  | _ i ih =>
    have hne : i ≠ f := fun h => hf (h ▸ hi)
    rw [Store.assign_eq, Store.assign_eq s, bindings_replace_of_ne s b hne, parent?_replace,
      define_replace s b hne]
    split
    · rfl
    · next p _ hp => exact ih p (lt_of_parent?_eq_some hp) (hs.outward hi hp)
    · rfl

theorem Policy.carries_replace : P.Carries (·.replace f b) where
  get? hs hi := Store.get?_replace hf b hs hi _
  define {s i _ _} hi := s.define_replace b (fun h : i = f => hf (h ▸ hi)) _ _
  assign hs hi := Store.assign_replace hf b hs hi _ _
  newScope {s p} hs := by
    have hlt : f < s.scopes.size := Nat.lt_of_not_le fun h => hf (hs.fresh h)
    exact s.newScope_replace b hlt _
  newClosure := rfl

end Unnoticed

def Store.Within (s : Store) (roots : ScopeId → Prop) (i : ScopeId) : Prop :=
  s.Reachable roots i ∨ s.scopes.size ≤ i

theorem Store.obeys_within (s : Store) (roots : ScopeId → Prop) :
    s.Obeys (Policy.only (s.Within roots)) where
  bound {i name v} hi hv := by
    rintro c rfl
    rcases hi with hi | hi
    · exact .inl (hi.captured hv)
    · rw [Store.bindings_of_size_le hi] at hv
      contradiction
  outward {i p} hi hp := by
    rcases hi with hi | hi
    · exact .inl (hi.outward hp)
    · rw [s.parent?_eq, Store.link_of_size_le hi] at hp
      contradiction
  fresh hi := .inr hi

namespace Session

def replace (s : Session) (i : ScopeId) (b : Bindings) : Session :=
  s.mapStore (·.replace i b)

/-- Whether something that a session does neither depends on the bindings of a scope nor changes
them: with other bindings there it ends in the same way, prints and reads the same, and leaves the
same behind, those bindings apart. -/
def Ignores (s : Session) (f : ScopeId) (run : Session → Outcome Fault × Session) : Prop :=
  (∀ b, run (s.replace f b) = ((run s).1, (run s).2.replace f b)) ∧
    (run s).2.store.bindings f = s.store.bindings f

theorem ignores_of_replace {s : Session} {f : ScopeId} {run : Session → Outcome Fault × Session}
    (hrun : ∀ b, run (s.replace f b) = ((run s).1, (run s).2.replace f b))
    (hf : f < (run s).2.store.scopes.size) : s.Ignores f run := by
  refine ⟨hrun, ?_⟩
  -- To replace the bindings by what they were is to replace nothing.
  have hsame : s.replace f (s.store.bindings f) = s := by
    rw [replace, mapStore, Store.replace_bindings]
  have hafter := hrun (s.store.bindings f)
  rw [hsame] at hafter
  calc (run s).2.store.bindings f
      = ((run s).2.replace f (s.store.bindings f)).store.bindings f :=
        congrArg (·.2.store.bindings f) hafter
    _ = s.store.bindings f := Store.bindings_replace_self _ hf

section Policy

variable {P : Policy} (sound : P.Sound) {s : Session} (hs : s.store.Obeys P) {f : ScopeId}
  (hf : ¬ P.scope f) (steps : Nat)
include sound hs hf

theorem replace_proceed (b : Bindings) {control : Control} (hc : control.Obeys P) :
    (s.replace f b).proceedWithin steps control =
      ((s.proceedWithin steps control).1, (s.proceedWithin steps control).2.replace f b) :=
  proceedWithin_mapStore (Policy.carries_replace hf b).unnoticed sound.invariant
    ⟨hs, hc, by simp [start]⟩ steps

theorem ignores_proceed {control : Control} (hc : control.Obeys P) :
    s.Ignores f (·.proceedWithin steps control) :=
  ignores_of_replace (fun b => replace_proceed sound hs hf steps b hc)
    (Nat.lt_of_not_le fun h => hf ((sound.proceed hs steps hc).2.fresh h))

theorem ignores_apply {callee : Value} {args : List Value} (line : Nat)
    (hcallee : P.value callee) (hargs : ∀ v ∈ args, P.value v) :
    s.Ignores f (·.applyWithin steps callee args line) := by
  have happly := sound.value_apply hs line hcallee hargs
  apply ignores_of_replace
  · intro b
    have hcarried := (Policy.carries_replace hf b).value_apply hs callee args line
    rw [applyWithin_eq, applyWithin_eq]
    simp only [replace, mapStore, hcarried]
    exact replace_proceed (s := { s with store := (callee.apply s.store args line).2 }) sound
      happly.2 hf steps b happly.1
  · exact Nat.lt_of_not_le fun h => hf ((sound.proceed happly.2 steps happly.1).2.fresh h)

end Policy

def capturedBy (values : List Value) (i : ScopeId) : Prop :=
  ∃ c, .closure c ∈ values ∧ c.scope = i

/-- An evaluation ignores every scope that it does not reach from its own scope, and a call every
scope that it does not reach from its callee and its arguments. -/
theorem unreachable_ignored (s : Session) (steps : Nat) (f : ScopeId)
    (hf : f < s.store.scopes.size) :
    (∀ e scope, ¬ s.store.Reachable (· = scope) f →
        s.Ignores f (·.evaluateWithin steps e scope)) ∧
      ∀ callee args line, ¬ s.store.Reachable (capturedBy (callee :: args)) f →
        s.Ignores f (·.applyWithin steps callee args line) := by
  have hout : ∀ {roots}, ¬ s.store.Reachable roots f → ¬ s.store.Within roots f :=
    fun hreach h => h.elim hreach (Nat.not_le_of_lt hf)
  constructor
  · intro e scope hreach
    exact ignores_proceed (Policy.only_sound _) (s.store.obeys_within _) (hout hreach) steps
      ⟨trivial, .inl (.root rfl)⟩
  · intro callee args line hreach
    have hcaptured : ∀ v ∈ callee :: args,
        (Policy.only (s.store.Within (capturedBy (callee :: args)))).value v :=
      fun v hv c hc => .inl (.root ⟨c, hc ▸ hv, rfl⟩)
    rw [List.forall_mem_cons] at hcaptured
    exact ignores_apply (Policy.only_sound _) (s.store.obeys_within _) (hout hreach) steps line
      hcaptured.1 hcaptured.2

def counters : Session where
  store := {
    scopes := #[
      ⟨[("next", .closure ⟨[], .list [.symbol "inc" 1, .symbol "n" 1] 1, 1, 0⟩)], none⟩,
      ⟨[("n", .number 0)], some 0⟩,
      ⟨[("n", .number 5)], some 0⟩]
    closures := 1 }
  console := .scripted []
  globals := 0
  limit := defaultLimit
  depth := 0

theorem counters_reachable {roots : ScopeId → Prop} (hroots : ∀ i, roots i → i < 2) :
    ¬ counters.store.Reachable roots 2 := by
  intro h
  refine absurd (h.mem hroots ?_ ?_) (Nat.lt_irrefl 2)
  · intro i p hi hp
    exact Nat.lt_trans (Store.lt_of_parent?_eq_some hp) hi
  · intro i name c hi hc
    match i with
    | 0 =>
      simp only [Store.bindings, counters, List.getElem?_toArray, List.getElem?_cons_zero,
        List.lookup_cons] at hc
      split at hc
      · obtain rfl := Value.closure.inj (Option.some.inj hc)
        decide
      · contradiction
    | 1 =>
      simp only [Store.bindings, counters, List.getElem?_toArray, List.getElem?_cons_succ,
        List.getElem?_cons_zero, List.lookup_cons] at hc
      split at hc <;> simp at hc

theorem unreachable_ignored_counters :
    2 < counters.store.scopes.size ∧ ¬ counters.store.Reachable (· = 0) 2 ∧
      counters.Ignores 2 (·.evaluateWithin 10 (.list [.symbol "next" 1] 1) 0) :=
  have hreach := counters_reachable fun i (hi : i = 0) => by subst hi; decide
  ⟨by decide, hreach, (unreachable_ignored counters 10 2 (by decide)).1 _ _ hreach⟩

end Session

end PrefixScript
