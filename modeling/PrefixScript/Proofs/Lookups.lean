import PrefixScript.Proofs.Stores
import Mathlib.Logic.Relation

namespace PrefixScript

namespace Store

def binds (s : Store) (name : String) (i : ScopeId) : Bool :=
  ((s.bindings i).lookup name).isSome

def home? (s : Store) (i : ScopeId) (name : String) : Option ScopeId :=
  (s.chain i).find? (s.binds name)

/-- The way outward from `j` comes to `i` before it comes to another scope that binds the name. -/
def Shows (s : Store) (name : String) (i j : ScopeId) : Prop :=
  (s.chain j).find? (fun k => k == i || s.binds name k) = some i

instance (s : Store) (name : String) (i j : ScopeId) : Decidable (s.Shows name i j) :=
  inferInstanceAs (Decidable (_ = _))

theorem parent?_eq_link {s : Store} (h : ∀ i p, s.link i = some p → p < i) (i : ScopeId) :
    s.parent? i = s.link i := by
  rw [parent?_eq]
  cases hp : s.link i with
  | none => rfl
  | some p => simp [h i p hp]

theorem chain_of_parent? {s : Store} {i p : ScopeId} (h : s.parent? i = some p) :
    s.chain i = i :: s.chain p := by
  rw [chain]
  split
  · next hp => rw [Option.some.inj (h.symm.trans hp)]
  · next hp => simp [h] at hp

theorem chain_of_parent?_eq_none {s : Store} {i : ScopeId} (h : s.parent? i = none) :
    s.chain i = [i] := by
  rw [chain]
  split
  · next hp => simp [h] at hp
  · rfl

section Homes

variable {s : Store} {i : ScopeId} {name : String}

theorem binds_of_lookup {v : Value} (h : (s.bindings i).lookup name = some v) :
    s.binds name i = true := by
  rw [binds, h]
  rfl

theorem binds_of_lookup_eq_none (h : (s.bindings i).lookup name = none) :
    s.binds name i = false := by
  rw [binds, h]
  rfl

theorem home?_of_binds (h : s.binds name i = true) : s.home? i name = some i := by
  rw [home?, chain, List.find?_cons, h]

theorem home?_of_parent? {p : ScopeId} (h : s.binds name i = false) (hp : s.parent? i = some p) :
    s.home? i name = s.home? p name := by
  rw [home?, chain_of_parent? hp, List.find?_cons, h]
  rfl

theorem home?_of_parent?_eq_none (h : s.binds name i = false) (hp : s.parent? i = none) :
    s.home? i name = none := by
  rw [home?, chain_of_parent?_eq_none hp, List.find?_cons, h]
  rfl

theorem binds_of_home? {k : ScopeId} (h : s.home? i name = some k) : s.binds name k = true :=
  List.find?_some h

theorem lt_size_of_home? {k : ScopeId} (h : s.home? i name = some k) : k < s.scopes.size := by
  obtain ⟨v, hv⟩ := Option.isSome_iff_exists.1 (binds_of_home? h)
  exact lt_size_of_lookup hv

theorem get?_eq_home (s : Store) (i : ScopeId) (name : String) :
    s.get? i name = (s.home? i name).bind fun k => (s.bindings k).lookup name := by
  fun_induction get? s i name with
  | case1 i v hv => rw [home?_of_binds (binds_of_lookup hv), Option.bind_some, hv]
  | case2 i hv p hp ih => rw [home?_of_parent? (binds_of_lookup_eq_none hv) hp, ih]
  | case3 i hv hp =>
    rw [home?_of_parent?_eq_none (binds_of_lookup_eq_none hv) hp, Option.bind_none]

theorem assign_eq_home (s : Store) (i : ScopeId) (name : String) (value : Value) :
    s.assign i name value =
      match s.home? i name with
      | some k => (s.define k name value, true)
      | none => (s, false) := by
  fun_induction assign s i name value with
  | case1 i v hv => rw [home?_of_binds (binds_of_lookup hv)]
  | case2 i hv p hp ih => rw [home?_of_parent? (binds_of_lookup_eq_none hv) hp, ih]
  | case3 i hv hp => rw [home?_of_parent?_eq_none (binds_of_lookup_eq_none hv) hp]

theorem isSome_get?_eq (s : Store) (i : ScopeId) (name : String) :
    (s.get? i name).isSome = (s.home? i name).isSome := by
  rw [get?_eq_home]
  cases h : s.home? i name with
  | none => rfl
  | some k => exact binds_of_home? h

theorem shows_self (s : Store) (name : String) (i : ScopeId) : s.Shows name i i := by
  rw [Shows, chain, List.find?_cons, beq_self_eq_true, Bool.true_or]

theorem shows_iff_home? (h : s.binds name i = true) (j : ScopeId) :
    s.Shows name i j ↔ s.home? j name = some i := by
  have hbinds : (fun k => k == i || s.binds name k) = s.binds name := by
    funext k
    by_cases hk : k = i
    · simp [hk, h]
    · simp [hk]
  rw [Shows, home?, hbinds]

variable {j : ScopeId}

theorem not_shows_of_binds (h : s.binds name j = true) (hne : j ≠ i) : ¬ s.Shows name i j := by
  rw [Shows, chain, List.find?_cons, h, Bool.or_true]
  simpa using hne

theorem shows_of_parent? {p : ScopeId} (h : s.binds name j = false) (hne : j ≠ i)
    (hp : s.parent? j = some p) : s.Shows name i j ↔ s.Shows name i p := by
  rw [Shows, chain_of_parent? hp, List.find?_cons, h, beq_eq_false_iff_ne.2 hne]
  rfl

theorem not_shows_of_parent?_eq_none (h : s.binds name j = false) (hne : j ≠ i)
    (hp : s.parent? j = none) : ¬ s.Shows name i j := by
  rw [Shows, chain_of_parent?_eq_none hp, List.find?_cons, h, beq_eq_false_iff_ne.2 hne]
  nofun

end Homes

theorem lookup_define_self {s : Store} {i : ScopeId} (h : i < s.scopes.size) (name : String)
    (value : Value) : ((s.define i name value).bindings i).lookup name = some value := by
  rw [bindings_define_self h, Bindings.lookup_insert_self]

theorem lookup_define_of_ne (s : Store) (value : Value) {i j : ScopeId} {name other : String}
    (h : j ≠ i ∨ other ≠ name) :
    ((s.define i name value).bindings j).lookup other = (s.bindings j).lookup other := by
  by_cases hj : j = i
  · subst hj
    by_cases hlt : j < s.scopes.size
    · rw [bindings_define_self hlt, Bindings.lookup_insert_of_ne (h.resolve_left fun h => h rfl)]
    · have hle := Nat.le_of_not_lt hlt
      rw [bindings_of_size_le hle, bindings_of_size_le (by rwa [size_define])]
  · rw [bindings_define_of_ne _ _ _ hj]

theorem get?_define {s : Store} {i : ScopeId} (hi : i < s.scopes.size) (name : String)
    (value : Value) (j : ScopeId) (other : String) :
    (s.define i name value).get? j other =
      if other = name ∧ s.Shows name i j then some value else s.get? j other := by
  induction j using Nat.strongRecOn with
  | ind j ih =>
    rw [get?_eq, parent?_define]
    by_cases hhere : j = i ∧ other = name
    · obtain ⟨rfl, rfl⟩ := hhere
      rw [lookup_define_self hi, if_pos ⟨rfl, s.shows_self _ _⟩, Option.some_or]
    rw [lookup_define_of_ne _ _ (Decidable.not_and_iff_or_not.1 hhere), get?_eq s j]
    cases hv : (s.bindings j).lookup other with
    | some old =>
      have hshows : ¬ (other = name ∧ s.Shows name i j) := by
        rintro ⟨rfl, h⟩
        exact not_shows_of_binds (binds_of_lookup hv) (fun hj => hhere ⟨hj, rfl⟩) h
      rw [if_neg hshows, Option.some_or, Option.some_or]
    | none =>
      cases hp : s.parent? j with
      | some p =>
        have hshows : (other = name ∧ s.Shows name i j) ↔ other = name ∧ s.Shows name i p := by
          refine and_congr_right fun hn => ?_
          subst hn
          exact shows_of_parent? (binds_of_lookup_eq_none hv) (fun hj => hhere ⟨hj, rfl⟩) hp
        simpa [hshows] using ih p (lt_of_parent?_eq_some hp)
      | none =>
        have hshows : ¬ (other = name ∧ s.Shows name i j) := by
          rintro ⟨rfl, h⟩
          exact not_shows_of_parent?_eq_none (binds_of_lookup_eq_none hv)
            (fun hj => hhere ⟨hj, rfl⟩) hp h
        rw [if_neg hshows]
        rfl

/-- Two stores that differ at most in what one scope binds one name to. -/
structure SameBut (i : ScopeId) (name : String) (s t : Store) : Prop where
  size : t.scopes.size = s.scopes.size
  closures : t.closures = s.closures
  link : ∀ j, t.link j = s.link j
  lookup : ∀ j other, j ≠ i ∨ other ≠ name →
    (t.bindings j).lookup other = (s.bindings j).lookup other

theorem sameBut_define (s : Store) (i : ScopeId) (name : String) (value : Value) :
    SameBut i name s (s.define i name value) where
  size := s.size_define i name value
  closures := rfl
  link := s.link_define i name value
  lookup _ _ h := s.lookup_define_of_ne value h

namespace SameBut

variable {i : ScopeId} {name : String} {s t u : Store}

theorem refl (i : ScopeId) (name : String) (s : Store) : SameBut i name s s :=
  ⟨rfl, rfl, fun _ => rfl, fun _ _ _ => rfl⟩

theorem symm (h : SameBut i name s t) : SameBut i name t s where
  size := h.size.symm
  closures := h.closures.symm
  link j := (h.link j).symm
  lookup j other hne := (h.lookup j other hne).symm

theorem trans (h : SameBut i name s t) (h' : SameBut i name t u) : SameBut i name s u where
  size := h'.size.trans h.size
  closures := h'.closures.trans h.closures
  link j := (h'.link j).trans (h.link j)
  lookup j other hne := (h'.lookup j other hne).trans (h.lookup j other hne)

variable (h : SameBut i name s t)
include h

theorem parent? (j : ScopeId) : t.parent? j = s.parent? j := by
  rw [parent?_eq, parent?_eq, h.link]

theorem chain (j : ScopeId) : t.chain j = s.chain j := by
  induction j using Nat.strongRecOn with
  | ind j ih =>
    cases hp : s.parent? j with
    | some p =>
      rw [chain_of_parent? hp, chain_of_parent? ((h.parent? j).trans hp),
        ih p (lt_of_parent?_eq_some hp)]
    | none =>
      rw [chain_of_parent?_eq_none hp, chain_of_parent?_eq_none ((h.parent? j).trans hp)]

variable {other : String} (hne : other ≠ name) (j : ScopeId)
include hne

theorem home? : t.home? j other = s.home? j other := by
  have hbinds : t.binds other = s.binds other := by
    funext k
    rw [binds, binds, h.lookup k other (.inr hne)]
  rw [Store.home?, Store.home?, h.chain, hbinds]

theorem get? : t.get? j other = s.get? j other := by
  simp only [get?_eq_home, h.home? hne, h.lookup _ other (.inr hne)]

end SameBut

end Store

namespace Environments

inductive Change (e : Environments) : Environments → Prop
  | new : Change e e.new
  | child {i} : i ∈ e.handles → Change e (e.child i)
  | clone {i} : i ∈ e.handles → Change e (e.clone i)
  | define {i} (name value) : i ∈ e.handles →
    Change e { e with store := e.store.define i name value }
  | assign {i} (name value) : i ∈ e.handles →
    Change e { e with store := (e.store.assign i name value).1 }

abbrev Later (e : Environments) : Environments → Prop :=
  Relation.ReflTransGen Change e

structure Ordered (e : Environments) : Prop where
  handles : ∀ i ∈ e.handles, i < e.store.scopes.size
  link : ∀ i p, e.store.link i = some p → p < i

theorem ordered_single : single.Ordered where
  handles := by simp [single, Store.newScope, Store.empty]
  link i p h := by
    cases i with
    | zero => simp [single, Store.newScope, Store.empty, Store.link] at h
    | succ i =>
      rw [Store.link_of_size_le (by simp [single, Store.newScope, Store.empty])] at h
      contradiction

section Ordered

variable {e e' : Environments}

theorem Ordered.parent?_eq_link (h : e.Ordered) (i : ScopeId) :
    e.store.parent? i = e.store.link i :=
  Store.parent?_eq_link h.link i

theorem Ordered.newScope (h : e.Ordered) {parent : Option ScopeId}
    (hparent : ∀ p, parent = some p → p ∈ e.handles) :
    Ordered ⟨(e.store.newScope parent).1, e.handles.push e.store.scopes.size⟩ where
  handles := by
    simp only [Array.mem_push, Store.size_newScope]
    rintro i (hi | rfl)
    · exact Nat.lt_succ_of_lt (h.handles i hi)
    · exact Nat.lt_succ_self _
  link i p hlink := by
    rcases Store.of_link_newScope hlink with hp | ⟨rfl, hp⟩
    · exact h.link i p hp
    · exact h.handles p (hparent p hp)

theorem Ordered.sameBut (h : e.Ordered) {i : ScopeId} {name : String} {store : Store}
    (hstore : Store.SameBut i name e.store store) : Ordered { e with store } where
  handles := by
    rw [hstore.size]
    exact h.handles
  link j p hp := h.link j p (hstore.link j ▸ hp)

theorem Change.ordered (h : e.Ordered) (hchange : Change e e') : e'.Ordered := by
  cases hchange with
  | new => exact h.newScope nofun
  | child hi => exact h.newScope fun p hp => Option.some.inj hp ▸ hi
  | clone hi =>
    refine ⟨fun j hj => ?_, h.link⟩
    rcases Array.mem_push.1 hj with hj | rfl
    · exact h.handles j hj
    · exact h.handles j hi
  | @define i name value =>
    exact h.sameBut (e.store.sameBut_define i name value)
  | @assign i name value =>
    rw [Store.assign_eq_home]
    split
    · next k _ => exact h.sameBut (e.store.sameBut_define k name value)
    · exact h

theorem Later.ordered (h : single.Later e) : e.Ordered := by
  induction h with
  | refl => exact ordered_single
  | tail _ hchange ih => exact hchange.ordered ih

theorem Change.handle {n : Nat} {i : ScopeId} (hn : e.handles[n]? = some i)
    (hchange : Change e e') : e'.handles[n]? = some i := by
  have hlt : n < e.handles.size := (Array.getElem?_eq_some_iff.1 hn).1
  have hpush : ∀ j, (e.handles.push j)[n]? = some i := fun j => by
    rw [Array.getElem?_push, if_neg (Nat.ne_of_lt hlt), hn]
  cases hchange with
  | define | assign => exact hn
  | new | child | clone => exact hpush _

theorem Later.handle {n : Nat} {i : ScopeId} (hn : e.handles[n]? = some i) (h : e.Later e') :
    e'.handles[n]? = some i := by
  induction h with
  | refl => exact hn
  | tail _ hchange ih => exact hchange.handle ih

end Ordered

/-- What assigning to a name in a scope of a collection and defining it there have to do with what
names mean in all of its scopes. -/
structure Agrees (e : Environments) (i : ScopeId) (name : String) (value : Value) : Prop where
  outward : ∀ j, e.store.parent? j = e.store.link j
  found : (e.store.assign i name value).2 = true ↔ (e.store.get? i name).isSome = true
  assigned : (e.store.assign i name value).2 = true →
    ∃ k, e.store.home? i name = some k ∧
      Store.SameBut k name e.store (e.store.assign i name value).1 ∧
      ((e.store.assign i name value).1.bindings k).lookup name = some value ∧
      ∀ j other, (e.store.assign i name value).1.get? j other =
        if other = name ∧ e.store.home? j name = some k then some value else e.store.get? j other
  refused : (e.store.assign i name value).2 = false → (e.store.assign i name value).1 = e.store
  defined : Store.SameBut i name e.store (e.store.define i name value) ∧
    ∀ j other, (e.store.define i name value).get? j other =
      if other = name ∧ e.store.Shows name i j then some value else e.store.get? j other
  cloned : ∀ n : Nat, e.handles[n]? = some i → ∀ later, (e.clone i).Later later →
    later.handles[n]? = some i ∧ later.handles[e.handles.size]? = some i

/-- Assignment reaches the scope that look-up reads, for every name in every scope of a collection
that is built up from a single scope. -/
theorem agrees {e : Environments} (h : single.Later e) {i : ScopeId} (hi : i ∈ e.handles)
    (name : String) (value : Value) : e.Agrees i name value where
  outward := h.ordered.parent?_eq_link
  found := by
    rw [Store.isSome_get?_eq, Store.assign_eq_home]
    cases e.store.home? i name <;> simp
  assigned := by
    rw [Store.assign_eq_home]
    cases hk : e.store.home? i name with
    | none => nofun
    | some k =>
      have hlt := Store.lt_size_of_home? hk
      refine fun _ => ⟨k, rfl, e.store.sameBut_define k name value,
        Store.lookup_define_self hlt name value, fun j other => ?_⟩
      simp only [Store.get?_define hlt, Store.shows_iff_home? (Store.binds_of_home? hk)]
  refused := by
    rw [Store.assign_eq_home]
    cases e.store.home? i name with
    | none => exact fun _ => rfl
    | some k => nofun
  defined := ⟨e.store.sameBut_define i name value,
    Store.get?_define (h.ordered.handles i hi) name value⟩
  cloned n hn later hlater := by
    have hclone : (e.clone i).handles[e.handles.size]? = some i := by simp [clone]
    exact ⟨hlater.handle ((Change.clone hi).handle hn), hlater.handle hclone⟩

def shadowed : Environments :=
  let e := single
  let e := { e with store := e.store.define 0 "x" (.text "outer") }
  let e := ((e.child 0).clone 1).child 1
  { e with store := e.store.define 2 "x" (.text "inner") }

theorem agrees_shadowed :
    single.Later shadowed ∧ 1 ∈ shadowed.handles ∧ shadowed.Agrees 1 "x" .null :=
  have hlater : single.Later shadowed :=
    .tail (.tail (.tail (.tail (.tail .refl (.define "x" (.text "outer") (by decide +kernel)))
      (.child (by decide +kernel))) (.clone (by decide +kernel))) (.child (by decide +kernel)))
      (.define "x" (.text "inner") (by decide +kernel))
  have hmem : 1 ∈ shadowed.handles := by decide +kernel
  ⟨hlater, hmem, agrees hlater hmem "x" .null⟩

end Environments

end PrefixScript
