import PrefixScript.Proofs.Isolation
import PrefixScript.Proofs.Lookups

namespace PrefixScript

namespace Store

inductive Outward (s : Store) : ScopeId → List ScopeId → Prop
  | outermost {i} : i < s.scopes.size → s.link i = none → Outward s i [i]
  | inside {i p is} : s.link i = some p → Outward s p is → Outward s i (i :: is)

inductive Finds (s : Store) (name : String) : ScopeId → Option Value → Prop
  | bound {i v} : (s.bindings i).lookup name = some v → Finds s name i (some v)
  | outward {i p found} : (s.bindings i).lookup name = none → s.link i = some p →
    Finds s name p found → Finds s name i found
  | unbound {i} : (s.bindings i).lookup name = none → s.link i = none → Finds s name i none

/-- Assigning to a name, link by link, while the scopes `held` are borrowed. Each scope on the way is
borrowed in its turn and stays so until all is done; it must not be borrowed already. -/
inductive Assigns (s : Store) (name : String) (value : Value) :
    (held : List ScopeId) → ScopeId → Store × Bool → Prop
  | bound {held i old} : i ∉ held → (s.bindings i).lookup name = some old →
    Assigns s name value held i (s.define i name value, true)
  | outward {held i p result} : i ∉ held → (s.bindings i).lookup name = none →
    s.link i = some p → Assigns s name value (i :: held) p result →
    Assigns s name value held i result
  | unbound {held i} : i ∉ held → (s.bindings i).lookup name = none → s.link i = none →
    Assigns s name value held i (s, false)

/-- The way outward from a scope ends and comes to no scope twice. Looking up and assigning from
there end as well, and no scope is borrowed that is borrowed already. -/
structure Founded (s : Store) (i : ScopeId) : Prop where
  outward : s.Outward i (s.chain i)
  distinct : (s.chain i).Nodup
  finds : ∀ name, s.Finds name i (s.get? i name)
  assigns : ∀ name value, s.Assigns name value [] i (s.assign i name value)

abbrev known (s : Store) : Policy :=
  .only (· < s.scopes.size)

/-- Every scope is inside an older one, if inside any, and every closure that is bound was made in a
scope that there is. -/
structure Grounded (s : Store) : Prop where
  link : ∀ i p, s.link i = some p → p < i
  bound : ∀ i name v, (s.bindings i).lookup name = some v → s.known.value v

namespace Grounded

variable {s : Store} (h : s.Grounded) {i : ScopeId}
include h

theorem outward (hi : i < s.scopes.size) : s.Outward i (s.chain i) := by
  induction i using Nat.strongRecOn with
  | ind i ih =>
    have hparent := parent?_eq_link h.link i
    cases hp : s.link i with
    | none =>
      rw [chain_of_parent?_eq_none (hparent.trans hp)]
      exact .outermost hi hp
    | some p =>
      have hlt := h.link i p hp
      rw [chain_of_parent? (hparent.trans hp)]
      exact .inside hp (ih p hlt (Nat.lt_trans hlt hi))

theorem descending {is : List ScopeId} (his : s.Outward i is) :
    (∀ j ∈ is, j ≤ i) ∧ is.Nodup := by
  induction his with
  | outermost => simp
  | @inside i p is hp _ ih =>
    have hlt : ∀ j ∈ is, j < i := fun j hj => Nat.lt_of_le_of_lt (ih.1 j hj) (h.link i p hp)
    refine ⟨?_, List.nodup_cons.2 ⟨fun hi => Nat.lt_irrefl i (hlt i hi), ih.2⟩⟩
    rw [List.forall_mem_cons]
    exact ⟨Nat.le_refl i, fun j hj => Nat.le_of_lt (hlt j hj)⟩

theorem finds (name : String) : s.Finds name i (s.get? i name) := by
  fun_induction get? s i name with
  | case1 i v hv => exact .bound hv
  | case2 i hv p hp ih =>
    rw [parent?_eq_link h.link] at hp
    exact .outward hv hp ih
  | case3 i hv hp =>
    rw [parent?_eq_link h.link] at hp
    exact .unbound hv hp

theorem assigns (name : String) (value : Value) {held : List ScopeId} (hheld : ∀ j ∈ held, i < j) :
    s.Assigns name value held i (s.assign i name value) := by
  have hnew : ∀ {k} {held : List ScopeId}, (∀ j ∈ held, k < j) → k ∉ held :=
    fun hheld hk => Nat.lt_irrefl _ (hheld _ hk)
  fun_induction assign s i name value generalizing held with
  | case1 i v hv => exact .bound (hnew hheld) hv
  | case2 i hv p hp ih =>
    rw [parent?_eq_link h.link] at hp
    have hlt := h.link i p hp
    refine .outward (hnew hheld) hv hp (ih ?_)
    rw [List.forall_mem_cons]
    exact ⟨hlt, fun j hj => Nat.lt_trans hlt (hheld j hj)⟩
  | case3 i hv hp =>
    rw [parent?_eq_link h.link] at hp
    exact .unbound (hnew hheld) hv hp

theorem founded (hi : i < s.scopes.size) : s.Founded i where
  outward := h.outward hi
  distinct := (h.descending (h.outward hi)).2
  finds := h.finds
  assigns name value := h.assigns name value (by simp)

end Grounded

end Store

end PrefixScript
