import PrefixScript.Store

namespace PrefixScript

namespace Bindings

def keys (bindings : Bindings) : List String :=
  bindings.map (·.1)

theorem mem_keys_iff {name : String} {bindings : Bindings} :
    name ∈ bindings.keys ↔ ∃ v, bindings.lookup name = some v := by
  induction bindings with
  | nil => simp [keys]
  | cons b rest ih =>
    obtain ⟨n, v⟩ := b
    by_cases h : name = n
    · subst h; simp [keys]
    · simpa [keys, h, List.lookup_cons, beq_eq_false_iff_ne.2 h] using ih

theorem keys_insert_of_lookup {name : String} {bindings : Bindings} {old : Value}
    (h : bindings.lookup name = some old) (value : Value) :
    (bindings.insert name value).keys = bindings.keys := by
  induction bindings with
  | nil => simp at h
  | cons b rest ih =>
    obtain ⟨n, v⟩ := b
    by_cases hn : n = name
    · subst hn; simp [insert, keys]
    · simp only [List.lookup_cons, beq_eq_false_iff_ne.2 (Ne.symm hn)] at h
      simp only [insert, hn, if_false, keys, List.map_cons]
      exact congrArg (n :: ·) (ih h)

theorem mem_keys_insert {name other : String} {bindings : Bindings} (value : Value)
    (h : other ∈ bindings.keys) : other ∈ (bindings.insert name value).keys := by
  rw [mem_keys_iff] at h ⊢
  by_cases hn : other = name
  · exact ⟨value, by rw [hn, lookup_insert_self]⟩
  · simpa [lookup_insert_of_ne hn] using h

theorem mem_names_iff {name : String} {bindings : Bindings} :
    name ∈ bindings.names ↔ name ∈ bindings.keys := by
  simp [names, keys, List.mem_mergeSort]

end Bindings

namespace Store

/-- The parent link of a scope as it was made. -/
def link (s : Store) (i : ScopeId) : Option ScopeId :=
  s.scopes[i]?.bind (·.parent)

theorem parent?_eq (s : Store) (i : ScopeId) :
    s.parent? i = (s.link i).bind fun p => if p < i then some p else none := by
  rw [parent?, link, Option.bind_assoc]
  rfl

section Bounds

variable {s : Store} {i : ScopeId}

theorem link_of_size_le (h : s.scopes.size ≤ i) : s.link i = none := by
  rw [link, Array.getElem?_eq_none h]
  rfl

theorem bindings_of_size_le (h : s.scopes.size ≤ i) : s.bindings i = [] := by
  rw [bindings, Array.getElem?_eq_none h]

theorem lt_size_of_lookup {name : String} {value : Value}
    (h : (s.bindings i).lookup name = some value) : i < s.scopes.size := by
  apply Nat.lt_of_not_le
  intro hi
  rw [bindings_of_size_le hi] at h
  contradiction

end Bounds

section Define

variable (s : Store) (i : ScopeId) (name : String) (value : Value)

@[simp] theorem size_define : (s.define i name value).scopes.size = s.scopes.size := by
  simp [define]

theorem bindings_define_self {s : Store} {i : ScopeId} (h : i < s.scopes.size) (name : String)
    (value : Value) : (s.define i name value).bindings i = (s.bindings i).insert name value := by
  have hi : s.scopes[i]? = some s.scopes[i] := Array.getElem?_eq_getElem h
  simp only [define, bindings, Array.getElem?_modify, if_true, hi, Option.map_some]

theorem bindings_define_of_ne {i j : ScopeId} (h : j ≠ i) :
    (s.define i name value).bindings j = s.bindings j := by
  simp [define, bindings, Array.getElem?_modify, Ne.symm h]

@[simp] theorem link_define (j : ScopeId) : (s.define i name value).link j = s.link j := by
  simp only [define, link, Array.getElem?_modify]
  split
  · cases s.scopes[j]? <;> rfl
  · rfl

@[simp] theorem parent?_define (j : ScopeId) :
    (s.define i name value).parent? j = s.parent? j := by
  rw [parent?_eq, parent?_eq, link_define]

end Define

section NewScope

variable (s : Store) (parent : Option ScopeId)

@[simp] theorem size_newScope : (s.newScope parent).1.scopes.size = s.scopes.size + 1 := by
  simp [newScope]

@[simp] theorem newScope_snd : (s.newScope parent).2 = s.scopes.size := rfl

@[simp] theorem bindings_newScope (i : ScopeId) :
    (s.newScope parent).1.bindings i = s.bindings i := by
  by_cases h : i = s.scopes.size
  · subst h; simp [newScope, bindings]
  · simp [newScope, bindings, Array.getElem?_push, h]

theorem link_newScope_of_lt {i : ScopeId} (h : i < s.scopes.size) :
    (s.newScope parent).1.link i = s.link i := by
  simp [newScope, link, Array.getElem?_push, Nat.ne_of_lt h]

@[simp] theorem link_newScope_self : (s.newScope parent).1.link s.scopes.size = parent := by
  simp [newScope, link]

theorem of_link_newScope {s : Store} {parent : Option ScopeId} {i p : ScopeId}
    (h : (s.newScope parent).1.link i = some p) :
    s.link i = some p ∨ i = s.scopes.size ∧ parent = some p := by
  rcases Nat.lt_trichotomy i s.scopes.size with hlt | rfl | hgt
  · rw [link_newScope_of_lt _ _ hlt] at h
    exact .inl h
  · rw [link_newScope_self] at h
    exact .inr ⟨rfl, h⟩
  · rw [link_of_size_le (by rwa [size_newScope])] at h
    contradiction

end NewScope

theorem get?_eq (s : Store) (i : ScopeId) (name : String) :
    s.get? i name =
      ((s.bindings i).lookup name).or ((s.parent? i).bind fun p => s.get? p name) := by
  rw [get?]
  split
  · next h => rw [h]; rfl
  · next h =>
    rw [h]
    split
    · next hp => rw [hp]; rfl
    · next hp => rw [hp]; rfl

theorem assign_eq (s : Store) (i : ScopeId) (name : String) (value : Value) :
    s.assign i name value =
      match (s.bindings i).lookup name, s.parent? i with
      | some _, _ => (s.define i name value, true)
      | none, some p => s.assign p name value
      | none, none => (s, false) := by
  rw [assign]
  split
  · next h => rw [h]
  · next h =>
    rw [h]
    split
    · next hp => rw [hp]
    · next hp => rw [hp]

theorem exists_assign_eq_define {s : Store} {i : ScopeId} {name : String} {old : Value}
    (h : s.get? i name = some old) (value : Value) :
    ∃ j, (s.bindings j).lookup name = some old ∧
      s.assign i name value = (s.define j name value, true) := by
  fun_induction get? s i name with
  | case1 i v hv =>
    obtain rfl : v = old := by simpa using h
    refine ⟨i, hv, ?_⟩
    rw [assign_eq, hv]
  | case2 i hv p hp ih =>
    obtain ⟨j, hj, he⟩ := ih h
    refine ⟨j, hj, ?_⟩
    rw [assign_eq, hv, hp]
    exact he
  | case3 i hv hp => simp at h

end Store

end PrefixScript
