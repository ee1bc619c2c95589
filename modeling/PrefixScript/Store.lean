import PrefixScript.Value

namespace PrefixScript

abbrev Bindings := List (String × Value)

namespace Bindings

def insert (name : String) (value : Value) : Bindings → Bindings
  | [] => [(name, value)]
  | (n, v) :: rest =>
    if n = name then (name, value) :: rest else (n, v) :: insert name value rest

def names (bindings : Bindings) : List String :=
  (bindings.map (·.1)).mergeSort fun a b => decide (a ≤ b)

@[simp] theorem lookup_insert_self (name : String) (value : Value) (bindings : Bindings) :
    (bindings.insert name value).lookup name = some value := by
  induction bindings with
  | nil => simp [insert]
  | cons b rest ih =>
    obtain ⟨n, v⟩ := b
    by_cases h : n = name
    · simp [insert, h]
    · simp [insert, h, List.lookup_cons, beq_eq_false_iff_ne.2 (Ne.symm h), ih]

theorem lookup_insert_of_ne {name other : String} (h : other ≠ name) (value : Value)
    (bindings : Bindings) :
    (bindings.insert name value).lookup other = bindings.lookup other := by
  induction bindings with
  | nil => simp [insert, h]
  | cons b rest ih =>
    obtain ⟨n, v⟩ := b
    by_cases hn : n = name
    · subst hn; simp [insert, List.lookup_cons, beq_eq_false_iff_ne.2 h]
    · simp [insert, hn, List.lookup_cons, ih]

end Bindings

structure Scope where
  bindings : Bindings
  parent : Option ScopeId

structure Store where
  scopes : Array Scope
  closures : Nat

namespace Store

def empty : Store :=
  ⟨#[], 0⟩

def bindings (s : Store) (i : ScopeId) : Bindings :=
  match s.scopes[i]? with
  | some scope => scope.bindings
  | none => []

/-- The scope around a scope, if there is one and it is older. -/
def parent? (s : Store) (i : ScopeId) : Option ScopeId := do
  let p ← (← s.scopes[i]?).parent
  if p < i then some p else none

def newScope (s : Store) (parent : Option ScopeId) : Store × ScopeId :=
  let i := s.scopes.size
  ({ s with scopes := s.scopes.push ⟨[], parent⟩ }, i)

def newClosure (s : Store) (params : List String) (body : Expr) (scope : ScopeId) :
    Store × Closure :=
  let mark := s.closures
  ({ s with closures := mark + 1 }, ⟨params, body, scope, mark⟩)

def define (s : Store) (i : ScopeId) (name : String) (value : Value) : Store :=
  { s with
    scopes := s.scopes.modify i fun scope =>
      { scope with bindings := scope.bindings.insert name value } }

def defineAll (s : Store) (i : ScopeId) (names : List String) (values : List Value) : Store :=
  (names.zip values).foldl (fun s b => s.define i b.1 b.2) s

theorem lt_of_parent?_eq_some {s : Store} {i p : ScopeId} (h : s.parent? i = some p) : p < i := by
  simp only [parent?, Option.bind_eq_bind, Option.bind_eq_some_iff] at h
  obtain ⟨_, _, _, _, h⟩ := h
  split at h
  · simp_all
  · contradiction

def get? (s : Store) (i : ScopeId) (name : String) : Option Value :=
  match (s.bindings i).lookup name with
  | some value => some value
  | none =>
    match _h : s.parent? i with
    | some p => s.get? p name
    | none => none
termination_by i
decreasing_by exact lt_of_parent?_eq_some _h

def assign (s : Store) (i : ScopeId) (name : String) (value : Value) : Store × Bool :=
  match (s.bindings i).lookup name with
  | some _ => (s.define i name value, true)
  | none =>
    match _h : s.parent? i with
    | some p => s.assign p name value
    | none => (s, false)
termination_by i
decreasing_by exact lt_of_parent?_eq_some _h

def names (s : Store) (i : ScopeId) : List String :=
  (s.bindings i).names

def chain (s : Store) (i : ScopeId) : List ScopeId :=
  i :: match _h : s.parent? i with
    | some p => s.chain p
    | none => []
termination_by i
decreasing_by exact lt_of_parent?_eq_some _h

end Store

/-- Handles on the scopes of a store, numbered in the order in which they were made. Several handles
may be on one scope. -/
structure Environments where
  store : Store
  handles : Array ScopeId

namespace Environments

def single : Environments :=
  let (store, i) := Store.empty.newScope none
  ⟨store, #[i]⟩

def new (e : Environments) : Environments :=
  let (store, i) := e.store.newScope none
  ⟨store, e.handles.push i⟩

def child (e : Environments) (scope : ScopeId) : Environments :=
  let (store, i) := e.store.newScope (some scope)
  ⟨store, e.handles.push i⟩

def clone (e : Environments) (scope : ScopeId) : Environments :=
  { e with handles := e.handles.push scope }

end Environments

def Store.debug (s : Store) (i : ScopeId) : String :=
  "Environment \x7b locals: " ++ Text.Quoted.encodeAll (s.names i) ++ ", has_parent: " ++
    (if (s.parent? i).isSome then "true" else "false") ++ " \x7d"

end PrefixScript
