import PrefixScript.Proofs.Builtins
import PrefixScript.Proofs.Policy
import PrefixScript.Proofs.Rendering

namespace PrefixScript

def Expr.Finite (e : Expr) : Prop :=
  ∀ x, .number x ∈ e.words → x.isFinite = true

@[simp] def Value.Finite : Value → Prop
  | .number x => x.isFinite = true
  | .list xs => ∀ x ∈ xs, x.isFinite = true
  | .closure c => c.body.Finite
  | .null | .text _ | .builtin _ => True

def Store.Finite (s : Store) : Prop :=
  ∀ i name v, (s.bindings i).lookup name = some v → v.Finite

theorem Value.Finite.numbers {v : Value} (h : v.Finite) : v.Numbers (·.isFinite = true) := by
  cases v with
  | number | list => exact h
  | null | text | closure | builtin => trivial

theorem Value.finite_of_numbers {v : Value} (h : v.Numbers (·.isFinite = true))
    (hkind : v.kind ≠ .closure) : v.Finite := by
  cases v with
  | number | list => exact h
  | closure => contradiction
  | null | text | builtin => trivial

theorem Value.finite_ofInput (s : String) : (Value.ofInput s).Finite := by
  unfold Value.ofInput
  split
  · next h => exact Number.isFinite_of_finite (Number.finite_of_ofText? h)
  · trivial

def Policy.finite : Policy where
  expr := Expr.Finite
  scope _ := True
  value := Value.Finite

namespace Policy

theorem finite_sound : finite.Sound where
  item h he x hx := h x (by rw [Expr.words_list]; exact (Expr.sublist_words he).subset hx)
  number h := h _ (by simp)
  text _ := trivial
  null := trivial
  builtin _ := trivial
  closure hbody _ := hbody
  body h := h
  around _ := trivial
  apply hargs h :=
    have hv := Builtin.apply_ok (fun _ hx => hx) (fun w hw => (hargs w hw).numbers) h
    Value.finite_of_numbers hv.1 hv.2
  input := Value.finite_ofInput
  up h := Number.isFinite_add_one h
  down h := Number.isFinite_add_neg_one h

theorem obeys_finite_iff {s : Store} : s.Obeys finite ↔ s.Finite where
  mp h _ _ _ hv := h.bound trivial hv
  mpr h := ⟨fun _ hv => h _ _ _ hv, fun _ _ => trivial, fun _ => trivial⟩

end Policy

theorem Program.finite_of_ofSource {source : Source} {program : List Expr}
    (h : ofSource source = .ok program) : ∀ e ∈ program, e.Finite := by
  intro e he x hx
  have hsound := (words_of_ofSource h).1 (.number x) ((Expr.sublist_words he).subset hx)
  exact Number.isFinite_of_finite hsound

namespace Session

theorem finite_runSource {s : Session} (hs : s.store.Finite) (steps : Nat) (source : Source) :
    (s.runSourceWithin steps source).1.Meets Value.Finite ∧
      (s.runSourceWithin steps source).2.store.Finite := by
  unfold runSourceWithin
  split
  · exact ⟨trivial, hs⟩
  · next program hprogram =>
    have h := Policy.finite_sound.runAll (Policy.obeys_finite_iff.2 hs) steps
      (Program.finite_of_ofSource hprogram) trivial Policy.finite_sound.null
    exact ⟨(Outcome.meets_mapError _ _).2 h.1, Policy.obeys_finite_iff.1 h.2⟩

def runSources (s : Session) (sources : List (Nat × Source)) : Session :=
  sources.foldl (fun s source => (s.runSourceWithin source.1 source.2).2) s

theorem finite_runSources {s : Session} (hs : s.store.Finite) (sources : List (Nat × Source)) :
    (s.runSources sources).store.Finite := by
  induction sources generalizing s with
  | nil => exact hs
  | cons source rest ih => exact ih (finite_runSource hs source.1 source.2).2

/-- Whatever a session has run before, and however far it has come with the last source: the value
of that source and all values in scopes are finite. -/
theorem numbers_finite (console : Console) (limit : Nat) (sources : List (Nat × Source))
    (steps : Nat) (source : Source) :
    let s := (Session.new console limit).runSources sources
    (s.runSourceWithin steps source).1.Meets Value.Finite ∧
      (s.runSourceWithin steps source).2.store.Finite := by
  apply finite_runSource
  apply finite_runSources
  intro i name v hv
  have hnone : (Session.new console limit).store.bindings i = [] :=
    (Store.bindings_newScope Store.empty none i).trans rfl
  rw [hnone] at hv
  contradiction

end Session

end PrefixScript
