import PrefixScript.Proofs.Number.Order
import PrefixScript.Proofs.Number.Writing
import PrefixScript.Builtin

namespace PrefixScript

@[simp] def Value.Numbers (N : Float → Prop) : Value → Prop
  | .number x => N x
  | .list xs => ∀ x ∈ xs, N x
  | .null | .text _ | .closure _ | .builtin _ => True

theorem exists_of_bind_eq_ok {ε α β : Type} {x : Except ε α} {f : α → Except ε β} {b : β}
    (h : x >>= f = .ok b) : ∃ a, x = .ok a ∧ f a = .ok b := by
  cases x with
  | ok a => exact ⟨a, rfl, h⟩
  | error => contradiction

namespace Builtin

variable {N : Float → Prop} (hN : ∀ x, x.isFinite = true → N x)

theorem calculate_ok {op : Builtin} {x y : Float} {v : Value} (h : op.calculate x y = .ok v) :
    ∃ z, v = .number z ∧ z.isFinite = true := by
  have hfinite : ∀ {z}, op.finite z = .ok v → ∃ z, v = .number z ∧ z.isFinite = true := by
    intro z hz
    unfold finite at hz
    split at hz
    · next hz' => exact ⟨z, (Except.ok.inj hz).symm, hz'⟩
    · contradiction
  have htruth : ∀ {b}, Except.ok (truth b) = (.ok v : Except Cause Value) →
      ∃ z, v = .number z ∧ z.isFinite = true := by
    intro b hb
    refine ⟨_, (Except.ok.inj hb).symm, ?_⟩
    cases b <;> rfl
  unfold calculate at h
  split at h
  · exact hfinite h
  · exact hfinite h
  · exact hfinite h
  · split at h
    · contradiction
    · exact hfinite h
  · split at h
    · contradiction
    · exact hfinite h
  all_goals exact htruth h

theorem items_ok {op : Builtin} {v : Value} {xs : Array Float} (h : op.items v = .ok xs) :
    v = .list xs := by
  cases v with
  | list ys => rw [Except.ok.inj h]
  | null | number | text | closure | builtin => contradiction

theorem collect_go_ok {xs : Array Float} {args : List Value} {v : Value}
    (hxs : ∀ x ∈ xs, N x) (hargs : ∀ w ∈ args, w.Numbers N) (h : collect.go xs args = .ok v) :
    ∃ ys, v = .list ys ∧ ∀ y ∈ ys, N y := by
  induction args generalizing xs with
  | nil => exact ⟨xs, (Except.ok.inj h).symm, hxs⟩
  | cons w rest ih =>
    rw [List.forall_mem_cons] at hargs
    cases w with
    | number x =>
      refine ih ?_ hargs.2 h
      intro y hy
      rcases Array.mem_push.1 hy with hy | rfl
      · exact hxs y hy
      · exact hargs.1
    | null | text | list | closure | builtin => contradiction

theorem collect_go_numbers (xs : Array Float) (ys : List Float) (rest : List Value) :
    collect.go xs (ys.map .number ++ rest) = collect.go (xs ++ ys.toArray) rest := by
  induction ys generalizing xs with
  | nil => simp
  | cons y ys ih =>
    rw [List.map_cons, List.cons_append, collect.go, ih]
    simp

theorem collect_numbers (ys : List Float) :
    collect (ys.map .number) = .ok (.list ys.toArray) := by
  simpa [collect, collect.go] using collect_go_numbers #[] ys []

theorem collect_go_of_kind_ne {xs : Array Float} {v : Value} {rest : List Value}
    (h : v.kind ≠ .number) :
    collect.go xs (v :: rest) = .error (.itemKind (xs.size + 1) v.kind) := by
  cases v with
  | number => contradiction
  | null | text | list | closure | builtin => rfl

include hN in
theorem appendable_ok {v : Value} {x : Float} (hv : v.Numbers N) (h : appendable v = .ok x) :
    N x := by
  cases v with
  | number y =>
    obtain rfl := Except.ok.inj h
    exact hv
  | text s =>
    simp only [appendable] at h
    split at h
    · next hs =>
      obtain rfl := Except.ok.inj h
      exact hN _ (Number.isFinite_of_finite (Number.finite_of_ofText? hs))
    · contradiction
  | null | list | closure | builtin => contradiction

theorem item_ok {xs : Array Float} {index v : Value} (h : item xs index = .ok v) :
    ∃ x ∈ xs, v = .number x := by
  cases index with
  | number y =>
    simp only [item] at h
    split at h
    · contradiction
    · split at h
      · next x hx => exact ⟨x, Array.mem_of_getElem? hx, (Except.ok.inj h).symm⟩
      · contradiction
  | null | text | list | closure | builtin => contradiction

include hN in
theorem perform_ok {op : Builtin} {args : List Value} {v : Value} (hargs : ∀ w ∈ args, w.Numbers N)
    (h : op.perform args = .ok v) : v.Numbers N ∧ v.kind ≠ .closure := by
  unfold perform at h
  split at h
  · obtain rfl := Except.ok.inj h
    exact ⟨trivial, nofun⟩
  · obtain ⟨ys, rfl, hys⟩ := collect_go_ok (by simp) hargs h
    exact ⟨hys, nofun⟩
  · obtain ⟨xs, hxs, hv⟩ := exists_of_bind_eq_ok h
    obtain rfl := Except.ok.inj hv
    obtain rfl := items_ok hxs
    refine ⟨fun x hx => ?_, nofun⟩
    have hmem : x ∈ xs := by simpa using hx
    exact hargs _ List.mem_cons_self x hmem
  · obtain ⟨xs, -, hv⟩ := exists_of_bind_eq_ok h
    obtain rfl := Except.ok.inj hv
    exact ⟨hN _ (Number.isFinite_toFloat _), nofun⟩
  · obtain rfl := Except.ok.inj h
    exact ⟨trivial, nofun⟩
  · next v w =>
    obtain ⟨xs, hxs, hrest⟩ := exists_of_bind_eq_ok h
    obtain ⟨y, hy, hv⟩ := exists_of_bind_eq_ok hrest
    obtain rfl := Except.ok.inj hv
    obtain rfl := items_ok hxs
    refine ⟨fun x hx => ?_, nofun⟩
    rcases Array.mem_push.1 hx with hx | rfl
    · exact hargs _ List.mem_cons_self x hx
    · exact appendable_ok hN (hargs w (by simp)) hy
  · obtain ⟨xs, hxs, hv⟩ := exists_of_bind_eq_ok h
    obtain rfl := items_ok hxs
    obtain ⟨x, hx, rfl⟩ := item_ok hv
    exact ⟨hargs _ List.mem_cons_self x hx, nofun⟩
  · obtain ⟨z, rfl, hz⟩ := calculate_ok h
    exact ⟨hN z hz, nofun⟩
  · contradiction
  · contradiction

include hN in
theorem apply_ok {b : Builtin} {args : List Value} {v : Value} (hargs : ∀ w ∈ args, w.Numbers N)
    (h : b.apply args = .ok v) : v.Numbers N ∧ v.kind ≠ .closure := by
  unfold apply at h
  split at h
  · exact perform_ok hN hargs h
  · contradiction

theorem ne_closure_of_apply {b : Builtin} {args : List Value} {v : Value} (h : b.apply args = .ok v)
    (c : Closure) : v ≠ .closure c := by
  have hnumbers : ∀ w ∈ args, w.Numbers fun _ => True := fun w _ => by cases w <;> simp
  have hkind := (apply_ok (fun _ _ => trivial) hnumbers h).2
  rintro rfl
  exact hkind rfl

end Builtin

end PrefixScript
