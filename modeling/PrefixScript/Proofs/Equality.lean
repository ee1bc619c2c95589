import PrefixScript.Proofs.Builtins
import PrefixScript.Proofs.Number.Order
import PrefixScript.Proofs.Number.Zeros

namespace PrefixScript

namespace Number

theorem beq_list_iff {xs ys : List Float} :
    (xs == ys) = true ↔ (∀ x ∈ xs, x.isNaN = false) ∧ (∀ y ∈ ys, y.isNaN = false) ∧
      xs.map place = ys.map place := by
  induction xs generalizing ys with
  | nil => cases ys <;> simp
  | cons x xs ih =>
    cases ys with
    | nil => simp
    | cons y ys =>
      rw [List.cons_beq_cons, Bool.and_eq_true, ih, beq_iff, Placed, List.forall_mem_cons,
        List.forall_mem_cons, List.map_cons, List.map_cons, List.cons.injEq]
      tauto

theorem beq_array_iff {xs ys : Array Float} :
    (xs == ys) = true ↔ (∀ x ∈ xs, x.isNaN = false) ∧ (∀ y ∈ ys, y.isNaN = false) ∧
      xs.toList.map place = ys.toList.map place := by
  simp only [← Array.beq_toList, beq_list_iff, Array.mem_toList_iff]

section Arrays

variable {xs ys : Array Float} (h : (xs == ys) = true)
include h

theorem size_eq_of_beq : xs.size = ys.size := by
  have hlength := congrArg List.length (beq_array_iff.1 h).2.2
  simpa using hlength

theorem push_beq {x y : Float} (hxy : (x == y) = true) : (xs.push x == ys.push y) = true := by
  obtain ⟨hxs, hys, hplaces⟩ := beq_array_iff.1 h
  obtain ⟨hx, hy, hplace⟩ := beq_iff.1 hxy
  refine beq_array_iff.2 ⟨?_, ?_, by simp [hplaces, hplace]⟩
  · intro z hz
    rcases Array.mem_push.1 hz with hz | rfl
    · exact hxs z hz
    · exact hx
  · intro z hz
    rcases Array.mem_push.1 hz with hz | rfl
    · exact hys z hz
    · exact hy

theorem getElem?_beq (k : Nat) :
    (∃ x y, xs[k]? = some x ∧ ys[k]? = some y ∧ (x == y) = true) ∨
      xs[k]? = none ∧ ys[k]? = none := by
  have hsize := size_eq_of_beq h
  rw [Array.beq_eq_decide, dif_pos hsize, decide_eq_true_eq] at h
  by_cases hk : k < xs.size
  · exact .inl ⟨_, _, Array.getElem?_eq_getElem hk, Array.getElem?_eq_getElem (hsize ▸ hk), h k hk⟩
  · have hk' := Nat.le_of_not_lt hk
    exact .inr ⟨Array.getElem?_eq_none hk', Array.getElem?_eq_none (hsize ▸ hk')⟩

end Arrays

theorem map_eq_map {α : Type} [Nonempty α] {f : Float → α} (hf : ∀ {x y}, Alike x y → f x = f y)
    {xs ys : List Float} (h : xs.map place = ys.map place) : xs.map f = ys.map f := by
  obtain ⟨g, rfl⟩ := (Function.factorsThrough_iff f).1 fun x y hplace =>
    hf (eq_or_zeros_of_place_eq hplace)
  rw [← List.map_map, ← List.map_map, h]

theorem map_place_sort {xs ys : List Float} (h : xs.map place = ys.map place) :
    (sort xs).map place = (sort ys).map place := by
  have hsorted : ∀ zs : List Float, ((sort zs).map place).Pairwise (· ≤ ·) := fun zs =>
    List.pairwise_map.2 ((pairwise_sort zs).imp fun hle =>
      place_le_of_rank_le (precedes_iff.1 hle))
  have hperm : ((sort xs).map place).Perm ((sort ys).map place) :=
    ((sort_perm xs).map place).trans (h ▸ ((sort_perm ys).map place).symm)
  exact hperm.eq_of_pairwise (fun _ _ _ _ => Int.le_antisymm) (hsorted xs) (hsorted ys)

theorem sort_beq {xs ys : Array Float} (h : (xs == ys) = true) :
    ((sort xs.toList).toArray == (sort ys.toList).toArray) = true := by
  obtain ⟨hxs, hys, hplaces⟩ := beq_array_iff.1 h
  refine beq_array_iff.2 ⟨fun x hx => hxs x ?_, fun y hy => hys y ?_, map_place_sort hplaces⟩
  · rwa [List.mem_toArray, mem_sort, Array.mem_toList_iff] at hx
  · rwa [List.mem_toArray, mem_sort, Array.mem_toList_iff] at hy

end Number

namespace Value

/-- Equal values in one of three ways: as numbers, as lists of numbers, or by being the same. -/
inductive Equal : Value → Value → Prop
  | number {x y : Float} (h : (x == y) = true) : Equal (.number x) (.number y)
  | list {xs ys : Array Float} (h : (xs == ys) = true) : Equal (.list xs) (.list ys)
  | same (v : Value) (hnumber : v.kind ≠ .number) (hlist : v.kind ≠ .list) : Equal v v

theorem equal_iff {v w : Value} : v.equal w = true ↔ Equal v w := by
  constructor
  · intro h
    cases v <;> cases w <;> simp [equal] at h
    case null.null => exact .same _ nofun nofun
    case number.number => exact .number h
    case list.list => exact .list h
    case text.text | closure.closure | builtin.builtin =>
      obtain rfl := h
      exact .same _ nofun nofun
  · rintro (h | h | ⟨hnumber, hlist⟩)
    · exact h
    · exact h
    · cases v <;> simp_all [equal, kind]

namespace Equal

variable {u v w : Value}

theorem refl (h : v.Numbers (·.isNaN = false)) : Equal v v := by
  cases v with
  | number x => exact .number (Number.beq_self h)
  | list xs => exact .list (Number.beq_array_iff.2 ⟨h, h, rfl⟩)
  | null | text | closure | builtin => exact .same _ nofun nofun

theorem symm (h : Equal v w) : Equal w v := by
  cases h with
  | number h =>
    obtain ⟨hx, hy, hplace⟩ := Number.beq_iff.1 h
    exact .number (Number.beq_iff.2 ⟨hy, hx, hplace.symm⟩)
  | list h =>
    obtain ⟨hxs, hys, hplaces⟩ := Number.beq_array_iff.1 h
    exact .list (Number.beq_array_iff.2 ⟨hys, hxs, hplaces.symm⟩)
  | same v hnumber hlist => exact .same v hnumber hlist

theorem trans (h : Equal u v) (h' : Equal v w) : Equal u w := by
  cases h with
  | number h =>
    cases h' with
    | number h' =>
      obtain ⟨hx, -, hplace⟩ := Number.beq_iff.1 h
      obtain ⟨-, hz, hplace'⟩ := Number.beq_iff.1 h'
      exact .number (Number.beq_iff.2 ⟨hx, hz, hplace.trans hplace'⟩)
    | same _ hnumber => exact absurd rfl hnumber
  | list h =>
    cases h' with
    | list h' =>
      obtain ⟨hxs, -, hplaces⟩ := Number.beq_array_iff.1 h
      obtain ⟨-, hzs, hplaces'⟩ := Number.beq_array_iff.1 h'
      exact .list (Number.beq_array_iff.2 ⟨hxs, hzs, hplaces.trans hplaces'⟩)
    | same _ _ hlist => exact absurd rfl hlist
  | same => exact h'

theorem kind_eq (h : Equal v w) : v.kind = w.kind := by
  cases h <;> rfl

theorem isTrue_eq (h : Equal v w) : v.isTrue = w.isTrue := by
  cases h with
  | number h =>
    exact congrArg Bool.not ((Number.beq_iff_alike.1 h).2.beq_eq_beq (.refl 0))
  | list | same => rfl

theorem shown_eq (h : Equal v w) : v.shown = w.shown := by
  cases h with
  | number h => exact (Number.beq_iff_alike.1 h).2.write_eq rfl
  | list h =>
    obtain ⟨-, -, hplaces⟩ := Number.beq_array_iff.1 h
    rw [shown, shown, Number.map_eq_map (fun hx => hx.write_eq rfl) hplaces]
  | same => rfl

end Equal

end Value

inductive Agree {α : Type} (r : α → α → Prop) : Except Cause α → Except Cause α → Prop
  | ok {a b : α} (h : r a b) : Agree r (.ok a) (.ok b)
  | error (c : Cause) : Agree r (.error c) (.error c)

theorem Agree.bind {α β : Type} {r : α → α → Prop} {s : β → β → Prop} {x y : Except Cause α}
    {f g : α → Except Cause β} (h : Agree r x y) (hf : ∀ a b, r a b → Agree s (f a) (g b)) :
    Agree s (x >>= f) (y >>= g) := by
  cases h with
  | ok h => exact hf _ _ h
  | error c => exact .error c

namespace Builtin

variable {op : Builtin} {x x' y y' : Float} {v v' w w' : Value}

theorem finite_agree (h : Number.Alike x y) : Agree Value.Equal (op.finite x) (op.finite y) := by
  unfold finite
  rw [h.isFinite_eq]
  split
  · next hfinite =>
    have hx : x.isNaN = false := Number.isNaN_of_isFinite (h.isFinite_eq.trans hfinite)
    exact .ok (.number (Number.beq_iff_alike.2 ⟨hx, h⟩))
  · exact .error _

theorem truth_agree {a b : Bool} (h : a = b) :
    Agree Value.Equal (.ok (truth a)) (.ok (truth b)) := by
  subst h
  refine .ok (.refl ?_)
  cases a <;> rfl

theorem calculate_agree (hx : (x == x') = true) (hy : (y == y') = true) :
    Agree Value.Equal (op.calculate x y) (op.calculate x' y') := by
  obtain ⟨-, hx⟩ := Number.beq_iff_alike.1 hx
  obtain ⟨-, hy⟩ := Number.beq_iff_alike.1 hy
  have hdivisor : (y == 0) = (y' == 0) := hy.beq_eq_beq (.refl 0)
  -- A divisor that is not zero is the same number on both sides.
  have hsame : ¬ (y' == 0) = true → y = y' := fun hne =>
    hy.resolve_right fun hzeros => hne (Number.beq_zero_iff.2 hzeros.2)
  cases op
  case add => exact finite_agree (hx.add hy)
  case sub => exact finite_agree (hx.sub hy)
  case mul => exact finite_agree (hx.mul hy)
  case div =>
    simp only [calculate, hdivisor]
    split
    · exact .error _
    · next hne =>
      rw [hsame hne]
      exact finite_agree (hx.div fun hzero => hne (Number.beq_zero_iff.2 hzero))
  case mod =>
    simp only [calculate, hdivisor]
    split
    · exact .error _
    · next hne =>
      rw [hsame hne]
      exact finite_agree (hx.remainder y')
  case lessEq => exact truth_agree (decide_eq_decide.2 (hx.le_iff_le hy))
  case greaterEq => exact truth_agree (decide_eq_decide.2 (hy.le_iff_le hx))
  case less => exact truth_agree (decide_eq_decide.2 (hx.lt_iff_lt hy))
  case greater => exact truth_agree (decide_eq_decide.2 (hy.lt_iff_lt hx))
  all_goals exact truth_agree (hx.beq_eq_beq hy)

theorem collect_go_agree {xs ys : Array Float} {args args' : List Value}
    (hxs : (xs == ys) = true) (h : List.Forall₂ Value.Equal args args') :
    Agree Value.Equal (collect.go xs args) (collect.go ys args') := by
  induction h generalizing xs ys with
  | nil => exact .ok (.list hxs)
  | cons hv _ ih =>
    have hsize := Number.size_eq_of_beq hxs
    cases hv with
    | number hx => exact ih (Number.push_beq hxs hx)
    | list =>
      rw [collect_go_of_kind_ne (v := .list _) nofun, collect_go_of_kind_ne (v := .list _) nofun,
        hsize]
      exact .error _
    | same _ hnumber =>
      rw [collect_go_of_kind_ne hnumber, collect_go_of_kind_ne hnumber, hsize]
      exact .error _

theorem items_agree (h : Value.Equal v w) :
    Agree (fun xs ys => (xs == ys) = true) (op.items v) (op.items w) := by
  cases h with
  | number => exact .error _
  | list h => exact .ok h
  | same v _ hlist =>
    cases v with
    | list => contradiction
    | null | text | number | closure | builtin => exact .error _

theorem appendable_agree (h : Value.Equal v w) :
    Agree (fun x y => (x == y) = true) (appendable v) (appendable w) := by
  cases h with
  | number h => exact .ok h
  | list => exact .error _
  | same v hnumber =>
    cases v with
    | number => contradiction
    | text s =>
      cases hread : Number.ofText? s with
      | some x =>
        have hx : x.isNaN = false := Number.isNaN_of_finite (Number.finite_of_ofText? hread)
        simp only [appendable, hread]
        exact .ok (Number.beq_self hx)
      | none =>
        simp only [appendable, hread]
        exact .error _
    | null | list | closure | builtin => exact .error _

theorem outside_eq (h : Number.Alike x y) (length : Nat) : outside x length = outside y length := by
  rw [outside, outside, h.fraction_eq, decide_eq_decide.2 (h.lt_iff_lt (.refl 0)),
    decide_eq_decide.2 (Number.Alike.le_iff_le (.refl _) h)]

theorem item_agree {xs ys : Array Float} (hxs : (xs == ys) = true) (h : Value.Equal v w) :
    Agree Value.Equal (item xs v) (item ys w) := by
  have hsize := Number.size_eq_of_beq hxs
  cases h with
  | list => exact .error _
  | number h =>
    obtain ⟨-, hindex⟩ := Number.beq_iff_alike.1 h
    have hshown : Value.numbers.write _ = Value.numbers.write _ := hindex.write_eq rfl
    simp only [item, ← hsize, hshown, outside_eq hindex, hindex.toUInt64_eq]
    split
    · exact .error _
    · rcases Number.getElem?_beq hxs _ with ⟨x, y, hx, hy, hxy⟩ | ⟨hx, hy⟩
      · rw [hx, hy]
        exact .ok (.number hxy)
      · rw [hx, hy]
        exact .error _
  | same v hnumber =>
    cases v with
    | number => contradiction
    | null | text | list | closure | builtin => exact .error _

theorem perform_pair (hop : op.arity = .exactly 2) (happend : op ≠ .append) (hget : op ≠ .get) :
    (∀ x y, op.perform [.number x, .number y] = op.calculate x y) ∧
      ∀ v w, ¬ (v.kind = .number ∧ w.kind = .number) →
        op.perform [v, w] = .error (.operandKinds op v.kind w.kind) := by
  cases op <;> simp only [arity, reduceCtorEq, Arity.exactly.injEq] at hop <;> try contradiction
  all_goals
    refine ⟨fun x y => rfl, fun v w h => ?_⟩
    cases v with
    | number x =>
      cases w with
      | number y => exact absurd ⟨rfl, rfl⟩ h
      | null | text | list | closure | builtin => rfl
    | null | text | list | closure | builtin => rfl

theorem perform_pair_agree (hop : op.arity = .exactly 2) (happend : op ≠ .append) (hget : op ≠ .get)
    (hv : Value.Equal v v') (hw : Value.Equal w w') :
    Agree Value.Equal (op.perform [v, w]) (op.perform [v', w']) := by
  obtain ⟨hnumbers, hothers⟩ := perform_pair hop happend hget
  by_cases h : v.kind = .number ∧ w.kind = .number
  · cases hv with
    | list => exact absurd h.1 nofun
    | same _ hnumber => exact absurd h.1 hnumber
    | number hx =>
      cases hw with
      | list => exact absurd h.2 nofun
      | same _ hnumber => exact absurd h.2 hnumber
      | number hy =>
        rw [hnumbers, hnumbers]
        exact calculate_agree hx hy
  · have h' : ¬ (v'.kind = .number ∧ w'.kind = .number) := by rwa [← hv.kind_eq, ← hw.kind_eq]
    rw [hothers v w h, hothers v' w' h', hv.kind_eq, hw.kind_eq]
    exact .error _

section Apply

variable {args args' : List Value} (h : List.Forall₂ Value.Equal args args')
include h

theorem exists_of_length_eq_one (hlength : args'.length = 1) :
    ∃ v v', args = [v] ∧ args' = [v'] ∧ Value.Equal v v' := by
  cases h with
  | nil => contradiction
  | cons hv hrest =>
    cases hrest with
    | nil => exact ⟨_, _, rfl, rfl, hv⟩
    | cons => simp at hlength

theorem exists_of_length_eq_two (hlength : args'.length = 2) :
    ∃ v w v' w', args = [v, w] ∧ args' = [v', w'] ∧ Value.Equal v v' ∧ Value.Equal w w' := by
  cases h with
  | nil => contradiction
  | cons hv hrest =>
    obtain ⟨w, w', rfl, rfl, hw⟩ := exists_of_length_eq_one hrest (by simpa using hlength)
    exact ⟨_, _, _, _, rfl, rfl, hv, hw⟩

theorem map_shown_eq : args.map Value.shown = args'.map Value.shown := by
  induction h with
  | nil => rfl
  | cons hv _ ih => rw [List.map_cons, List.map_cons, hv.shown_eq, ih]

theorem perform_agree (hcount : op.arity.admits args'.length = true) :
    Agree Value.Equal (op.perform args) (op.perform args') := by
  cases op <;> simp only [arity, Arity.admits, decide_eq_true_eq] at hcount
  case concat =>
    rw [perform, perform, map_shown_eq h]
    exact .ok (.same _ nofun nofun)
  case list => exact collect_go_agree rfl h
  case sort =>
    obtain ⟨v, v', rfl, rfl, hv⟩ := exists_of_length_eq_one h hcount.symm
    refine (items_agree hv).bind fun xs ys hxs => .ok (.list ?_)
    exact Number.sort_beq hxs
  case length =>
    obtain ⟨v, v', rfl, rfl, hv⟩ := exists_of_length_eq_one h hcount.symm
    refine (items_agree hv).bind fun xs ys hxs => ?_
    rw [Number.size_eq_of_beq hxs]
    exact .ok (.refl (Number.isNaN_of_isFinite (Number.isFinite_toFloat _)))
  case type =>
    obtain ⟨v, v', rfl, rfl, hv⟩ := exists_of_length_eq_one h hcount.symm
    simp only [perform, hv.kind_eq]
    exact .ok (.same _ nofun nofun)
  case append =>
    obtain ⟨v, w, v', w', rfl, rfl, hv, hw⟩ := exists_of_length_eq_two h hcount.symm
    refine (items_agree hv).bind fun xs ys hxs => ?_
    exact (appendable_agree hw).bind fun x y hx => .ok (.list (Number.push_beq hxs hx))
  case get =>
    obtain ⟨v, w, v', w', rfl, rfl, hv, hw⟩ := exists_of_length_eq_two h hcount.symm
    exact (items_agree hv).bind fun xs ys hxs => item_agree hxs hw
  all_goals
    obtain ⟨v, w, v', w', rfl, rfl, hv, hw⟩ := exists_of_length_eq_two h hcount.symm
    exact perform_pair_agree rfl nofun nofun hv hw

theorem apply_agree : Agree Value.Equal (op.apply args) (op.apply args') := by
  unfold apply
  rw [h.length_eq]
  split
  · next hcount => exact perform_agree h hcount
  · exact .error _

end Apply

end Builtin

namespace Value

/-- Equality is an equivalence on values without NaN, and neither texts nor conditions nor builtins
tell equal values apart. -/
theorem equal_congruence :
    (∀ v : Value, v.Numbers (·.isNaN = false) → v.equal v = true) ∧
      (∀ v w : Value, v.equal w = true → w.equal v = true) ∧
      (∀ u v w : Value, u.equal v = true → v.equal w = true → u.equal w = true) ∧
      (∀ v w : Value, v.equal w = true →
        v.shown = w.shown ∧ v.kind.name = w.kind.name ∧ v.isTrue = w.isTrue) ∧
      ∀ (op : Builtin) (args args' : List Value),
        List.Forall₂ (fun v w => v.equal w = true) args args' →
          Agree (fun v w => v.equal w = true) (op.apply args) (op.apply args') := by
  simp only [equal_iff]
  exact ⟨fun v => Equal.refl, fun v w => Equal.symm, fun u v w => Equal.trans,
    fun v w h => ⟨h.shown_eq, congrArg Kind.name h.kind_eq, h.isTrue_eq⟩,
    fun op args args' => Builtin.apply_agree⟩

theorem equal_congruence_zeros :
    (list #[0, -0]).equal (list #[-0, 0]) = true ∧
      Agree (fun v w => v.equal w = true) (Builtin.sort.apply [list #[0, -0]])
        (Builtin.sort.apply [list #[-0, 0]]) := by
  have h : (list #[0, -0]).equal (list #[-0, 0]) = true := by decide +kernel
  exact ⟨h, equal_congruence.2.2.2.2 .sort _ _ (.cons h .nil)⟩

end Value

end PrefixScript
