import PrefixScript.Proofs.Stepping

namespace PrefixScript

structure Console.Grows (c d : Console) : Prop where
  events : c.events <:+ d.events
  upcoming : d.upcoming <:+ c.upcoming

namespace Console.Grows

variable {c d e : Console}

theorem refl (c : Console) : c.Grows c :=
  ⟨List.suffix_refl _, List.suffix_refl _⟩

theorem trans (h : c.Grows d) (h' : d.Grows e) : c.Grows e :=
  ⟨h.events.trans h'.events, h'.upcoming.trans h.upcoming⟩

theorem read (c : Console) : c.Grows c.read.2 := by
  obtain ⟨upcoming, ended, events⟩ := c
  cases upcoming with
  | nil => exact ⟨List.suffix_cons _ _, List.suffix_refl _⟩
  | cons response upcoming =>
    cases response <;> exact ⟨List.suffix_cons _ _, List.suffix_cons _ _⟩

theorem print (c : Console) (s : String) : c.Grows (c.print s) :=
  ⟨List.suffix_cons _ _, List.suffix_refl _⟩

theorem log (h : c.Grows d) : c.log <+: d.log :=
  List.reverse_prefix.2 h.events

theorem output (h : c.Grows d) : c.output <+: d.output :=
  h.log.filterMap _

theorem served (h : c.Grows d) : c.served ≤ d.served :=
  (h.log.filterMap _).length_le

end Console.Grows

namespace Machine

variable {m m' : Machine}

theorem outcome_eq_unfinished_iff : m.outcome = .unfinished ↔ m.isDone = false := by
  unfold outcome isDone
  split <;> simp_all

theorem run_add (m : Machine) (n k : Nat) : m.run (n + k) = (m.run n).run k := by
  induction n generalizing m with
  | zero => rw [Nat.zero_add]; rfl
  | succ n ih => rw [Nat.add_right_comm, run_succ, ih, run_succ]

theorem run_of_le {n k : Nat} (h : (m.run n).isDone = true) (hle : n ≤ k) : m.run k = m.run n := by
  obtain ⟨j, rfl⟩ := Nat.exists_eq_add_of_le hle
  rw [run_add, run_of_isDone h]

theorem run_eq_run {n k : Nat} (hn : (m.run n).isDone = true) (hk : (m.run k).isDone = true) :
    m.run n = m.run k := by
  rcases Nat.le_total n k with hle | hle
  · exact (run_of_le hn hle).symm
  · exact run_of_le hk hle

@[simp] theorem limit_go (store : Store) (console : Console) (depth limit : Nat)
    (stack : List Frame) (move : Move) :
    (go store console depth limit stack move).limit = limit := by
  cases move <;> rfl

@[simp] theorem console_go (store : Store) (console : Console) (depth limit : Nat)
    (stack : List Frame) (move : Move) :
    (go store console depth limit stack move).console = console := by
  cases move <;> rfl

theorem Step.limit (h : Step m m') : m'.limit = m.limit := by
  cases h with
  | entered | resumed => exact limit_go ..
  | refused | answered | unanswered | printed | unwound | done => rfl

theorem Step.grows (h : Step m m') : m.console.Grows m'.console := by
  cases h with
  | entered | resumed =>
    rw [console_go]
    exact .refl _
  | answered | unanswered => exact .read _
  | printed => exact .print _ _
  | refused | unwound | done => exact .refl _

@[simp] theorem limit_run (m : Machine) (n : Nat) : (m.run n).limit = m.limit := by
  induction n generalizing m with
  | zero => rfl
  | succ n ih => rw [run_succ, ih, m.step_spec.limit]

theorem grows_run (m : Machine) (n : Nat) : m.console.Grows (m.run n).console := by
  induction n generalizing m with
  | zero => exact .refl _
  | succ n ih =>
    rw [run_succ]
    exact m.step_spec.grows.trans (ih m.step)

theorem grows_run_of_isDone {n : Nat} (h : (m.run n).isDone = true) (k : Nat) :
    (m.run k).console.Grows (m.run n).console := by
  rcases Nat.le_total n k with hle | hle
  · rw [run_of_le h hle]
    exact .refl _
  · obtain ⟨j, rfl⟩ := Nat.exists_eq_add_of_le hle
    rw [run_add]
    exact grows_run _ _

theorem run_of_abandon {f : Fault} (h : m.control = .abandon f) (n : Nat) :
    (m.run n).control = .abandon f ∧ (m.run n).console = m.console ∧
      (m.run n).store = m.store := by
  induction n generalizing m with
  | zero => exact ⟨h, rfl, rfl⟩
  | succ n ih =>
    rw [run_succ]
    obtain ⟨store, console, depth, limit, control, stack⟩ := m
    obtain rfl : control = .abandon f := h
    cases stack with
    | nil => exact ih rfl
    | cons frame stack => exact ih rfl

end Machine

end PrefixScript
