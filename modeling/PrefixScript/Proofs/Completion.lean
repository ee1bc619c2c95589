import PrefixScript.Proofs.Reading

namespace PrefixScript

namespace Reader

variable {r : Reader} {f : ReadFault}

theorem fault_of_step {a : Atom} (h : r.step a = .error f) :
    f.code ∈ [100, 102, 104] ∧ f.line = a.line := by
  unfold step at h
  split at h
  · split at h
    · obtain rfl := Except.error.inj h
      exact ⟨by simp [ReadFault.code], rfl⟩
    · contradiction
  · split at h
    · obtain rfl := Except.error.inj h
      exact ⟨by simp [ReadFault.code], rfl⟩
    · split at h
      · contradiction
      · obtain rfl := Except.error.inj h
        exact ⟨by simp [ReadFault.code], rfl⟩
  · split at h <;> contradiction

theorem code_of_finish (h : r.finish = .error f) : f.code ∈ [101, 103] := by
  unfold finish at h
  split at h
  · obtain rfl := Except.error.inj h
    simp [ReadFault.code]
  · obtain rfl := Except.error.inj h
    simp [ReadFault.code]
  · contradiction

theorem exists_of_steps_eq_error {as : List Atom} (h : r.steps as = .error f) :
    ∃ before a after r', as = before ++ a :: after ∧ r.steps before = .ok r' ∧
      r'.step a = .error f := by
  induction as generalizing r with
  | nil => contradiction
  | cons a as ih =>
    rw [steps_cons] at h
    cases hstep : r.step a with
    | error g =>
      rw [hstep] at h
      obtain rfl := Except.error.inj h
      exact ⟨[], a, as, r, rfl, rfl, hstep⟩
    | ok r₁ =>
      rw [hstep] at h
      obtain ⟨before, b, after, r', rfl, hbefore, hb⟩ := ih h
      refine ⟨a :: before, b, after, r', rfl, ?_, hb⟩
      rw [steps_cons, hstep]
      exact hbefore

theorem exists_closing (r : Reader) :
    ∃ as r', r.steps as = .ok r' ∧ r'.opened = [] := by
  induction hn : r.opened.length generalizing r with
  | zero => exact ⟨[], r, rfl, List.eq_nil_of_length_eq_zero hn⟩
  | succ n ih =>
    obtain ⟨o, outer, hopened⟩ := List.exists_cons_of_length_eq_add_one hn
    have hlength : ({ r with opened := outer }.put o.close).opened.length = n := by
      rw [opened_length_put]
      rw [hopened] at hn
      exact Nat.succ.inj hn
    obtain ⟨as, r', hsteps, hclosed⟩ := ih _ hlength
    refine ⟨o.bracket.closing 1 :: as, r', ?_, hclosed⟩
    rw [steps_cons, step_closing 1 hopened]
    exact hsteps

theorem exists_operands {s : Statement} (hopened : r.opened = []) (hs : r.statement = some s)
    (hlt : s.operands.length < s.arity) :
    ∃ as r', r.steps as = .ok r' ∧ r'.opened = [] ∧ r'.statement = none := by
  let zero : Atom := ⟨.number 0, 1⟩
  have hleaf : ¬ zero.IsBracket := by simp [zero, Atom.IsBracket, Atom.symbol?]
  -- what the statement still lacks becomes less with each operand
  induction hn : s.arity - s.operands.length generalizing r s with
  | zero => omega
  | succ n ih =>
    let s' : Statement := { s with operands := .atom zero :: s.operands }
    have hlength : s'.operands.length = s.operands.length + 1 := rfl
    have hstep : r.step zero = .ok (r.putStatement s') := by
      have htakes : r.Takes [.atom zero] := .inr (.inl ⟨s, hs, hlt⟩)
      rw [step_leaf hleaf htakes]
      simp [put, hopened, hs, s']
    by_cases hfull : s'.operands.length = s'.arity
    · refine ⟨[zero], { r with finished := s'.close :: r.finished, statement := none }, ?_, hopened,
        rfl⟩
      rw [steps_cons, hstep, putStatement, if_pos hfull]
      rfl
    · have hlt' : s'.operands.length < s'.arity := by
        change s'.operands.length ≠ s.arity at hfull
        change s'.operands.length < s.arity
        omega
      have hn' : s'.arity - s'.operands.length = n := by
        change s.arity - s'.operands.length = n
        omega
      obtain ⟨as, r', hsteps, hend⟩ := ih (r := { r with statement := some s' }) hopened rfl hlt' hn'
      refine ⟨zero :: as, r', ?_, hend⟩
      rw [steps_cons, hstep, putStatement, if_neg hfull]
      exact hsteps

end Reader

namespace Program

variable {atoms before : List Atom} {f : ReadFault} {r : Reader}

theorem exists_continuation (h : Reader.start.steps before = .ok r) :
    ∃ more program, ofAtoms (before ++ more) = .ok program := by
  obtain ⟨closers, r₁, hclosers, hopened⟩ := r.exists_closing
  have hreads := (Reader.Reads.start.steps h).steps hclosers
  have hsteps : Reader.start.steps (before ++ closers) = .ok r₁ := by
    rw [Reader.steps_append, h]
    exact hclosers
  obtain ⟨_, waiting, _, -, -, hwaiting, -⟩ := hreads.parts
  cases hstatement : r₁.statement with
  | none =>
    refine ⟨closers, r₁.finished.reverse, ?_⟩
    rw [ofAtoms, hsteps]
    simp [bind, Except.bind, Reader.finish, hopened, hstatement]
  | some s =>
    rw [hstatement] at hwaiting
    cases hwaiting with
    | some _ hlt _ =>
      obtain ⟨operands, r₂, hoperands, hopened₂, hnone⟩ :=
        Reader.exists_operands hopened hstatement hlt
      refine ⟨closers ++ operands, r₂.finished.reverse, ?_⟩
      rw [ofAtoms, ← List.append_assoc, Reader.steps_append, hsteps]
      change (r₁.steps operands >>= Reader.finish) = _
      rw [hoperands]
      simp [bind, Except.bind, Reader.finish, hopened₂, hnone]

theorem ofAtoms_of_step {a : Atom} (h : Reader.start.steps before = .ok r)
    (hstep : r.step a = .error f) (more : List Atom) : ofAtoms (before ++ a :: more) = .error f := by
  rw [ofAtoms, Reader.steps_append, h]
  change (r.steps (a :: more) >>= Reader.finish) = _
  rw [Reader.steps_cons, hstep]
  rfl

theorem exists_of_ofAtoms_eq_error (h : ofAtoms atoms = .error f) :
    (∃ before a after r, atoms = before ++ a :: after ∧ Reader.start.steps before = .ok r ∧
        r.step a = .error f) ∨
      ∃ r, Reader.start.steps atoms = .ok r ∧ r.finish = .error f := by
  rw [ofAtoms] at h
  cases hsteps : Reader.start.steps atoms with
  | error g =>
    rw [hsteps] at h
    obtain rfl := Except.error.inj h
    exact .inl (Reader.exists_of_steps_eq_error hsteps)
  | ok r =>
    rw [hsteps] at h
    exact .inr ⟨r, rfl, h⟩

/-- The code of a fault tells what can become of the atoms. With 101 and 103 they are the beginning
of a program. With 100, 102 and 104 they are not, nothing that follows changes the fault, and it
belongs to the first atom up to which they are not the beginning of a program. -/
theorem fault_mendable_or_final (h : ofAtoms atoms = .error f) :
    (f.code ∈ [101, 103] ↔ ∃ more program, ofAtoms (atoms ++ more) = .ok program) ∧
      (f.code ∈ [100, 102, 104] ↔ ∀ more, ∃ g, ofAtoms (atoms ++ more) = .error g) ∧
      (f.code ∈ [100, 102, 104] →
        (∀ more, ofAtoms (atoms ++ more) = .error f) ∧
          ∃ before a after, atoms = before ++ a :: after ∧ f.line = a.line ∧
            (∃ more program, ofAtoms (before ++ more) = .ok program) ∧
            ∀ more, ofAtoms (before ++ a :: more) = .error f) := by
  have hdisjoint : f.code ∈ [101, 103] → f.code ∉ [100, 102, 104] := by
    simp only [List.mem_cons, List.not_mem_nil, or_false]
    omega
  rcases exists_of_ofAtoms_eq_error h with
    ⟨before, a, after, r, rfl, hbefore, hstep⟩ | ⟨r, hsteps, hfinish⟩
  · obtain ⟨hcode, hline⟩ := Reader.fault_of_step hstep
    have hfinal := ofAtoms_of_step hbefore hstep
    have hall : ∀ more, ofAtoms (before ++ a :: after ++ more) = .error f := by
      intro more
      rw [List.append_assoc]
      exact hfinal _
    refine ⟨⟨fun hend => absurd hcode (hdisjoint hend), ?_⟩,
      ⟨fun _ more => ⟨f, hall more⟩, fun _ => hcode⟩,
      fun _ => ⟨hall, before, a, after, rfl, hline, exists_continuation hbefore, hfinal⟩⟩
    rintro ⟨more, program, hok⟩
    exact absurd ((hall more).symm.trans hok) nofun
  · have hcode := Reader.code_of_finish hfinish
    have hmended := exists_continuation hsteps
    refine ⟨⟨fun _ => hmended, fun _ => hcode⟩, ⟨fun hwrong => absurd hwrong (hdisjoint hcode), ?_⟩,
      fun hwrong => absurd hwrong (hdisjoint hcode)⟩
    intro hall
    obtain ⟨more, program, hok⟩ := hmended
    obtain ⟨g, herror⟩ := hall more
    exact absurd (herror.symm.trans hok) nofun

theorem fault_mendable_or_final_brackets :
    let atoms := [⟨.symbol "get", 1⟩, Bracket.square.opening 1, ⟨.number 1, 1⟩]
    let wrong := atoms ++ [Bracket.round.closing 2]
    ofAtoms atoms = .error (.unclosed .square 1) ∧
      (∃ more program, ofAtoms (atoms ++ more) = .ok program) ∧
      ofAtoms wrong = .error (.mismatched .square 1 .round 2) ∧
      ∀ more, ofAtoms (wrong ++ more) = .error (.mismatched .square 1 .round 2) := by
  intro atoms wrong
  have hatoms : ofAtoms atoms = .error (.unclosed .square 1) := rfl
  have hwrong : ofAtoms wrong = .error (.mismatched .square 1 .round 2) := rfl
  exact ⟨hatoms, (fault_mendable_or_final hatoms).1.1 (by decide), hwrong,
    ((fault_mendable_or_final hwrong).2.2 (by decide)).1⟩

end Program

end PrefixScript
