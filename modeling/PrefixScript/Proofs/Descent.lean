import PrefixScript.Proofs.Reading

/-!
# Reading by recursive descent

Programs can also be read by three functions that call each other: one reads an expression, one the
items of an open bracket, one the operands of a statement. They go from left to right too and agree
with the reader, fault by fault.
-/

namespace PrefixScript

namespace Descent

def ended (last : Nat) : Report :=
  { code := 103, message := "unexpected end of input", line := some last }

abbrev Upto (bound : Nat) (α : Type) :=
  Except Report (α × { rest : List Atom // rest.length < bound })

def statement? (nested : Bool) (a : Atom) : Option (String × Nat) :=
  if nested then none
  else a.symbol?.bind fun name => (statementArity? name).map fun arity => (name, arity)

mutual

def expr (last : Nat) (nested : Bool) (nesting : Nat) : (atoms : List Atom) →
    Upto atoms.length Expr
  | [] => .error (ended last)
  | a :: rest =>
    match a.role with
    | .opens b =>
      if maxNesting ≤ nesting then .error (ReadFault.tooDeep a.line).report
      else
        match items last b a.line (nesting + 1) rest with
        | .ok (es, rest') => .ok (b.enclose es a.line, ⟨rest', Nat.lt_succ_of_lt rest'.2⟩)
        | .error r => .error r
    | .closes b => .error (ReadFault.unexpected b a.line).report
    | .leaf =>
      match statement? nested a with
      | some (name, arity) =>
        match operands last name a.line arity 0 nesting rest with
        | .ok (es, rest') => .ok (.list (.symbol name a.line :: es) a.line, ⟨rest', by
            simpa using rest'.2⟩)
        | .error r => .error r
      | none => .ok (.atom a, ⟨rest, Nat.lt_succ_self _⟩)
termination_by atoms => (atoms.length, 0)

def items (last : Nat) (b : Bracket) (line nesting : Nat) : (atoms : List Atom) →
    Upto atoms.length (List Expr)
  | [] => .error (ReadFault.unclosed b line).report
  | a :: rest =>
    match a.role with
    | .closes c =>
      if b = c then .ok ([], ⟨rest, Nat.lt_succ_self _⟩)
      else .error (ReadFault.mismatched b line c a.line).report
    | _ =>
      match expr last true nesting (a :: rest) with
      | .ok (e, rest') =>
        match items last b line nesting rest' with
        | .ok (es, rest'') => .ok (e :: es, ⟨rest'', Nat.lt_trans rest''.2 rest'.2⟩)
        | .error r => .error r
      | .error r => .error r
termination_by atoms => (atoms.length, 1)
decreasing_by
  all_goals first | exact Prod.Lex.right _ Nat.zero_lt_one | exact Prod.Lex.left _ _ rest'.2

def operands (last : Nat) (name : String) (line arity found nesting : Nat) (atoms : List Atom) :
    Upto (atoms.length + 1) (List Expr) :=
  if found < arity then
    match atoms with
    | [] => .error (ReadFault.incomplete name arity found line).report
    | a :: rest =>
      match expr last true nesting (a :: rest) with
      | .ok (e, rest') =>
        match operands last name line arity (found + 1) nesting rest' with
        | .ok (es, rest'') => .ok (e :: es, ⟨rest'', by
            have := rest''.2
            have := rest'.2
            omega⟩)
        | .error r => .error r
      | .error r => .error r
  else .ok ([], ⟨atoms, Nat.lt_succ_self _⟩)
termination_by (atoms.length, 1)
decreasing_by
  all_goals first | exact Prod.Lex.right _ Nat.zero_lt_one | exact Prod.Lex.left _ _ rest'.2

end

def exprs (last : Nat) (atoms : List Atom) : Except Report (List Expr) :=
  match atoms with
  | [] => .ok []
  | a :: rest =>
    match expr last false 0 (a :: rest) with
    | .ok (e, rest') =>
      match exprs last rest' with
      | .ok es => .ok (e :: es)
      | .error r => .error r
    | .error r => .error r
termination_by atoms.length
decreasing_by exact rest'.2

def program (atoms : List Atom) : Except Report (List Expr) :=
  exprs ((atoms.getLast?.map (·.line)).getD 1) atoms

end Descent

def Reader.outcome (r : Reader) (atoms : List Atom) : Except Report (List Expr) :=
  (r.steps atoms >>= finish).mapError ReadFault.report

namespace Reader

theorem outcome_nil_of_ok {r : Reader} {es : List Expr} (h : r.finish = .ok es) :
    r.outcome [] = .ok es := by
  change r.finish.mapError ReadFault.report = _
  rw [h]
  rfl

theorem outcome_nil_of_error {r : Reader} {f : ReadFault} (h : r.finish = .error f) :
    r.outcome [] = .error f.report := by
  change r.finish.mapError ReadFault.report = _
  rw [h]
  rfl

theorem outcome_cons_of_ok {r r' : Reader} {a : Atom} {as : List Atom} (h : r.step a = .ok r') :
    r.outcome (a :: as) = r'.outcome as := by
  rw [outcome, steps_cons, h]
  rfl

theorem outcome_cons_of_error {r : Reader} {a : Atom} {as : List Atom} {f : ReadFault}
    (h : r.step a = .error f) : r.outcome (a :: as) = .error f.report := by
  rw [outcome, steps_cons, h]
  rfl

end Reader

namespace Descent

def andThen {bound : Nat} {α : Type} (result : Upto bound α)
    (next : α → List Atom → Except Report (List Expr)) : Except Report (List Expr) :=
  match result with
  | .ok (x, rest) => next x rest
  | .error r => .error r

open Reader

theorem statement?_eq_some {nested : Bool} {a : Atom} {name : String} {arity : Nat} :
    statement? nested a = some (name, arity) ↔
      nested = false ∧ a.symbol? = some name ∧ (name, arity) ∈ statementArities := by
  rw [← statementArity?_eq_some_iff]
  unfold statement?
  cases nested with
  | true => simp
  | false =>
    simp only [Bool.false_eq_true, if_false, Option.bind_eq_some_iff, Option.map_eq_some_iff,
      Prod.mk.injEq, true_and]
    constructor
    · rintro ⟨_, hname, _, harity, rfl, rfl⟩
      exact ⟨hname, harity⟩
    · rintro ⟨hname, harity⟩
      exact ⟨name, hname, arity, harity, rfl, rfl⟩

/-- Where an expression may stand: nested, the reader takes whatever comes; otherwise it is between
two expressions of the top level. -/
structure Awaits (r : Reader) (nested : Bool) : Prop where
  inner : nested = true → ∀ e, r.Takes [e]
  top : nested = false → r.opened = [] ∧ r.statement = none

theorem Awaits.takes {r : Reader} {nested : Bool} (h : Awaits r nested) {a : Atom}
    (ha : statement? nested a = none) : r.Takes [.atom a] := by
  cases nested with
  | true => exact h.inner rfl _
  | false =>
    refine .inr (.inr ⟨(h.top rfl).2, ?_⟩)
    simp only [List.mem_singleton, forall_eq]
    intro name hname arity harity
    simp [statement?_eq_some.2 ⟨rfl, hname, harity⟩] at ha

mutual

theorem outcome_expr (last : Nat) (nested : Bool) (nesting : Nat) (r : Reader) (a : Atom)
    (rest : List Atom) (hnesting : r.opened.length = nesting) (h : Awaits r nested)
    (hclose : ∀ b, a.role = .closes b → r.opened = []) :
    r.outcome (a :: rest) = andThen (expr last nested nesting (a :: rest))
      fun e rest => (r.put e).outcome rest := by
  subst hnesting
  rw [expr]
  rcases a.role_cases with ⟨b, ha, hrole⟩ | ⟨b, ha, hrole⟩ | ⟨hleaf, hrole⟩ <;> simp only [hrole]
  · split
    · next hdeep => exact outcome_cons_of_error (by simp [step, hrole, hdeep])
    · next hroom =>
      have hstep : r.step a = .ok { r with opened := ⟨b, a.line, []⟩ :: r.opened } := by
        simp [step, hrole, hroom]
      rw [outcome_cons_of_ok hstep, outcome_items last _ b a.line [] r.opened rest rfl]
      cases items last b a.line (r.opened.length + 1) rest <;> rfl
  · exact outcome_cons_of_error (by simp [step, hrole, hclose b hrole])
  · cases ha : statement? nested a with
    | none =>
      rw [outcome_cons_of_ok (step_leaf hleaf (h.takes ha))]
      rfl
    | some call =>
      obtain ⟨name, arity⟩ := call
      obtain ⟨hnested, hname, harity⟩ := statement?_eq_some.1 ha
      obtain ⟨hopened, hstatement⟩ := h.top hnested
      have hhere := statementHere?_eq_some.2 ⟨hopened, hstatement, hname, harity⟩
      have hstep : r.step a = .ok (r.putStatement ⟨name, a.line, arity, []⟩) := by
        simp [step, hrole, hhere]
      have hput : ∀ e, r.put e = { r with finished := e :: r.finished, statement := none } := by
        simp [put, hopened, hstatement]
      rw [outcome_cons_of_ok hstep, outcome_operands last r hopened _ rest (Nat.zero_le _)]
      simp only [hput, hopened, List.length_nil]
      cases operands last name a.line arity 0 0 rest <;> rfl
termination_by (rest.length + 1, 0)

theorem outcome_items (last : Nat) (r : Reader) (b : Bracket) (line : Nat) (read : List Expr)
    (outer : List OpenList) (atoms : List Atom) (h : r.opened = ⟨b, line, read⟩ :: outer) :
    r.outcome atoms = andThen (items last b line (outer.length + 1) atoms) fun es rest =>
      ({ r with opened := outer }.put (b.enclose (read.reverse ++ es) line)).outcome rest := by
  cases atoms with
  | nil =>
    have hfinish : r.finish = .error (.unclosed b line) := by simp [finish, h]
    rw [items, outcome_nil_of_error hfinish]
    simp [andThen]
  | cons a rest =>
    rw [items]
    split
    · next c hrole =>
      split
      · next hb =>
        have hstep : r.step a = .ok ({ r with opened := outer }.put (b.enclose read.reverse line)) := by
          simp [step, hrole, h, hb, OpenList.close_eq]
        rw [outcome_cons_of_ok hstep]
        simp [andThen]
      · next hb => exact outcome_cons_of_error (by simp [step, hrole, h, hb])
    · next hrole =>
      have hawaits : Awaits r true := ⟨fun _ _ => .inl (by simp [h]), by simp⟩
      have hexpr := outcome_expr last true (outer.length + 1) r a rest (by simp [h]) hawaits
        fun c hc => (hrole c hc).elim
      rw [hexpr]
      cases hread : expr last true (outer.length + 1) (a :: rest) with
      | error f => rfl
      | ok x =>
        obtain ⟨e, rest'⟩ := x
        have hput : r.put e = { r with opened := ⟨b, line, e :: read⟩ :: outer } := by
          simp [put, h]
        have hitems := outcome_items last (r.put e) b line (e :: read) outer rest' (by simp [hput])
        simp only [andThen]
        rw [hitems]
        cases items last b line (outer.length + 1) rest' with
        | error f => rfl
        | ok y => simp [andThen, hput]
termination_by (atoms.length, 1)
decreasing_by
  · exact Prod.Lex.right _ Nat.zero_lt_one
  · exact Prod.Lex.left _ _ rest'.2

theorem outcome_operands (last : Nat) (r : Reader) (hopened : r.opened = []) (s : Statement)
    (atoms : List Atom) (hle : s.operands.length ≤ s.arity) :
    (r.putStatement s).outcome atoms =
      andThen (operands last s.name s.line s.arity s.operands.length 0 atoms) fun es rest =>
        Reader.outcome { r with
          finished :=
            .list (.symbol s.name s.line :: (s.operands.reverse ++ es)) s.line :: r.finished
          statement := none } rest := by
  rw [operands.eq_def]
  split
  · next hlt =>
    have hput : r.putStatement s = { r with statement := some s } := by
      simp [putStatement, Nat.ne_of_lt hlt]
    rw [hput]
    cases atoms with
    | nil =>
      have hfinish : Reader.finish { r with statement := some s } =
          .error (.incomplete s.name s.arity s.operands.length s.line) := by
        simp [finish, hopened]
      rw [outcome_nil_of_error hfinish]
      simp [andThen]
    | cons a rest =>
      have hawaits : Awaits { r with statement := some s } true :=
        ⟨fun _ _ => .inr (.inl ⟨s, rfl, hlt⟩), by simp⟩
      have hexpr := outcome_expr last true 0 { r with statement := some s } a rest
        (by simp [hopened]) hawaits fun _ _ => hopened
      rw [hexpr]
      simp only
      cases hread : expr last true 0 (a :: rest) with
      | error f => rfl
      | ok x =>
        obtain ⟨e, rest'⟩ := x
        have hstep : Reader.put { r with statement := some s } e =
            r.putStatement { s with operands := e :: s.operands } := by
          simp [put, putStatement, hopened]
        have hoperands := outcome_operands last r hopened { s with operands := e :: s.operands } rest'
          hlt
        simp only [andThen]
        rw [hstep, hoperands]
        simp only [List.length_cons]
        cases operands last s.name s.line s.arity (s.operands.length + 1) 0 rest' with
        | error f => rfl
        | ok y => simp [andThen, hopened]
  · next hfull =>
    have hlen : s.operands.length = s.arity := by omega
    simp [putStatement, hlen, andThen, Statement.close]
termination_by (atoms.length, 1)
decreasing_by
  · exact Prod.Lex.right _ Nat.zero_lt_one
  · exact Prod.Lex.left _ _ rest'.2

end

theorem outcome_exprs (last : Nat) (r : Reader) (atoms : List Atom) (hopened : r.opened = [])
    (hstatement : r.statement = none) :
    r.outcome atoms = (exprs last atoms).map fun es => r.finished.reverse ++ es := by
  rw [exprs.eq_def]
  cases atoms with
  | nil =>
    have hfinish : r.finish = .ok r.finished.reverse := by simp [finish, hopened, hstatement]
    rw [outcome_nil_of_ok hfinish]
    simp [Except.map]
  | cons a rest =>
    have hexpr := outcome_expr last false 0 r a rest (by simp [hopened])
      ⟨by simp, fun _ => ⟨hopened, hstatement⟩⟩ fun _ _ => hopened
    rw [hexpr]
    simp only
    cases hread : expr last false 0 (a :: rest) with
    | error f => rfl
    | ok x =>
      obtain ⟨e, rest'⟩ := x
      have hput : r.put e = { r with finished := e :: r.finished } := by
        simp [put, hopened, hstatement]
      have hrest := outcome_exprs last (r.put e) rest' (by simp [hput, hopened])
        (by simp [hput, hstatement])
      simp only [andThen]
      rw [hrest]
      cases exprs last rest' with
      | error f => rfl
      | ok es => simp [Except.map, hput]
termination_by atoms.length
decreasing_by exact rest'.2

/-- Recursive descent and the reader agree on all atoms, also in their reports. -/
theorem program_eq (atoms : List Atom) :
    program atoms = (Program.ofAtoms atoms).mapError ReadFault.report := by
  have h := outcome_exprs ((atoms.getLast?.map (·.line)).getD 1) .start atoms rfl rfl
  change _ = Reader.outcome .start atoms
  rw [h, program]
  cases exprs ((atoms.getLast?.map (·.line)).getD 1) atoms <;> rfl

end Descent

end PrefixScript
