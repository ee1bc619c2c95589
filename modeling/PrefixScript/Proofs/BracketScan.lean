import PrefixScript.Proofs.Descent

/-!
# Faults of programs by a scan of brackets

Whether atoms are a program, and if not where and why, can be told without reading any expression:
one scan with a stack of open brackets finds the first bracket that cannot stand where it does, and
if there is none, counting what starts at the top level finds a statement that lacks operands.
-/

namespace PrefixScript

namespace BracketScan

structure Mark where
  bracket : Bracket
  line : Nat

def report (code : Nat) (message : String) (line : Nat) : Report where
  code := code
  message := message
  line := some line

def opener? (a : Atom) : Option Bracket :=
  match a.symbol? with
  | some "(" => some .round
  | some "[" => some .square
  | _ => none

def closer? (a : Atom) : Option Bracket :=
  match a.symbol? with
  | some ")" => some .round
  | some "]" => some .square
  | _ => none

/-- The brackets that are open behind the atoms, innermost first, or what is wrong with the first
offending atom. -/
def scan (stack : List Mark) : List Atom → Except Report (List Mark)
  | [] => .ok stack
  | a :: rest =>
    match opener? a, closer? a, stack with
    | some b, _, _ =>
      if stack.length < 1024 then scan (⟨b, a.line⟩ :: stack) rest
      else .error (report 104 "brackets nested deeper than 1024 levels" a.line)
    | none, some b, [] => .error (report 100 ("unexpected '" ++ b.closer ++ "'") a.line)
    | none, some b, mark :: outer =>
      if b = mark.bracket then scan outer rest
      else
        .error <| report 102 ("expected '" ++ mark.bracket.closer ++ "' to close '" ++
          mark.bracket.opener ++ "' from line " ++ Nat.repr mark.line ++ ", found '" ++
          b.closer ++ "'") a.line
    | none, none, _ => scan stack rest

/-- The atoms that stand outside of all brackets or open one there. -/
def starts (opened : Nat) : List Atom → List Atom
  | [] => []
  | a :: rest =>
    let after := if a.opens then opened + 1 else if a.closes then opened - 1 else opened
    if opened = 0 then a :: starts after rest else starts after rest

def lacking? (starts : List Atom) : Option Report :=
  match starts with
  | [] => none
  | a :: rest =>
    match a.symbol?.bind fun name => statementArities.find? fun entry => entry.1 == name with
    | some (name, arity) =>
      if rest.length < arity then
        some (report 103 ("'" ++ name ++ "' expects " ++ Nat.repr arity ++ " arguments, found " ++
          Nat.repr rest.length) a.line)
      else lacking? (rest.drop arity)
    | none => lacking? rest
termination_by starts.length
decreasing_by
  · exact Nat.lt_succ_of_le (List.length_drop ▸ Nat.sub_le ..)
  · exact Nat.lt_succ_self _

def verdict? (atoms : List Atom) : Option Report :=
  match scan [] atoms with
  | .error r => some r
  | .ok (mark :: _) => some (report 101 ("unclosed '" ++ mark.bracket.opener ++ "'") mark.line)
  | .ok [] => lacking? (starts 0 atoms)

def marks (opened : List OpenList) : List Mark :=
  opened.map fun o => ⟨o.bracket, o.line⟩

@[simp] theorem length_marks (opened : List OpenList) : (marks opened).length = opened.length := by
  simp [marks]

@[simp] theorem marks_putStatement (r : Reader) (s : Statement) :
    marks (r.putStatement s).opened = marks r.opened := by
  unfold Reader.putStatement
  split <;> rfl

@[simp] theorem marks_put (r : Reader) (e : Expr) : marks (r.put e).opened = marks r.opened := by
  unfold Reader.put
  split
  · simp [marks, *]
  · rw [marks_putStatement]
  · rfl

@[simp] theorem opener?_opening (b : Bracket) (line : Nat) : opener? (b.opening line) = some b := by
  cases b <;> rfl

@[simp] theorem opener?_closing (b : Bracket) (line : Nat) : opener? (b.closing line) = none := by
  cases b <;> rfl

@[simp] theorem closer?_closing (b : Bracket) (line : Nat) : closer? (b.closing line) = some b := by
  cases b <;> rfl

theorem opener?_leaf {a : Atom} (h : ¬ a.IsBracket) : opener? a = none := by
  unfold opener?
  split <;> simp_all [Atom.IsBracket]

theorem closer?_leaf {a : Atom} (h : ¬ a.IsBracket) : closer? a = none := by
  unfold closer?
  split <;> simp_all [Atom.IsBracket]

theorem scan_step (r : Reader) (a : Atom) (rest : List Atom) :
    scan (marks r.opened) (a :: rest) =
      match r.step a with
      | .ok r' => scan (marks r'.opened) rest
      | .error f => .error f.report := by
  rw [scan.eq_def]
  rcases a.role_cases with ⟨b, ha, hrole⟩ | ⟨b, ha, hrole⟩ | ⟨hleaf, hrole⟩
  · have hopener : opener? a = some b := by rw [ha, opener?_opening]
    by_cases h : r.opened.length < maxNesting
    · have hstep := Reader.step_opening b a.line h
      rw [← ha] at hstep
      have hlimit : r.opened.length < 1024 := h
      simp [hopener, hstep, marks, hlimit]
    · have hstep : r.step a = .error (.tooDeep a.line) := by
        simp [Reader.step, hrole, Nat.le_of_not_lt h]
      have hlimit : ¬ r.opened.length < 1024 := h
      simp only [hopener, hstep, length_marks, hlimit, if_false]
      rfl
  · have hopener : opener? a = none := by rw [ha, opener?_closing]
    have hcloser : closer? a = some b := by rw [ha, closer?_closing]
    cases hopened : r.opened with
    | nil =>
      simp only [hopener, hcloser, Reader.step, hrole, hopened, marks, List.map_nil]
      rfl
    | cons o outer =>
      by_cases h : o.bracket = b
      · subst h
        have hstep := Reader.step_closing a.line hopened
        rw [← ha] at hstep
        simp only [hopener, hcloser, hstep, marks, List.map_cons, if_true]
        exact congrArg (scan · rest) (marks_put { r with opened := outer } o.close).symm
      · have h' : ¬ b = o.bracket := fun hb => h hb.symm
        simp only [hopener, hcloser, Reader.step, hrole, hopened, marks, List.map_cons, h, h',
          if_false]
        rfl
  · simp only [opener?_leaf hleaf, closer?_leaf hleaf, Reader.step, hrole]
    cases r.statementHere? a with
    | none => simp
    | some call => simp

theorem scan_steps (r : Reader) (atoms : List Atom) :
    scan (marks r.opened) atoms =
      match r.steps atoms with
      | .ok r' => .ok (marks r'.opened)
      | .error f => .error f.report := by
  induction atoms generalizing r with
  | nil => rfl
  | cons a rest ih =>
    rw [scan_step, Reader.steps_cons]
    cases r.step a with
    | error f => rfl
    | ok r' => exact ih r'

theorem starts_inside {as : List Atom} {es : List Expr} (h : Inner as es) (opened : Nat)
    (rest : List Atom) : starts (opened + 1) (as ++ rest) = starts (opened + 1) rest := by
  induction h generalizing opened rest with
  | nil => rfl
  | leaf ha _ ih => simp [starts, Atom.opens_leaf ha, Atom.closes_leaf ha, ih]
  | brackets _ _ ihin ih => simp [starts, ihin, ih]

theorem starts_outside {as : List Atom} {es : List Expr} (h : Inner as es) (rest : List Atom) :
    starts 0 (as ++ rest) = starts 0 as ++ starts 0 rest ∧ (starts 0 as).length = es.length := by
  induction h with
  | nil => exact ⟨rfl, rfl⟩
  | leaf ha _ ih => simp [starts, Atom.opens_leaf ha, Atom.closes_leaf ha, ih]
  | @brackets b m n as es bs fs hin _ _ ih =>
    have hinside := starts_inside hin 0
    simp [starts, hinside, ih]

theorem find?_statement {name : String} {arity : Nat} (h : (name, arity) ∈ statementArities) :
    statementArities.find? (fun entry => entry.1 == name) = some (name, arity) := by
  have hfound : ∀ entry ∈ statementArities,
      statementArities.find? (fun e => e.1 == entry.1) = some entry := by
    decide
  exact hfound (name, arity) h

theorem find?_plain {name : String} (h : ∀ n, (name, n) ∉ statementArities) :
    statementArities.find? (fun entry => entry.1 == name) = none := by
  rw [List.find?_eq_none]
  rintro ⟨found, n⟩ hentry hname
  obtain rfl : found = name := by simpa using hname
  exact h n hentry

theorem lacking?_statement {name : String} {arity : Nat} (h : (name, arity) ∈ statementArities)
    (line : Nat) (rest : List Atom) :
    lacking? (⟨.symbol name, line⟩ :: rest) =
      if rest.length < arity then some (ReadFault.incomplete name arity rest.length line).report
      else lacking? (rest.drop arity) := by
  rw [lacking?]
  simp only [Atom.symbol?, Option.bind_some, find?_statement h]
  rfl

theorem lacking?_plain {a : Atom} (h : ∀ name ∈ a.symbol?, ∀ n, (name, n) ∉ statementArities)
    (rest : List Atom) : lacking? (a :: rest) = lacking? rest := by
  rw [lacking?, Option.bind_eq_none_iff.2 fun name hname => find?_plain (h name hname)]

theorem starts_statement {name : String} {arity : Nat} (h : (name, arity) ∈ statementArities)
    (line : Nat) {as : List Atom} {es : List Expr} (hin : Inner as es) (rest : List Atom) :
    starts 0 (⟨.symbol name, line⟩ :: as ++ rest) =
      ⟨.symbol name, line⟩ :: (starts 0 as ++ starts 0 rest) := by
  have hleaf := Reader.not_isBracket_of_mem h line
  simp [starts, Atom.opens_leaf hleaf, Atom.closes_leaf hleaf, (starts_outside hin rest).1]

theorem starts_single {as : List Atom} {e : Expr} (h : Inner as [e]) :
    ∃ a, starts 0 as = [a] ∧
      (e.Plain → ∀ name ∈ a.symbol?, ∀ n, (name, n) ∉ statementArities) := by
  cases h with
  | @leaf a as _ ha hnil =>
    cases hnil
    exact ⟨a, by simp [starts], fun hp => hp⟩
  | @brackets b m n as es bs _ hin hnil =>
    cases hnil
    refine ⟨b.opening m, by simp [starts, starts_inside hin 0], fun _ name hname n hmem => ?_⟩
    obtain rfl : b.opener = name := by simpa [Bracket.opening, Atom.symbol?] using hname
    have hbracket : Atom.IsBracket ⟨.symbol b.opener, m⟩ := by
      cases b <;> simp [Atom.IsBracket, Atom.symbol?, Bracket.opener]
    exact Reader.not_isBracket_of_mem hmem m hbracket

theorem lacking?_derives {as : List Atom} {es : List Expr} (h : Derives as es) (rest : List Atom) :
    lacking? (starts 0 (as ++ rest)) = lacking? (starts 0 rest) := by
  induction h generalizing rest with
  | nil => rfl
  | @statement name line as es bs fs harity hin _ ih =>
    have hlen := (starts_outside hin bs).2
    rw [List.append_assoc, starts_statement harity line hin, lacking?_statement harity, ← hlen,
      List.length_append, if_neg (by omega), List.drop_left, ih]
  | @inner as e bs fs hin hplain _ ih =>
    obtain ⟨a, ha, hname⟩ := starts_single hin
    rw [List.append_assoc, (starts_outside hin _).1, ha, List.singleton_append,
      lacking?_plain (hname hplain), ih]

theorem lacking?_reads {r : Reader} {atoms : List Atom} (h : r.Reads atoms)
    (hopened : r.opened = []) :
    lacking? (starts 0 atoms) =
      match r.finish with
      | .ok _ => none
      | .error f => some f.report := by
  obtain ⟨done, waiting, unclosed, rfl, hdone, hwaiting, hunclosed⟩ := h
  rw [hopened] at hunclosed
  cases hunclosed
  rw [List.append_nil, lacking?_derives hdone]
  simp only [Reader.finish, hopened]
  cases hstatement : r.statement with
  | none =>
    rw [hstatement] at hwaiting
    cases hwaiting
    simp [starts, lacking?]
  | some s =>
    rw [hstatement] at hwaiting
    cases hwaiting with
    | @some _ operands harity hlt hin =>
      have hlen := (starts_outside hin []).2
      have hstarts : starts 0 (⟨.symbol s.name, s.line⟩ :: operands) =
          ⟨.symbol s.name, s.line⟩ :: starts 0 operands := by
        have hnil : starts 0 [] = [] := rfl
        simpa [hnil] using starts_statement harity s.line hin []
      rw [hstarts, lacking?_statement harity, hlen, List.length_reverse, if_pos hlt]

theorem message_incomplete (name : String) (arity found line : Nat) :
    (ReadFault.incomplete name arity found line).message =
      "'" ++ name ++ "' expects " ++ Nat.repr arity ++ " arguments, found " ++ Nat.repr found := rfl

/-- Of all faults only statements without their operands share the code of `ended`, and their
messages begin with a quote. -/
theorem report_ne_ended (f : ReadFault) (last : Nat) : f.report ≠ Descent.ended last := by
  intro h
  have hcode : f.code = 103 := congrArg Report.code h
  have hmessage : f.message = "unexpected end of input" := congrArg Report.message h
  cases f with
  | incomplete name arity found line =>
    have hhead := congrArg (fun s => s.toList.head?) hmessage
    simp [message_incomplete] at hhead
  | unexpected | unclosed | mismatched | tooDeep => simp [ReadFault.code] at hcode

/-- The reader rejects exactly the atoms in which the scan finds something, and with its report;
reading by recursive descent does so too. So neither ever reports that the atoms end where an
expression should begin. -/
theorem verdict?_eq (atoms : List Atom) :
    (verdict? atoms = match Program.ofAtoms atoms with
      | .ok _ => none
      | .error f => some f.report) ∧
    Descent.program atoms = (Program.ofAtoms atoms).mapError ReadFault.report ∧
    ∀ last, Descent.program atoms ≠ .error (Descent.ended last) := by
  refine ⟨?_, Descent.program_eq atoms, fun last hended => ?_⟩
  case refine_2 =>
    rw [Descent.program_eq] at hended
    cases hread : Program.ofAtoms atoms with
    | ok =>
      rw [hread] at hended
      contradiction
    | error f =>
      rw [hread] at hended
      exact report_ne_ended f last (Except.error.inj hended)
  have hscan : scan [] atoms = _ := scan_steps .start atoms
  simp only [Program.ofAtoms, verdict?, hscan]
  cases hsteps : Reader.start.steps atoms with
  | error f => rfl
  | ok r =>
    change _ = match r.finish with
      | .ok _ => none
      | .error f => some f.report
    cases hopened : r.opened with
    | nil => simpa [marks, hopened] using lacking?_reads (Reader.Reads.start.steps hsteps) hopened
    | cons o outer =>
      simp only [marks, List.map_cons, Reader.finish, hopened]
      rfl

end BracketScan

end PrefixScript
