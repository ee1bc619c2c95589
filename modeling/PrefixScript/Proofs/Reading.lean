import PrefixScript.Proofs.Grammar

/-!
# The reader and the grammar

The reader accepts the atoms of the grammar, and no others: what it has read at any moment is a
program, a statement that waits for operands, and open brackets.
-/

namespace PrefixScript

namespace Atom

theorem eq_of_symbol? {a : Atom} {name : String} (h : a.symbol? = some name) :
    a = ⟨.symbol name, a.line⟩ := by
  obtain ⟨word, line⟩ := a
  cases word <;> simp_all [symbol?]

theorem role_cases (a : Atom) :
    (∃ b, a = Bracket.opening b a.line ∧ a.role = .opens b) ∨
      (∃ b, a = Bracket.closing b a.line ∧ a.role = .closes b) ∨
      (¬ a.IsBracket ∧ a.role = .leaf) := by
  obtain ⟨word, line⟩ := a
  by_cases h : Atom.IsBracket ⟨word, line⟩
  · cases word with
    | symbol name =>
      simp only [IsBracket, symbol?, List.mem_cons, Option.some.injEq, List.not_mem_nil] at h
      rcases h with rfl | rfl | rfl | rfl | h
      · exact .inl ⟨.round, rfl, rfl⟩
      · exact .inl ⟨.square, rfl, rfl⟩
      · exact .inr (.inl ⟨.round, rfl, rfl⟩)
      · exact .inr (.inl ⟨.square, rfl, rfl⟩)
      · exact h.elim
    | text | number => simp [IsBracket, symbol?] at h
  · refine .inr (.inr ⟨h, ?_⟩)
    simp only [IsBracket, symbol?] at h
    unfold role
    split <;> simp_all

@[simp] theorem role_opening (b : Bracket) (line : Nat) : (b.opening line).role = .opens b := by
  cases b <;> rfl

@[simp] theorem role_closing (b : Bracket) (line : Nat) : (b.closing line).role = .closes b := by
  cases b <;> rfl

theorem role_leaf {a : Atom} (h : ¬ a.IsBracket) : a.role = .leaf := by
  rcases role_cases a with ⟨b, ha, -⟩ | ⟨b, ha, -⟩ | ⟨-, hr⟩
  · rw [ha] at h; cases b <;> simp [IsBracket, symbol?, Bracket.opening, Bracket.opener] at h
  · rw [ha] at h; cases b <;> simp [IsBracket, symbol?, Bracket.closing, Bracket.closer] at h
  · exact hr

@[simp] theorem opens_opening (b : Bracket) (line : Nat) : (b.opening line).opens = true := by
  cases b <;> rfl

@[simp] theorem opens_closing (b : Bracket) (line : Nat) : (b.closing line).opens = false := by
  cases b <;> rfl

@[simp] theorem closes_opening (b : Bracket) (line : Nat) : (b.opening line).closes = false := by
  cases b <;> rfl

@[simp] theorem closes_closing (b : Bracket) (line : Nat) : (b.closing line).closes = true := by
  cases b <;> rfl

theorem opens_leaf {a : Atom} (h : ¬ a.IsBracket) : a.opens = false := by
  simp_all [IsBracket, opens]

theorem closes_leaf {a : Atom} (h : ¬ a.IsBracket) : a.closes = false := by
  simp_all [IsBracket, closes]

end Atom

theorem OpenList.close_eq (o : OpenList) : o.close = o.bracket.enclose o.items.reverse o.line := by
  obtain ⟨b, line, items⟩ := o
  cases b <;> rfl

theorem Inner.count_opens {as : List Atom} {es : List Expr} (h : Inner as es) :
    as.countP Atom.opens = as.countP Atom.closes := by
  induction h with
  | nil => rfl
  | leaf ha _ ih => simpa [Atom.opens_leaf ha, Atom.closes_leaf ha] using ih
  | brackets _ _ ihin ih => simp [ihin, ih]; omega

namespace Reader

@[simp] theorem steps_nil (r : Reader) : r.steps [] = .ok r := rfl

theorem steps_cons (r : Reader) (a : Atom) (as : List Atom) :
    r.steps (a :: as) = r.step a >>= fun r => r.steps as := by
  simp [steps]

theorem steps_append (r : Reader) (as bs : List Atom) :
    r.steps (as ++ bs) = r.steps as >>= fun r => r.steps bs := by
  simp [steps]

def puts (r : Reader) (es : List Expr) : Reader :=
  es.foldl put r

@[simp] theorem puts_nil (r : Reader) : r.puts [] = r := rfl

@[simp] theorem puts_cons (r : Reader) (e : Expr) (es : List Expr) :
    r.puts (e :: es) = (r.put e).puts es := rfl

@[simp] theorem opened_length_put (r : Reader) (e : Expr) :
    (r.put e).opened.length = r.opened.length := by
  unfold put
  split
  · simp [*]
  · unfold putStatement; split <;> simp [*]
  · simp [*]

theorem puts_inside (r : Reader) (b : Bracket) (line : Nat) (items es : List Expr) :
    { r with opened := ⟨b, line, items⟩ :: r.opened }.puts es =
      { r with opened := ⟨b, line, es.reverse ++ items⟩ :: r.opened } := by
  induction es generalizing items with
  | nil => rfl
  | cons e es ih =>
    have hput : { r with opened := ⟨b, line, items⟩ :: r.opened }.put e =
        { r with opened := ⟨b, line, e :: items⟩ :: r.opened } := rfl
    rw [puts_cons, hput, ih]
    simp

/-- The next expressions are taken as they are: in brackets, as operands, or at the top level if
they can stand there. -/
def Takes (r : Reader) (es : List Expr) : Prop :=
  r.opened ≠ [] ∨ (∃ s, r.statement = some s ∧ s.operands.length + es.length ≤ s.arity) ∨
    (r.statement = none ∧ ∀ e ∈ es, e.Plain)

theorem Takes.tail {r : Reader} {e : Expr} {es : List Expr} (h : r.Takes (e :: es)) :
    (r.put e).Takes es := by
  unfold Takes at h ⊢
  cases hopened : r.opened with
  | cons o outer => simp [put, hopened]
  | nil =>
    rcases h with h | ⟨s, hs, hlen⟩ | ⟨hs, hplain⟩
    · exact absurd hopened h
    · simp only [List.length_cons] at hlen
      simp only [put, hopened, hs, putStatement, List.length_cons]
      by_cases hfull : s.operands.length + 1 = s.arity
      · -- The last operand: nothing is left to take.
        have : es = [] := List.eq_nil_of_length_eq_zero (by omega)
        subst this
        simp [hfull]
      · refine .inr (.inl ⟨{ s with operands := e :: s.operands }, by simp [hfull], ?_⟩)
        simp only [List.length_cons]
        omega
    · simp only [List.mem_cons, forall_eq_or_imp] at hplain
      exact .inr (.inr ⟨by simp [put, hopened, hs], hplain.2⟩)

theorem statementHere?_eq_some {r : Reader} {a : Atom} {name : String} {arity : Nat} :
    r.statementHere? a = some (name, arity) ↔ r.opened = [] ∧ r.statement = none ∧
      a.symbol? = some name ∧ (name, arity) ∈ statementArities := by
  rw [← statementArity?_eq_some_iff]
  unfold statementHere?
  split
  · next hopened hstatement hname =>
    simp only [hopened, hstatement, hname, Option.map_eq_some_iff, Prod.mk.injEq, true_and,
      Option.some.injEq]
    constructor
    · rintro ⟨n, hn, rfl, rfl⟩; exact ⟨rfl, hn⟩
    · rintro ⟨rfl, hn⟩; exact ⟨arity, hn, rfl, rfl⟩
  · next hnot =>
    simp only [reduceCtorEq, false_iff]
    rintro ⟨hopened, hstatement, hname, -⟩
    exact hnot name hopened hstatement hname

theorem step_leaf {r : Reader} {a : Atom} {es : List Expr} (ha : ¬ a.IsBracket)
    (h : r.Takes (.atom a :: es)) : r.step a = .ok (r.put (.atom a)) := by
  have hhere : r.statementHere? a = none := by
    apply Option.eq_none_iff_forall_ne_some.2
    rintro ⟨name, arity⟩ hsome
    obtain ⟨hopened, hstatement, hname, harity⟩ := statementHere?_eq_some.1 hsome
    rcases h with h | ⟨s, hs, -⟩ | ⟨-, hplain⟩
    · exact h hopened
    · simp [hs] at hstatement
    · have := hplain (.atom a) (by simp) name (by simpa [Expr.symbol?] using hname)
      simp [this] at harity
  simp only [step, Atom.role_leaf ha, hhere]

theorem step_opening {r : Reader} (b : Bracket) (line : Nat) (h : r.opened.length < maxNesting) :
    r.step (b.opening line) = .ok { r with opened := ⟨b, line, []⟩ :: r.opened } := by
  simp only [step, Atom.role_opening, Nat.not_le_of_lt h, if_false]
  rfl

theorem step_closing {r : Reader} {o : OpenList} {outer : List OpenList} (line : Nat)
    (h : r.opened = o :: outer) :
    r.step (o.bracket.closing line) = .ok ({ r with opened := outer }.put o.close) := by
  simp [step, h]

theorem steps_brackets {r : Reader} {b : Bracket} {m n : Nat} {as : List Atom} {es : List Expr}
    (hopen : r.opened.length < maxNesting)
    (hin : { r with opened := ⟨b, m, []⟩ :: r.opened }.steps as =
      .ok ({ r with opened := ⟨b, m, []⟩ :: r.opened }.puts es)) :
    r.steps (b.opening m :: as ++ [b.closing n]) = .ok (r.put (b.enclose es m)) := by
  have hclose : Reader.step { r with opened := ⟨b, m, es.reverse⟩ :: r.opened } (b.closing n) =
      .ok (r.put (b.enclose es m)) := by
    have := step_closing (r := { r with opened := ⟨b, m, es.reverse⟩ :: r.opened }) n rfl
    simpa [OpenList.close_eq] using this
  rw [puts_inside, List.append_nil] at hin
  calc r.steps (b.opening m :: as ++ [b.closing n])
      = ({ r with opened := ⟨b, m, []⟩ :: r.opened }.steps as >>=
          fun r => r.steps [b.closing n]) := by
        rw [List.cons_append, steps_cons, step_opening b m hopen]
        exact steps_append _ as _
    _ = .ok (r.put (b.enclose es m)) := by
        rw [hin]
        change Reader.steps _ [b.closing n] = _
        rw [steps_cons, hclose]
        rfl

/-- Nesting stays within the limit when reading starts with `n` open brackets. -/
def Room (n : Nat) (atoms : List Atom) : Prop :=
  ∀ before, before <+: atoms →
    before.countP Atom.opens + n ≤ before.countP Atom.closes + maxNesting

theorem Room.tail {n m : Nat} (as : List Atom) {bs : List Atom} (h : Room n (as ++ bs))
    (hm : as.countP Atom.opens + n = as.countP Atom.closes + m) : Room m bs := by
  intro before hb
  have := h (as ++ before) ((List.prefix_append_right_inj as).2 hb)
  simp only [List.countP_append] at this
  omega

theorem Room.head {n : Nat} {as : List Atom} (bs : List Atom) (h : Room n (as ++ bs)) : Room n as :=
  fun before hb => h before (hb.trans (List.prefix_append as bs))

theorem Room.le {n : Nat} {as : List Atom} (h : Room n as) : n ≤ maxNesting := by
  simpa using h [] List.nil_prefix

theorem Room.brackets {n m k : Nat} {b : Bracket} {as bs : List Atom}
    (h : Room n (b.opening m :: as ++ b.closing k :: bs))
    (has : as.countP Atom.opens = as.countP Atom.closes) : Room (n + 1) as ∧ Room n bs := by
  constructor
  · refine Room.head (b.closing k :: bs) (Room.tail [b.opening m] h ?_)
    simp
    omega
  · refine Room.tail (b.opening m :: as ++ [b.closing k]) (by simpa using h) ?_
    simp [has]

theorem steps_inner {as : List Atom} {es : List Expr} (h : Inner as es) (r : Reader)
    (ht : r.Takes es) (hroom : Room r.opened.length as) : r.steps as = .ok (r.puts es) := by
  induction h generalizing r with
  | nil => rfl
  | @leaf a as es ha _ ih =>
    have hstep := step_leaf ha ht
    have hroom' : Room r.opened.length as :=
      Room.tail [a] hroom (by simp [Atom.opens_leaf ha, Atom.closes_leaf ha])
    rw [steps_cons, hstep]
    exact ih _ ht.tail (by simpa using hroom')
  | @brackets b m n as es bs fs hin _ ihin ih =>
    obtain ⟨hinside, hafter⟩ := hroom.brackets hin.count_opens
    have hopen : r.opened.length < maxNesting := hinside.le
    have hwithin := ihin { r with opened := ⟨b, m, []⟩ :: r.opened } (.inl (by simp)) hinside
    calc r.steps (b.opening m :: as ++ b.closing n :: bs)
        = (r.steps (b.opening m :: as ++ [b.closing n]) >>= fun r => r.steps bs) := by
          rw [← steps_append]
          simp
      _ = (r.put (b.enclose es m)).steps bs := by
          rw [steps_brackets hopen hwithin]
          rfl
      _ = .ok (r.puts (b.enclose es m :: fs)) := ih _ ht.tail (by simpa using hafter)

theorem puts_putStatement (r : Reader) (hr : r.opened = []) (s : Statement) (es : List Expr)
    (h : s.operands.length + es.length = s.arity) :
    (r.putStatement s).puts es =
      { r with
        finished :=
          .list (.symbol s.name s.line :: (s.operands.reverse ++ es)) s.line :: r.finished
        statement := none } := by
  induction es generalizing s with
  | nil => simp_all [putStatement, Statement.close]
  | cons e es ih =>
    simp only [List.length_cons] at h
    have hne : s.operands.length ≠ s.arity := by omega
    have hput : (r.putStatement s).put e =
        r.putStatement { s with operands := e :: s.operands } := by
      simp [putStatement, hne, put, hr]
    have hlen : (e :: s.operands).length + es.length = s.arity := by
      simp only [List.length_cons]
      omega
    rw [puts_cons, hput, ih { s with operands := e :: s.operands } hlen]
    simp

theorem not_isBracket_of_mem {name : String} {n : Nat}
    (h : (name, n) ∈ statementArities) (line : Nat) : ¬ Atom.IsBracket ⟨.symbol name, line⟩ := by
  have hnone : ∀ entry ∈ statementArities, entry.1 ∉ ["(", "[", ")", "]"] := by decide
  intro hb
  exact hnone (name, n) h (by simpa [Atom.IsBracket, Atom.symbol?] using hb)

theorem steps_derives {as : List Atom} {es : List Expr} (h : Derives as es) (r : Reader)
    (hopened : r.opened = []) (hstatement : r.statement = none) (hroom : Room 0 as) :
    r.steps as = .ok { r with finished := es.reverse ++ r.finished } := by
  induction h generalizing r with
  | nil => rfl
  | @statement name line as es bs fs harity hin _ ih =>
    have hleaf := not_isBracket_of_mem harity line
    have hafter : Room 0 bs := by
      refine Room.tail (⟨.symbol name, line⟩ :: as) hroom ?_
      simp [hin.count_opens, Atom.opens_leaf hleaf, Atom.closes_leaf hleaf]
    have hoperands : Room 0 as := by
      refine Room.head bs (Room.tail [⟨.symbol name, line⟩] hroom ?_)
      simp [Atom.opens_leaf hleaf, Atom.closes_leaf hleaf]
    -- The reader waits for the operands and takes the statement for finished with the last of them.
    let s : Statement := ⟨name, line, es.length, []⟩
    have hstep : r.step ⟨.symbol name, line⟩ = .ok (r.putStatement s) := by
      have hhere : r.statementHere? ⟨.symbol name, line⟩ = some (name, es.length) :=
        statementHere?_eq_some.2 ⟨hopened, hstatement, rfl, harity⟩
      simp [step, Atom.role_leaf hleaf, hhere, s]
    have hopened' : (r.putStatement s).opened = [] := by
      unfold putStatement
      split <;> simp [hopened]
    have htakes : (r.putStatement s).Takes es := by
      unfold Takes putStatement
      cases es with
      | nil => simp [s]
      | cons e es => exact .inr (.inl ⟨s, by simp [s], by simp [s]⟩)
    have hputs := puts_putStatement r hopened s es (by simp [s])
    rw [List.cons_append, steps_cons, hstep]
    change (r.putStatement s).steps (as ++ bs) = _
    rw [steps_append, steps_inner hin _ htakes (by simpa [hopened'] using hoperands), hputs]
    change Reader.steps { r with finished := _, statement := none } bs = _
    rw [ih { r with finished := _, statement := none } hopened rfl hafter]
    simp [s, hstatement]
  | @inner as e bs fs hin hplain _ ih =>
    have hafter : Room 0 bs := Room.tail as hroom (by simp [hin.count_opens])
    have htakes : r.Takes [e] := .inr (.inr ⟨hstatement, by simpa using hplain⟩)
    have hput : r.puts [e] = { r with finished := e :: r.finished } := by
      simp [put, hopened, hstatement]
    rw [steps_append, steps_inner hin _ htakes (by simpa [hopened] using hroom.head bs), hput]
    change Reader.steps { r with finished := e :: r.finished } bs = _
    rw [ih { r with finished := e :: r.finished } hopened hstatement hafter]
    simp

inductive Unclosed : List OpenList → List Atom → Prop
  | nil : Unclosed [] []
  | cons {o outer before as} : Unclosed outer before → Inner as o.items.reverse →
      Unclosed (o :: outer) (before ++ o.bracket.opening o.line :: as)

inductive Waiting : Option Statement → List Atom → Prop
  | none : Waiting none []
  | some {s as} : (s.name, s.arity) ∈ statementArities → s.operands.length < s.arity →
      Inner as s.operands.reverse → Waiting (some s) (⟨.symbol s.name, s.line⟩ :: as)

structure Reads (r : Reader) (atoms : List Atom) : Prop where
  parts : ∃ done waiting unclosed, atoms = done ++ waiting ++ unclosed ∧
    Derives done r.finished.reverse ∧ Waiting r.statement waiting ∧ Unclosed r.opened unclosed

theorem Reads.start : Reader.start.Reads [] :=
  ⟨[], [], [], rfl, .nil, .none, .nil⟩

theorem Reads.putStatement {r : Reader} {done as : List Atom} {s : Statement}
    (hdone : Derives done r.finished.reverse) (hopened : r.opened = [])
    (harity : (s.name, s.arity) ∈ statementArities) (hle : s.operands.length ≤ s.arity)
    (hin : Inner as s.operands.reverse) :
    (r.putStatement s).Reads (done ++ ⟨.symbol s.name, s.line⟩ :: as) := by
  unfold Reader.putStatement
  split
  · next hfull =>
    refine ⟨done ++ ⟨.symbol s.name, s.line⟩ :: as, [], [], by simp, ?_, .none, hopened ▸ .nil⟩
    have hcall : Derives (⟨.symbol s.name, s.line⟩ :: as ++ []) [s.close] :=
      .statement (by simpa [hfull] using harity) hin .nil
    simpa using hdone.append hcall
  · next hmore =>
    exact ⟨done, ⟨.symbol s.name, s.line⟩ :: as, [], by simp, hdone,
      .some harity (by omega) hin, hopened ▸ .nil⟩

theorem Reads.put {r : Reader} {atoms as : List Atom} {e : Expr} (h : r.Reads atoms)
    (hin : Inner as [e]) (hplain : r.opened = [] → r.statement = none → e.Plain) :
    (r.put e).Reads (atoms ++ as) := by
  obtain ⟨done, waiting, unclosed, rfl, hdone, hwaiting, hunclosed⟩ := h
  unfold Reader.put
  split
  · next o outer hopened =>
    rw [hopened] at hunclosed
    cases hunclosed with
    | @cons _ _ before items houter hitems =>
      refine ⟨done, waiting, before ++ o.bracket.opening o.line :: (items ++ as), by simp, hdone,
        hwaiting, .cons houter ?_⟩
      simpa using hitems.append hin
  · next s hopened hstatement =>
    rw [hopened] at hunclosed
    rw [hstatement] at hwaiting
    cases hunclosed
    cases hwaiting with
    | @some _ operands harity hlt hoperands =>
      have := Reads.putStatement (r := r) (s := { s with operands := e :: s.operands }) hdone hopened
        harity (by simpa using Nat.succ_le_of_lt hlt) (by simpa using hoperands.append hin)
      simpa using this
  · next hopened hstatement =>
    rw [hopened] at hunclosed
    rw [hstatement] at hwaiting
    cases hunclosed
    cases hwaiting
    refine ⟨done ++ as, [], [], by simp, ?_, hstatement ▸ .none, hopened ▸ .nil⟩
    have := Derives.inner hin (hplain hopened hstatement) .nil
    simpa using hdone.append this

theorem Reads.opening {r : Reader} {atoms : List Atom} (h : r.Reads atoms) (b : Bracket)
    (line : Nat) :
    Reader.Reads { r with opened := ⟨b, line, []⟩ :: r.opened } (atoms ++ [b.opening line]) := by
  obtain ⟨done, waiting, unclosed, rfl, hdone, hwaiting, hunclosed⟩ := h
  exact ⟨done, waiting, unclosed ++ [b.opening line], by simp, hdone, hwaiting,
    .cons hunclosed .nil⟩

theorem Reads.closing {r : Reader} {atoms : List Atom} (h : r.Reads atoms) {o : OpenList}
    {outer : List OpenList} (hopened : r.opened = o :: outer) (line : Nat) :
    (Reader.put { r with opened := outer } o.close).Reads (atoms ++ [o.bracket.closing line]) := by
  obtain ⟨done, waiting, unclosed, rfl, hdone, hwaiting, hunclosed⟩ := h
  rw [hopened] at hunclosed
  cases hunclosed with
  | @cons _ _ before items houter hitems =>
    have hlist : Inner (o.bracket.opening o.line :: items ++ [o.bracket.closing line]) [o.close] := by
      rw [OpenList.close_eq]
      exact .brackets hitems .nil
    have hrest : Reader.Reads { r with opened := outer } (done ++ waiting ++ before) :=
      ⟨done, waiting, before, rfl, hdone, hwaiting, houter⟩
    have hnone : o.close.symbol? = none := by
      rw [OpenList.close_eq]
      cases o.bracket <;> rfl
    have := hrest.put hlist fun _ _ => by simp [Expr.Plain, hnone]
    simpa using this

theorem Reads.statement {r : Reader} {atoms : List Atom} (h : r.Reads atoms) {a : Atom}
    {name : String} {arity : Nat} (hhere : r.statementHere? a = some (name, arity)) :
    (r.putStatement ⟨name, a.line, arity, []⟩).Reads (atoms ++ [a]) := by
  obtain ⟨hopened, hstatement, hname, harity⟩ := Reader.statementHere?_eq_some.1 hhere
  obtain ⟨done, waiting, unclosed, rfl, hdone, hwaiting, hunclosed⟩ := h
  rw [hopened] at hunclosed
  rw [hstatement] at hwaiting
  cases hunclosed
  cases hwaiting
  have := Reads.putStatement (s := ⟨name, a.line, arity, []⟩) hdone hopened harity
    (Nat.zero_le _) .nil
  simpa [← Atom.eq_of_symbol? hname] using this

theorem Reads.leaf {r : Reader} {atoms : List Atom} (h : r.Reads atoms) {a : Atom}
    (hleaf : ¬ a.IsBracket) (hhere : r.statementHere? a = none) :
    (r.put (.atom a)).Reads (atoms ++ [a]) := by
  refine h.put (.leaf hleaf .nil) fun hopened hstatement name hname arity harity => ?_
  have := Reader.statementHere?_eq_some.2 ⟨hopened, hstatement, hname, harity⟩
  simp [this] at hhere

theorem Reads.step {r r' : Reader} {atoms : List Atom} {a : Atom} (h : r.Reads atoms)
    (hstep : r.step a = .ok r') : r'.Reads (atoms ++ [a]) := by
  rcases a.role_cases with ⟨b, ha, hrole⟩ | ⟨b, ha, hrole⟩ | ⟨hleaf, hrole⟩ <;>
    simp only [Reader.step, hrole] at hstep
  · split at hstep
    · contradiction
    · obtain rfl := Except.ok.inj hstep
      have := h.opening b a.line
      rwa [← ha] at this
  · split at hstep
    · contradiction
    · next o outer hopened =>
      split at hstep
      · next hb =>
        obtain rfl := Except.ok.inj hstep
        have := h.closing hopened a.line
        rwa [hb, ← ha] at this
      · contradiction
  · split at hstep
    · next name arity hhere =>
      obtain rfl := Except.ok.inj hstep
      exact h.statement hhere
    · next hhere =>
      obtain rfl := Except.ok.inj hstep
      exact h.leaf hleaf hhere

theorem Reads.steps {r r' : Reader} {atoms as : List Atom} (h : r.Reads atoms)
    (hsteps : r.steps as = .ok r') : r'.Reads (atoms ++ as) := by
  induction as generalizing r atoms with
  | nil =>
    obtain rfl := Except.ok.inj hsteps
    simpa using h
  | cons a as ih =>
    rw [steps_cons] at hsteps
    cases hstep : r.step a with
    | error f => simp [hstep, bind, Except.bind] at hsteps
    | ok r₁ =>
      rw [hstep] at hsteps
      simpa using ih (h.step hstep) hsteps

theorem opened_length_step {r r' : Reader} {a : Atom} (h : r.step a = .ok r') :
    [a].countP Atom.opens + r.opened.length = [a].countP Atom.closes + r'.opened.length ∧
      (r'.opened.length ≤ r.opened.length ∨ r'.opened.length ≤ maxNesting) := by
  rcases a.role_cases with ⟨b, ha, hrole⟩ | ⟨b, ha, hrole⟩ | ⟨hleaf, hrole⟩ <;>
    simp only [step, hrole] at h
  · split at h
    · contradiction
    · obtain rfl := Except.ok.inj h
      rw [ha]
      simp
      omega
  · split at h
    · contradiction
    · next o outer hopened =>
      split at h
      · obtain rfl := Except.ok.inj h
        rw [ha]
        simp [hopened]
        omega
      · contradiction
  · have hcount : [a].countP Atom.opens = [a].countP Atom.closes := by
      simp [Atom.opens_leaf hleaf, Atom.closes_leaf hleaf]
    have hlength : r'.opened.length = r.opened.length := by
      split at h
      · obtain rfl := Except.ok.inj h
        unfold putStatement
        split <;> rfl
      · obtain rfl := Except.ok.inj h
        simp
    omega

theorem opened_length_steps {r r' : Reader} {as : List Atom} (h : r.steps as = .ok r')
    (hle : r.opened.length ≤ maxNesting) :
    as.countP Atom.opens + r.opened.length = as.countP Atom.closes + r'.opened.length ∧
      r'.opened.length ≤ maxNesting := by
  induction as generalizing r with
  | nil =>
    obtain rfl := Except.ok.inj h
    exact ⟨rfl, hle⟩
  | cons a as ih =>
    rw [steps_cons] at h
    cases hstep : r.step a with
    | error f => simp [hstep, bind, Except.bind] at h
    | ok r₁ =>
      rw [hstep] at h
      obtain ⟨hone, hbound⟩ := opened_length_step hstep
      obtain ⟨hrest, hle'⟩ := ih h (by omega)
      rw [← List.singleton_append, List.countP_append, List.countP_append]
      exact ⟨by omega, hle'⟩

theorem room_of_steps {r r' : Reader} {as : List Atom} (h : r.steps as = .ok r')
    (hle : r.opened.length ≤ maxNesting) : Room r.opened.length as := by
  rintro before ⟨after, rfl⟩
  rw [steps_append] at h
  cases hbefore : r.steps before with
  | error f => simp [hbefore, bind, Except.bind] at h
  | ok r₁ =>
    have := opened_length_steps hbefore hle
    omega

end Reader

namespace Program

theorem ofAtoms_of_derives {atoms : List Atom} {program : List Expr} (h : Derives atoms program)
    (hs : Shallow atoms) : ofAtoms atoms = .ok program := by
  have hsteps := Reader.steps_derives h .start rfl rfl hs
  simp only [ofAtoms, hsteps]
  simp [bind, Except.bind, Reader.finish, Reader.start]

theorem derives_of_ofAtoms {atoms : List Atom} {program : List Expr}
    (h : ofAtoms atoms = .ok program) : Derives atoms program ∧ Shallow atoms := by
  simp only [ofAtoms] at h
  cases hsteps : Reader.start.steps atoms with
  | error f => simp [hsteps, bind, Except.bind] at h
  | ok r =>
    rw [hsteps] at h
    change r.finish = .ok program at h
    refine ⟨?_, Reader.room_of_steps hsteps (Nat.zero_le _)⟩
    obtain ⟨done, waiting, unclosed, hatoms, hdone, hwaiting, hunclosed⟩ :=
      Reader.Reads.start.steps hsteps
    unfold Reader.finish at h
    split at h
    · contradiction
    · contradiction
    · next hopened hstatement =>
      rw [hopened] at hunclosed
      rw [hstatement] at hwaiting
      cases hunclosed
      cases hwaiting
      obtain rfl := Except.ok.inj h
      subst hatoms
      simpa using hdone

theorem ofSource_eq_ok_iff (source : Source) {program : List Expr} :
    ofSource source = .ok program ↔
      ofAtoms ((Token.ofText source.text).map .ofToken) = .ok program := by
  unfold ofSource
  cases ofAtoms ((Token.ofText source.text).map .ofToken) <;> simp

theorem ofSource_eq_error_iff (source : Source) {report : Report} :
    ofSource source = .error report ↔
      ∃ fault, ofAtoms ((Token.ofText source.text).map .ofToken) = .error fault ∧
        source.annotate fault.report = report := by
  unfold ofSource
  cases ofAtoms ((Token.ofText source.text).map .ofToken) <;> simp

/-- The reader accepts exactly the programs of the grammar that do not nest too deep, and reads
them as the grammar says, which is the only way to read them. -/
theorem accepts_iff_derives (atoms : List Atom) :
    (∀ program, ofAtoms atoms = .ok program ↔ Derives atoms program ∧ Shallow atoms) ∧
      ∀ program, ofAtoms atoms = .ok program → ∀ other, Derives atoms other → other = program := by
  constructor
  · intro program
    exact ⟨derives_of_ofAtoms, fun h => ofAtoms_of_derives h.1 h.2⟩
  · intro program h other hother
    have hs := (derives_of_ofAtoms h).2
    exact Except.ok.inj ((ofAtoms_of_derives hother hs).symm.trans h)

end Program

end PrefixScript
