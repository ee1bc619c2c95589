import PrefixScript.Proofs.Finiteness
import PrefixScript.Proofs.Number.Layouts
import PrefixScript.Proofs.Reports

namespace PrefixScript

/-! ## The text of a number -/

theorem Text.breakLines_eq_self {cs : List Char} (h : '\\' ∉ cs) : breakLines cs = cs := by
  have hgo : ∀ done, breakLines.go done cs = done.reverse ++ cs := by
    induction cs with
    | nil => simp [breakLines.go]
    | cons c cs ih =>
      rw [List.mem_cons, not_or] at h
      intro done
      have hstep : breakLines.go done (c :: cs) = breakLines.go (c :: done) cs := by
        rw [breakLines.go]
        rintro rest rfl -
        exact h.1 rfl
      rw [hstep, ih h.2]
      simp
  exact hgo []

namespace Value

theorem numbers_showsFraction : numbers.showsFraction = false := rfl

variable {x : Float} (hx : Number.Finite x)
include hx

theorem ofText?_write : Number.ofText? (numbers.write x) = some (numbers.reread x) :=
  Number.Layout.ofText?_write numbers_showsFraction hx

theorem isToken_write {rest : List Char} (hrest : EndsRun rest) :
    IsToken (numbers.write x).toList rest := by
  obtain ⟨c, cs, hcs, hrun, hc⟩ := Number.Layout.exists_cons_write numbers_showsFraction hx
  rw [hcs]
  refine .run hrun hrest ?_
  rintro rfl
  exact absurd (by simp) hc

theorem spells_write {rest : List Char} {ws : List Word} (hrest : EndsRun rest)
    (h : Spells rest ws) :
    Spells ((numbers.write x).toList ++ rest) (.number (numbers.reread x) :: ws) := by
  have htoken := Spells.token (isToken_write hx hrest) h
  rwa [String.ofList_toList, Number.Layout.ofText_write numbers_showsFraction hx] at htoken

theorem passes_write : Text.passes false (numbers.write x).toList = some false :=
  Text.passes_run fun _ hc => (Number.Layout.numeric_write numbers_showsFraction hx hc).1

theorem passes_write_fresh : Text.passes true (numbers.write x).toList = some false := by
  have hpasses := passes_write hx
  obtain ⟨c, cs, hcs, hrun, hc⟩ := Number.Layout.exists_cons_write numbers_showsFraction hx
  rw [hcs] at hpasses ⊢
  rwa [Text.passes_of_head (hrun c (by simp)) (by rintro rfl; simp at hc)]

theorem resume_print (store : Store) :
    Frame.print.resume store (.number x) = (.leave (.print (numbers.write x)), store) := by
  have hnone : '\\' ∉ (numbers.write x).toList := fun hc =>
    (Number.Layout.numeric_write numbers_showsFraction hx hc).2 (by simp)
  change (Move.leave (.print (String.ofList (Text.breakLines (numbers.write x).toList))), store) = _
  rw [Text.breakLines_eq_self hnone, String.ofList_toList]

theorem ofInput_write : ofInput (numbers.write x) = .number (numbers.reread x) := by
  simp [ofInput, ofText?_write hx]

theorem append_write (xs : Array Float) :
    Builtin.append.apply [.list xs, .text (numbers.write x)] =
      .ok (.list (xs.push (numbers.reread x))) := by
  simp [Builtin.apply, Builtin.arity, Arity.admits, Builtin.perform, Builtin.items,
    Builtin.appendable, ofText?_write hx]
  rfl

end Value

/-! ## The text of a list -/

namespace Value

theorem toList_shown_list (xs : Array Float) :
    (list xs).shown.toList =
      '[' :: ([' '].intercalate (xs.toList.map fun x => (numbers.write x).toList) ++ [']']) := by
  simp [shown, String.toList_intercalate, List.map_map, Function.comp_def]

theorem spells_intercalate {xs : List Float} (hxs : ∀ x ∈ xs, Number.Finite x) {rest : List Char}
    {ws : List Word} (hrun : EndsRun rest) (h : Spells rest ws) :
    Spells ([' '].intercalate (xs.map fun x => (numbers.write x).toList) ++ rest)
      (xs.map (fun x => .number (numbers.reread x)) ++ ws) := by
  induction xs with
  | nil => exact h
  | cons x xs ih =>
    rw [List.forall_mem_cons] at hxs
    cases xs with
    | nil => simpa using spells_write hxs.1 hrun h
    | cons y ys =>
      simpa using spells_write hxs.1 (.cons rfl _) (.blank rfl (ih hxs.2))

section ShownList

variable {xs : Array Float} (hxs : ∀ x ∈ xs, Number.Finite x)
include hxs

theorem spells_shown_list : Spells (list xs).shown.toList
    (.symbol "[" :: (xs.toList.map (fun x => .number (numbers.reread x)) ++ [.symbol "]"])) := by
  rw [toList_shown_list]
  exact .bracket (c := '[') rfl (spells_intercalate (fun x hx => hxs x (Array.mem_toList_iff.1 hx))
    (.cons rfl []) (.bracket (c := ']') rfl .nil))

theorem passes_shown_list : Text.passes true (list xs).shown.toList = some false := by
  have hopen : Text.pass true '[' = some false := rfl
  have hclose : Text.passes false [']'] = some false := rfl
  have hparts : ∀ part ∈ xs.toList.map fun x => (numbers.write x).toList,
      Text.passes false part = some false := by
    intro part hpart
    obtain ⟨x, hx, rfl⟩ := List.mem_map.1 hpart
    exact passes_write (hxs x (Array.mem_toList_iff.1 hx))
  rw [toList_shown_list, Text.passes_cons, hopen, Option.bind_some, Text.passes_append,
    passes_intercalate hparts, Option.bind_some, hclose]

end ShownList

end Value

/-! ## Reading -/

theorem Inner.leaves {as : List Atom} (h : ∀ a ∈ as, ¬ a.IsBracket) : Inner as (as.map .atom) := by
  induction as with
  | nil => exact .nil
  | cons a as ih =>
    rw [List.forall_mem_cons] at h
    exact .leaf h.1 (ih h.2)

namespace Program

theorem word_ofToken {text : String} {ws : List Word} (h : Spells text.toList ws)
    (hpasses : (Text.passes true text.toList).isSome) :
    ((Token.ofText text).map Atom.ofToken).map Atom.word = ws := by
  obtain ⟨ts, hlexes, hwords⟩ := h 1
  rw [← Text.withoutComments_eq_self hpasses] at hlexes
  rw [(Token.ofText_eq_iff _ _).2 hlexes, List.map_map]
  exact hwords

theorem ofAtoms_of_inner {as : List Atom} {e : Expr} (h : Inner as [e]) (hplain : e.Plain)
    (hdeep : 0 + e.nesting ≤ maxNesting) : ofAtoms as = .ok [e] :=
  ofAtoms_of_derives (h.derives (by simpa using hplain))
    (h.room (Nat.zero_le _) (by simpa using hdeep))

theorem ofAtoms_square {atoms : List Atom} {ws : List Word}
    (hws : ∀ w ∈ ws, ∀ line, ¬ Atom.IsBracket ⟨w, line⟩)
    (h : atoms.map Atom.word = .symbol "[" :: (ws ++ [.symbol "]"])) :
    ∃ (as : List Atom) (line : Nat), as.map Atom.word = ws ∧
      ofAtoms atoms = .ok [.list (.symbol "list" line :: as.map .atom) line] := by
  obtain ⟨a, rest, rfl, ha, hrest⟩ := List.map_eq_cons_iff.1 h
  obtain ⟨as, last, rfl, has, hlast⟩ := List.map_eq_append_iff.1 hrest
  obtain ⟨b, rfl, hb⟩ := List.map_eq_singleton_iff.1 hlast
  obtain ⟨word, m⟩ := a
  obtain ⟨word', n⟩ := b
  obtain rfl : word = .symbol "[" := ha
  obtain rfl : word' = .symbol "]" := hb
  have hleaves : ∀ a ∈ as, ¬ a.IsBracket := fun a hmem =>
    hws a.word (has ▸ List.mem_map_of_mem hmem) a.line
  refine ⟨as, m, has, ofAtoms_of_inner (.brackets (b := .square) (.leaves hleaves) .nil) ?_ ?_⟩
  · simp [Expr.Plain, Expr.symbol?]
  · have hdepth : ∀ e ∈ Expr.symbol "list" m :: as.map Expr.atom, e.nesting = 0 := by
      simp [Expr.symbol]
    refine Expr.nesting_list_le_iff.2 ⟨by decide, fun e he => ?_⟩
    rw [hdepth e he]
    decide

theorem not_isBracket_number (x : Float) (line : Nat) : ¬ Atom.IsBracket ⟨.number x, line⟩ := by
  simp [Atom.IsBracket, Atom.symbol?]

theorem ofSource_shown_number {x : Float} (hx : Number.Finite x) :
    ∃ line, ofSource (.ofText (Value.number x).shown) =
      .ok [.atom ⟨.number (Value.numbers.reread x), line⟩] := by
  have hspells : Spells (Value.number x).shown.toList [.number (Value.numbers.reread x)] := by
    have hword := Value.spells_write hx .nil .nil
    rwa [List.append_nil] at hword
  have hpasses : Text.passes true (Value.number x).shown.toList = some false :=
    Value.passes_write_fresh hx
  have hwords := word_ofToken hspells (by rw [hpasses]; rfl)
  obtain ⟨⟨word, line⟩, hatoms, ha⟩ := List.map_eq_singleton_iff.1 hwords
  obtain rfl : word = .number _ := ha
  refine ⟨line, (ofSource_eq_ok_iff _).2 ?_⟩
  rw [Source.ofText, hatoms]
  refine ofAtoms_of_inner (.leaf (not_isBracket_number _ line) .nil) ?_ (Nat.zero_le _)
  simp [Expr.Plain, Expr.symbol?, Atom.symbol?]

theorem ofSource_shown_list {xs : Array Float} (hxs : ∀ x ∈ xs, Number.Finite x) :
    ∃ (as : List Atom) (line : Nat),
      as.map Atom.word = xs.toList.map (fun x => .number (Value.numbers.reread x)) ∧
        ofSource (.ofText (Value.list xs).shown) =
          .ok [.list (.symbol "list" line :: as.map .atom) line] := by
  have hwords := word_ofToken (Value.spells_shown_list hxs) (by rw [Value.passes_shown_list hxs]; rfl)
  obtain ⟨as, line, has, hread⟩ := ofAtoms_square (fun w hw line => by
    obtain ⟨x, -, rfl⟩ := List.mem_map.1 hw
    exact not_isBracket_number _ line) hwords
  exact ⟨as, line, has, (ofSource_eq_ok_iff _).2 hread⟩

end Program

/-! ## Running -/

namespace Machine

section Listing

variable (store : Store) (console : Console) (limit : Nat) (scope : ScopeId) (line : Nat)

/-- A machine that does nothing but call `list`, with the numbers `xs` already read off and the atoms
`as` still to come. -/
def listing (xs : List Float) (as : List Atom) : Machine :=
  let call := Frame.call store (.builtin .list) (xs.reverse.map .number) (as.map .atom) line scope
  go call.2 console 0 limit [] call.1

variable {limit}

theorem step_listing_nil (xs : List Float) :
    (listing store console limit scope line xs []).step =
      ⟨store, console, 0, limit, .deliver (.list xs.toArray), []⟩ := by
  have happly : Value.apply store (.builtin .list) (xs.reverse.map Value.number).reverse line =
      (.deliver (.list xs.toArray), store) := by
    rw [← List.map_reverse, List.reverse_reverse]
    simp [Value.apply, Builtin.apply, Builtin.arity, Arity.admits, Builtin.perform,
      Builtin.collect_numbers]
  simp only [listing, List.map_nil, Frame.call, happly]
  rfl

theorem step_listing_cons (h : 2 ≤ limit) {a : Atom} {y : Float} (ha : a.word = .number y)
    (xs : List Float) (as : List Atom) :
    (listing store console limit scope line xs (a :: as)).step.step =
      listing store console limit scope line (xs ++ [y]) as := by
  obtain ⟨word, m⟩ := a
  obtain rfl : word = .number y := ha
  have hfree : ¬ limit ≤ 1 := by omega
  simp [listing, Frame.call, go, step, hfree, Expr.enter, Frame.resume]

theorem exists_run_listing (h : 2 ≤ limit) {as : List Atom} {ys : List Float}
    (has : as.map Atom.word = ys.map .number) (xs : List Float) :
    ∃ n, (listing store console limit scope line xs as).run n =
      ⟨store, console, 0, limit, .deliver (.list (xs ++ ys).toArray), []⟩ := by
  induction ys generalizing as xs with
  | nil =>
    obtain rfl := List.map_eq_nil_iff.1 has
    exact ⟨1, by rw [run_succ, step_listing_nil, List.append_nil]; rfl⟩
  | cons y ys ih =>
    obtain ⟨a, as, rfl, ha, has⟩ := List.map_eq_cons_iff.1 has
    obtain ⟨n, hn⟩ := ih has (xs ++ [y])
    rw [List.append_assoc, List.singleton_append] at hn
    exact ⟨n + 2, by rw [run_succ, run_succ, step_listing_cons store console scope line h ha, hn]⟩

theorem step_evaluate_list (h : 2 ≤ limit) (hlist : store.get? scope "list" = none)
    (as : List Atom) :
    (Machine.mk store console 0 limit
        (.evaluate (.list (.symbol "list" line :: as.map .atom) line) scope) []).step.step.step =
      listing store console limit scope line [] as := by
  have hfree : ¬ limit ≤ 0 := by omega
  have hfree' : ¬ limit ≤ 1 := by omega
  have hform : Form.ofName? "list" = none := rfl
  have hbuiltin : Builtin.ofName? "list" = some .list := rfl
  simp [listing, step, hfree, hfree', Expr.enter, Expr.symbol, Expr.symbol?, Atom.symbol?, hform, go,
    Expr.lookUp, hlist, hbuiltin, Frame.resume]

end Listing

end Machine

/-! ## Results -/

def Value.reread : Value → Value
  | .number x => .number (numbers.reread x)
  | .list xs => .list (xs.map numbers.reread)
  | v => v

theorem Value.reread_equal {v : Value} (h : v.Finite) (hkind : v.kind = .number ∨ v.kind = .list) :
    v.reread.equal v = true := by
  cases v with
  | number x => exact Number.Layout.reread_beq (Number.finite_of_isFinite h)
  | list xs =>
    have hall : ∀ (i : Nat) (hi : i < xs.size), (numbers.reread xs[i] == xs[i]) = true :=
      fun i hi => Number.Layout.reread_beq (Number.finite_of_isFinite (h _ (Array.getElem_mem hi)))
    simpa [reread, equal, Array.beq_eq_decide] using hall
  | null | text | closure | builtin => rcases hkind with h | h <;> contradiction

namespace Session

theorem runSource_of_outcome {s : Session} {source : Source} {e : Expr} {v : Value} {n : Nat}
    (hread : Program.ofSource source = .ok [e])
    (hrun : ((s.start (.evaluate e s.globals)).run n).outcome = .value v) :
    (s.runSourceWithin n source).1 = .value v := by
  have hvalue := (s.proceedWithin_eq n (.evaluate e s.globals)).trans (congrArg (·, _) hrun)
  rw [runSourceWithin_of_ok hread, runProgramWithin, runAll_of_value hvalue]
  rfl

theorem get?_new (console : Console) (limit : Nat) (name : String) :
    (Session.new console limit).store.get? (Session.new console limit).globals name = none := by
  rw [Store.get?_eq, bindings_new]
  rfl

theorem exists_runSource_shown {v : Value} (hv : v.Finite)
    (hkind : v.kind = .number ∨ v.kind = .list) (console : Console) {limit : Nat}
    (hlimit : 2 ≤ limit) :
    ∃ steps, ((Session.new console limit).runSourceWithin steps (.ofText v.shown)).1 =
      .value v.reread := by
  cases v with
  | number x =>
    obtain ⟨line, hread⟩ := Program.ofSource_shown_number (Number.finite_of_isFinite hv)
    have hfree : ¬ limit ≤ 0 := by omega
    refine ⟨1, runSource_of_outcome hread ?_⟩
    rw [Machine.run_succ]
    simp [start, new, Machine.step, hfree, Expr.enter, Machine.go, Machine.run, Machine.outcome,
      Value.reread]
  | list xs =>
    obtain ⟨as, m, has, hread⟩ :=
      Program.ofSource_shown_list fun x hx => Number.finite_of_isFinite (hv x hx)
    set s := Session.new console limit
    have hwords : as.map Atom.word = (xs.toList.map Value.numbers.reread).map Word.number := by
      rw [List.map_map]
      exact has
    obtain ⟨n, hn⟩ := Machine.exists_run_listing s.store console s.globals m hlimit hwords []
    refine ⟨n + 3, runSource_of_outcome hread ?_⟩
    have hstart : s.start (.evaluate (.list (.symbol "list" m :: as.map .atom) m) s.globals) =
      ⟨s.store, console, 0, limit, _, []⟩ := rfl
    rw [Machine.run_succ, Machine.run_succ, Machine.run_succ, hstart,
      Machine.step_evaluate_list s.store console s.globals m hlimit (get?_new console limit "list"),
      hn]
    simp [Machine.outcome, Value.reread, ← Array.toList_map]
  | null | text | closure | builtin => rcases hkind with h | h <;> contradiction

/-- What is printed for a finite number is read as this number, by the reader of numbers, as a line
of input and by `append`; zero comes back without its sign. What is printed for a finite number or a
list of finite numbers is a program that gives an equal value. -/
theorem printed_reads_back :
    (∀ x : Float, x.isFinite = true →
      ∃ y : Float, y = (if x == 0 then 0 else x) ∧ (y == x) = true ∧
        Number.ofText? (Value.number x).shown = some y ∧
        (∀ store, Frame.print.resume store (.number x) =
          (.leave (.print (Value.number x).shown), store)) ∧
        Value.ofInput (Value.number x).shown = .number y ∧
        ∀ xs, Builtin.append.apply [.list xs, .text (Value.number x).shown] =
          .ok (.list (xs.push y))) ∧
    ∀ v : Value, v.Finite → v.kind = .number ∨ v.kind = .list →
      ∀ (console : Console) (limit : Nat), 2 ≤ limit →
        ∃ steps w, ((Session.new console limit).runSourceWithin steps (.ofText v.shown)).1 =
          .value w ∧ w.equal v = true := by
  constructor
  · intro x hfinite
    have hx := Number.finite_of_isFinite hfinite
    have hreread : Value.numbers.reread x = if x == 0 then 0 else x := by
      simp [Number.Layout.reread, Value.numbers]
    exact ⟨Value.numbers.reread x, hreread, Number.Layout.reread_beq hx, Value.ofText?_write hx,
      Value.resume_print hx, Value.ofInput_write hx, Value.append_write hx⟩
  · intro v hv hkind console limit hlimit
    obtain ⟨steps, hrun⟩ := exists_runSource_shown hv hkind console hlimit
    exact ⟨steps, v.reread, hrun, Value.reread_equal hv hkind⟩

theorem printed_reads_back_far_from_one :
    (Value.list #[-0.0, 1e21, -2.5e-7]).shown = "[0 1e+21 -2.5e-7]" ∧
      (∃ y : Float, y = -2.5e-7 ∧ Number.ofText? "-2.5e-7" = some y) ∧
        ∃ steps w, ((Session.new (.scripted []) 2).runSourceWithin steps
          (.ofText "[0 1e+21 -2.5e-7]")).1 = .value w ∧
            w.equal (.list #[-0.0, 1e21, -2.5e-7]) = true := by
  have hshown : (Value.list #[-0.0, 1e21, -2.5e-7]).shown = "[0 1e+21 -2.5e-7]" := by
    decide +kernel
  have hnumber : (Value.number (-2.5e-7)).shown = "-2.5e-7" := by decide +kernel
  obtain ⟨y, hy, -, hread, -⟩ := printed_reads_back.1 (-2.5e-7) rfl
  have hfinite : (Value.list #[-0.0, 1e21, -2.5e-7]).Finite := by
    simp only [Value.Finite]
    decide +kernel
  have hrun := printed_reads_back.2 _ hfinite (.inr rfl) (.scripted []) 2 (Nat.le_refl 2)
  rw [hshown] at hrun
  rw [hnumber] at hread
  exact ⟨hshown, ⟨y, hy, hread⟩, hrun⟩

end Session

end PrefixScript
