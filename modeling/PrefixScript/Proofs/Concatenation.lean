import PrefixScript.Proofs.Decomposition
import PrefixScript.Proofs.Relabelling
import PrefixScript.Proofs.Reports

namespace PrefixScript

def Atom.mapLines (φ : Nat → Nat) (a : Atom) : Atom :=
  { a with line := φ a.line }

def OpenList.mapLines (φ : Nat → Nat) (o : OpenList) : OpenList :=
  ⟨o.bracket, φ o.line, o.items.map (·.mapLines φ)⟩

def Statement.mapLines (φ : Nat → Nat) (s : Statement) : Statement :=
  { s with line := φ s.line, operands := s.operands.map (·.mapLines φ) }

def ReadFault.mapLines (φ : Nat → Nat) : ReadFault → ReadFault
  | .unexpected found line => .unexpected found (φ line)
  | .unclosed bracket line => .unclosed bracket (φ line)
  | .mismatched bracket openedAt found line => .mismatched bracket (φ openedAt) found (φ line)
  | .incomplete name arity found line => .incomplete name arity found (φ line)
  | .tooDeep line => .tooDeep (φ line)

section Atoms

variable (φ : Nat → Nat)

@[simp] theorem ReadFault.code_mapLines (f : ReadFault) : (f.mapLines φ).code = f.code := by
  cases f <;> rfl

@[simp] theorem ReadFault.line_mapLines (f : ReadFault) : (f.mapLines φ).line = φ f.line := by
  cases f <;> rfl

theorem OpenList.close_mapLines (o : OpenList) :
    (o.mapLines φ).close = o.close.mapLines φ := by
  obtain ⟨bracket, line, items⟩ := o
  cases bracket with
  | round => simp [close, mapLines]
  | square =>
    simp only [close, mapLines, Expr.mapLines_list, List.map_cons, List.map_reverse]
    rfl

theorem Statement.close_mapLines (s : Statement) :
    (s.mapLines φ).close = s.close.mapLines φ := by
  simp only [close, mapLines, Expr.mapLines_list, List.map_cons, List.map_reverse]
  rfl

namespace Reader

/-- The reader that has read the same on other lines, behind expressions that were finished
before. -/
def behind (φ : Nat → Nat) (done : List Expr) (r : Reader) : Reader :=
  ⟨r.finished.map (·.mapLines φ) ++ done, r.statement.map (·.mapLines φ),
    r.opened.map (·.mapLines φ)⟩

variable (done : List Expr) (r : Reader)

theorem putStatement_behind (s : Statement) :
    (r.behind φ done).putStatement (s.mapLines φ) = (r.putStatement s).behind φ done := by
  have hfull : (s.mapLines φ).operands.length = (s.mapLines φ).arity ↔
      s.operands.length = s.arity := by
    rw [Statement.mapLines, List.length_map]
  by_cases h : s.operands.length = s.arity
  · rw [putStatement, putStatement, if_pos h, if_pos (hfull.2 h), Statement.close_mapLines]
    rfl
  · rw [putStatement, putStatement, if_neg h, if_neg (mt hfull.1 h)]
    rfl

theorem put_behind (e : Expr) :
    (r.behind φ done).put (e.mapLines φ) = (r.put e).behind φ done := by
  obtain ⟨finished, statement, opened⟩ := r
  cases opened with
  | cons o outer => rfl
  | nil =>
    cases statement with
    | none => rfl
    | some s =>
      exact putStatement_behind φ done ⟨finished, some s, []⟩ { s with operands := e :: s.operands }

theorem statementHere?_behind (a : Atom) :
    (r.behind φ done).statementHere? (a.mapLines φ) = r.statementHere? a := by
  obtain ⟨finished, statement, opened⟩ := r
  cases opened <;> cases statement <;> rfl

theorem step_behind (a : Atom) :
    (r.behind φ done).step (a.mapLines φ) =
      ((r.step a).mapError (·.mapLines φ)).map (·.behind φ done) := by
  have hrole : (a.mapLines φ).role = a.role := rfl
  rw [step, step, hrole]
  cases a.role with
  | opens b =>
    have hlength : (r.behind φ done).opened.length = r.opened.length := List.length_map ..
    simp only [hlength]
    split <;> rfl
  | closes b =>
    obtain ⟨finished, statement, opened⟩ := r
    cases opened with
    | nil => rfl
    | cons o outer =>
      change (if o.bracket = b then
          Except.ok ((behind φ done ⟨finished, statement, outer⟩).put (o.mapLines φ).close)
        else Except.error (ReadFault.mismatched o.bracket (φ o.line) b (φ a.line))) = _
      -- whether the brackets match does not depend on where they stand
      rw [OpenList.close_mapLines, put_behind]
      dsimp only
      split <;> rfl
  | leaf =>
    simp only [statementHere?_behind]
    cases r.statementHere? a with
    | none => exact congrArg Except.ok (put_behind φ done r (.atom a))
    | some s =>
      exact congrArg Except.ok (putStatement_behind φ done r ⟨s.1, a.line, s.2, []⟩)

theorem steps_behind (as : List Atom) :
    (r.behind φ done).steps (as.map (·.mapLines φ)) =
      ((r.steps as).mapError (·.mapLines φ)).map (·.behind φ done) := by
  induction as generalizing r with
  | nil => rfl
  | cons a as ih =>
    rw [List.map_cons, steps_cons, steps_cons, step_behind]
    cases r.step a with
    | error f => rfl
    | ok r => exact ih r

theorem finish_behind :
    (r.behind φ done).finish =
      (r.finish.mapError (·.mapLines φ)).map fun program =>
        done.reverse ++ program.map (·.mapLines φ) := by
  obtain ⟨finished, statement, opened⟩ := r
  cases opened with
  | cons o outer => rfl
  | nil =>
    cases statement with
    | some s =>
      have hcount : (s.mapLines φ).operands.length = s.operands.length := List.length_map ..
      change Except.error (ReadFault.incomplete s.name s.arity (s.mapLines φ).operands.length
        (φ s.line)) = _
      rw [hcount]
      rfl
    | none => simp [finish, behind, Except.mapError, Except.map]

end Reader

end Atoms

theorem Program.ofAtoms_append {as : List Atom} {program : List Expr}
    (h : ofAtoms as = .ok program) (φ : Nat → Nat) (bs : List Atom) :
    ofAtoms (as ++ bs.map (·.mapLines φ)) =
      ((ofAtoms bs).mapError (·.mapLines φ)).map fun later =>
        program ++ later.map (·.mapLines φ) := by
  -- what is read of a program leaves nothing behind but its expressions
  obtain ⟨hderives, hshallow⟩ := derives_of_ofAtoms h
  have hfirst : Reader.start.steps as = .ok (Reader.start.behind φ program.reverse) := by
    rw [Reader.steps_derives hderives .start rfl rfl hshallow]
    simp [Reader.behind, Reader.start]
  have hwhole := Reader.steps_behind φ program.reverse .start bs
  rw [ofAtoms, Reader.steps_append, hfirst, ofAtoms]
  change (Reader.steps _ _ >>= Reader.finish) = _
  rw [hwhole]
  cases Reader.start.steps bs with
  | error f => rfl
  | ok r =>
    have hfinish := Reader.finish_behind φ program.reverse r
    rw [List.reverse_reverse] at hfinish
    exact hfinish

namespace Token

def shift (k : Nat) (t : Token) : Token :=
  { t with line := (k + t.line) % UInt32.size }

def Unclosed (t : Token) : Prop :=
  t.StartsWithQuote ∧ ¬ t.IsText

end Token

namespace Text

theorem toList_joined (first second : String) :
    (first ++ "\n" ++ second).toList = first.toList ++ '\n' :: second.toList := by
  simp

end Text

theorem Lexes.shift {line : Nat} {cs : List Char} {ts : List Token} (h : Lexes line cs ts)
    (k : Nat) : Lexes (k + line) cs (ts.map (·.shift k)) := by
  induction h with
  | nil => exact .nil
  | blank hc _ ih => exact .blank hc (by rwa [Nat.add_assoc])
  | @token line t _ ts ht _ ih =>
    rw [← Nat.add_assoc] at ih
    have htoken := Lexes.token ht ih
    rwa [← Nat.add_mod_mod] at htoken

/-- A newline ends every token but a quote that is not closed. -/
theorem IsToken.append_newline {t rest : List Char} (h : IsToken t rest) {line : Nat}
    (hclosed : ¬ Token.Unclosed ⟨String.ofList t, line⟩) (bs : List Char) :
    IsToken t (rest ++ '\n' :: bs) := by
  cases h with
  | text hinner => exact .text hinner
  | bracket hc => exact .bracket hc
  | @run c cs _ hrun hend hquote =>
    -- a run that starts with a quote is not closed by one of its own characters either
    have hc : c ≠ '"' := by
      rintro rfl
      refine hclosed ⟨by simp [Token.StartsWithQuote], ?_⟩
      rintro ⟨inner, -, htext⟩
      have hcs : cs = inner ++ ['"'] := by simpa using htext
      exact hquote rfl (by simp [hcs])
    refine .run hrun (fun d hd => ?_) fun hquoted => absurd hquoted hc
    cases rest with
    | nil =>
      obtain rfl : '\n' = d := by simpa using hd
      decide
    | cons => exact hend d hd

theorem Lexes.append {line : Nat} {as bs : List Char} {ts us : List Token} (h : Lexes line as ts)
    (hclosed : ∀ t ∈ ts, ¬ t.Unclosed) (hbs : Lexes (line + Text.newlines as + 1) bs us) :
    Lexes line (as ++ '\n' :: bs) (ts ++ us) := by
  induction h with
  | nil => exact .blank rfl hbs
  | @blank line c cs _ hc _ ih =>
    refine .blank hc (ih hclosed ?_)
    rwa [Nat.add_assoc line, ← Text.newlines_append]
  | @token line t rest _ ht _ ih =>
    rw [List.forall_mem_cons] at hclosed
    rw [List.append_assoc]
    refine .token (ht.append_newline hclosed.1 bs) (ih hclosed.2 ?_)
    rwa [Nat.add_assoc line, ← Text.newlines_append]

theorem Token.ofText_append {first : String} (h : ∀ t ∈ ofText first, ¬ t.Unclosed)
    (second : String) :
    ofText (first ++ "\n" ++ second) =
      ofText first ++ (ofText second).map (·.shift (Text.newlines first.toList + 1)) := by
  have hfirst := (ofText_eq_iff first _).1 rfl
  have hsecond := ((ofText_eq_iff second _).1 rfl).shift (Text.newlines first.toList + 1)
  rw [ofText_eq_iff, Text.toList_joined, Text.withoutComments_append]
  refine hfirst.append h ?_
  rwa [Text.newlines_withoutComments, Nat.add_comm 1]

theorem Source.line?_append (first second : String) {n : Nat} (h : 0 < n) :
    (ofText (first ++ "\n" ++ second)).line? (Text.newlines first.toList + 1 + n) =
      (ofText second).line? n := by
  obtain ⟨m, rfl⟩ := Nat.exists_eq_add_one.2 h
  rw [← Nat.add_assoc, line?_succ, line?_succ, ofText, ofText, Text.toList_joined,
    Text.pieces_append, ← Text.length_pieces, List.getElem?_append_right (Nat.le_add_right ..),
    Nat.add_sub_cancel_left]

namespace Program

def atoms (text : String) : List Atom :=
  (Token.ofText text).map .ofToken

section Append

variable {first second : String} {program : List Expr}
  (hcount : (Text.newlines first.toList + 1) + (Text.newlines second.toList + 1) < UInt32.size - 1)
include hcount

theorem atoms_append (h : ∀ t ∈ Token.ofText first, ¬ t.Unclosed) :
    atoms (first ++ "\n" ++ second) =
      atoms first ++
        (atoms second).map (·.mapLines (Text.newlines first.toList + 1 + ·)) := by
  have hshift : ∀ t ∈ Token.ofText second,
      Atom.ofToken (t.shift (Text.newlines first.toList + 1)) =
        (Atom.ofToken t).mapLines (Text.newlines first.toList + 1 + ·) := by
    intro t ht
    have hle := (Token.StartsOn.bounds (by omega) ⟨t, ht, rfl⟩).2
    have hlt : Text.newlines first.toList + 1 + t.line < UInt32.size := by omega
    rw [Token.shift, Nat.mod_eq_of_lt hlt]
    rfl
  rw [atoms, Token.ofText_append h, List.map_append, atoms, atoms, List.map_map, List.map_map]
  exact congrArg (_ ++ ·) (List.map_congr_left hshift)

theorem ofSource_append_ok (h : ofSource (.ofText first) = .ok program)
    (hclosed : ∀ t ∈ Token.ofText first, ¬ t.Unclosed) {later : List Expr}
    (hlater : ofSource (.ofText second) = .ok later) :
    ofSource (.ofText (first ++ "\n" ++ second)) =
      .ok (program ++ later.map (·.mapLines (Text.newlines first.toList + 1 + ·))) := by
  have hfirst : ofAtoms (atoms first) = .ok program := (ofSource_eq_ok_iff (.ofText first)).1 h
  have hsecond : ofAtoms (atoms second) = .ok later := (ofSource_eq_ok_iff (.ofText second)).1 hlater
  have hwhole : ofAtoms (atoms (first ++ "\n" ++ second)) =
      .ok (program ++ later.map (·.mapLines (Text.newlines first.toList + 1 + ·))) := by
    rw [atoms_append hcount hclosed, ofAtoms_append hfirst, hsecond]
    rfl
  exact (ofSource_eq_ok_iff _).2 hwhole

theorem ofSource_append_error (h : ofSource (.ofText first) = .ok program)
    (hclosed : ∀ t ∈ Token.ofText first, ¬ t.Unclosed) {report : Report}
    (hreport : ofSource (.ofText second) = .error report) :
    ∃ report', ofSource (.ofText (first ++ "\n" ++ second)) = .error report' ∧
      report'.code = report.code ∧
      report'.line = report.line.map (Text.newlines first.toList + 1 + ·) ∧
      report'.sourceLine = report.sourceLine := by
  have hfirst : ofAtoms (atoms first) = .ok program := (ofSource_eq_ok_iff (.ofText first)).1 h
  obtain ⟨fault, hsecond, rfl⟩ : ∃ fault, ofAtoms (atoms second) = .error fault ∧
      (Source.ofText second).annotate fault.report = report :=
    (ofSource_eq_error_iff (.ofText second)).1 hreport
  have hpos : 0 < fault.line := ((startsOn_of_ofAtoms hsecond).bounds (by omega)).1
  have hwhole : ofAtoms (atoms (first ++ "\n" ++ second)) =
      .error (fault.mapLines (Text.newlines first.toList + 1 + ·)) := by
    rw [atoms_append hcount hclosed, ofAtoms_append hfirst, hsecond]
    rfl
  refine ⟨_, (ofSource_eq_error_iff _).2 ⟨_, hwhole, rfl⟩, fault.code_mapLines _,
    congrArg some (fault.line_mapLines _), ?_⟩
  rw [Source.annotate_of_line _ rfl rfl, Source.annotate_of_line _ rfl rfl, ReadFault.line_mapLines]
  exact Source.line?_append first second hpos

/-- A text behind a program that leaves no quote open, on lines of its own, is a program exactly if
it is one alone. Then its expressions follow those of the first program, their lines counted on; and
otherwise it fails as it does alone, on its line counted on. -/
theorem ofSource_append (h : ofSource (.ofText first) = .ok program)
    (hclosed : ∀ t ∈ Token.ofText first, ¬ t.Unclosed) :
    let lines := Text.newlines first.toList + 1
    let whole := ofSource (.ofText (first ++ "\n" ++ second))
    ((∃ p, whole = .ok p) ↔ ∃ later, ofSource (.ofText second) = .ok later) ∧
      (∀ later, ofSource (.ofText second) = .ok later →
        whole = .ok (program ++ later.map (·.mapLines (lines + ·)))) ∧
      ∀ report, ofSource (.ofText second) = .error report →
        ∃ report', whole = .error report' ∧ report'.code = report.code ∧
          report'.line = report.line.map (lines + ·) ∧ report'.sourceLine = report.sourceLine := by
  refine ⟨⟨fun ⟨p, hp⟩ => ?_, fun ⟨later, hlater⟩ => ⟨_, ofSource_append_ok hcount h hclosed hlater⟩⟩,
    fun later => ofSource_append_ok hcount h hclosed,
    fun report => ofSource_append_error hcount h hclosed⟩
  cases hsecond : ofSource (.ofText second) with
  | ok later => exact ⟨later, rfl⟩
  | error report =>
    obtain ⟨report', hwhole, -⟩ := ofSource_append_error hcount h hclosed hsecond
    exact absurd (hp.symm.trans hwhole) nofun

end Append

theorem ofSource_append_brackets :
    let first := "set a \"(\"\n# )"
    ofSource (.ofText (first ++ "\n" ++ "print a")) =
        .ok [.list [.symbol "set" 1, .symbol "a" 1, .atom ⟨.text "(", 1⟩] 1,
          .list [.symbol "print" 3, .symbol "a" 3] 3] ∧
      ∃ report, ofSource (.ofText (first ++ "\n" ++ "print (a")) = .error report ∧
        report.code = 101 ∧ report.line = some 3 ∧ report.sourceLine = some "print (a" := by
  intro first
  have hfirst : ofSource (.ofText first) =
      .ok [.list [.symbol "set" 1, .symbol "a" 1, .atom ⟨.text "(", 1⟩] 1] := by
    decide +kernel
  have htokens : Token.ofText first = [⟨"set", 1⟩, ⟨"a", 1⟩, ⟨"\"(\"", 1⟩] := by decide +kernel
  have hclosed : ∀ t ∈ Token.ofText first, ¬ t.Unclosed := by
    rw [htokens, List.forall_mem_cons, List.forall_mem_cons, List.forall_mem_singleton]
    refine ⟨?_, ?_, fun h => h.2 ⟨['('], by decide, by decide⟩⟩ <;>
      simp [Token.Unclosed, Token.StartsWithQuote]
  have hlater : ofSource (.ofText "print a") =
      .ok [.list [.symbol "print" 1, .symbol "a" 1] 1] := by
    decide +kernel
  have hreport : ofSource (.ofText "print (a") =
      .error ⟨101, "unclosed '('", some 1, some "print (a"⟩ := by
    decide +kernel
  have hlines : Text.newlines first.toList + 1 = 2 := by decide
  have hok := (ofSource_append (by decide +kernel) hfirst hclosed).2.1 _ hlater
  have herror := (ofSource_append (by decide +kernel) hfirst hclosed).2.2 _ hreport
  rw [hlines] at hok herror
  exact ⟨hok, herror⟩

end Program

end PrefixScript
