import PrefixScript.Proofs.Finiteness
import PrefixScript.Proofs.Relabelling
import PrefixScript.Proofs.Reports

/-!
# Where failing expressions come from

A closure outlives the run of its source, and expressions have lines but no sources. To tell the
sources of a session apart they are run with marked lines: a mark holds the number of the source and
the line. Nothing but the faults looks at lines, so the run with marks is the run without them, and
the mark of its fault tells where the failing expression was read.
-/

namespace PrefixScript

structure Origin where
  source : Nat
  line : Nat
  deriving DecidableEq

namespace Origin

/-- The number that stands for a line of the `k`-th of `n` sources. -/
def mark (n k line : Nat) : Nat :=
  line * n + k

def ofMark (n mark : Nat) : Origin :=
  ⟨mark % n, mark / n⟩

theorem ofMark_mark {n k : Nat} (h : k < n) (line : Nat) :
    ofMark n (mark n k line) = ⟨k, line⟩ := by
  have hpos := Nat.zero_lt_of_lt h
  rw [ofMark, mark, Nat.mul_comm, Nat.mul_add_mod, Nat.mod_eq_of_lt h, Nat.mul_add_div hpos,
    Nat.div_eq_of_lt h, Nat.add_zero]

end Origin

def Source.marked (n k : Nat) (source : Source) : List Expr :=
  match Program.ofSource source with
  | .ok program => program.map (·.mapLines (Origin.mark n k))
  | .error _ => []

theorem Source.marked_of_ok {source : Source} {program : List Expr}
    (h : Program.ofSource source = .ok program) (n k : Nat) :
    source.marked n k = program.map (·.mapLines (Origin.mark n k)) := by
  rw [marked, h]

theorem Source.marked_of_error {source : Source} {report : Report}
    (h : Program.ofSource source = .error report) (n k : Nat) : source.marked n k = [] := by
  rw [marked, h]

def Origin.unmark (n : Nat) : Nat → Nat :=
  fun mark => (ofMark n mark).line

theorem Expr.mapLines_unmark {n k : Nat} (h : k < n) (e : Expr) :
    (e.mapLines (Origin.mark n k)).mapLines (Origin.unmark n) = e := by
  have hid : Origin.unmark n ∘ Origin.mark n k = id := by
    funext line
    simp [Origin.unmark, Origin.ofMark_mark h]
  rw [mapLines_mapLines, hid, mapLines_id]

namespace Session

def runMarked (n k : Nat) (s : Session) : List (Nat × Source) → Session
  | [] => s
  | (steps, source) :: rest =>
    runMarked n (k + 1) (s.runProgramWithin steps (source.marked n k)).2 rest

/-- Where the failing expression was read when a source fails after others: on the line that the
reader reports or, when the program fails, where the mark of the fault tells. -/
def origin? (console : Console) (limit : Nat) (earlier : List (Nat × Source)) (steps : Nat)
    (source : Source) : Option Origin :=
  let n := earlier.length + 1
  match Program.ofSource source with
  | .error report => report.line.map fun line => ⟨earlier.length, line⟩
  | .ok _ =>
    let s := (Session.new console limit).runMarked n 0 earlier
    let r := s.runProgramWithin steps (source.marked n earlier.length)
    r.1.error?.map fun f => Origin.ofMark n f.line

theorem mapLines_new (φ : Nat → Nat) (console : Console) (limit : Nat) :
    (Session.new console limit).mapLines φ = Session.new console limit := by
  simp [Session.mapLines, Session.new, Store.mapLines, Store.newScope, Store.empty, Scope.mapLines]

variable {n k : Nat} {s : Session} {steps : Nat} {source : Source}

theorem runProgram_unmark {program : List Expr} (h : Program.ofSource source = .ok program)
    (hk : k < n) :
    (s.mapLines (Origin.unmark n)).runProgramWithin steps program =
      ((s.runProgramWithin steps (source.marked n k)).1.mapLines (Origin.unmark n),
        (s.runProgramWithin steps (source.marked n k)).2.mapLines (Origin.unmark n)) := by
  have hprogram : (source.marked n k).map (·.mapLines (Origin.unmark n)) = program := by
    rw [Source.marked_of_ok h, List.map_map]
    exact (List.map_congr_left fun e _ => e.mapLines_unmark hk).trans (List.map_id' program)
  have hrun := runAllWithin_mapLines (Origin.unmark n) s steps .null (source.marked n k)
  rwa [hprogram] at hrun

theorem runMarked_unmark (earlier : List (Nat × Source)) (hk : k + earlier.length ≤ n) :
    (s.runMarked n k earlier).mapLines (Origin.unmark n) =
      (s.mapLines (Origin.unmark n)).runSources earlier := by
  induction earlier generalizing s k with
  | nil => rfl
  | cons first rest ih =>
    obtain ⟨steps, source⟩ := first
    rw [List.length_cons] at hk
    rw [runMarked, ih (by omega)]
    show runSources _ rest = runSources ((s.mapLines _).runSourceWithin steps source).2 rest
    congr 1
    cases hprogram : Program.ofSource source with
    | error report =>
      rw [Source.marked_of_error hprogram, runSourceWithin_of_error hprogram]
      rfl
    | ok program =>
      have hfirst : k < n := by omega
      rw [runSourceWithin_of_ok hprogram, runProgram_unmark hprogram hfirst]
      rfl

end Session

def Origin.Marks (sources : List Source) (mark : Nat) : Prop :=
  let o := ofMark sources.length mark
  ∃ source, sources[o.source]? = some source ∧ Token.StartsOn source.text o.line

theorem Source.marks_of_mem_lines {sources : List Source} {source : Source} {k : Nat}
    (h : sources[k]? = some source) :
    ∀ e ∈ source.marked sources.length k, ∀ l ∈ e.lines, Origin.Marks sources l := by
  obtain ⟨hk, -⟩ := List.getElem?_eq_some_iff.1 h
  cases hprogram : Program.ofSource source with
  | error report => simp [marked_of_error hprogram]
  | ok program =>
    rw [marked_of_ok hprogram]
    intro e' he' l hl
    obtain ⟨e, he, rfl⟩ := List.mem_map.1 he'
    rw [Expr.lines_mapLines] at hl
    obtain ⟨line, hline, rfl⟩ := List.mem_map.1 hl
    refine ⟨source, ?_, ?_⟩
    · rwa [Origin.ofMark_mark hk]
    · rw [Origin.ofMark_mark hk]
      exact Program.lines_ofSource hprogram e he line hline

namespace Session

theorem on_runMarked {sources : List Source} {k : Nat} {s : Session} {later : List Source}
    (earlier : List (Nat × Source)) (hs : s.store.Obeys (.on (Origin.Marks sources)))
    (h : sources.drop k = earlier.map (·.2) ++ later) :
    (s.runMarked sources.length k earlier).store.Obeys (.on (Origin.Marks sources)) := by
  induction earlier generalizing s k with
  | nil => exact hs
  | cons first rest ih =>
    obtain ⟨steps, source⟩ := first
    have hsource : sources[k]? = some source := by
      rw [← Nat.add_zero k, ← List.getElem?_drop, h]
      rfl
    have hrest : sources.drop (k + 1) = rest.map (·.2) ++ later := by
      rw [← List.tail_drop, h]
      rfl
    have hrun := on_runAll hs steps (Source.marks_of_mem_lines hsource) .null
    exact ih hrun.1 hrest

/-- Whatever sources a session has run before: when a source fails, the failing expression was read
from one of them or from itself, on a line on which a token starts. The report has the number of
that line, but the text that it shows is what the source that was run has on the line of that
number. So it is the text of the failing line if the expression was read from the source that was
run. -/
theorem failure_origin {console : Console} {limit : Nat} {earlier : List (Nat × Source)}
    {steps : Nat} {source : Source} {report : Report}
    (h : (((Session.new console limit).runSources earlier).runSourceWithin steps source).1 =
      .failed report) :
    ∃ o origin, origin? console limit earlier steps source = some o ∧
      (earlier.map (·.2) ++ [source])[o.source]? = some origin ∧
      Token.StartsOn origin.text o.line ∧
      report.line = some o.line ∧ report.sourceLine = source.line? o.line ∧
      (o.source = earlier.length → report.sourceLine = origin.line? o.line) := by
  let sources := earlier.map (·.2) ++ [source]
  have hlength : sources.length = earlier.length + 1 := by simp [sources]
  have hlast : sources[earlier.length]? = some source := by simp [sources]
  cases hprogram : Program.ofSource source with
  | error r =>
    obtain ⟨fault, hstarts, rfl⟩ := Program.fault_ofSource hprogram
    rw [runSourceWithin_of_error hprogram] at h
    rw [← Outcome.failed.inj h, origin?, hprogram]
    exact ⟨⟨earlier.length, fault.line⟩, source, rfl, hlast, hstarts, rfl, rfl, fun _ => rfl⟩
  | ok program =>
    -- In a run with marks each line tells its source as well; without the marks it is the run itself.
    let t := (Session.new console limit).runMarked sources.length 0 earlier
    have ht : t.mapLines (Origin.unmark sources.length) =
        (Session.new console limit).runSources earlier := by
      have hroom : 0 + earlier.length ≤ sources.length := by omega
      have hunmark := runMarked_unmark (s := Session.new console limit) earlier hroom
      rwa [mapLines_new] at hunmark
    have hmarks : t.store.Obeys (.on (Origin.Marks sources)) :=
      on_runMarked earlier (obeys_new console limit _) rfl
    have hrun := on_runAll hmarks steps (Source.marks_of_mem_lines hlast) .null
    have hnumber : earlier.length < sources.length := by omega
    rw [runSourceWithin_of_ok hprogram, ← ht, runProgram_unmark hprogram hnumber] at h
    obtain ⟨f, hf, rfl⟩ := Outcome.mapError_eq_failed h
    obtain ⟨g, hg, rfl⟩ := Outcome.eq_failed_of_mapLines hf
    obtain ⟨origin, horigin, hstarts⟩ := hrun.2 g hg
    refine ⟨Origin.ofMark sources.length g.line, origin, ?_, horigin, hstarts, rfl, rfl, ?_⟩
    · simp only [origin?, hprogram, ← hlength]
      exact congrArg (fun o => o.error?.map fun f => Origin.ofMark sources.length f.line) hg
    · intro hcurrent
      rw [hcurrent, hlast] at horigin
      obtain rfl := Option.some.inj horigin
      rfl

def dividing : Source :=
  .ofText "set f (lambda x\n(/ x 0))"

def calling : Source :=
  .ofText "(f 1)\nprint 2"

/-- The body of a function fails that an earlier source made: the report has the number of its line,
and with it the text that the calling source has on that line. -/
theorem shows_line_of_caller :
    (((new (.scripted []) 10).runSources [(20, dividing)]).runSourceWithin 20 calling).1.error? =
        some ⟨500, "'/' by zero", some 2, some "print 2"⟩ ∧
      origin? (.scripted []) 10 [(20, dividing)] 20 calling = some ⟨0, 2⟩ ∧
      dividing.line? 2 = some "(/ x 0))" := by
  decide +kernel

theorem failure_origin_calling :
    let report : Report := ⟨500, "'/' by zero", some 2, some "print 2"⟩
    (((new (.scripted []) 10).runSources [(20, dividing)]).runSourceWithin 20 calling).1 =
        .failed report ∧
      ∃ o origin, origin? (.scripted []) 10 [(20, dividing)] 20 calling = some o ∧
        [dividing, calling][o.source]? = some origin ∧ Token.StartsOn origin.text o.line ∧
        report.line = some o.line ∧ report.sourceLine = calling.line? o.line ∧
        (o.source = 1 → report.sourceLine = origin.line? o.line) :=
  let s := (new (.scripted []) 10).runSources [(20, dividing)]
  have herror : (s.runSourceWithin 20 calling).1.error? =
      some ⟨500, "'/' by zero", some 2, some "print 2"⟩ := by decide +kernel
  have hfailed := Outcome.error?_eq_some_iff.1 herror
  ⟨hfailed, failure_origin hfailed⟩

end Session

end PrefixScript
