import PrefixScript.Proofs.Faults

namespace PrefixScript

namespace Source

theorem annotate_of_line (s : Source) {r : Report} {l : Nat} (hline : r.line = some l)
    (hnone : r.sourceLine = none) : s.annotate r = { r with sourceLine := s.line? l } := by
  rw [annotate, hnone, hline]
  rfl

end Source

/-- Whether a report shows a line of a text: the text has such a line, which is neither blank nor a
comment, a token starts on it, and the report holds all of it but the carriage returns at its
end. -/
structure Report.Shows (r : Report) (text : String) (number : Nat) (line : List Char) : Prop where
  reported : r.line = some number
  pos : 1 ≤ number
  le : number ≤ Text.newlines text.toList + 1
  piece : (Text.pieces text.toList)[number - 1]? = some line
  visible : ∃ c ∈ line, Text.isBlank c = false
  comment : Text.isComment line = false
  token : Token.StartsOn text number
  sourceLine : r.sourceLine = some (String.ofList (line.rdropWhile (· = '\r')))

theorem Report.shows_annotate {source : Source}
    (hcount : Text.newlines source.text.toList < UInt32.size - 1) {r : Report} {l : Nat}
    (hline : r.line = some l) (hnone : r.sourceLine = none) (h : Token.StartsOn source.text l) :
    ∃ line, (source.annotate r).Shows source.text l line := by
  obtain ⟨hpos, hle⟩ := h.bounds hcount
  obtain ⟨t, ht, rfl⟩ := h
  obtain ⟨n, p, hn, hp, hcomment, hvisible, -⟩ := Token.exists_piece hcount ht
  have hindex : t.line - 1 = n := by omega
  rw [source.annotate_of_line hline hnone]
  refine ⟨p, hline, hpos, hle, by rwa [hindex], hvisible, hcomment, ⟨t, ht, rfl⟩, ?_⟩
  rw [hn, Source.line?_succ, hp, Option.map_some, Text.trimReturns_eq_rdropWhile]

namespace Session

theorem bindings_new (console : Console) (limit : Nat) (i : ScopeId) :
    (Session.new console limit).store.bindings i = [] :=
  (Store.bindings_newScope Store.empty none i).trans rfl

theorem obeys_new (console : Console) (limit : Nat) (L : Nat → Prop) :
    (Session.new console limit).store.Obeys (.on L) where
  bound {i _ _} _ hv := by
    rw [bindings_new] at hv
    contradiction
  outward _ _ := trivial
  fresh _ := trivial

/-- Every report of a text whose lines can be counted, be it that the text is no program or that the
program fails in a new session, shows a line of the text on which a token starts. -/
theorem failure_shows_line {text : String} (hcount : Text.newlines text.toList < UInt32.size - 1) :
    (∀ report, Program.ofSource (.ofText text) = .error report →
        ∃ number line, report.Shows text number line) ∧
      ∀ console limit steps report,
        ((Session.new console limit).runSourceWithin steps (.ofText text)).1 = .failed report →
        ∃ number line, report.Shows text number line := by
  have hsource : Text.newlines (Source.ofText text).text.toList < UInt32.size - 1 := hcount
  have hread : ∀ report, Program.ofSource (.ofText text) = .error report →
      ∃ number line, report.Shows text number line := by
    intro report h
    obtain ⟨fault, hstarts, rfl⟩ := Program.fault_ofSource h
    exact ⟨fault.line, Report.shows_annotate hsource rfl rfl hstarts⟩
  refine ⟨hread, fun console limit steps report h => ?_⟩
  cases hprogram : Program.ofSource (.ofText text) with
  | error r =>
    rw [runSourceWithin_of_error hprogram] at h
    exact hread report (Outcome.failed.inj h ▸ hprogram)
  | ok program =>
    rw [runSourceWithin_of_ok hprogram, Prod.map_fst] at h
    obtain ⟨f, hf, hreport⟩ := Outcome.mapError_eq_failed h
    have hlines := Program.lines_ofSource hprogram
    have hrun := on_runAll (obeys_new console limit _) steps hlines .null
    rw [← hreport]
    exact ⟨f.line, Report.shows_annotate hsource rfl rfl (hrun.2 f hf)⟩

def dividingByZero : String :=
  "# a\nset x 1\r\n(/ x 0)\r"

theorem failure_shows_line_division :
    let s := Session.new (.scripted []) 10
    Text.newlines dividingByZero.toList < UInt32.size - 1 ∧
      ∃ report number line, (s.runSourceWithin 20 (.ofText dividingByZero)).1 = .failed report ∧
        report.Shows dividingByZero number line := by
  intro s
  have hcount : Text.newlines dividingByZero.toList < UInt32.size - 1 := by decide +kernel
  have herror : (s.runSourceWithin 20 (.ofText dividingByZero)).1.error? =
      some ⟨500, "'/' by zero", some 3, some "(/ x 0)"⟩ := by
    decide +kernel
  have hfailed := Outcome.error?_eq_some_iff.1 herror
  obtain ⟨number, line, hshows⟩ := (failure_shows_line hcount).2 _ _ _ _ hfailed
  exact ⟨hcount, _, number, line, hfailed, hshows⟩

end Session

end PrefixScript
