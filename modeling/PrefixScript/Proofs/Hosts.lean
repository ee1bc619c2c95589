import PrefixScript.Proofs.Causality
import PrefixScript.Proofs.Reasons
import PrefixScript.Proofs.StandardInput

namespace PrefixScript

theorem Console.scripted_withReason (inputs : List String) (why : String) :
    (scripted inputs).withReason why = ⟨inputs.map .text, why, []⟩ := by
  simp [withReason, scripted, Response.withReason]

theorem Session.new_withReason (console : Console) (limit : Nat) (why : String) :
    (new console limit).withReason why = new (console.withReason why) limit := rfl

namespace CommandLine

namespace Options

/-- Whether an argument is not read as an option. -/
structure IsPositional (arg : String) : Prop where
  ne_empty : arg ≠ ""
  of_dash : arg.toList.head? = some '-' → arg = "-"

theorem limit?_repr {n : Nat} (h : n < UInt64.size) : limit? (Nat.repr n) = some n := by
  have hdigits : ∀ c ∈ Nat.toDigits 10 n, c.isDigit = true :=
    fun c => Nat.isDigit_of_mem_toDigits (by decide) (by decide)
  have hvalue : Number.ofDigits (Nat.toDigits 10 n) = n := Nat.ofDigitChars_ten_toDigits
  have hempty : (Nat.toDigits 10 n).isEmpty = false :=
    List.isEmpty_eq_false_iff.2 Nat.toDigits_ne_nil
  rw [limit?, Nat.toList_repr]
  split
  · next rest hrest =>
    rw [hrest] at hdigits
    exact absurd (hdigits '+' List.mem_cons_self) (by decide)
  · simp [hempty, hvalue, h, List.all_eq_true.2 hdigits]

variable {o o' : Options} {rest : List String}

theorem read_positional {arg : String} (h : IsPositional arg) (hcommand : o.command ≠ .none)
    (hset : o.setPositional arg = some o') : o.read (arg :: rest) = o'.read rest := by
  have hoptional : (!o.literal && arg.toList.head? = some '-' && arg ≠ "-") = false := by
    by_cases hdash : arg.toList.head? = some '-'
    · simp [h.of_dash hdash]
    · simp [hdash]
  have hhelp : (arg = "help" && o.command.isNone && !o.literal) = false := by
    simp [Option.isNone_eq_false_iff.2 (Option.ne_none_iff_isSome.1 hcommand)]
  rw [read.eq_def]
  simp only [hoptional, hhelp, hset]
  rfl

theorem read_limit {text : String} (hliteral : o.literal = false)
    (hset : o.setLimit text = some o') :
    o.read ("--max-depth" :: text :: rest) = o'.read rest := by
  rw [read]
  simp [hliteral, hset]

theorem read_json (hliteral : o.literal = false) (hset : o.setJson = some o') :
    o.read ("--json" :: rest) = o'.read rest := by
  rw [read.eq_def]
  simp [hliteral, hset]

end Options

def runArgs (file : String) (limit : Nat) (json : Bool) : List String :=
  "run" :: file :: "--max-depth" :: Nat.repr limit :: if json then ["--json"] else []

theorem ofArgs_runArgs {file : String} {limit : Nat} (hfile : Options.IsPositional file)
    (hlimit : limit < UInt64.size) (json : Bool) :
    Request.ofArgs (runArgs file limit json) = .perform ⟨.run, file, limit, json⟩ := by
  have hcommand : Options.none.read (runArgs file limit json) =
      Options.read ⟨false, false, some .run, none, none, false⟩ _ := rfl
  have hpositional : Options.setPositional ⟨false, false, some .run, none, none, false⟩ file =
      some ⟨false, false, some .run, some file, none, false⟩ := if_neg hfile.ne_empty
  have hset : Options.setLimit ⟨false, false, some .run, some file, none, false⟩ (Nat.repr limit) =
      some ⟨false, false, some .run, some file, some limit, false⟩ := by
    rw [Options.setLimit, Options.limit?_repr hlimit]
  rw [Request.ofArgs, hcommand, Options.read_positional hfile (by simp) hpositional,
    Options.read_limit rfl hset]
  cases json with
  | false => rfl
  | true =>
    have hjson : Options.setJson ⟨false, false, some .run, some file, some limit, false⟩ =
        some ⟨true, true, some .run, some file, some limit, false⟩ := rfl
    rw [if_pos rfl, Options.read_json rfl hjson]
    rfl

theorem new_typed {inputs : List String} (h : ∀ s ∈ inputs, IsLine s) (limit : Nat) :
    Session.new (console (responses (typed inputs))) limit =
      (Session.new (.scripted inputs) limit).withReason "end of input" := by
  rw [responses_typed h, Session.new_withReason, Console.scripted_withReason]
  rfl

theorem runWithin_typed {inputs : List String} (h : ∀ s ∈ inputs, IsLine s) (steps : Nat)
    (i : Invocation) (source : String) :
    runWithin steps i (.ofText source) (typed inputs) =
      (Playground.runWithin steps source inputs i.limit).map fun r =>
        i.conclude (String.join r.output) (r.error.map (·.withReason "end of input")) := by
  rw [runWithin, new_typed h, Session.runSourceWithin_withReason, Playground.runWithin]
  obtain ⟨o, s⟩ :=
    (Session.new (.scripted inputs) i.limit).runSourceWithin steps (.ofText source)
  cases o <;> rfl

theorem Invocation.source_of_read {i : Invocation} {text : String}
    {read : String → Except FileFault ByteArray} (h : read i.file = .ok text.toUTF8) :
    i.source read = .ok (.ofText text) := by
  have hbytes : Source.ofBytes text.toUTF8 = .ok (.ofText text) := by
    rw [Source.ofBytes, Text.fromUTF8?_toUTF8]
  have hread : (read i.file >>= Source.ofBytes) = .ok (.ofText text) := by
    rw [h]
    exact hbytes
  rw [source, hread]

end CommandLine

namespace Playground

theorem message_of_input {steps limit : Nat} {source : String} {inputs : List String}
    {r : RunResult} (h : runWithin steps source inputs limit = some r) {report : Report}
    (hreport : r.error = some report) (hcode : report.code = 700) :
    report.message = "input provider failed: no more scripted input" := by
  obtain ⟨-, rfl⟩ := runWithin_eq_some_iff.1 h
  have hfailed := Outcome.error?_eq_some_iff.1 hreport
  have hsame : (Session.new (.scripted inputs) limit).withReason "no more scripted input" =
      Session.new (.scripted inputs) limit := by
    rw [Session.new_withReason, Console.scripted_withReason]
    rfl
  have hwork := Session.runSourceWithin_withReason "no more scripted input"
    (Session.new (.scripted inputs) limit) steps (.ofText source)
  rw [hsame] at hwork
  have hagain := congrArg Prod.fst hwork
  rw [Prod.map_fst, ← work, hfailed] at hagain
  have hreason : report = report.withReason "no more scripted input" := Outcome.failed.inj hagain
  rw [Report.withReason, if_pos hcode] at hreason
  exact congrArg Report.message hreason

end Playground

namespace CommandLine

/-- A file run by the command line prints what the playground collects, exits with 0 or 1 as the
playground tells success or failure, and reports what the playground reports, in other words where
the input has ended. -/
theorem callWithin_runArgs {file source : String} {inputs : List String} {limit : Nat}
    {read : String → Except FileFault ByteArray} (hfile : Options.IsPositional file)
    (hlimit : limit < UInt64.size) (hread : read file = .ok source.toUTF8)
    (hinputs : ∀ s ∈ inputs, IsLine s) (json : Bool) (steps : Nat) :
    callWithin steps (runArgs file limit json) read (typed inputs) =
        (Playground.runWithin steps source inputs limit).map (fun r =>
          { exit := if r.success then 0 else 1
            stdout := String.join r.output
            stderr := match r.error with
              | none => ""
              | some report =>
                Invocation.complaint ⟨.run, file, limit, json⟩
                  (report.withReason "end of input") }) ∧
      ∀ r report, Playground.runWithin steps source inputs limit = some r →
        r.error = some report → report.code = 700 →
        report.message = "input provider failed: no more scripted input" := by
  refine ⟨?_, fun r report hr => Playground.message_of_input hr⟩
  have hsource : Invocation.source ⟨.run, file, limit, json⟩ read = .ok (.ofText source) :=
    Invocation.source_of_read hread
  rw [callWithin, ofArgs_runArgs hfile hlimit]
  simp only [hsource, runWithin_typed hinputs]
  cases Playground.runWithin steps source inputs limit with
  | none => rfl
  | some r =>
    obtain ⟨output, consumed, error⟩ := r
    cases error <;> rfl

theorem callWithin_runArgs_reads_two :
    let source := "print input\nprint input"
    let ended : Report := ⟨700, "input provider failed: no more scripted input", some 2,
      some "print input"⟩
    Playground.runWithin 10 source ["a"] 10 = some ⟨["a"], 1, some ended⟩ ∧
      callWithin 10 (runArgs "twice" 10 false) (fun _ => .ok source.toUTF8) (typed ["a"]) =
        some ⟨1, "a", "twice: line 2: E700 [input] input provider failed: end of input\n" ++
          "    2 | print input\n"⟩ := by
  intro source ended
  have hended : Playground.runWithin 10 source ["a"] 10 = some ⟨["a"], 1, some ended⟩ := by
    decide +kernel
  have hfile : Options.IsPositional "twice" := ⟨by decide, by decide⟩
  have hline : ∀ s ∈ ["a"], IsLine s := by
    simp only [List.forall_mem_singleton]
    exact ⟨by decide, by decide⟩
  have hcall := (@callWithin_runArgs "twice" source ["a"] 10 (fun _ => .ok source.toUTF8) hfile
    (by decide) rfl hline false 10).1
  refine ⟨hended, hcall.trans ?_⟩
  rw [hended]
  decide +kernel

end CommandLine

end PrefixScript
