import PrefixScript.Files
import PrefixScript.Session

/-!
# The command line

Programs are run or checked by name; the lines of the standard input answer requests for input.
Arguments are read from the left into a `Request`. Carrying it out is a function from the bytes of
the file and of the standard input to what is printed and the exit code.
-/

namespace PrefixScript.CommandLine

def programName : String := "pretzl"

def version : String := "0.1.1"

inductive Command where
  | run
  | check
  deriving DecidableEq, Repr

def Command.ofName? : String → Option Command
  | "run" => some run
  | "check" => some check
  | _ => none

structure Invocation where
  command : Command
  file : String
  limit : Nat
  json : Bool
  deriving DecidableEq, Repr

inductive Request where
  | perform (i : Invocation)
  | showVersion
  | showHelp
  | rejected
  deriving DecidableEq, Repr

structure Options where
  json : Bool
  jsonHere : Bool
  command : Option Command
  file : Option String
  limit : Option Nat
  literal : Bool
  deriving DecidableEq, Repr

namespace Options

def none : Options :=
  ⟨false, false, .none, .none, .none, false⟩

def limit? (text : String) : Option Nat :=
  let digits := match text.toList with
    | '+' :: rest => rest
    | cs => cs
  if !digits.isEmpty && digits.all Char.isDigit && Number.ofDigits digits < UInt64.size then
    some (Number.ofDigits digits)
  else
    .none

def setLimit (o : Options) (text : String) : Option Options :=
  match o.command, o.limit, limit? text with
  | some .run, .none, some n => some { o with limit := some n }
  | _, _, _ => .none

def setJson (o : Options) : Option Options :=
  if o.jsonHere then .none else some { o with json := true, jsonHere := true }

def setPositional (o : Options) (arg : String) : Option Options :=
  match o.command, o.file with
  | .none, _ =>
    if o.literal then .none
    else
      (Command.ofName? arg).map fun command =>
        { o with command := some command, jsonHere := false }
  | some _, .none => if arg = "" then .none else some { o with file := some arg }
  | some _, some _ => .none

def finish (o : Options) : Request :=
  match o.command, o.file with
  | some command, some file => .perform ⟨command, file, o.limit.getD defaultLimit, o.json⟩
  | _, _ => .rejected

def asksForHelp : List String → Bool
  | [] => true
  | [topic] => topic ∈ ["run", "check", "help"]
  | _ => false

/-- Whether short options begin with `flag`. The first of them already ends the reading, so that
what is bundled with it does not matter. -/
def leadsWith (flag : Char) (arg : String) : Bool :=
  ['-', flag].isPrefixOf arg.toList

def limitText? (arg : String) : Option String :=
  let option := "--max-depth=".toList
  if option.isPrefixOf arg.toList then some (String.ofList (arg.toList.drop option.length))
  else .none

def read (o : Options) : List String → Request
  | [] => o.finish
  | arg :: rest =>
    let optional := !o.literal && arg.toList.head? = some '-' && arg ≠ "-"
    if !optional then
      if arg = "help" && o.command.isNone && !o.literal then
        if asksForHelp rest then .showHelp else .rejected
      else
        match o.setPositional arg with
        | some o => o.read rest
        | .none => .rejected
    else if arg = "--" then { o with literal := true }.read rest
    else if arg = "--json" then
      match o.setJson with
      | some o => o.read rest
      | .none => .rejected
    else if arg = "--max-depth" then
      match rest with
      | text :: rest =>
        match o.setLimit text with
        | some o => o.read rest
        | .none => .rejected
      | [] => .rejected
    else if arg = "--help" || leadsWith 'h' arg then .showHelp
    else if (arg = "--version" || leadsWith 'V' arg) && o.command.isNone then .showVersion
    else
      match (limitText? arg).bind o.setLimit with
      | some o => o.read rest
      | .none => .rejected

end Options

def Request.ofArgs (args : List String) : Request :=
  Options.none.read args

structure Result where
  exit : Nat
  stdout : String
  stderr : String
  deriving DecidableEq, Repr

def usage : String :=
  "Usage: " ++ programName ++ " run FILE [--max-depth N] [--json]\n" ++
    "       " ++ programName ++ " check FILE [--json]\n" ++
    "       " ++ programName ++ " --version\n"

def padLeft (width : Nat) (s : String) : String :=
  String.ofList (List.replicate (width - s.length) ' ') ++ s

def render (name : String) (r : Report) : String :=
  name ++ ": " ++ r.text ++ "\n" ++
    match r.line, r.sourceLine with
    | some n, some text => padLeft 5 (Nat.repr n) ++ " | " ++ text ++ "\n"
    | _, _ => ""

namespace Invocation

def complaint (i : Invocation) (r : Report) : String :=
  if i.json then r.toJson.write ++ "\n" else render i.file r

def source (i : Invocation) (read : String → Except FileFault ByteArray) : Except Report Source :=
  match read i.file >>= Source.ofBytes with
  | .ok source => .ok source
  | .error fault => .error fault.report

def confirmation (i : Invocation) (program : List Expr) : String :=
  let count := program.length
  if i.json then
    (Json.object [("expressions", .nat count), ("success", .bool true)]).write ++ "\n"
  else
    i.file ++ ": ok (" ++ Nat.repr count ++ " expressions)\n"

def conclude (i : Invocation) (stdout : String) : Option Report → Result
  | none => ⟨0, stdout, ""⟩
  | some r => ⟨1, stdout, i.complaint r⟩

end Invocation

def response (line : List UInt8) : Response :=
  match String.fromUTF8? ⟨line.toArray⟩ with
  | some s => .text s
  | none => .failure notTextMessage

def dropReturn (line : List UInt8) : List UInt8 :=
  if line.getLast? = some 13 then line.dropLast else line

/-- The lines of the standard input: each loses its newline and a carriage return before it; what
stands behind the last newline is a line if it is not empty. -/
def responses (stdin : List UInt8) : List Response :=
  let lines := Text.cutAt 10 stdin
  let unended := lines.getLast?.getD []
  lines.dropLast.map (fun line => response (dropReturn line)) ++
    if unended = [] then [] else [response unended]

def console (responses : List Response) : Console :=
  ⟨responses, "end of input", []⟩

def runWithin (steps : Nat) (i : Invocation) (source : Source) (stdin : List UInt8) :
    Option Result :=
  let (outcome, s) :=
    (Session.new (console (responses stdin)) i.limit).runSourceWithin steps source
  let stdout := String.join s.console.output
  match outcome with
  | .value _ => some (i.conclude stdout none)
  | .failed r => some (i.conclude stdout (some r))
  | .unfinished => none

def check (i : Invocation) (source : Source) : Result :=
  match Program.ofSource source with
  | .ok program => i.conclude (i.confirmation program) none
  | .error r => i.conclude "" (some r)

def callWithin (steps : Nat) (args : List String) (read : String → Except FileFault ByteArray)
    (stdin : List UInt8) : Option Result :=
  match Request.ofArgs args with
  | .showVersion => some ⟨0, programName ++ " " ++ version ++ "\n", ""⟩
  | .showHelp => some ⟨0, usage, ""⟩
  | .rejected => some ⟨2, "", usage⟩
  | .perform i =>
    match i.source read with
    | .error r => some (i.conclude "" (some r))
    | .ok source =>
      match i.command with
      | .run => runWithin steps i source stdin
      | .check => some (check i source)

def call (args : List String) (read : String → Except FileFault ByteArray) (stdin : List UInt8) :
    Option Result :=
  callWithin patience args read stdin

end PrefixScript.CommandLine
