import PrefixScript.CommandLine

namespace PrefixScript.CommandLine

def readFile (path : String) : IO (Except FileFault ByteArray) := do
  try
    return .ok (← IO.FS.readBinFile path)
  catch
    | .noFileOrDirectory .. => return .error .missing
    | .inappropriateType _ 21 _ => return .error .folder
    | .inappropriateType .. => return .error .notFolder
    | .invalidArgument _ _ "name too long" => return .error .nameTooLong
    | .permissionDenied .. => return .error (.other "Permission denied (os error 13)")
    | e => return .error (.other (toString e))

partial def readLine (stdin : IO.FS.Stream) (line : List UInt8) : IO (List UInt8) := do
  let bytes ← stdin.read 1
  match bytes.toList with
  | [] => return line.reverse
  | 10 :: _ => return (10 :: line).reverse
  | b :: _ => readLine stdin (b :: line)

partial def drive (stdin stdout : IO.FS.Stream) (m : Machine) : IO Machine := do
  if m.isDone then return m
  match m.control with
  | .read _ =>
    let line ← readLine stdin []
    drive stdin stdout { m with console := console (responses line) }.step
  | .print text =>
    stdout.putStr text
    stdout.flush
    drive stdin stdout m.step
  | _ => drive stdin stdout m.step

def driveAll (stdin stdout : IO.FS.Stream) (s : Session) : List Expr → IO (Option Fault)
  | [] => return none
  | e :: rest => do
    let start : Machine := ⟨s.store, s.console, s.depth, s.limit, .evaluate e s.globals, []⟩
    let m ← drive stdin stdout start
    match m.outcome with
    | .failed f => return some f
    | _ => driveAll stdin stdout { s with store := m.store, depth := m.depth } rest

def runSource (i : Invocation) (source : Source) : IO (Option Report) := do
  match Program.ofSource source with
  | .error r => return some r
  | .ok program =>
    let fault ← driveAll (← IO.getStdin) (← IO.getStdout) (.new (console []) i.limit) program
    return fault.map fun f => source.annotate f.report

def Result.report (r : Result) : IO UInt32 := do
  (← IO.getStdout).putStr r.stdout
  (← IO.getStderr).putStr r.stderr
  return UInt32.ofNat r.exit

end PrefixScript.CommandLine

open PrefixScript.CommandLine in
def main (args : List String) : IO UInt32 := do
  match Request.ofArgs args with
  | .perform i =>
    let bytes ← readFile i.file
    match i.command, i.source fun _ => bytes with
    | .run, .ok source => (i.conclude "" (← runSource i source)).report
    | .check, .ok source => (check i source).report
    | _, .error r => (i.conclude "" (some r)).report
  | _ =>
    match call args (fun _ => .error .missing) [] with
    | some r => r.report
    | none => return 1
