import PrefixScript.Report
import PrefixScript.Text.Lines

namespace PrefixScript

structure Source where
  text : String
  starts : Array Nat
  starts_eq : starts = Text.lineStarts text.toList

namespace Source

def ofText (text : String) : Source :=
  ⟨text, Text.lineStarts text.toList, rfl⟩

/-- The offsets between which a line stands, counted from zero: it ends in front of the newline
before the next line, and the last one with the text. -/
def bounds? (s : Source) (n : Nat) : Option (Nat × Nat) := do
  let start ← s.starts[n]?
  let stop := match s.starts[n + 1]? with
    | some next => next - 1
    | none => s.text.utf8ByteSize
  some (start, stop)

def line? (s : Source) : Nat → Option String
  | 0 => none
  | n + 1 => do
    let (start, stop) ← s.bounds? n
    let line ← Text.slice? s.text start stop
    some (String.ofList (Text.trimReturns line.toList))

def annotate (s : Source) (r : Report) : Report :=
  match r.sourceLine with
  | some _ => r
  | none => { r with sourceLine := r.line.bind s.line? }

end Source

end PrefixScript
