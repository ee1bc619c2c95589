namespace PrefixScript

inductive Response where
  | text (s : String)
  | failure (why : String)
  deriving DecidableEq, Repr

inductive Event where
  | read (s : String)
  | readFailed
  | readEnded
  | printed (s : String)
  deriving DecidableEq, Repr

structure Console where
  upcoming : List Response
  ended : String
  events : List Event
  deriving DecidableEq, Repr

namespace Console

def scripted (inputs : List String) : Console :=
  ⟨inputs.map .text, "no more scripted input", []⟩

def read (c : Console) : Except String String × Console :=
  match c with
  | ⟨.text s :: upcoming, ended, events⟩ => (.ok s, ⟨upcoming, ended, .read s :: events⟩)
  | ⟨.failure why :: upcoming, ended, events⟩ =>
    (.error why, ⟨upcoming, ended, .readFailed :: events⟩)
  | ⟨[], ended, events⟩ => (.error ended, ⟨[], ended, .readEnded :: events⟩)

def print (c : Console) (s : String) : Console :=
  { c with events := .printed s :: c.events }

def Event.printed? : Event → Option String
  | .printed s => some s
  | _ => none

def Event.read? : Event → Option String
  | .read s => some s
  | _ => none

def log (c : Console) : List Event :=
  c.events.reverse

def output (c : Console) : List String :=
  c.log.filterMap Event.printed?

def served (c : Console) : Nat :=
  (c.log.filterMap Event.read?).length

end Console

end PrefixScript
