import PrefixScript.Text.Blank
import PrefixScript.Text.Lines

namespace PrefixScript

namespace Text

def isComment (line : List Char) : Bool :=
  (trimStart line).head? = some '#'

def withoutComments (cs : List Char) : List Char :=
  unlines ((pieces cs).map fun line => if isComment line then [] else line)

def isBracket (c : Char) : Bool :=
  c = '(' || c = ')' || c = '[' || c = ']'

def isRunChar (c : Char) : Bool :=
  !isBlank c && !isBracket c

/-- How many characters a quoted text has of which `n` are known, the opening quote among them: it
ends with the next quote, or where there are no more characters. -/
def passQuote (n : Nat) : List Char → Nat
  | [] => n
  | c :: cs => if c = '"' then n + 1 else passQuote (n + 1) cs

theorem le_passQuote (n : Nat) (cs : List Char) : n ≤ passQuote n cs := by
  induction cs generalizing n with
  | nil => exact Nat.le_refl n
  | cons c cs ih =>
    rw [passQuote]
    split
    · exact Nat.le_succ n
    · exact Nat.le_of_succ_le (ih (n + 1))

end Text

structure Token where
  text : String
  line : Nat
  deriving DecidableEq, Repr

/-- What is known about the next quote: nothing, that there is none, or where the last search found
one. The cursor only moves forward, so a search that failed need not be repeated. -/
inductive Sighting where
  | unsought
  | absent
  | at (offset : Nat)
  deriving DecidableEq, Repr

/-- A place in a text: the characters from there on, the number of bytes before it, and the line. The
counter of lines has 32 bits, and after the last number that fits it goes on with zero. -/
structure Cursor where
  ahead : List Char
  offset : Nat
  line : UInt32
  quote : Sighting

namespace Cursor

def start (cs : List Char) : Cursor :=
  ⟨cs, 0, 1, .unsought⟩

def advance (c : Cursor) (n : Nat) : Cursor :=
  { c with
    ahead := c.ahead.drop n
    offset := c.offset + Text.size (c.ahead.take n)
    line := c.line + UInt32.ofNat (Text.newlines (c.ahead.take n)) }

def seekQuote (c : Cursor) : Sighting :=
  match c.ahead.tail.findIdx? (· = '"') with
  | some n => .at (c.offset + 1 + Text.size (c.ahead.tail.take n))
  | none => .absent

def closingQuote (c : Cursor) : Sighting :=
  match c.quote with
  | .absent => .absent
  | .at offset => if c.offset < offset then .at offset else c.seekQuote
  | .unsought => c.seekQuote

def skipBlanks (c : Cursor) : Cursor :=
  c.advance (c.ahead.takeWhile Text.isBlank).length

def measure (c : Cursor) (first : Char) (rest : List Char) : Cursor × Nat :=
  let run := (rest.takeWhile Text.isRunChar).length
  if first = '"' then
    let c := { c with quote := c.closingQuote }
    match c.quote with
    | .at _ => (c, Text.passQuote 1 rest)
    | _ => (c, run + 1)
  else if Text.isBracket first then (c, 1)
  else (c, run + 1)

def next? (c : Cursor) : Option (Token × Cursor) :=
  let c := c.skipBlanks
  match c.ahead with
  | [] => none
  | first :: rest =>
    let m := c.measure first rest
    some (⟨String.ofList (c.ahead.take m.2), c.line.toNat⟩, m.1.advance m.2)

@[simp] theorem ahead_advance (c : Cursor) (n : Nat) :
    (c.advance n).ahead = c.ahead.drop n := rfl

theorem measure_ahead (c : Cursor) (first : Char) (rest : List Char) :
    (c.measure first rest).1.ahead = c.ahead := by
  grind [measure]

theorem measure_pos (c : Cursor) (first : Char) (rest : List Char) :
    0 < (c.measure first rest).2 := by
  grind [measure, Text.le_passQuote]

theorem length_ahead_lt_of_next? {c c' : Cursor} {t : Token} (h : c.next? = some (t, c')) :
    c'.ahead.length < c.ahead.length := by
  simp only [next?] at h
  split at h
  · contradiction
  · next first rest hrest =>
    have hpos := measure_pos c.skipBlanks first rest
    have hahead := measure_ahead c.skipBlanks first rest
    have hskip : c.skipBlanks.ahead.length ≤ c.ahead.length := by simp [skipBlanks]
    have hlen := congrArg List.length hrest
    obtain ⟨-, rfl⟩ := by simpa using h
    simp only [ahead_advance, List.length_drop, hahead]
    simp only [List.length_cons] at hlen
    omega

def tokens (c : Cursor) (found : List Token) : List Token :=
  match _h : c.next? with
  | none => found.reverse
  | some (t, c') => c'.tokens (t :: found)
termination_by c.ahead.length
decreasing_by exact length_ahead_lt_of_next? _h

end Cursor

def Token.ofText (text : String) : List Token :=
  (Cursor.start (Text.withoutComments text.toList)).tokens []

end PrefixScript
