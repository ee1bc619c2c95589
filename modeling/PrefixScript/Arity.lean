namespace PrefixScript

inductive Arity where
  | exactly (n : Nat)
  | atLeast (n : Nat)
  deriving DecidableEq, Repr

namespace Arity

def admits (n : Nat) : Arity → Bool
  | exactly m => m = n
  | atLeast m => m ≤ n

def fixed? : Arity → Option Nat
  | exactly n => some n
  | atLeast _ => none

def text : Arity → String
  | exactly n => Nat.repr n
  | atLeast n => "at least " ++ Nat.repr n

end Arity

end PrefixScript
