import PrefixScript.Fault
import PrefixScript.Number.Order
import PrefixScript.Number.Whole

namespace PrefixScript.Builtin

def finite (op : Builtin) (x : Float) : Except Cause Value :=
  if x.isFinite then .ok (.number x) else .error (.notFinite op)

def truth (b : Bool) : Value :=
  .number (if b then 1 else 0)

def calculate (op : Builtin) (x y : Float) : Except Cause Value :=
  match op with
  | add => op.finite (x + y)
  | sub => op.finite (x - y)
  | mul => op.finite (x * y)
  | div => if y == 0 then .error (.divisionByZero op) else op.finite (x / y)
  | mod => if y == 0 then .error (.divisionByZero op) else op.finite (Number.remainder x y)
  | lessEq => .ok (truth (x ≤ y))
  | greaterEq => .ok (truth (y ≤ x))
  | less => .ok (truth (x < y))
  | greater => .ok (truth (y < x))
  | _ => .ok (truth (x == y))

def collect (values : List Value) : Except Cause Value :=
  go #[] values
where
  go (xs : Array Float) : List Value → Except Cause Value
    | [] => .ok (.list xs)
    | .number x :: rest => go (xs.push x) rest
    | v :: _ => .error (.itemKind (xs.size + 1) v.kind)

def appendable : Value → Except Cause Float
  | .number x => .ok x
  | .text s =>
    match Number.ofText? s with
    | some x => .ok x
    | none => .error (.appendedText s)
  | v => .error (.appendedKind v.kind)

def outside (index : Float) (length : Nat) : Bool :=
  Number.fraction index != 0 || index < 0 || length.toUInt64.toFloat ≤ index

def item (xs : Array Float) : Value → Except Cause Value
  | .number index =>
    let fault := .outOfBounds (Value.numbers.write index) xs.size
    if outside index xs.size then .error fault
    else
      match xs[index.toUInt64.toNat]? with
      | some x => .ok (.number x)
      | none => .error fault
  | v => .error (.indexKind v.kind)

def items (op : Builtin) : Value → Except Cause (Array Float)
  | .list xs => .ok xs
  | v => .error (.listExpected op v.kind)

/-- What a builtin makes of as many operands as it takes. The length of a list is a word of 64 bits
before it is a number. -/
def perform (op : Builtin) (args : List Value) : Except Cause Value :=
  match op, args with
  | concat, _ => .ok (.text (String.join (args.map Value.shown)))
  | list, _ => collect args
  | sort, [v] => do return .list (Number.sort (← op.items v).toList).toArray
  | length, [v] => do return .number (← op.items v).size.toUInt64.toFloat
  | type, [v] => .ok (.text v.kind.name)
  | append, [v, w] => do
    let xs ← op.items v
    return .list (xs.push (← appendable w))
  | get, [v, w] => do item (← op.items v) w
  | _, [.number x, .number y] => op.calculate x y
  | _, [v, w] => .error (.operandKinds op v.kind w.kind)
  | _, _ => .error (.wrongCount op.name op.arity args.length)

def apply (op : Builtin) (args : List Value) : Except Cause Value :=
  if op.arity.admits args.length then op.perform args
  else .error (.wrongCount op.name op.arity args.length)

end PrefixScript.Builtin
