import PrefixScript.Number.Binary

namespace PrefixScript.Number

def nan : Float := 0.0 / 0.0

/-- What `x` has behind the point, with the sign of `x`. Infinities and NaN have nothing that is a
number there. -/
def fraction (x : Float) : Float :=
  match Binary.ofFloat? x with
  | some b =>
    let (n, d) := b.ratio
    (Binary.nearest? (b.negative && n % d ≠ 0) (n % d) d).getD nan
  | none => nan

/-- `x - y * k` for the whole number `k` nearest to `x / y` on the side of zero. The result is
exact; a zero keeps the sign of `x`. -/
def remainder (x y : Float) : Float :=
  match Binary.ofFloat? x, Binary.ofFloat? y with
  | some a, some b =>
    let (n, d) := a.ratio
    let (m, e) := b.ratio
    if m = 0 then nan else (Binary.nearest? a.negative (n * e % (m * d)) (d * e)).getD nan
  | some _, none => if y.isNaN then nan else x
  | none, _ => nan

end PrefixScript.Number
