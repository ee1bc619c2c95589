import PrefixScript.Number.Binary

namespace PrefixScript.Number

/-- The place of a number with the bits `w` in the total order, which goes on from zero in both
directions as the magnitudes do. -/
def rank (w : UInt64) : Int :=
  if signBit ≤ w.toNat then (signBit : Int) - 1 - w.toNat else w.toNat

def precedes (v w : UInt64) : Bool :=
  rank v ≤ rank w

def sortBits (ws : List UInt64) : List UInt64 :=
  ws.mergeSort precedes

def sort (xs : List Float) : List Float :=
  (sortBits (xs.map Float.toBits)).map Float.ofBits

end PrefixScript.Number
