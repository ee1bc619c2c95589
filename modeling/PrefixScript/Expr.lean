import PrefixScript.Atom
import PrefixScript.Json

namespace PrefixScript

inductive Expr where
  | atom (a : Atom)
  | list (items : List Expr) (line : Nat)

namespace Expr

def symbol (name : String) (line : Nat) : Expr :=
  .atom ⟨.symbol name, line⟩

def line : Expr → Nat
  | atom a => a.line
  | list _ line => line

def symbol? : Expr → Option String
  | atom a => a.symbol?
  | list _ _ => none

mutual

def writeTo (out : String) : Expr → String
  | atom a => out ++ a.word.shown
  | list [] _ => out ++ "()"
  | list (e :: es) _ => itemsTo (e.writeTo (out ++ "(")) es ++ ")"

def itemsTo (out : String) : List Expr → String
  | [] => out
  | e :: es => itemsTo (e.writeTo (out ++ " ")) es

end

def shown (e : Expr) : String :=
  e.writeTo ""

def node (name : String) (j : Json) : Json :=
  .object [(name, j)]

mutual

def toJson : Expr → Json
  | atom ⟨.text s, line⟩ => node "Atom" (node "String" (.array [.text s, .nat line]))
  | atom ⟨.number x, line⟩ => node "Atom" (node "Number" (.array [.number x, .nat line]))
  | atom ⟨.symbol s, line⟩ => node "Atom" (node "Symbol" (.array [.text s, .nat line]))
  | list items line => node "List" (.array [.array (listToJson items), .nat line])

def listToJson : List Expr → List Json
  | [] => []
  | e :: es => e.toJson :: listToJson es

end

mutual

def decEq : (d e : Expr) → Decidable (d = e)
  | atom a, atom b => decidable_of_iff (a = b) (by simp)
  | list ds m, list es n =>
    match decEqList ds es with
    | .isTrue h => decidable_of_iff (m = n) (by simp [h])
    | .isFalse h => .isFalse (by simp [h])
  | atom _, list _ _ => .isFalse (by simp)
  | list _ _, atom _ => .isFalse (by simp)

def decEqList : (ds es : List Expr) → Decidable (ds = es)
  | [], [] => .isTrue rfl
  | d :: ds, e :: es =>
    match decEq d e with
    | .isTrue h =>
      match decEqList ds es with
      | .isTrue hs => .isTrue (by simp [h, hs])
      | .isFalse hs => .isFalse (by simp [hs])
    | .isFalse h => .isFalse (by simp [h])
  | [], _ :: _ => .isFalse (by simp)
  | _ :: _, [] => .isFalse (by simp)

end

instance : DecidableEq Expr := decEq

end Expr

end PrefixScript
