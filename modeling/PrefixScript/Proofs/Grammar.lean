import PrefixScript.Program

namespace PrefixScript

namespace Bracket

def opening (b : Bracket) (line : Nat) : Atom :=
  ⟨.symbol b.opener, line⟩

def closing (b : Bracket) (line : Nat) : Atom :=
  ⟨.symbol b.closer, line⟩

def enclose (b : Bracket) (items : List Expr) (line : Nat) : Expr :=
  match b with
  | round => .list items line
  | square => .list (.symbol "list" line :: items) line

end Bracket

namespace Atom

def IsBracket (a : Atom) : Prop :=
  a.symbol? ∈ [some "(", some "[", some ")", some "]"]

def opens (a : Atom) : Bool :=
  a.symbol? = some "(" || a.symbol? = some "["

def closes (a : Atom) : Bool :=
  a.symbol? = some ")" || a.symbol? = some "]"

end Atom

theorem statementArity?_eq_some_iff {name : String} {n : Nat} :
    statementArity? name = some n ↔ (name, n) ∈ statementArities := by
  constructor
  · intro h
    obtain ⟨before, after, hsplit, -⟩ := List.lookup_eq_some_iff.1 h
    rw [hsplit]
    exact List.mem_append_right _ List.mem_cons_self
  · have hfound : ∀ entry ∈ statementArities, statementArity? entry.1 = some entry.2 := by decide
    exact hfound (name, n)

def Expr.Plain (e : Expr) : Prop :=
  ∀ name ∈ e.symbol?, ∀ n, (name, n) ∉ statementArities

/-- The atoms are, one after the other, expressions inside of brackets or of a statement. -/
inductive Inner : List Atom → List Expr → Prop
  | nil : Inner [] []
  | leaf {a as es} : ¬ a.IsBracket → Inner as es → Inner (a :: as) (.atom a :: es)
  | brackets {b : Bracket} {m n : Nat} {as es bs fs} : Inner as es → Inner bs fs →
      Inner (b.opening m :: as ++ b.closing n :: bs) (b.enclose es m :: fs)

inductive Derives : List Atom → List Expr → Prop
  | nil : Derives [] []
  | statement {name line as es bs fs} : (name, es.length) ∈ statementArities → Inner as es →
      Derives bs fs →
      Derives (⟨.symbol name, line⟩ :: as ++ bs) (.list (.symbol name line :: es) line :: fs)
  | inner {as e bs fs} : Inner as [e] → e.Plain → Derives bs fs → Derives (as ++ bs) (e :: fs)

def Shallow (atoms : List Atom) : Prop :=
  ∀ before, before <+: atoms →
    before.countP Atom.opens ≤ before.countP Atom.closes + maxNesting

theorem Inner.append {as bs : List Atom} {es fs : List Expr} (h : Inner as es) (h' : Inner bs fs) :
    Inner (as ++ bs) (es ++ fs) := by
  induction h with
  | nil => exact h'
  | leaf ha _ ih => exact .leaf ha ih
  | brackets hin _ _ ih => simpa using Inner.brackets hin ih

theorem Derives.append {as bs : List Atom} {es fs : List Expr} (h : Derives as es)
    (h' : Derives bs fs) : Derives (as ++ bs) (es ++ fs) := by
  induction h with
  | nil => exact h'
  | statement ha hin _ ih => simpa using Derives.statement ha hin ih
  | inner hin hp _ ih => simpa using Derives.inner hin hp ih

end PrefixScript
