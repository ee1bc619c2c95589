import PrefixScript.Proofs.Reading

namespace PrefixScript

namespace Expr

theorem induction {motive : Expr → Prop} (atom : ∀ a, motive (.atom a))
    (list : ∀ items line, (∀ e ∈ items, motive e) → motive (.list items line)) (e : Expr) :
    motive e :=
  go e
where
  go : (e : Expr) → motive e
    | .atom a => atom a
    | .list items line => list items line (goAll items)
  goAll : (items : List Expr) → ∀ e ∈ items, motive e
    | [] => by simp
    | e :: es => List.forall_mem_cons.2 ⟨go e, goAll es⟩

section Fold

variable {β : Type} (atom : Atom → β) (list : List β → Nat → β)

mutual

def fold : Expr → β
  | .atom a => atom a
  | .list items line => list (foldAll items) line

def foldAll : List Expr → List β
  | [] => []
  | e :: es => fold e :: foldAll es

end

theorem foldAll_eq_map (items : List Expr) : foldAll atom list items = items.map (fold atom list) := by
  induction items with
  | nil => rfl
  | cons e es ih => rw [foldAll, ih, List.map_cons]

theorem fold_list (items : List Expr) (line : Nat) :
    fold atom list (.list items line) = list (items.map (fold atom list)) line := by
  rw [fold, foldAll_eq_map]

end Fold

def words : Expr → List Word :=
  fold (fun a => [a.word]) fun parts _ => parts.flatten

def explicit : Expr → List Word :=
  fold (fun a => [a.word]) fun parts _ => .symbol "(" :: (parts.flatten ++ [.symbol ")"])

def nesting : Expr → Nat :=
  fold (fun _ => 0) fun parts _ => parts.foldr max 0 + 1

def unlined : Expr → Expr :=
  fold (fun a => .atom ⟨a.word, 0⟩) fun parts _ => .list parts 0

@[simp] theorem words_atom (a : Atom) : words (.atom a) = [a.word] := rfl

@[simp] theorem words_list (items : List Expr) (line : Nat) :
    words (.list items line) = items.flatMap words := by
  rw [words, fold_list, List.flatMap_def]

theorem sublist_words {e : Expr} {es : List Expr} (h : e ∈ es) :
    e.words.Sublist (es.flatMap words) := by
  rw [List.flatMap_def]
  exact List.sublist_flatten_of_mem (List.mem_map_of_mem h)

@[simp] theorem explicit_atom (a : Atom) : explicit (.atom a) = [a.word] := rfl

@[simp] theorem explicit_list (items : List Expr) (line : Nat) :
    explicit (.list items line) = .symbol "(" :: (items.flatMap explicit ++ [.symbol ")"]) := by
  rw [explicit, fold_list, List.flatMap_def]

@[simp] theorem unlined_atom (a : Atom) : unlined (.atom a) = .atom ⟨a.word, 0⟩ := rfl

@[simp] theorem unlined_list (items : List Expr) (line : Nat) :
    unlined (.list items line) = .list (items.map unlined) 0 :=
  fold_list ..

@[simp] theorem nesting_atom (a : Atom) : nesting (.atom a) = 0 := rfl

theorem nesting_list (items : List Expr) (line : Nat) :
    nesting (.list items line) = (items.map nesting).foldr max 0 + 1 :=
  fold_list ..

theorem nesting_list_le_iff {items : List Expr} {line n k : Nat} :
    n + nesting (.list items line) ≤ k ↔ n + 1 ≤ k ∧ ∀ e ∈ items, n + 1 + e.nesting ≤ k := by
  rw [nesting_list]
  induction items with
  | nil => simp
  | cons e es ih =>
    have hmax : ∀ x y, n + (max x y + 1) ≤ k ↔ n + 1 + x ≤ k ∧ n + (y + 1) ≤ k := by omega
    rw [List.forall_mem_cons, List.map_cons, List.foldr_cons, hmax, ih, and_left_comm]

theorem nesting_unlined (e : Expr) : e.unlined.nesting = e.nesting := by
  induction e using induction with
  | atom a => rfl
  | list items line ih =>
    rw [unlined_list, nesting_list, nesting_list, List.map_map]
    congr 2
    exact List.map_congr_left ih

theorem symbol?_unlined (e : Expr) : e.unlined.symbol? = e.symbol? := by
  cases e with
  | atom a => rfl
  | list items line =>
    rw [unlined_list]
    rfl

end Expr

/-- The words of some atoms without their brackets, and calls of `list` among them. -/
inductive Sourced : List Atom → List Word → Prop
  | nil : Sourced [] []
  | keep {a as ws} : ¬ a.IsBracket → Sourced as ws → Sourced (a :: as) (a.word :: ws)
  | drop {a as ws} : Sourced as ws → Sourced (a :: as) ws
  | insert {as ws} : Sourced as ws → Sourced as (.symbol "list" :: ws)

namespace Sourced

variable {as bs : List Atom} {ws vs : List Word}

theorem append (h : Sourced as ws) (h' : Sourced bs vs) : Sourced (as ++ bs) (ws ++ vs) := by
  induction h with
  | nil => exact h'
  | keep ha _ ih => exact .keep ha ih
  | drop _ ih => exact .drop ih
  | insert _ ih => exact .insert ih

theorem mem (h : Sourced as ws) {w : Word} (hw : w ∈ ws) :
    w = .symbol "list" ∨ ∃ a ∈ as, ¬ a.IsBracket ∧ a.word = w := by
  induction h with
  | nil => contradiction
  | @keep a as ws ha _ ih =>
    rcases List.mem_cons.1 hw with rfl | hw
    · exact .inr ⟨a, List.mem_cons_self, ha, rfl⟩
    · exact (ih hw).imp_right fun ⟨b, hb, h⟩ => ⟨b, List.mem_cons_of_mem _ hb, h⟩
  | drop _ ih => exact (ih hw).imp_right fun ⟨b, hb, h⟩ => ⟨b, List.mem_cons_of_mem _ hb, h⟩
  | insert _ ih =>
    rcases List.mem_cons.1 hw with rfl | hw
    · exact .inl rfl
    · exact ih hw

theorem pairwise {R : Word → Word → Prop} (hleft : ∀ w, R (.symbol "list") w)
    (hright : ∀ w, R w (.symbol "list")) (h : Sourced as ws)
    (hp : (as.map Atom.word).Pairwise R) : ws.Pairwise R := by
  induction h with
  | nil => exact .nil
  | @keep a as ws ha h ih =>
    rw [List.map_cons, List.pairwise_cons] at hp
    refine .cons (fun w hw => ?_) (ih hp.2)
    rcases h.mem hw with rfl | ⟨b, hb, -, rfl⟩
    · exact hright _
    · exact hp.1 _ (List.mem_map_of_mem hb)
  | drop _ ih =>
    rw [List.map_cons, List.pairwise_cons] at hp
    exact ih hp.2
  | insert _ ih => exact .cons (fun w _ => hleft w) (ih hp)

end Sourced

theorem Inner.sourced {as : List Atom} {es : List Expr} (h : Inner as es) :
    Sourced as (es.flatMap Expr.words) := by
  induction h with
  | nil => exact .nil
  | leaf ha _ ih => exact .keep ha ih
  | @brackets b m n as es bs fs _ _ ihin ih =>
    have hlist : Sourced (b.opening m :: as) (b.enclose es m).words := by
      cases b with
      | round => simpa [Bracket.enclose] using Sourced.drop ihin
      | square => simpa [Bracket.enclose, Expr.symbol] using Sourced.drop ihin.insert
    rw [List.flatMap_cons]
    exact hlist.append (.drop ih)

theorem Derives.sourced {as : List Atom} {es : List Expr} (h : Derives as es) :
    Sourced as (es.flatMap Expr.words) := by
  induction h with
  | nil => exact .nil
  | @statement name line as es bs fs harity hin _ ih =>
    have hleaf := Reader.not_isBracket_of_mem harity line
    have hcall := Sourced.keep hleaf hin.sourced
    simpa [Expr.symbol] using hcall.append ih
  | inner hin _ _ ih =>
    rw [List.flatMap_cons]
    exact Sourced.append (by simpa using hin.sourced) ih

theorem Derives.plain {as : List Atom} {es : List Expr} (h : Derives as es) :
    ∀ e ∈ es, e.Plain := by
  induction h with
  | nil => simp
  | statement _ _ _ ih => exact List.forall_mem_cons.2 ⟨by simp [Expr.Plain, Expr.symbol?], ih⟩
  | inner _ hplain _ ih => exact List.forall_mem_cons.2 ⟨hplain, ih⟩

theorem Inner.derives {as : List Atom} {es : List Expr} (h : Inner as es)
    (hplain : ∀ e ∈ es, e.Plain) : Derives as es := by
  induction h with
  | nil => exact .nil
  | leaf ha _ ih =>
    rw [List.forall_mem_cons] at hplain
    exact .inner (.leaf ha .nil) hplain.1 (ih hplain.2)
  | brackets hin _ _ ih =>
    rw [List.forall_mem_cons] at hplain
    simpa using Derives.inner (.brackets hin .nil) hplain.1 (ih hplain.2)

theorem Reader.Room.cons {n m : Nat} {a : Atom} {as : List Atom} (hn : n ≤ maxNesting)
    (h : Room m as) (ha : [a].countP Atom.opens + n = [a].countP Atom.closes + m) :
    Room n (a :: as) := by
  intro before hb
  rcases List.prefix_cons_iff.1 hb with rfl | ⟨before, rfl, hb'⟩
  · simpa using hn
  · have := h before hb'
    rw [← List.singleton_append, List.countP_append, List.countP_append]
    omega

theorem Reader.Room.append {n : Nat} {as bs : List Atom} (h : Room n as) (h' : Room n bs)
    (ha : as.countP Atom.opens = as.countP Atom.closes) : Room n (as ++ bs) := by
  intro before hb
  rcases List.prefix_or_prefix_of_prefix hb (List.prefix_append as bs) with hin | ⟨after, rfl⟩
  · exact h before hin
  · have := h' after ((List.prefix_append_right_inj as).1 hb)
    rw [List.countP_append, List.countP_append]
    omega

theorem Inner.room {as : List Atom} {es : List Expr} (h : Inner as es) {n : Nat}
    (hn : n ≤ maxNesting) (hdeep : ∀ e ∈ es, n + e.nesting ≤ maxNesting) : Reader.Room n as := by
  induction h generalizing n with
  | nil =>
    intro before hb
    simpa [List.prefix_nil.1 hb] using hn
  | leaf ha _ ih =>
    rw [List.forall_mem_cons] at hdeep
    exact .cons hn (ih hn hdeep.2) (by simp [Atom.opens_leaf ha, Atom.closes_leaf ha])
  | @brackets b m k as es bs fs hin _ ihin ih =>
    rw [List.forall_mem_cons] at hdeep
    obtain ⟨hlist, hdeep⟩ := hdeep
    have hitems : n + 1 ≤ maxNesting ∧ ∀ e ∈ es, n + 1 + e.nesting ≤ maxNesting := by
      cases b with
      | round => exact Expr.nesting_list_le_iff.1 hlist
      | square =>
        obtain ⟨hn', hes⟩ := Expr.nesting_list_le_iff.1 hlist
        exact ⟨hn', (List.forall_mem_cons.1 hes).2⟩
    have hinside := ihin hitems.1 hitems.2
    have hafter : Reader.Room (n + 1) (b.closing k :: bs) :=
      .cons hitems.1 (ih hn hdeep) (by simp; omega)
    exact .cons hn (hinside.append hafter hin.count_opens) (by simp; omega)

namespace Expr

/-- Atoms that say the words of the expression in explicit form are the expression on other lines. -/
def ReadsBack (e : Expr) : Prop :=
  ∀ as : List Atom, as.map Atom.word = e.explicit → ∃ e', Inner as [e'] ∧ e'.unlined = e.unlined

theorem exists_inner_of_readsBack {es : List Expr} (hes : ∀ e ∈ es, e.ReadsBack) {as : List Atom}
    (h : as.map Atom.word = es.flatMap explicit) :
    ∃ es', Inner as es' ∧ es'.map unlined = es.map unlined := by
  induction es generalizing as with
  | nil =>
    obtain rfl := List.map_eq_nil_iff.1 h
    exact ⟨[], .nil, rfl⟩
  | cons e es ih =>
    rw [List.forall_mem_cons] at hes
    rw [List.flatMap_cons, List.map_eq_append_iff] at h
    obtain ⟨as, bs, rfl, has, hbs⟩ := h
    obtain ⟨e', he, hunlined⟩ := hes.1 as has
    obtain ⟨es', hinner, hall⟩ := ih hes.2 hbs
    refine ⟨e' :: es', by simpa using he.append hinner, ?_⟩
    rw [List.map_cons, List.map_cons, hunlined, hall]

theorem readsBack {e : Expr} (h : ∀ w ∈ e.words, ∀ line, ¬ Atom.IsBracket ⟨w, line⟩) :
    e.ReadsBack := by
  induction e using induction with
  | atom a =>
    intro as has
    obtain ⟨a', rfl, ha'⟩ := List.map_eq_singleton_iff.1 has
    have hleaf : ¬ a'.IsBracket := by
      have := h a.word (by simp) a'.line
      rwa [← ha'] at this
    exact ⟨.atom a', .leaf hleaf .nil, by rw [unlined_atom, unlined_atom, ha']⟩
  | list items line ih =>
    intro as has
    rw [explicit_list, List.map_eq_cons_iff] at has
    obtain ⟨a, rest, rfl, ha, hrest⟩ := has
    obtain ⟨mid, last, rfl, hmid, hlast⟩ := List.map_eq_append_iff.1 hrest
    obtain ⟨b, rfl, hb⟩ := List.map_eq_singleton_iff.1 hlast
    obtain ⟨items', hinner, hall⟩ := exists_inner_of_readsBack
      (fun e he => ih e he fun w hw => h w (by simpa using ⟨e, he, hw⟩)) hmid
    obtain ⟨word, m⟩ := a
    obtain ⟨word', n⟩ := b
    obtain rfl : word = .symbol "(" := ha
    obtain rfl : word' = .symbol ")" := hb
    refine ⟨.list items' m, .brackets (b := .round) hinner .nil, ?_⟩
    rw [unlined_list, unlined_list, hall]

end Expr

end PrefixScript
